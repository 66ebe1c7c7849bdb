import SqlSelect.Proofs.Batches
import SqlSelect.Proofs.WellFormed

/-!
Numbers at their place. Conditions take a value next to a column or an expression, in a list, as the
length of a column or within a pattern, by themselves or as an entry of a mapping. Whole numbers are
accepted at each of these places whatever they are, if nothing else is wrong with the request. The
SQL is then the same before and after the number, which is written bare, or quoted together with the
wildcards of a pattern; so two numbers leave different SQL just if they are written differently.

        age in 18, [ ], 64     ──▶   ... WHERE (`age` IN (18,[ ],64)) ...
        code contains [ ]      ──▶   ... WHERE (`code` LIKE '%[ ]%') ...
-/

namespace SqlSelect

open Checked

/-! ### Texts around a part -/

/-- Texts that are the same but for a part in the midst of them. -/
def Surrounds {α : Type} (whole part : α → Text) : Prop :=
  ∃ before after : Text, ∀ a, whole a = before ++ part a ++ after

namespace Surrounds

variable {α β : Type} {whole part inside : α → Text}

theorem trans (h : Surrounds whole part) (hpart : Surrounds part inside) :
    Surrounds whole inside := by
  obtain ⟨before, after, hwhole⟩ := h
  obtain ⟨front, back, hpart⟩ := hpart
  refine ⟨before ++ front, back ++ after, fun a => ?_⟩
  rw [hwhole, hpart]
  simp only [List.append_assoc]

theorem comp (h : Surrounds whole part) (f : β → α) :
    Surrounds (fun b => whole (f b)) fun b => part (f b) := by
  obtain ⟨before, after, hwhole⟩ := h
  exact ⟨before, after, fun b => hwhole (f b)⟩

/-- Such texts are equal if their parts are. -/
theorem eq_iff (h : Surrounds whole part) {a b : α} : whole a = whole b ↔ part a = part b := by
  obtain ⟨before, after, hwhole⟩ := h
  rw [hwhole, hwhole, List.append_left_inj, List.append_right_inj]

/-- One of the items that are listed with a separator. -/
theorem intercalate (separator : Text) (front back : List Text) :
    Surrounds (fun item => List.intercalate separator (front ++ item :: back)) id := by
  induction front with
  | nil =>
    cases back with
    | nil => exact ⟨[], [], fun item => by simp⟩
    | cons next back =>
      refine ⟨[], separator ++ List.intercalate separator (next :: back), fun item => ?_⟩
      simp [List.intercalate_cons_cons]
  | cons first front ih =>
    refine Surrounds.trans ⟨first ++ separator, [], fun item => ?_⟩ ih
    obtain ⟨next, rest, hrest⟩ := List.exists_cons_of_ne_nil
      (List.append_ne_nil_of_right_ne_nil front (List.cons_ne_nil item back))
    dsimp only
    rw [List.cons_append, hrest, List.intercalate_cons_cons, List.append_nil]

end Surrounds

/-! ### Conditions around a value -/

namespace Predicate

variable (d : Dialect)

theorem surrounds_compare (subject : Subject) (operator : Operator) :
    Surrounds (fun value => (compare subject operator value).render d) (Literal.render d) :=
  ⟨subject.render ++ ' ' :: operator.text ++ [' '], [], fun value => by simp [render]⟩

theorem surrounds_inList (column : Identifier) (front back : List Literal) (negated : Bool) :
    Surrounds (fun value => (inList column (front ++ value :: back) negated).render d)
      (Literal.render d) := by
  have hlist := (Surrounds.intercalate [','] (front.map (Literal.render d))
    (back.map (Literal.render d))).comp (Literal.render d)
  refine Surrounds.trans ⟨column.render ++ (if negated then " NOT IN (" else " IN (").toList,
    [')'], fun value => ?_⟩ hlist
  dsimp only
  rw [render, List.map_append, List.map_cons]

end Predicate

namespace Tree

/-- One of some conditions that are added to a tree is the only one there is, or a child of the
    group at the root. -/
theorem attachAll_around (t : Tree) (c : Combinator) (front back : List Predicate) :
    (∀ p, t.attachAll c (front ++ p :: back) = ⟨some (.leaf p)⟩) ∨ ∃ before after : List Node,
      ∀ p, t.attachAll c (front ++ p :: back) =
        ⟨some (.group c false (before ++ .leaf p :: after))⟩ := by
  have hsplit : ∀ p, t.attachAll c (front ++ p :: back) =
      ((t.attachAll c front).attach c (.leaf p)).attachAll c back :=
    fun p => List.foldl_append
  have hgroup : ∀ before : List Node,
      (∀ p, (t.attachAll c front).attach c (.leaf p) = ⟨some (.group c false (before ++ [.leaf p]))⟩) →
      ∀ p, t.attachAll c (front ++ p :: back) =
        ⟨some (.group c false (before ++ .leaf p :: back.map .leaf))⟩ := by
    intro before h p
    rw [hsplit, h, attachAll_group, List.append_assoc]
    rfl
  -- what is there before the condition is added: nothing, a group that takes it in, or another root
  obtain ⟨_ | root, hroot⟩ : ∃ root, t.attachAll c front = ⟨root⟩ := ⟨_, rfl⟩
  · rcases back with - | ⟨q, back⟩
    · exact .inl fun p => by rw [hsplit, hroot]; rfl
    · refine .inr ⟨[], (q :: back).map .leaf, fun p => ?_⟩
      rw [hsplit, hroot]
      exact attachAll_group c [.leaf p, .leaf q] back
  · by_cases hsame : root.openCombinator = some c
    · obtain ⟨children, rfl⟩ := Node.eq_of_openCombinator hsame
      refine .inr ⟨children, _, hgroup children fun p => ?_⟩
      rw [hroot]
      exact congrArg (fun root => (⟨some root⟩ : Tree)) (Node.extend_open c children (.leaf p))
    · refine .inr ⟨[root], _, hgroup [root] fun p => ?_⟩
      rw [hroot]
      exact congrArg (fun root => (⟨some root⟩ : Tree)) (Node.extend_of_ne hsame (.leaf p))

/-- The text of a tree around one of some conditions that were added to it. -/
theorem surrounds_attachAll (t : Tree) (d : Dialect) (c : Combinator)
    (front back : List Predicate) :
    Surrounds (fun p => (t.attachAll c (front ++ p :: back)).render d) (Predicate.render d) := by
  rcases t.attachAll_around c front back with hleaf | ⟨before, after, hgroup⟩
  · refine ⟨[], [], fun p => ?_⟩
    dsimp only
    rw [hleaf, List.append_nil]
    rfl
  · have hlist := (Surrounds.intercalate c.separator (before.map (Node.render d false))
      (after.map (Node.render d false))).comp (Predicate.render d)
    refine Surrounds.trans ⟨[], [], fun p => ?_⟩ hlist
    dsimp only
    rw [hgroup, List.append_nil]
    change Node.render d true _ = _
    rw [Node.render, Node.renderAll_eq_map, List.map_append, List.map_cons]
    rfl

theorem isEmpty_attachAll_around (t : Tree) (c : Combinator) (front back : List Predicate)
    (p : Predicate) : (t.attachAll c (front ++ p :: back)).isEmpty = false := by
  rcases t.attachAll_around c front back with hleaf | ⟨before, after, hgroup⟩
  · rw [hleaf]
    rfl
  · rw [hgroup]
    rfl

end Tree

namespace Statement

/-- The text of a statement around its conditions, if it has any. -/
theorem sql_withConditions (s : Statement) {t : Tree} (h : t.isEmpty = false) :
    { s with conditions := t }.sql =
      "SELECT ".toList ++ s.outputs.render ++ s.sources.render s.dialect ++ " WHERE (".toList ++
        t.render s.dialect ++ ([')'] ++ s.orderClause ++ s.limitClause) := by
  have hwhere : { s with conditions := t }.whereClause =
      " WHERE (".toList ++ t.render s.dialect ++ [')'] := by
    unfold whereClause
    rw [h]
    rfl
  unfold sql
  rw [hwhere]
  simp only [List.append_assoc, List.cons_append, List.nil_append]
  rfl

/-- The text of a statement around one of some conditions that were added to it. -/
theorem surrounds_conditions (s : Statement) (c : Combinator) (front back : List Predicate) :
    Surrounds
      (fun p => { s with conditions := s.conditions.attachAll c (front ++ p :: back) }.sql)
      (Predicate.render s.dialect) :=
  Surrounds.trans ⟨_, _, fun _ => s.sql_withConditions (s.conditions.isEmpty_attachAll_around c ..)⟩
    (s.conditions.surrounds_attachAll s.dialect c front back)

end Statement

/-! ### Places -/

/-- A place for a value in a request for one condition. -/
inductive Slot where
  | equal (column : Text)
  | compare (column operator : Text)
  | raw (expression operator : Text)
  | pattern (wildcards : Wildcards) (negated : Bool) (column : Text)
  | member (negated : Bool) (column : Text) (front back : List Literal)
  | length (column : Text)
  | compareLength (column operator : Text)

/-- A place for a value in a request for conditions: in a single one, or in an entry of a mapping
    that stands between others. -/
inductive Place where
  | single (slot : Slot)
  | equalEach (front : List (Text × Literal)) (column : Text) (back : List (Text × Literal))
  | patternEach (wildcards : Wildcards) (negated : Bool) (front : List (Text × Literal))
    (column : Text) (back : List (Text × Literal))
  | inListEach (negated : Bool) (front : List (Text × List Literal)) (column : Text)
    (before after : List Literal) (back : List (Text × List Literal))
  | lengthEach (front : List (Text × Literal)) (column : Text) (back : List (Text × Literal))

namespace Slot

/-- The request with a value at the place. -/
def request : Slot → Literal → Request
  | equal column, value => .equal column value
  | compare column operator, value => .compare column operator value
  | raw expression operator, value => .raw expression operator value
  | pattern wildcards negated column, value => .pattern wildcards negated column value
  | member negated column front back, value => .inList negated column (front ++ value :: back)
  | length column, value => .length column value
  | compareLength column operator, value => .compareLength column operator value

/-- Requests with nothing wrong outside of the place: columns are names, expressions are not blank,
    operators are known, and the list with one more value is within the cap. -/
def Ready (cap : Option Nat) : Slot → Prop
  | equal column => column.IsIdentifier
  | compare column operator => column.IsIdentifier ∧ ∃ op, Operator.ofText operator = .ok op
  | raw expression operator =>
    Text.allBlank expression = false ∧ ∃ op, Operator.ofText operator = .ok op
  | pattern _ _ column => column.IsIdentifier
  | member _ column front back =>
    column.IsIdentifier ∧ (∀ limit, cap = some limit → front.length + 1 + back.length ≤ limit) ∧
      ∀ value ∈ front ++ back, value.IsFinite
  | length column => column.IsIdentifier
  | compareLength column operator => column.IsIdentifier ∧ ∃ op, Operator.ofText operator = .ok op

/-- Whether values are quoted at the place. -/
def quotes : Slot → Bool
  | pattern _ _ _ => true
  | _ => false

/-- A number as it is written at the place. -/
def written (d : Dialect) : Slot → Literal → Text
  | pattern wildcards _ _, value => d.quote (wildcards.wrap (value.render d))
  | _, value => value.render d

end Slot

namespace Place

/-- The request with a value at the place. -/
def fill : Place → Literal → Request
  | single slot, value => slot.request value
  | equalEach front column back, value => .equalEach (front ++ (column, value) :: back)
  | patternEach wildcards negated front column back, value =>
    .patternEach wildcards negated (front ++ (column, value) :: back)
  | inListEach negated front column before after back, value =>
    .inListEach negated (front ++ (column, before ++ value :: after) :: back)
  | lengthEach front column back, value => .lengthEach (front ++ (column, value) :: back)

/-- The place in the condition that the value is in. -/
def slot : Place → Slot
  | single slot => slot
  | equalEach _ column _ => .equal column
  | patternEach wildcards negated _ column _ => .pattern wildcards negated column
  | inListEach negated _ column before after _ => .member negated column before after
  | lengthEach _ column _ => .length column

/-- The entries before the value, as single requests. -/
def front : Place → List Request
  | single _ => []
  | equalEach front _ _ => (Request.equalEach front).singles
  | patternEach wildcards negated front _ _ => (Request.patternEach wildcards negated front).singles
  | inListEach negated front _ _ _ _ => (Request.inListEach negated front).singles
  | lengthEach front _ _ => (Request.lengthEach front).singles

/-- The entries after the value, as single requests. -/
def back : Place → List Request
  | single _ => []
  | equalEach _ _ back => (Request.equalEach back).singles
  | patternEach wildcards negated _ _ back => (Request.patternEach wildcards negated back).singles
  | inListEach negated _ _ _ _ back => (Request.inListEach negated back).singles
  | lengthEach _ _ back => (Request.lengthEach back).singles

/-- Requests with nothing wrong outside of the place, in all of their entries. -/
structure Ready (cap : Option Nat) (place : Place) : Prop where
  slot : place.slot.Ready cap
  others : ∀ request ∈ place.front ++ place.back, ∃ predicates, request.check cap = .ok predicates

end Place

/-! ### Numbers -/

section Numbers

variable {cap : Option Nat} {value : Literal} (hvalue : value.whole?.isSome = true)
include hvalue

theorem Literal.isFinite_of_whole : value.IsFinite := by
  rintro x rfl
  contradiction

theorem Literal.validate_of_whole : value.validate = .ok () :=
  validate_eq_ok.mpr (isFinite_of_whole hvalue)

namespace Predicate

variable {column operator : Text} {p : Predicate}

theorem comparing_eq_ok : comparing column operator value = .ok p ↔
    ∃ name op, Identifier.ofText column = .ok name ∧ Operator.ofText operator = .ok op ∧
      compare (.column name) op value = p := by
  simp only [comparing, bind_eq_ok, pure_eq_ok, Literal.validate_of_whole hvalue]
  simp

theorem comparingRaw_eq_ok {expression : Text} : comparingRaw expression operator value = .ok p ↔
    Text.allBlank expression = false ∧ ∃ op, Operator.ofText operator = .ok op ∧
      compare (.raw expression) op value = p := by
  rw [comparingRaw]
  split
  · next hblank => simp [hblank]
  · next hblank =>
    simp only [bind_eq_ok, pure_eq_ok, Literal.validate_of_whole hvalue]
    simp [hblank]

/-- Within a pattern, numbers have the text that they have elsewhere. -/
theorem patternText_of_whole (d : Dialect) : patternText value = .ok (value.render d) := by
  cases value with
  | int n => rfl
  | uint n => rfl
  | _ => contradiction

theorem matching_eq_ok (d : Dialect) {wildcards : Wildcards} {negated : Bool} :
    matching wildcards negated column value = .ok p ↔ ∃ name, Identifier.ofText column = .ok name ∧
      compare (.column name) (if negated then .notLike else .like)
        (.text (wildcards.wrap (value.render d))) = p := by
  simp only [matching, bind_eq_ok, pure_eq_ok, patternText_of_whole hvalue d]
  simp

theorem measuring_eq_ok : measuring column operator value = .ok p ↔
    ∃ name op, Identifier.ofText column = .ok name ∧ Operator.ofText operator = .ok op ∧
      compare (.length name) op value = p := by
  simp only [measuring, hvalue, bind_eq_ok]
  simp [pure_eq_ok]

theorem listing_eq_ok {negated : Bool} {front back : List Literal} :
    listing cap negated column (front ++ value :: back) = .ok p ↔
      ∃ name, Identifier.ofText column = .ok name ∧
        ((∀ limit, cap = some limit → front.length + 1 + back.length ≤ limit) ∧
          ∀ value ∈ front ++ back, value.IsFinite) ∧
        inList name (front ++ value :: back) negated = p := by
  have hsize : ∀ text, checkSize cap text (front ++ value :: back).length = .ok () ↔
      ∀ limit, cap = some limit → front.length + 1 + back.length ≤ limit := by
    intro text
    have hlength : (front ++ value :: back).length = front.length + 1 + back.length := by
      simp
      omega
    rw [checkSize_eq_ok, hlength]
    exact and_iff_right (by omega)
  have hvalues : (front ++ value :: back).forM Literal.validate = .ok () ↔
      ∀ value ∈ front ++ back, value.IsFinite := by
    have hfinite := Literal.isFinite_of_whole hvalue
    simp only [Literal.forM_validate_eq_ok, List.forall_mem_append, List.forall_mem_cons, hfinite,
      true_and]
  constructor
  · intro h
    simp only [listing, bind_eq_ok, pure_eq_ok] at h
    obtain ⟨name, hname, ⟨⟩, hfits, ⟨⟩, hfinite, rfl⟩ := h
    exact ⟨name, hname, ⟨(hsize _).mp hfits, hvalues.mp hfinite⟩, rfl⟩
  · rintro ⟨name, hname, ⟨hfits, hfinite⟩, rfl⟩
    exact bind_eq_ok.mpr ⟨name, hname, bind_eq_ok.mpr
      ⟨(), (hsize _).mpr hfits, bind_eq_ok.mpr ⟨(), hvalues.mpr hfinite, rfl⟩⟩⟩

end Predicate

/-- A request that is accepted with a number at its place has nothing wrong elsewhere. -/
theorem Slot.ready_of_check {slot : Slot} {predicates : List Predicate}
    (h : (slot.request value).check cap = .ok predicates) : slot.Ready cap := by
  cases slot with
  | equal column =>
    obtain ⟨p, hp, -⟩ := bind_eq_ok.mp h
    obtain ⟨name, -, hname, -⟩ := (Predicate.comparing_eq_ok hvalue).mp hp
    exact Text.isIdentifier_iff.mpr ⟨name, hname⟩
  | compare column operator =>
    obtain ⟨p, hp, -⟩ := bind_eq_ok.mp h
    obtain ⟨name, op, hname, hop, -⟩ := (Predicate.comparing_eq_ok hvalue).mp hp
    exact ⟨Text.isIdentifier_iff.mpr ⟨name, hname⟩, op, hop⟩
  | raw expression operator =>
    obtain ⟨p, hp, -⟩ := bind_eq_ok.mp h
    obtain ⟨hblank, op, hop, -⟩ := (Predicate.comparingRaw_eq_ok hvalue).mp hp
    exact ⟨hblank, op, hop⟩
  | pattern wildcards negated column =>
    obtain ⟨p, hp, -⟩ := bind_eq_ok.mp h
    obtain ⟨name, hname, -⟩ := (Predicate.matching_eq_ok hvalue default).mp hp
    exact Text.isIdentifier_iff.mpr ⟨name, hname⟩
  | member negated column front back =>
    obtain ⟨p, hp, -⟩ := bind_eq_ok.mp h
    obtain ⟨name, hname, hlist, -⟩ := (Predicate.listing_eq_ok hvalue).mp hp
    exact ⟨Text.isIdentifier_iff.mpr ⟨name, hname⟩, hlist⟩
  | length column =>
    obtain ⟨p, hp, -⟩ := bind_eq_ok.mp h
    obtain ⟨name, -, hname, -⟩ := (Predicate.measuring_eq_ok hvalue).mp hp
    exact Text.isIdentifier_iff.mpr ⟨name, hname⟩
  | compareLength column operator =>
    obtain ⟨p, hp, -⟩ := bind_eq_ok.mp h
    obtain ⟨name, op, hname, hop, -⟩ := (Predicate.measuring_eq_ok hvalue).mp hp
    exact ⟨Text.isIdentifier_iff.mpr ⟨name, hname⟩, op, hop⟩

end Numbers

/-- A request with nothing wrong elsewhere comes to one condition for each number, with the number
    as it is written at the place. -/
theorem Slot.Ready.condition {cap : Option Nat} {slot : Slot} (h : slot.Ready cap) (d : Dialect) :
    ∃ make : Literal → Predicate,
      (∀ value : Literal, value.whole?.isSome = true →
        (slot.request value).check cap = .ok [make value]) ∧
      Surrounds (fun value => (make value).render d) (slot.written d) := by
  cases slot with
  | equal column =>
    obtain ⟨name, hname⟩ := Text.isIdentifier_iff.mp h
    refine ⟨.compare (.column name) .equal, fun value hvalue => ?_,
      Predicate.surrounds_compare d _ _⟩
    exact bind_eq_ok.mpr ⟨_, (Predicate.comparing_eq_ok hvalue).mpr ⟨name, .equal, hname, rfl, rfl⟩,
      rfl⟩
  | compare column operator =>
    obtain ⟨hcolumn, op, hop⟩ := h
    obtain ⟨name, hname⟩ := Text.isIdentifier_iff.mp hcolumn
    refine ⟨.compare (.column name) op, fun value hvalue => ?_, Predicate.surrounds_compare d _ _⟩
    exact bind_eq_ok.mpr ⟨_, (Predicate.comparing_eq_ok hvalue).mpr ⟨name, op, hname, hop, rfl⟩, rfl⟩
  | raw expression operator =>
    obtain ⟨hblank, op, hop⟩ := h
    refine ⟨.compare (.raw expression) op, fun value hvalue => ?_,
      Predicate.surrounds_compare d _ _⟩
    exact bind_eq_ok.mpr ⟨_, (Predicate.comparingRaw_eq_ok hvalue).mpr ⟨hblank, op, hop, rfl⟩, rfl⟩
  | pattern wildcards negated column =>
    obtain ⟨name, hname⟩ := Text.isIdentifier_iff.mp h
    refine ⟨fun value => .compare (.column name) (if negated then .notLike else .like)
      (.text (wildcards.wrap (value.render d))), fun value hvalue => ?_,
      (Predicate.surrounds_compare d _ _).comp fun value : Literal =>
        .text (wildcards.wrap (value.render d))⟩
    exact bind_eq_ok.mpr ⟨_, (Predicate.matching_eq_ok hvalue d).mpr ⟨name, hname, rfl⟩, rfl⟩
  | member negated column front back =>
    obtain ⟨hcolumn, hlist⟩ := h
    obtain ⟨name, hname⟩ := Text.isIdentifier_iff.mp hcolumn
    refine ⟨fun value => .inList name (front ++ value :: back) negated, fun value hvalue => ?_,
      Predicate.surrounds_inList d name front back negated⟩
    exact bind_eq_ok.mpr ⟨_, (Predicate.listing_eq_ok hvalue).mpr ⟨name, hname, hlist, rfl⟩, rfl⟩
  | length column =>
    obtain ⟨name, hname⟩ := Text.isIdentifier_iff.mp h
    refine ⟨.compare (.length name) .equal, fun value hvalue => ?_,
      Predicate.surrounds_compare d _ _⟩
    exact bind_eq_ok.mpr ⟨_, (Predicate.measuring_eq_ok hvalue).mpr ⟨name, .equal, hname, rfl, rfl⟩,
      rfl⟩
  | compareLength column operator =>
    obtain ⟨hcolumn, op, hop⟩ := h
    obtain ⟨name, hname⟩ := Text.isIdentifier_iff.mp hcolumn
    refine ⟨.compare (.length name) op, fun value hvalue => ?_, Predicate.surrounds_compare d _ _⟩
    exact bind_eq_ok.mpr ⟨_, (Predicate.measuring_eq_ok hvalue).mpr ⟨name, op, hname, hop, rfl⟩, rfl⟩

namespace Place

variable {cap : Option Nat} {place : Place}

theorem singles_fill (place : Place) (value : Literal) :
    (place.fill value).singles = place.front ++ place.slot.request value :: place.back := by
  cases place with
  | single slot => cases slot <;> rfl
  | _ => simp [fill, front, slot, back, Request.singles, Slot.request]

/-- A request passes if its entries do, and has their conditions in order. -/
theorem check_fill_eq_ok {value : Literal} {predicates : List Predicate} :
    (place.fill value).check cap = .ok predicates ↔
      ∃ before, place.front.mapM (Request.check cap) = .ok before ∧
        ∃ own, (place.slot.request value).check cap = .ok own ∧
          ∃ after, place.back.mapM (Request.check cap) = .ok after ∧
            (before ++ own :: after).flatten = predicates := by
  rw [Request.check_eq_singles cap (by simp [singles_fill]), singles_fill]
  simp only [List.mapM_append, List.mapM_cons, map_eq_pure_bind, bind_assoc, pure_bind, bind_eq_ok,
    pure_eq_ok]

/-- A request with nothing wrong elsewhere is accepted for each number, and the conditions it comes
    to differ in the one that the number is in. -/
theorem Ready.conditions (h : place.Ready cap) (d : Dialect) :
    ∃ (before after : List Predicate) (make : Literal → Predicate),
      (∀ value : Literal, value.whole?.isSome = true →
        (place.fill value).check cap = .ok (before ++ make value :: after)) ∧
      Surrounds (fun value => (make value).render d) (place.slot.written d) := by
  obtain ⟨hslot, hothers⟩ := h
  obtain ⟨hfront, hback⟩ := List.forall_mem_append.mp hothers
  obtain ⟨before, hbefore⟩ := exists_mapM_eq_ok.mpr hfront
  obtain ⟨after, hafter⟩ := exists_mapM_eq_ok.mpr hback
  obtain ⟨make, hmake, hwritten⟩ := hslot.condition d
  refine ⟨before.flatten, after.flatten, make, fun value hvalue => ?_, hwritten⟩
  exact check_fill_eq_ok.mpr ⟨before, hbefore, _, hmake value hvalue, after, hafter, by simp⟩

/-- Whether a request is accepted with a number at its place depends on the rest of it alone. -/
theorem accepts_iff {value : Literal} (hvalue : value.whole?.isSome = true) :
    (∃ predicates, (place.fill value).check cap = .ok predicates) ↔ place.Ready cap := by
  constructor
  · rintro ⟨predicates, hcheck⟩
    obtain ⟨before, hbefore, own, hown, after, hafter, -⟩ := check_fill_eq_ok.mp hcheck
    exact ⟨Slot.ready_of_check hvalue hown, List.forall_mem_append.mpr
      ⟨exists_mapM_eq_ok.mp ⟨before, hbefore⟩, exists_mapM_eq_ok.mp ⟨after, hafter⟩⟩⟩
  · intro h
    obtain ⟨before, after, make, hmake, -⟩ := h.conditions default
    exact ⟨_, hmake value hvalue⟩

end Place

/-! ### Calls -/

section Calls

variable {place : Place} {value other : Literal} (hvalue : value.whole?.isSome = true)
include hvalue

/-- A request with a number is accepted by a context if nothing is wrong elsewhere. -/
theorem Context.accepts_fill (ctx : Context) (c : Combinator) :
    (ctx.add c (place.fill value)).verdict = .ok () ↔ place.Ready ctx.cap := by
  rw [← place.accepts_iff hvalue]
  rcases ctx.add_cases c (place.fill value) with ⟨predicates, hcheck, hadd⟩ | ⟨reason, hcheck, hadd⟩
  · rw [hadd, hcheck]
    exact iff_of_true rfl ⟨predicates, rfl⟩
  · rw [hadd, hcheck]
    exact iff_of_false (nomatch ·) (nomatch ·.choose_spec)

/-- The text of the conditions in a context, with one number or another. -/
theorem Context.render_fill_eq_iff (hother : other.whole?.isSome = true) (ctx : Context)
    (c : Combinator) (h : place.Ready ctx.cap) (d : Dialect) :
    (ctx.add c (place.fill value)).state.tree.render d =
        (ctx.add c (place.fill other)).state.tree.render d ↔
      place.slot.written d value = place.slot.written d other := by
  obtain ⟨before, after, make, hmake, hwritten⟩ := h.conditions d
  have htext := ((ctx.tree.surrounds_attachAll d c before after).comp make).trans hwritten
  have htree : ∀ v : Literal, v.whole?.isSome = true →
      (ctx.add c (place.fill v)).state.tree = ctx.tree.attachAll c (before ++ make v :: after) := by
    intro v hv
    rw [Context.add, hmake v hv]
    rfl
  rw [htree value hvalue, htree other hother]
  exact htext.eq_iff

/-- The text of a statement with conditions on one number or another. -/
theorem Statement.sql_fill_eq_iff (hother : other.whole?.isSome = true) (s : Statement)
    (c : Combinator) (h : place.Ready s.settings.maxInList) :
    (s.perform (.condition (.add c (place.fill value)))).state.sql =
        (s.perform (.condition (.add c (place.fill other)))).state.sql ↔
      place.slot.written s.dialect value = place.slot.written s.dialect other := by
  obtain ⟨before, after, make, hmake, hwritten⟩ := h.conditions s.dialect
  have htext := ((s.surrounds_conditions c before after).comp make).trans hwritten
  have hstate : ∀ v : Literal, v.whole?.isSome = true →
      (s.perform (.condition (.add c (place.fill v)))).state =
        { s with conditions := s.conditions.attachAll c (before ++ make v :: after) } := by
    intro v hv
    have hcheck : (place.fill v).check s.context.cap = .ok (before ++ make v :: after) := hmake v hv
    rw [Statement.perform, ConditionCall.run, Context.add, hcheck]
    rfl
  rw [hstate value hvalue, hstate other hother]
  exact htext.eq_iff

end Calls

end SqlSelect
