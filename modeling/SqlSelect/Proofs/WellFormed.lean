import SqlSelect.Proofs.Grammar
import SqlSelect.Proofs.Plain

/-!
What the conditions of a statement look like. Every condition has passed a check: its column is a
name, its values have literals, a list of values is neither empty nor longer than the cap, and a
length is compared with a whole number. And groups stand in order: an open group is the root, or the
old root that a change of the combinator has made the first of two children, so its own combinator
is another than that of the group around it; everything else in a group is a condition or closed.

        OR [ AND [ a, b ], c, closed AND [ d ] ]      AND [ a, b ] is open and first
-/

namespace SqlSelect

/-! ### Conditions -/

/-- Values that have a literal: all but NaNs and infinities. -/
def Literal.IsFinite (value : Literal) : Prop :=
  ∀ x, value = .float x → x.isFinite = true

/-- Left-hand sides that may be compared with a value: columns have the form of names, and lengths
    are compared with whole numbers. -/
def Subject.Suits (value : Literal) : Subject → Prop
  | column name => name.text.IsIdentifier
  | raw _ => True
  | length name => name.text.IsIdentifier ∧ value.whole?.isSome = true

/-- Conditions that a statement may have under a cap on lists of values. -/
def Predicate.Sound (cap : Option Nat) : Predicate → Prop
  | compare subject _ value => subject.Suits value ∧ value.IsFinite
  | null column _ => column.text.IsIdentifier
  | inList column values _ =>
    column.text.IsIdentifier ∧ values ≠ [] ∧ (∀ limit, cap = some limit → values.length ≤ limit) ∧
      ∀ value ∈ values, value.IsFinite
  | columns _ _ _ => False

/-! ### Groups -/

/-- Nodes whose groups stand in order, at any depth: only the first child may be an open group, with
    another combinator than its parent, and not the only one. -/
inductive Node.Orderly : Node → Prop where
  | leaf {predicate : Predicate} : Orderly (.leaf predicate)
  | group {combinator : Combinator} {closed : Bool} {first : Node} {rest : List Node} :
    first.openCombinator ≠ some combinator → (rest = [] → first.openCombinator = none) →
    (∀ node ∈ rest, node.openCombinator = none) →
    (∀ node ∈ first :: rest, Orderly node) → Orderly (.group combinator closed (first :: rest))

/-- Trees of sound conditions whose groups have enough children and stand in order. -/
def Tree.WellFormed (cap : Option Nat) (t : Tree) : Prop :=
  ∀ root, t.root = some root → root.Regular (Predicate.Sound cap) ∧ root.Orderly

namespace Node

/-- A root that does not take in a new node becomes the first of two children. -/
theorem Orderly.pair {c : Combinator} {old new : Node} (hold : old.Orderly) (hnew : new.Orderly)
    (hne : old.openCombinator ≠ some c) (hclosed : new.openCombinator = none) :
    (Node.group c false [old, new]).Orderly := by
  have hrest : ∀ node ∈ [new], node.openCombinator = none := List.forall_mem_singleton.mpr hclosed
  have hall : ∀ node ∈ [old, new], node.Orderly :=
    List.forall_mem_cons.mpr ⟨hold, List.forall_mem_singleton.mpr hnew⟩
  exact .group hne (by simp) hrest hall

/-- An open group takes in a node at its end. -/
theorem Orderly.concat {c : Combinator} {children : List Node} {new : Node}
    (h : (Node.group c false children).Orderly) (hnew : new.Orderly)
    (hclosed : new.openCombinator = none) :
    (Node.group c false (children ++ [new])).Orderly := by
  cases h with
  | @group _ _ first rest hne hsingle hrest hall =>
    have hrest' : ∀ node ∈ rest ++ [new], node.openCombinator = none :=
      List.forall_mem_append.mpr ⟨hrest, by simpa using hclosed⟩
    have hall' : ∀ node ∈ (first :: rest) ++ [new], node.Orderly :=
      List.forall_mem_append.mpr ⟨hall, by simpa using hnew⟩
    exact .group hne (by simp) hrest' hall'

theorem Orderly.extend (c : Combinator) {old new : Node} (hold : old.Orderly) (hnew : new.Orderly)
    (hclosed : new.openCombinator = none) : (old.extend c new).Orderly := by
  by_cases hsame : old.openCombinator = some c
  · obtain ⟨children, rfl⟩ := eq_of_openCombinator hsame
    rw [extend_open]
    exact hold.concat hnew hclosed
  · rw [extend_of_ne hsame]
    exact hold.pair hnew hsame hclosed

theorem Orderly.close {node : Node} (h : node.Orderly) : node.close.Orderly := by
  have single : ∀ {n : Node}, n.Orderly → n.openCombinator = none →
      (Node.group .and true [n]).Orderly := by
    intro n hn hclosed
    have hall : ∀ node ∈ [n], node.Orderly := List.forall_mem_singleton.mpr hn
    exact .group (by simp [hclosed]) (fun _ => hclosed) (by simp) hall
  cases h with
  | leaf => exact single .leaf rfl
  | @group c closed first rest hne hsingle hrest hall =>
    cases closed with
    | true => exact single (.group hne hsingle hrest hall) rfl
    | false => exact .group hne hsingle hrest hall

/-- Steps keep groups in order. -/
theorem Orderly.handsOn (P : Predicate → Prop) : Step.HandsOn P Node.Orderly where
  leaf _ _ := .leaf
  extend c _ _ hold hnew hclosed := hold.extend c hnew hclosed
  close h := h.close

end Node

/-- Steps with sound conditions build a well-formed tree. -/
theorem Tree.wellFormed_addSteps {cap : Option Nat} {steps : List Step}
    (hp : ∀ p ∈ Step.predicatesAll steps, p.Sound cap) :
    (({} : Tree).addSteps steps).WellFormed cap := by
  intro root hroot
  cases steps with
  | nil => contradiction
  | cons first rest =>
    rw [Step.predicatesAll, List.forall_mem_append] at hp
    rw [addSteps_empty_cons] at hroot
    rw [← Option.some.inj hroot]
    exact ⟨Step.HandsOn.regular.grow rest (Step.HandsOn.regular.node first hp.1) hp.2,
      (Node.Orderly.handsOn _).grow rest ((Node.Orderly.handsOn _).node first hp.1) hp.2⟩

/-! ### Checks -/

open Checked

/-- A value passes if it has a literal. -/
theorem Literal.validate_eq_ok {value : Literal} : value.validate = .ok () ↔ value.IsFinite := by
  cases value with
  | float x => simp [validate, IsFinite]
  | _ => exact ⟨fun _ _ => (nomatch ·), fun _ => rfl⟩

/-- A list of values passes if each of them does. -/
theorem Literal.forM_validate_eq_ok {values : List Literal} :
    values.forM validate = .ok () ↔ ∀ value ∈ values, value.IsFinite := by
  simp only [forM_eq_ok, validate_eq_ok]

namespace Predicate

variable {cap : Option Nat} {p : Predicate}

theorem sound_comparing {column operator : Text} {value : Literal}
    (h : comparing column operator value = .ok p) : p.Sound cap := by
  simp only [comparing, bind_eq_ok, pure_eq_ok] at h
  obtain ⟨name, -, op, -, ⟨⟩, hvalue, rfl⟩ := h
  exact ⟨name.isIdentifier_text, Literal.validate_eq_ok.mp hvalue⟩

theorem sound_comparingRaw {expression operator : Text} {value : Literal}
    (h : comparingRaw expression operator value = .ok p) : p.Sound cap := by
  unfold comparingRaw at h
  split at h
  · contradiction
  · simp only [bind_eq_ok, pure_eq_ok] at h
    obtain ⟨op, -, ⟨⟩, hvalue, rfl⟩ := h
    exact ⟨trivial, Literal.validate_eq_ok.mp hvalue⟩

theorem sound_matching {w : Wildcards} {negated : Bool} {column : Text} {value : Literal}
    (h : matching w negated column value = .ok p) : p.Sound cap := by
  simp only [matching, bind_eq_ok, pure_eq_ok] at h
  obtain ⟨name, -, text, -, rfl⟩ := h
  refine ⟨name.isIdentifier_text, ?_⟩
  rintro x hx
  contradiction

theorem sound_testingNull {negated : Bool} {column : Text}
    (h : testingNull negated column = .ok p) : p.Sound cap := by
  simp only [testingNull, bind_eq_ok, pure_eq_ok] at h
  obtain ⟨name, -, rfl⟩ := h
  exact name.isIdentifier_text

/-- A list may have a size above zero that is within the cap. -/
theorem checkSize_eq_ok {column : Text} {size : Nat} :
    checkSize cap column size = .ok () ↔ size ≠ 0 ∧ ∀ limit, cap = some limit → size ≤ limit := by
  unfold checkSize
  split
  · next hzero => simp [hzero]
  · next hsize =>
    cases cap with
    | none => simp [hsize]
    | some most =>
      by_cases hlong : most < size
      · simp [hlong]
      · simp [hlong, hsize, Nat.not_lt.mp hlong]

theorem sound_listing {negated : Bool} {column : Text} {values : List Literal}
    (h : listing cap negated column values = .ok p) : p.Sound cap := by
  simp only [listing, bind_eq_ok, pure_eq_ok] at h
  obtain ⟨name, -, ⟨⟩, hsize, ⟨⟩, hvalues, rfl⟩ := h
  obtain ⟨hne, hlimit⟩ := checkSize_eq_ok.mp hsize
  refine ⟨name.isIdentifier_text, ?_, hlimit, Literal.forM_validate_eq_ok.mp hvalues⟩
  rintro rfl
  exact hne rfl

theorem sound_measuring {column operator : Text} {value : Literal}
    (h : measuring column operator value = .ok p) : p.Sound cap := by
  simp only [measuring, bind_eq_ok] at h
  obtain ⟨name, -, op, -, h⟩ := h
  split at h
  · next hwhole =>
    rw [← pure_eq_ok.mp h]
    refine ⟨⟨name.isIdentifier_text, hwhole⟩, ?_⟩
    rintro x rfl
    contradiction
  · contradiction

end Predicate

/-- Every request that is accepted under a cap yields sound conditions. -/
theorem Request.sound_of_check {cap : Option Nat} {request : Request}
    {predicates : List Predicate} (h : request.check cap = .ok predicates) :
    ∀ p ∈ predicates, p.Sound cap :=
  forall_mem_check Predicate.sound_comparing (fun _ => Predicate.sound_comparingRaw)
    Predicate.sound_matching Predicate.sound_testingNull Predicate.sound_listing
    Predicate.sound_measuring h

/-! ### Runs -/

namespace Trace

/-- Traces whose steps have sound conditions. -/
def Sound (cap : Option Nat) (trace : Trace) : Prop :=
  ∀ p ∈ Step.predicatesAll trace.steps, p.Sound cap

variable {cap : Option Nat}

theorem Sound.nil {verdict : Checked Unit} : Sound cap ⟨[], verdict⟩ := by
  intro p hp
  contradiction

theorem sound_ofRequest (c : Combinator) (request : Request) :
    (ofRequest cap c request).Sound cap := by
  unfold ofRequest
  cases hcheck : request.check cap with
  | error reason => exact .nil
  | ok predicates =>
    intro p hp
    rw [Step.predicatesAll_conditions] at hp
    exact Request.sound_of_check hcheck p hp

theorem Sound.close (c : Combinator) {body : Trace} (h : body.Sound cap) :
    (body.close c).Sound cap := by
  unfold Trace.close
  cases body.verdict with
  | error reason => exact .nil
  | ok _ =>
    intro p hp
    rw [Step.predicatesAll_ofGroup] at hp
    exact h p hp

theorem Sound.andThen (guarded : Bool) {first rest : Trace} (hfirst : first.Sound cap)
    (hrest : rest.Sound cap) : (first.andThen guarded rest).Sound cap := by
  unfold Trace.andThen
  split
  · exact hfirst
  · intro p hp
    rw [Step.predicatesAll_append] at hp
    rcases List.mem_append.mp hp with hp | hp
    · exact hfirst p hp
    · exact hrest p hp

end Trace

theorem Script.sound_trace (cap : Option Nat) (script : Script) :
    (script.trace cap).Sound cap := by
  induction script with
  | done => exact .nil
  | giveUp reason => exact .nil
  | add guarded c request rest ih => exact (Trace.sound_ofRequest c request).andThen guarded ih
  | group guarded c body rest ihb ihr => exact (ihb.close c).andThen guarded ihr

theorem ConditionCall.sound_trace (cap : Option Nat) (call : ConditionCall) :
    (call.trace cap).Sound cap := by
  cases call with
  | add c request => exact Trace.sound_ofRequest c request
  | group c body => exact (body.sound_trace cap).close c

/-- Calls that leave the settings alone. -/
def Call.KeepsSettings (call : Call) : Prop :=
  ∀ settings, call ≠ .configure settings

/-- Calls that leave the settings alone add sound conditions under the one cap there is. -/
theorem Call.sound_stepsAll {cap : Option Nat} {calls : List Call}
    (h : ∀ call ∈ calls, call.KeepsSettings) :
    ∀ p ∈ Step.predicatesAll (Call.stepsAll cap calls), p.Sound cap := by
  induction calls with
  | nil =>
    intro p hp
    contradiction
  | cons call calls ih =>
    have hcap : call.cap cap = cap := by
      cases call with
      | configure settings => exact absurd rfl (h _ (by simp) settings)
      | _ => rfl
    have hcall : ∀ p ∈ Step.predicatesAll (call.steps cap), p.Sound cap := by
      cases call with
      | condition call => exact call.sound_trace cap
      | _ =>
        intro p hp
        contradiction
    rw [stepsAll, hcap, Step.predicatesAll_append]
    exact List.forall_mem_append.mpr ⟨hcall, ih fun c hc => h c (List.mem_cons_of_mem _ hc)⟩

/-- Conditions are well-formed under the cap that is in force, at every nesting depth: in every
    context that has run a script from no conditions on, and in every statement that has been built
    from no conditions on without a change of its settings, by whatever calls, accepted or not. -/
theorem conditions_wellFormed :
    (∀ (script : Script) (ctx : Context), ctx.tree.isEmpty = true →
      (script.run ctx).state.tree.WellFormed ctx.cap) ∧
    ∀ (s : Statement) (calls : List Call), s.hasConditions = false →
      (∀ call ∈ calls, call.KeepsSettings) →
      (s.run calls).conditions.WellFormed s.settings.maxInList := by
  refine ⟨fun script ctx hempty => ?_, fun s calls hnone hkeeps => ?_⟩
  · rw [(script.describes_run ctx).state, Tree.eq_empty hempty]
    exact Tree.wellFormed_addSteps (script.sound_trace ctx.cap)
  · rw [s.conditions_run calls, s.eq_empty_of_hasConditions hnone]
    exact Tree.wellFormed_addSteps (Call.sound_stepsAll hkeeps)

/-- Calls under a cap of two: lists of three are rejected, also within a group within a group, where
    the rejection is dropped. -/
def callsUnderCap : List Call :=
  [.condition (.add .and (.inList false "a".toList [.int 1, .int 2])),
    .condition (.add .or (.inList true "b".toList [.int 1, .int 2, .int 3])),
    .condition (.add .or (.length "t.c".toList (.int 8))),
    .condition (.group .and
      (.group false .or
        (.add true .and (.inList false "d".toList [.null, .null, .null])
          (.add false .and (.inList false "d".toList [.null]) .done)) .done))]

/-- A statement without conditions and with a cap of two. -/
def cappedStatement : Statement :=
  { settings := { maxInList := some 2 } }

theorem conditions_wellFormed_callsUnderCap :
    cappedStatement.hasConditions = false ∧ (∀ call ∈ callsUnderCap, call.KeepsSettings) ∧
      (cappedStatement.run callsUnderCap).conditions.render .ansi =
        "(\x60a\x60 IN (1,2) OR LENGTH(\x60t\x60.\x60c\x60) = 8) AND ".toList ++
          "((\x60d\x60 IN (NULL)))".toList ∧
      (cappedStatement.run callsUnderCap).conditions.WellFormed (some 2) ∧
      Context.standalone.tree.isEmpty = true ∧
      ((Script.add false .and (.raw "f()".toList "=".toList .null) .done).run
        Context.standalone).state.tree.WellFormed none := by
  have hkeeps : ∀ call ∈ callsUnderCap, call.KeepsSettings := by
    intro call hcall settings
    simp only [callsUnderCap, List.mem_cons, List.not_mem_nil, or_false] at hcall
    rcases hcall with rfl | rfl | rfl | rfl
    all_goals
      intro h
      contradiction
  exact ⟨rfl, hkeeps, by decide, conditions_wellFormed.2 cappedStatement callsUnderCap rfl hkeeps,
    rfl, conditions_wellFormed.1 _ Context.standalone rfl⟩

end SqlSelect
