import SqlSelect.Proofs.Grammar
import SqlSelect.Proofs.Plain
import SqlSelect.Proofs.Spellings

/-!
What becomes of a join. A call that joins a target onto a source may have several faults at once.
They are found in a fixed order, whatever tables and joins there are: those of the target itself, a
local table that is not there, a name of the target that is taken, a missing pair of fields, the
fields pair by pair with that of the target first, and at last the operator. The first fault decides
how the call is rejected; without any, one join is added behind the others.

        name, alias or expression  ▸  local table  ▸  new name  ▸  some fields
                                   ▸  foreign₁  ▸  near₁  ▸  foreign₂  ▸  …  ▸  operator
-/

namespace SqlSelect

open Checked

/-! ### Faults -/

namespace JoinTarget

/-- The name by which other clauses are to know the target, as it was written. -/
def visible : JoinTarget → Text
  | table name => name
  | aliased _ aliasName => aliasName
  | raw _ aliasName => aliasName

/-- What is wrong with a target by itself. -/
def faults : JoinTarget → List Rejection
  | table name => name.nameFaults
  | aliased name aliasName => name.nameFaults ++ aliasName.nameFaults
  | raw expression aliasName =>
    (if Text.allBlank expression then [.invalidArgument (.blankRaw .table)] else []) ++
      aliasName.nameFaults

end JoinTarget

/-- A source as callers write it. -/
def Source.written : Source → JoinTarget
  | table name none => .table name.text
  | table name (some aliasName) => .aliased name.text aliasName.text
  | raw expression aliasName => .raw expression aliasName.text

/-- What is wrong with an operator, if one is given. -/
def operatorFaults : Option Text → List Rejection
  | none => []
  | some token =>
    match Operator.ofText token with
    | .ok _ => []
    | .error _ => [.invalidOperator token]

/-- What is wrong with the fields and their operator. -/
def JoinFields.faults : JoinFields → List Rejection
  | pair foreign token near => foreign.nameFaults ++ near.nameFaults ++ operatorFaults token
  | pairs [] _ => [.invalidArgument (.emptyListing .joinFields)]
  | pairs entries _ => entries.flatMap fun (foreign, near) => foreign.nameFaults ++ near.nameFaults

/-- What is wrong with a join of a target with a well-formed name onto a local table, given the
    names in use. -/
def joinFaults (names : List Text) (target localTable : Text) (fields : JoinFields) :
    List Rejection :=
  (if names.contains localTable then [] else [.orphanedJoin target localTable]) ++
    ((if names.contains target then [.duplicateIdentifier (.source target)] else []) ++
      fields.faults)

/-! ### Joins -/

/-- A comparison of a field of one source with a field of another. -/
def Predicate.Relates (target near : Text) (operator : Operator) (fields : Text × Text)
    (p : Predicate) : Prop :=
  ∃ left right, p = .columns left operator right ∧ left.text = target ++ '.' :: fields.1 ∧
    right.text = near ++ '.' :: fields.2

/-- Conditions that compare the fields of a join. One pair of fields is compared under the operator
    that is given for it, or for equality without one. Several pairs are each compared for equality,
    in order: all in one open group, unless there is a single one. -/
def JoinFields.BuildsOn (target near : Text) (on : Tree) : JoinFields → Prop
  | pair foreign none field =>
    ∃ p, Predicate.Relates target near .equal (foreign, field) p ∧ on = ⟨some (.leaf p)⟩
  | pair foreign (some token) field =>
    ∃ operator p, Operator.ofText token = .ok operator ∧
      Predicate.Relates target near operator (foreign, field) p ∧ on = ⟨some (.leaf p)⟩
  | pairs entries combinator =>
    ∃ predicates, List.Forall₂ (Predicate.Relates target near .equal) entries predicates ∧
      ((∃ p, predicates = [p] ∧ on = ⟨some (.leaf p)⟩) ∨
        2 ≤ predicates.length ∧ on = ⟨some (.group combinator false (predicates.map .leaf))⟩)

/-! ### Checks -/

/-- A target is read if nothing is wrong with it, and keeps its form and its name. -/
theorem JoinTarget.finds_read (target : JoinTarget) :
    Finds target.read target.faults
      fun t => t.written = target ∧ t.effectiveName.text = target.visible := by
  cases target with
  | table name =>
    exact (Segment.finds_parse name).last fun s hs => .ok ⟨congrArg table hs, hs⟩
  | aliased name aliasName =>
    refine (Segment.finds_parse name).bind fun s hs => ?_
    exact (Segment.finds_parse aliasName).last fun a ha => .ok ⟨congrArg₂ aliased hs ha, ha⟩
  | raw expression aliasName =>
    refine .guarded _ fun _ => ?_
    exact (Segment.finds_parse aliasName).last fun a ha => .ok ⟨congrArg (raw expression) ha, ha⟩

theorem Operator.finds_ofText (token : Text) :
    Finds (ofText token) (operatorFaults (some token)) fun op => ofText token = .ok op := by
  simp only [operatorFaults]
  cases hread : ofText token with
  | ok op => exact .ok rfl
  | error reason =>
    rw [eq_of_ofText_eq_error hread]
    exact .error _ []

namespace JoinFields

theorem finds_readPair (entry : Text × Text) :
    Finds (readPair entry) (entry.1.nameFaults ++ entry.2.nameFaults)
      fun pair => pair.1.text = entry.1 ∧ pair.2.text = entry.2 := by
  refine (Segment.finds_parse entry.1).bind fun foreign hforeign => ?_
  exact (Segment.finds_parse entry.2).last fun near hnear => .ok ⟨hforeign, hnear⟩

/-- The comparison of a pair that was read is that of the fields as they were written. -/
theorem relates_comparison {target near : Segment} (operator : Operator) {entry : Text × Text}
    {pair : Segment × Segment} (h : pair.1.text = entry.1 ∧ pair.2.text = entry.2) :
    Predicate.Relates target.text near.text operator entry
      (comparison target near operator pair) :=
  ⟨_, _, rfl, by rw [Identifier.text, ← h.1], by rw [Identifier.text, ← h.2]⟩

/-- One pair of fields is read before its operator. -/
theorem finds_build_pair (foreign : Text) (token : Option Text) (field : Text)
    (target near : Segment) :
    Finds ((pair foreign token field).build target near) (pair foreign token field).faults
      ((pair foreign token field).BuildsOn target.text near.text) := by
  -- a single pair is read as a list of one
  have hread := Finds.mapM finds_readPair [(foreign, field)]
  rw [List.flatMap_singleton] at hread
  refine hread.bind fun pairs hpairs => ?_
  obtain ⟨fields, _, hfields, hnil, rfl⟩ := List.forall₂_cons_left_iff.mp hpairs
  obtain rfl := List.forall₂_nil_left_iff.mp hnil
  cases token with
  | none => exact .ok ⟨_, relates_comparison .equal hfields, rfl⟩
  | some token =>
    exact (Operator.finds_ofText token).last fun op hop =>
      .ok ⟨op, _, hop, relates_comparison op hfields, rfl⟩

/-- Several pairs are read in order, once there are some. -/
theorem finds_build_pairs (entries : List (Text × Text)) (c : Combinator)
    (target near : Segment) :
    Finds ((pairs entries c).build target near) (pairs entries c).faults
      ((pairs entries c).BuildsOn target.text near.text) := by
  cases entries with
  | nil => exact .error _ []
  | cons entry entries =>
    refine (Finds.mapM finds_readPair (entry :: entries)).last fun read hread => .ok ?_
    refine ⟨read.map (comparison target near .equal),
      List.forall₂_map_right_iff.mpr (hread.imp fun _ _ => relates_comparison .equal), ?_⟩
    rcases read with - | ⟨p, - | ⟨q, read⟩⟩
    · contradiction
    · exact .inl ⟨_, rfl, rfl⟩
    · exact .inr ⟨by simp, Tree.attachAll_cons_cons _ _ _ _⟩

/-- The conditions of a join are built if nothing is wrong with its fields. -/
theorem finds_build (fields : JoinFields) (target near : Segment) :
    Finds (fields.build target near) fields.faults (fields.BuildsOn target.text near.text) := by
  cases fields with
  | pair foreign token field => exact finds_build_pair foreign token field target near
  | pairs entries c => exact finds_build_pairs entries c target near

end JoinFields

namespace Sources

theorem mem_names_iff {s : Sources} {name : Segment} :
    name.text ∈ s.names.map Segment.text ↔ name ∈ s.names :=
  List.mem_map_of_injective fun _ _ => Segment.text_injective

/-- A name is found exactly if a source has it. -/
theorem find?_cases (s : Sources) (name : Text) :
    (name ∉ s.names.map Segment.text ∧ s.find? name = none) ∨
      ∃ known, known.text = name ∧ name ∈ s.names.map Segment.text ∧
        s.find? name = some known := by
  cases h : s.find? name with
  | none =>
    refine .inl ⟨fun hmem => ?_, rfl⟩
    obtain ⟨known, hknown, rfl⟩ := List.mem_map.mp hmem
    simpa using List.find?_eq_none.mp h known hknown
  | some known =>
    have htext : known.text = name := by simpa using List.find?_some h
    exact .inr ⟨known, htext, htext ▸ List.mem_map_of_mem (List.mem_of_find?_eq_some h), rfl⟩

/-- A join is added behind the others if nothing is wrong with it. -/
theorem finds_addJoin (s : Sources) (kind : JoinKind) (target : Source) (localTable : Text)
    (fields : JoinFields) :
    Finds (s.addJoin kind target localTable fields)
      (joinFaults (s.names.map Segment.text) target.effectiveName.text localTable fields)
      fun s' => ∃ on, fields.BuildsOn target.effectiveName.text localTable on ∧
        s' = { s with joins := s.joins ++ [⟨kind, target, on⟩] } := by
  unfold joinFaults addJoin
  simp only [List.contains_iff_mem]
  rcases s.find?_cases localTable with ⟨hmem, hfind⟩ | ⟨near, rfl, hmem, hfind⟩
  · rw [if_neg hmem, hfind]
    exact .error _ _
  · rw [if_pos hmem, hfind]
    simp only [mem_names_iff]
    refine .guarded _ fun _ => ?_
    exact (fields.finds_build _ near).last fun on hon => .ok ⟨on, hon, rfl⟩

end Sources

/-! ### Calls -/

namespace Statement

/-- The statement with one more join behind the others. -/
def addJoin (s : Statement) (j : Join) : Statement :=
  s.putSources { s.sources with joins := s.sources.joins ++ [j] }

/-- A call that is rejected for the first of some faults, without any effect but a report of it, and
    that adds one join with a property if there are none. -/
structure AddsJoin (s : Statement) (call : Call) (faults : List Rejection) (P : Join → Prop) :
    Prop where
  rejected : ∀ reason rest, faults = reason :: rest →
    s.perform call = ⟨s, .error reason, [.rejected call.name reason]⟩
  accepted : faults = [] → ∃ j, P j ∧ s.perform call = .unchanged (s.addJoin j)

/-- A call that puts checked sources into the statement is decided by their faults. -/
theorem addsJoin_settle {s : Statement} {call : Call} {sources : Checked Sources}
    {faults : List Rejection} {P : Join → Prop}
    (hcall : s.perform call = s.settle call s.putSources sources)
    (h : sources.Finds faults fun s' =>
      ∃ j, P j ∧ s' = { s.sources with joins := s.sources.joins ++ [j] }) :
    s.AddsJoin call faults P where
  rejected reason rest hfaults := by
    rw [hcall, h.rejected reason rest hfaults]
    rfl
  accepted hnone := by
    obtain ⟨_, hok, j, hj, rfl⟩ := h.accepted hnone
    rw [hcall, hok]
    exact ⟨j, hj, rfl⟩

/-- The first fault of a join decides, in every statement. The faults of a target that is given as
    text come first, then those of the join; if there are none, one join is added behind the others,
    of the kind and with the target that were asked for, and with the comparison of each pair of
    fields, the field of the target on the left. -/
theorem joins_decided (s : Statement) (kind : JoinKind) (localTable : Text) (fields : JoinFields) :
    (∀ target : Source, s.AddsJoin (.join kind target localTable fields)
      (joinFaults s.tableNames target.effectiveName.text localTable fields)
      fun j => j.kind = kind ∧ j.target = target ∧
        fields.BuildsOn target.effectiveName.text localTable j.on) ∧
    ∀ target : JoinTarget, s.AddsJoin (.joinTarget kind target localTable fields)
      (target.faults ++ joinFaults s.tableNames target.visible localTable fields)
      fun j => j.kind = kind ∧ j.target.written = target ∧
        fields.BuildsOn target.visible localTable j.on := by
  refine ⟨fun target => addsJoin_settle rfl ?_, fun target => addsJoin_settle rfl ?_⟩
  · refine (s.sources.finds_addJoin kind target localTable fields).imp ?_
    rintro s' ⟨on, hon, rfl⟩
    exact ⟨⟨kind, target, on⟩, ⟨rfl, rfl, hon⟩, rfl⟩
  · refine target.finds_read.bind fun t ⟨hwritten, hvisible⟩ => ?_
    rw [← hvisible]
    refine (s.sources.finds_addJoin kind t localTable fields).imp ?_
    rintro s' ⟨on, hon, rfl⟩
    exact ⟨⟨kind, t, on⟩, ⟨rfl, hwritten, hon⟩, rfl⟩

/-- A statement that reads from `a` as `x` and from `b`. -/
def twoTables : Statement :=
  (withDialect .ansi).run [.fromAliased "a".toList "x".toList, .fromTables (.one "b".toList)]

/-- A target with a fault of its own under a name that is taken. -/
def faultyTarget : JoinTarget :=
  .raw " ".toList "b".toList

/-- Fields none of which is well-formed, with an operator that does not exist. -/
def faultyFields : JoinFields :=
  .pair "1".toList (some "is".toList) "y.z".toList

/-- Fields compared under an operator with blanks around it. -/
def boundedFields : JoinFields :=
  .pair "p".toList (some " <= ".toList) "q".toList

/-- Three pairs of fields, one of which has to match. -/
def pairedFields : JoinFields :=
  .pairs [("p".toList, "q".toList), ("r".toList, "s".toList), ("t".toList, "u".toList)] .or

/-- Of six faults the first one decides; without any, the fields of a pair are compared under their
    operator, and those of three pairs for equality. -/
theorem joins_decided_twoTables :
    (faultyTarget.faults ++
        joinFaults twoTables.tableNames faultyTarget.visible "db.x".toList faultyFields =
      [.invalidArgument (.blankRaw .table), .orphanedJoin "b".toList "db.x".toList,
        .duplicateIdentifier (.source "b".toList), .invalidIdentifier (.badStart '1' "1".toList),
        .invalidIdentifier (.qualifiedName "y.z".toList), .invalidOperator "is".toList] ∧
      (twoTables.perform (.joinTarget .left faultyTarget "db.x".toList faultyFields)).verdict =
        .error (.invalidArgument (.blankRaw .table))) ∧
    (joinFaults twoTables.tableNames "d".toList "b".toList boundedFields = [] ∧
      ∃ j, boundedFields.BuildsOn "d".toList "b".toList j.on ∧
        twoTables.perform
            (.joinTarget .right (.aliased "c".toList "d".toList) "b".toList boundedFields) =
          .unchanged (twoTables.addJoin j) ∧
        (twoTables.addJoin j).sql = "SELECT * FROM \x60a\x60 AS \x60x\x60,\x60b\x60 ".toList ++
          "RIGHT JOIN \x60c\x60 AS \x60d\x60 ON \x60d\x60.\x60p\x60<=\x60b\x60.\x60q\x60".toList) ∧
    joinFaults twoTables.tableNames "c".toList "x".toList pairedFields = [] ∧
    ∃ j, pairedFields.BuildsOn "c".toList "x".toList j.on ∧
      twoTables.perform (.joinTarget .inner (.table "c".toList) "x".toList pairedFields) =
        .unchanged (twoTables.addJoin j) ∧
      (twoTables.addJoin j).sql = "SELECT * FROM \x60a\x60 AS \x60x\x60,\x60b\x60 ".toList ++
        "INNER JOIN \x60c\x60 ON \x60c\x60.\x60p\x60=\x60x\x60.\x60q\x60 OR ".toList ++
        "\x60c\x60.\x60r\x60=\x60x\x60.\x60s\x60 OR \x60c\x60.\x60t\x60=\x60x\x60.\x60u\x60".toList := by
  have hsql : ∀ {call : Call} {j : Join}, twoTables.perform call = .unchanged (twoTables.addJoin j) →
      (twoTables.addJoin j).sql = (twoTables.perform call).state.sql :=
    fun h => congrArg (fun o => o.state.sql) h.symm
  refine ⟨⟨by decide, ?_⟩, ⟨by decide, ?_⟩, by decide, ?_⟩
  · have hdecided := (joins_decided twoTables .left "db.x".toList faultyFields).2 faultyTarget
    rw [hdecided.rejected _ _ rfl]
  · have hdecided := (joins_decided twoTables .right "b".toList boundedFields).2
      (.aliased "c".toList "d".toList)
    obtain ⟨j, ⟨-, -, hon⟩, hadd⟩ := hdecided.accepted (by decide)
    exact ⟨j, hon, hadd, (hsql hadd).trans (by decide)⟩
  · have hdecided :=
      (joins_decided twoTables .inner "x".toList pairedFields).2 (.table "c".toList)
    obtain ⟨j, ⟨-, -, hon⟩, hadd⟩ := hdecided.accepted (by decide)
    exact ⟨j, hon, hadd, (hsql hadd).trans (by decide)⟩

end Statement

end SqlSelect
