import SqlSelect.Proofs.Checked
import SqlSelect.Proofs.Steps
import SqlSelect.Statement.Call

/-!
What a call does to each part of a statement. The outputs are replaced or added to, and the sources
are added to, in one place each, where all names are checked; the conditions grow by the steps of
the call under the cap that is in force. Whatever these additions keep is kept by every run.
-/

namespace SqlSelect

open Checked

/-! ### Additions -/

/-- Outputs are added whole, if no name is taken. -/
theorem Outputs.append_eq_ok {o o' : Outputs} {new : List Output} :
    o.append new = .ok o' ↔
      firstTaken o.names (new.map Output.effectiveName) = none ∧ o' = ⟨o.items ++ new⟩ := by
  unfold append
  split
  · next name h => simp [h]
  · next h => simp [h, eq_comm]

/-- The names in use are those of the tables, and after them those of the targets of joins. -/
theorem Sources.names_eq (s : Sources) :
    s.names = (s.tables ++ s.joins.map Join.target).map Source.effectiveName := by
  simp [names]

/-- Tables are added whole, if no name is taken. -/
theorem Sources.addTables_eq_ok {s s' : Sources} {new : List Source} :
    s.addTables new = .ok s' ↔
      firstTaken (s.names.map Segment.text) (new.map fun t => t.effectiveName.text) = none ∧
        s' = { s with tables := s.tables ++ new } := by
  unfold addTables
  split
  · next name h => simp [h]
  · next h => simp [h, eq_comm]

/-- A join is added if its local table is there, its name is new and its fields are well-formed. -/
theorem Sources.addJoin_eq_ok {s s' : Sources} {kind : JoinKind} {target : Source}
    {localTable : Text} {fields : JoinFields} :
    s.addJoin kind target localTable fields = .ok s' ↔
      ∃ near on, s.find? localTable = some near ∧ target.effectiveName ∉ s.names ∧
        fields.build target.effectiveName near = .ok on ∧
        s' = { s with joins := s.joins ++ [⟨kind, target, on⟩] } := by
  simp only [addJoin]
  split
  · next h => simp [h]
  · next near h =>
    split
    · next hmem => simp [hmem]
    · next hmem =>
      simp only [bind_eq_ok, pure_eq_ok, h, hmem, Option.some.injEq, not_false_eq_true, true_and]
      exact ⟨fun ⟨on, hon, hs⟩ => ⟨near, on, rfl, hon, hs.symm⟩,
        fun ⟨_, on, hnear, hon, hs⟩ => ⟨on, hnear ▸ hon, hs.symm⟩⟩

/-- The conditions of a join are built of its pairs of fields, if there are any and all of them and
    the operator are well-formed. -/
theorem JoinFields.build_eq_ok {fields : JoinFields} {target near : Segment} {on : Tree} :
    fields.build target near = .ok on ↔
      ∃ pairs operator, pairs ≠ [] ∧ fields.entries.mapM readPair = .ok pairs ∧
        fields.operator = .ok operator ∧
        on = ({} : Tree).attachAll fields.combinator (pairs.map (comparison target near operator)) := by
  unfold build
  split
  · next hnil =>
    rw [List.isEmpty_iff] at hnil
    constructor
    · intro h
      contradiction
    · rintro ⟨pairs, operator, hne, hpairs, -⟩
      rw [hnil, List.mapM_nil, pure_eq_ok] at hpairs
      exact absurd hpairs.symm hne
  · next hne =>
    simp only [bind_eq_ok, pure_eq_ok]
    constructor
    · rintro ⟨pairs, hpairs, operator, hoperator, hon⟩
      refine ⟨pairs, operator, ?_, hpairs, hoperator, hon.symm⟩
      rintro rfl
      have hlength := (mapM_eq_ok.mp hpairs).length_eq
      rw [List.length_nil, List.length_eq_zero_iff] at hlength
      exact hne (by simp [hlength])
    · rintro ⟨pairs, operator, -, hpairs, hoperator, hon⟩
      exact ⟨pairs, hpairs, operator, hoperator, hon.symm⟩

/-! ### Calls -/

/-- The cap in force after a call. -/
def Call.cap (cap : Option Nat) : Call → Option Nat
  | configure settings => settings.maxInList
  | _ => cap

/-- The steps that a call adds to the conditions under a cap. -/
def Call.steps (cap : Option Nat) : Call → List Step
  | condition call => (call.trace cap).steps
  | _ => []

/-- The steps that calls add to the conditions one after the other, the first under a cap. -/
def Call.stepsAll : Option Nat → List Call → List Step
  | _, [] => []
  | cap, call :: calls => call.steps cap ++ stepsAll (call.cap cap) calls

namespace Statement

variable {s : Statement}

/-- A property of the old statement and of every statement that an accepted call makes of it is one
    of the statement after the call. -/
theorem settle_state {α : Type} {I : Statement → Prop} {call : Call} {put : α → Statement}
    {part : Checked α} (hs : I s) (hput : ∀ a, part = .ok a → I (put a)) :
    I (s.settle call put part).state := by
  cases part with
  | error reason => exact hs
  | ok a => exact hput a rfl

/-- The outputs after a call are the old ones, or new ones added to these or to none. -/
theorem outputs_perform (s : Statement) (call : Call) :
    (s.perform call).state.outputs = s.outputs ∨
      ∃ old new, (old = {} ∨ old = s.outputs) ∧
        old.append new = .ok (s.perform call).state.outputs := by
  let I (t : Statement) : Prop := t.outputs = s.outputs ∨
    ∃ old new, (old = {} ∨ old = s.outputs) ∧ old.append new = .ok t.outputs
  have hsame : I s := .inl rfl
  change I (s.perform call).state
  cases call with
  | select columns =>
    refine settle_state hsame fun o h => ?_
    obtain ⟨new, -, h⟩ := bind_eq_ok.mp h
    exact .inr ⟨{}, new, .inl rfl, h⟩
  | addSelect columns =>
    refine settle_state hsame fun o h => ?_
    obtain ⟨new, -, h⟩ := bind_eq_ok.mp h
    exact .inr ⟨s.outputs, new, .inr rfl, h⟩
  | addRawSelect expression aliasName =>
    refine settle_state hsame fun o h => ?_
    obtain ⟨item, -, h⟩ := bind_eq_ok.mp h
    exact .inr ⟨s.outputs, [item], .inr rfl, h⟩
  | condition call => exact hsame
  | setDialect d => exact hsame
  | configure settings => exact hsame
  | _ => exact settle_state hsame fun _ _ => .inl rfl

/-- The sources after a call are the old ones, or these with new tables or a new join. -/
theorem sources_perform (s : Statement) (call : Call) :
    (s.perform call).state.sources = s.sources ∨
      (∃ new, s.sources.addTables new = .ok (s.perform call).state.sources) ∨
      ∃ kind target localTable fields,
        s.sources.addJoin kind target localTable fields = .ok (s.perform call).state.sources := by
  let I (t : Statement) : Prop := t.sources = s.sources ∨
    (∃ new, s.sources.addTables new = .ok t.sources) ∨
    ∃ kind target localTable fields, s.sources.addJoin kind target localTable fields = .ok t.sources
  have hsame : I s := .inl rfl
  change I (s.perform call).state
  cases call with
  | fromTables tables =>
    refine settle_state hsame fun o h => ?_
    obtain ⟨new, -, h⟩ := bind_eq_ok.mp h
    exact .inr (.inl ⟨new, h⟩)
  | fromAliased table aliasName =>
    refine settle_state hsame fun o h => ?_
    obtain ⟨t, -, h⟩ := bind_eq_ok.mp h
    exact .inr (.inl ⟨[t], h⟩)
  | fromRaw expression aliasName =>
    refine settle_state hsame fun o h => ?_
    obtain ⟨t, -, h⟩ := bind_eq_ok.mp h
    exact .inr (.inl ⟨[t], h⟩)
  | join kind target localTable fields =>
    exact settle_state hsame fun o h => .inr (.inr ⟨kind, target, localTable, fields, h⟩)
  | joinTarget kind target localTable fields =>
    refine settle_state hsame fun o h => ?_
    obtain ⟨t, -, h⟩ := bind_eq_ok.mp h
    exact .inr (.inr ⟨kind, t, localTable, fields, h⟩)
  | condition call => exact hsame
  | setDialect d => exact hsame
  | configure settings => exact hsame
  | _ => exact settle_state hsame fun _ _ => .inl rfl

/-- A call adds its steps to the conditions. -/
theorem conditions_perform (s : Statement) (call : Call) :
    (s.perform call).state.conditions =
      s.conditions.addSteps (call.steps s.settings.maxInList) := by
  let I (t : Statement) : Prop := t.conditions = s.conditions
  have hsame : I s := rfl
  cases call with
  | condition call => exact congrArg Context.tree (call.describes_run s.context).state
  | setDialect d => exact hsame
  | configure settings => exact hsame
  | _ => exact settle_state (I := I) hsame fun _ _ => hsame

theorem cap_perform (s : Statement) (call : Call) :
    (s.perform call).state.settings.maxInList = call.cap s.settings.maxInList := by
  let I (t : Statement) : Prop := t.settings.maxInList = s.settings.maxInList
  have hsame : I s := rfl
  cases call with
  | condition call => exact hsame
  | setDialect d => exact hsame
  | configure settings => rfl
  | _ => exact settle_state (I := I) hsame fun _ _ => hsame

/-! ### Runs -/

theorem run_cons (s : Statement) (call : Call) (calls : List Call) :
    s.run (call :: calls) = (s.perform call).state.run calls := rfl

/-- What the empty outputs have and additions keep is kept by runs. -/
theorem outputs_run {I : Outputs → Prop} (hempty : I {})
    (happend : ∀ {o o' : Outputs} {new : List Output}, I o → o.append new = .ok o' → I o')
    (h : I s.outputs) (calls : List Call) : I (s.run calls).outputs := by
  induction calls generalizing s with
  | nil => exact h
  | cons call calls ih =>
    refine ih ?_
    rcases s.outputs_perform call with hsame | ⟨old, new, rfl | rfl, hadd⟩
    · rw [hsame]
      exact h
    · exact happend hempty hadd
    · exact happend h hadd

/-- What new tables and new joins keep of the sources is kept by runs. -/
theorem sources_run {I : Sources → Prop}
    (htables : ∀ {t t' : Sources} {new : List Source}, I t → t.addTables new = .ok t' → I t')
    (hjoin : ∀ {t t' : Sources} {kind : JoinKind} {target : Source} {localTable : Text}
      {fields : JoinFields}, I t → t.addJoin kind target localTable fields = .ok t' → I t')
    (h : I s.sources) (calls : List Call) : I (s.run calls).sources := by
  induction calls generalizing s with
  | nil => exact h
  | cons call calls ih =>
    refine ih ?_
    rcases s.sources_perform call with hsame | ⟨new, hadd⟩ | ⟨kind, target, near, fields, hadd⟩
    · rw [hsame]
      exact h
    · exact htables h hadd
    · exact hjoin h hadd

theorem eq_empty_of_hasConditions (s : Statement) (h : s.hasConditions = false) :
    s.conditions = {} :=
  Tree.eq_empty (by simpa [hasConditions] using h)

/-- A run adds the steps of its calls to the conditions. -/
theorem conditions_run (s : Statement) (calls : List Call) :
    (s.run calls).conditions =
      s.conditions.addSteps (Call.stepsAll s.settings.maxInList calls) := by
  induction calls generalizing s with
  | nil => rfl
  | cons call calls ih =>
    rw [run_cons, ih, Call.stepsAll, Tree.addSteps_append, conditions_perform, cap_perform]

end Statement

end SqlSelect
