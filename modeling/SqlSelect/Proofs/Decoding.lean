import SqlSelect.Proofs.Effects
import SqlSelect.Proofs.References

/-!
Trees of conditions read backwards. A tree keeps everything about the steps that built it but for
one thing: the first step on an empty tree, and the first one in every group, is combined with
nothing, so its combinator has no effect. The decoder goes through a tree from left to right. The
first child of a group gives the steps that were there before the group was opened, and every other
child is one more step under the combinator of the group; a closed group is a step of its own.

        OR [ AND [ a, b ], c, closed AND [ d ] ]   ──▶   and a,  and b,  or c,  or (and d)
-/

namespace SqlSelect

/-! ### Combinators without effect -/

namespace Step

/-- The step under another combinator. -/
def under (c : Combinator) : Step → Step
  | condition _ p => condition c p
  | group _ first rest => group c first rest

mutual

/-- The step with `AND` as the combinator of the first step in each of its groups, at any depth. -/
def normal : Step → Step
  | condition c p => condition c p
  | group c first rest => group c (first.normal.under .and) (normalAll rest)

/-- Some steps, each with `AND` as the combinator of the first step in each of its groups. -/
def normalAll : List Step → List Step
  | [] => []
  | step :: steps => step.normal :: normalAll steps

end

/-- The steps of a whole run, with `AND` for all combinators that have no effect: that of the first
    step of the run and those of the first step in each group. Two runs have the same normal form if
    they are equal up to these combinators. -/
def normalForm : List Step → List Step
  | [] => []
  | first :: rest => first.normal.under .and :: normalAll rest

@[simp] theorem under_under (c c' : Combinator) (step : Step) :
    (step.under c).under c' = step.under c' := by
  cases step <;> rfl

/-- A step in normal form keeps its own combinator. -/
@[simp] theorem under_combinator_normal (step : Step) :
    step.normal.under step.combinator = step.normal := by
  cases step with
  | condition c p => rfl
  | group c first rest => simp [normal, under, combinator]

@[simp] theorem combinator_normal (step : Step) : step.normal.combinator = step.combinator := by
  cases step with
  | condition c p => rfl
  | group c first rest => simp [normal, combinator]

@[simp] theorem node_under (c : Combinator) (step : Step) : (step.under c).node = step.node := by
  cases step with
  | condition c' p => rfl
  | group c' first rest => simp [under, node]

mutual

/-- The combinators that the normal form replaces have no effect. -/
theorem node_normal (step : Step) : step.normal.node = step.node := by
  cases step with
  | condition c p => rfl
  | group c first rest =>
    rw [normal, node, node_under, node_normal first, grow_normalAll rest, node]

theorem grow_normalAll (steps : List Step) (root : Node) :
    grow root (normalAll steps) = grow root steps := by
  cases steps with
  | nil => rfl
  | cons step steps =>
    rw [normalAll, grow, combinator_normal, node_normal step, grow_normalAll steps, grow]

end

end Step

/-! ### The decoder -/

namespace Node

mutual

/-- The steps that have led to a root, the first of them under `AND`. -/
def steps : Node → List Step
  | leaf p => [.condition .and p]
  | group _ _ [] => []
  | group c false (first :: rest) => first.steps ++ (stepsAll rest).map (Step.under c)
  | group c true (first :: rest) =>
    Step.ofGroup .and (first.steps ++ (stepsAll rest).map (Step.under c))

/-- The steps of some nodes, in order. -/
def stepsAll : List Node → List Step
  | [] => []
  | node :: nodes => node.steps ++ stepsAll nodes

end

theorem stepsAll_append (a b : List Node) : stepsAll (a ++ b) = stepsAll a ++ stepsAll b := by
  induction a with
  | nil => rfl
  | cons node a ih => rw [List.cons_append, stepsAll, ih, stepsAll, List.append_assoc]

/-- A node that is added to a root adds its steps, under the combinator it is added with. -/
theorem steps_extend {P : Predicate → Prop} (c : Combinator) {old : Node} (h : old.Regular P)
    (new : Node) : (old.extend c new).steps = old.steps ++ new.steps.map (Step.under c) := by
  by_cases hsame : old.openCombinator = some c
  · obtain ⟨children, rfl⟩ := eq_of_openCombinator hsame
    obtain ⟨first, rest, rfl⟩ := List.exists_cons_of_ne_nil h.children_ne_nil
    rw [extend_open, List.cons_append, steps, stepsAll_append]
    simp [steps, stepsAll]
  · rw [extend_of_ne hsame]
    simp [steps, stepsAll]

/-- Closing a root makes one group of its steps. -/
theorem steps_close (node : Node) : node.close.steps = Step.ofGroup .and node.steps := by
  have single : (group .and true [node]).steps = Step.ofGroup .and node.steps := by
    simp [steps, stepsAll]
  cases node with
  | leaf p => exact single
  | group c closed children =>
    cases closed with
    | true => exact single
    | false => cases children <;> simp [close, steps, Step.ofGroup]

theorem predicates_close (node : Node) : node.close.predicates = node.predicates := by
  cases node with
  | leaf p => rfl
  | group c closed children => cases closed <;> simp [close, predicates, predicatesAll]

end Node

namespace Step

/-- What steps build is regular, whatever their conditions are. -/
theorem regular_node (step : Step) : step.node.Regular fun _ => True :=
  HandsOn.regular.node step fun _ _ => trivial

mutual

/-- The node of a step is decoded to the step. -/
theorem steps_node (step : Step) : step.node.steps = [step.normal.under .and] := by
  cases step with
  | condition c p => simp [node, Node.steps, normal, under]
  | group c first rest =>
    rw [node, Node.steps_close, steps_grow rest first.regular_node, steps_node first]
    rfl

/-- Further steps are decoded behind those of the root. -/
theorem steps_grow (steps : List Step) {root : Node} (h : root.Regular fun _ => True) :
    (grow root steps).steps = root.steps ++ normalAll steps := by
  cases steps with
  | nil => simp [grow, normalAll]
  | cons step steps =>
    have hroot := h.extend step.combinator step.regular_node
    rw [grow, steps_grow steps hroot, Node.steps_extend _ h, steps_node step, normalAll]
    simp

end

mutual

/-- The node of a step has the conditions of the step. -/
theorem predicates_node (step : Step) : step.node.predicates = step.predicates := by
  cases step with
  | condition c p => rfl
  | group c first rest =>
    rw [node, Node.predicates_close, predicates_grow rest, predicates_node first, predicates]

theorem predicates_grow (steps : List Step) (root : Node) :
    (grow root steps).predicates = root.predicates ++ predicatesAll steps := by
  cases steps with
  | nil => simp [grow, predicatesAll]
  | cons step steps =>
    rw [grow, predicates_grow steps, Node.predicates_extend, predicates_node step, predicatesAll,
      List.append_assoc]

end

end Step

/-! ### Trees -/

namespace Tree

/-- The steps that have led to a tree. -/
def steps (t : Tree) : List Step :=
  t.root.elim [] Node.steps

/-- Decoding a tree gives the normal form of the steps that built it. -/
theorem steps_addSteps (steps : List Step) :
    (({} : Tree).addSteps steps).steps = Step.normalForm steps := by
  cases steps with
  | nil => rfl
  | cons first rest =>
    have hroot : (Step.grow first.node rest).steps = _ := Step.steps_grow rest first.regular_node
    rw [addSteps_empty_cons, Tree.steps, Option.elim_some, hroot, Step.steps_node first]
    rfl

/-- Steps build the same tree as their normal form. -/
theorem addSteps_normalForm (steps : List Step) :
    ({} : Tree).addSteps (Step.normalForm steps) = ({} : Tree).addSteps steps := by
  cases steps with
  | nil => rfl
  | cons first rest =>
    rw [Step.normalForm, addSteps_empty_cons, addSteps_empty_cons, Step.grow_normalAll,
      Step.node_under, Step.node_normal]

theorem predicates_addSteps (steps : List Step) :
    (({} : Tree).addSteps steps).predicates = Step.predicatesAll steps := by
  cases steps with
  | nil => rfl
  | cons first rest =>
    rw [addSteps_empty_cons, predicates, Option.elim_some, Step.predicates_grow,
      Step.predicates_node, Step.predicatesAll]

/-- A tree that was built by some steps and still holds all of them: decoding it gives the steps,
    from which it can be built again, and its conditions are theirs in the same order. -/
structure Records (t : Tree) (steps : List Step) : Prop where
  built : t = ({} : Tree).addSteps steps
  decoded : t.steps = Step.normalForm steps
  rebuilt : ({} : Tree).addSteps t.steps = t
  conditions : t.predicates = Step.predicatesAll steps

theorem records_addSteps (steps : List Step) : (({} : Tree).addSteps steps).Records steps where
  built := rfl
  decoded := steps_addSteps steps
  rebuilt := by rw [steps_addSteps, addSteps_normalForm]
  conditions := predicates_addSteps steps

end Tree

/-- Nothing that was called is lost in the conditions. Two sequences of steps build the same tree
    exactly if they are equal up to the combinators that have no effect; and the conditions that
    calls have led to, in a context or in a statement that had none before, hold all steps of the
    accepted calls. -/
theorem conditions_recoverable :
    (∀ steps steps' : List Step, ({} : Tree).addSteps steps = ({} : Tree).addSteps steps' ↔
      Step.normalForm steps = Step.normalForm steps') ∧
    (∀ (script : Script) (ctx : Context), ctx.tree.isEmpty = true →
      (script.run ctx).state.tree.Records (script.trace ctx.cap).steps) ∧
    ∀ (s : Statement) (calls : List Call), s.hasConditions = false →
      (s.run calls).conditions.Records (Call.stepsAll s.settings.maxInList calls) := by
  refine ⟨fun steps steps' => ⟨fun h => ?_, fun h => ?_⟩, fun script ctx hempty => ?_,
    fun s calls hnone => ?_⟩
  · rw [← Tree.steps_addSteps, h, Tree.steps_addSteps]
  · rw [← Tree.addSteps_normalForm, h, Tree.addSteps_normalForm]
  · rw [(script.describes_run ctx).state, Tree.eq_empty hempty]
    exact Tree.records_addSteps _
  · rw [s.conditions_run calls, s.eq_empty_of_hasConditions hnone]
    exact Tree.records_addSteps _

/-- Calls whose combinators change within a group and around it. The rejected one is dropped. -/
def scriptWithSwitches : Script :=
  .add false .or (.null false (.many ["a".toList, "b".toList])) <|
    .add true .and (.null false (.one "1".toList)) <|
      .group false .and (.add false .or (.null true (.one "c".toList)) .done) <|
        .add false .or (.null true (.one "d".toList)) .done

theorem conditions_recoverable_scriptWithSwitches :
    Context.standalone.tree.isEmpty = true ∧
      (scriptWithSwitches.run Context.standalone).state.tree.Records
        (scriptWithSwitches.trace none).steps ∧
      (scriptWithSwitches.run Context.standalone).state.tree.render .ansi =
        "((\x60a\x60 IS NULL OR \x60b\x60 IS NULL) AND (\x60c\x60 IS NOT NULL)) ".toList ++
          "OR \x60d\x60 IS NOT NULL".toList ∧
      (scriptWithSwitches.trace none).steps.map Step.combinator = [.or, .or, .and, .or] ∧
      (scriptWithSwitches.run Context.standalone).state.tree.steps.map Step.combinator =
        [.and, .or, .and, .or] ∧
      Statement.new.hasConditions = false ∧
      (Statement.new.run [.condition (.group .or scriptWithSwitches)]).conditions.Records
        (Call.stepsAll none [.condition (.group .or scriptWithSwitches)]) :=
  ⟨rfl, conditions_recoverable.2.1 scriptWithSwitches Context.standalone rfl, by decide, by decide,
    by decide, rfl, conditions_recoverable.2.2 Statement.new _ rfl⟩

end SqlSelect
