import SqlSelect.Proofs.Calls
import SqlSelect.Proofs.Regular

/-!
Scripts without their trees. What a script adds depends on its own calls and on the cap alone, and
can be said as a list of steps: each is a condition or a group of further steps, under a combinator.
Whether a script ends well is known from its steps' checks too. Running the script in a context then
does no more than to put one node for every step into the tree of the context.

        where a,  where ?,  group (or b, or c),  group ()     ──▶   and a,  and (or b, or c)
-/

namespace SqlSelect

/-- What is added to conditions at once: a condition, or a group of at least one step. -/
inductive Step where
  | condition (combinator : Combinator) (predicate : Predicate)
  | group (combinator : Combinator) (first : Step) (rest : List Step)

namespace Step

/-- The combinator under which a step is added. -/
def combinator : Step → Combinator
  | condition c _ => c
  | group c _ _ => c

/-- A group of some steps as a step, if there are any. -/
def ofGroup (c : Combinator) : List Step → List Step
  | [] => []
  | first :: rest => [group c first rest]

mutual

/-- The node that a step adds. -/
def node : Step → Node
  | condition _ p => .leaf p
  | group _ first rest => (grow first.node rest).close

/-- A root after some steps. -/
def grow (root : Node) : List Step → Node
  | [] => root
  | step :: steps => grow (root.extend step.combinator step.node) steps

end

mutual

/-- The conditions of a step, in order. -/
def predicates : Step → List Predicate
  | condition _ p => [p]
  | group _ first rest => first.predicates ++ predicatesAll rest

/-- The conditions of some steps, in order. -/
def predicatesAll : List Step → List Predicate
  | [] => []
  | step :: steps => step.predicates ++ predicatesAll steps

end

theorem predicatesAll_append (a b : List Step) :
    predicatesAll (a ++ b) = predicatesAll a ++ predicatesAll b := by
  induction a with
  | nil => rfl
  | cons step a ih => rw [List.cons_append, predicatesAll, ih, predicatesAll, List.append_assoc]

theorem predicatesAll_conditions (c : Combinator) (predicates : List Predicate) :
    predicatesAll (predicates.map (.condition c)) = predicates := by
  induction predicates with
  | nil => rfl
  | cons p predicates ih => rw [List.map_cons, predicatesAll, ih]; rfl

/-- A group has the conditions of its steps. -/
theorem predicatesAll_ofGroup (c : Combinator) (steps : List Step) :
    predicatesAll (ofGroup c steps) = predicatesAll steps := by
  cases steps with
  | nil => rfl
  | cons first rest => simp [ofGroup, predicatesAll, predicates]

end Step

/-- The tree after some steps, each of which attaches one node. -/
def Tree.addSteps (t : Tree) (steps : List Step) : Tree :=
  steps.foldl (fun t step => t.attach step.combinator step.node) t

/-! ### Traces -/

/-- What calls come to apart from any tree: their steps, up to the point where they end, and whether
    they end well. -/
structure Trace where
  steps : List Step
  verdict : Checked Unit

namespace Trace

/-- The trace of a request under a cap on lists of values. -/
def ofRequest (cap : Option Nat) (c : Combinator) (request : Request) : Trace :=
  match request.check cap with
  | .ok predicates => ⟨predicates.map (.condition c), .ok ()⟩
  | .error reason => ⟨[], .error reason⟩

/-- The trace of a group whose calls have this one. -/
def close (c : Combinator) (body : Trace) : Trace :=
  match body.verdict with
  | .ok () => ⟨Step.ofGroup c body.steps, .ok ()⟩
  | .error reason => ⟨[], .error reason⟩

/-- The trace of a call and those after it, which are not made if the call was rejected without
    being guarded. -/
def andThen (guarded : Bool) (first rest : Trace) : Trace :=
  match first.verdict, guarded with
  | .error _, false => first
  | _, _ => ⟨first.steps ++ rest.steps, rest.verdict⟩

end Trace

/-- The trace of a script under a cap. -/
def Script.trace (cap : Option Nat) : Script → Trace
  | done => ⟨[], .ok ()⟩
  | giveUp reason => ⟨[], .error reason⟩
  | add guarded c request rest => (Trace.ofRequest cap c request).andThen guarded (rest.trace cap)
  | group guarded c body rest => ((body.trace cap).close c).andThen guarded (rest.trace cap)

/-- The trace of a single call under a cap. -/
def ConditionCall.trace (cap : Option Nat) : ConditionCall → Trace
  | add c request => Trace.ofRequest cap c request
  | group c body => (body.trace cap).close c

/-! ### Nodes of steps -/

/-- The combinator of a group that nodes can still be added to. -/
def Node.openCombinator : Node → Option Combinator
  | group c false _ => some c
  | _ => none

namespace Node

theorem eq_of_openCombinator {node : Node} {c : Combinator} (h : node.openCombinator = some c) :
    ∃ children, node = group c false children := by
  cases node with
  | leaf p => contradiction
  | group combinator closed children =>
    cases closed with
    | true => contradiction
    | false => exact ⟨children, by rw [Option.some.inj h]⟩

/-- An open group takes in what is added under its own combinator. -/
theorem extend_open (c : Combinator) (children : List Node) (new : Node) :
    (group c false children).extend c new = group c false (children ++ [new]) := by
  simp [extend]

/-- Any other root becomes the first of two children. -/
theorem extend_of_ne {c : Combinator} {old : Node} (h : old.openCombinator ≠ some c) (new : Node) :
    old.extend c new = group c false [old, new] := by
  cases old with
  | leaf p => rfl
  | group combinator closed children =>
    cases closed with
    | true => rfl
    | false =>
      have hne : combinator ≠ c := fun hc => h (congrArg some hc)
      simp [extend, hne]

@[simp] theorem openCombinator_close (node : Node) : node.close.openCombinator = none := by
  cases node with
  | leaf p => rfl
  | group c closed children => cases closed <;> rfl

end Node

/-- No step adds an open group. -/
@[simp] theorem Step.openCombinator_node (step : Step) : step.node.openCombinator = none := by
  cases step with
  | condition c p => rfl
  | group c first rest => simp [Step.node]

/-- Properties of nodes that all steps hand on: single conditions with `P` have them, and they are
    kept when a node that is not open is added to a root and when a group is closed. -/
structure Step.HandsOn (P : Predicate → Prop) (I : Node → Prop) : Prop where
  leaf : ∀ p, P p → I (.leaf p)
  extend : ∀ (c : Combinator) {old new : Node}, I old → I new → new.openCombinator = none →
    I (old.extend c new)
  close : ∀ {node : Node}, I node → I node.close

namespace Step.HandsOn

variable {P : Predicate → Prop} {I : Node → Prop}

mutual

/-- The node of a step has every property that steps hand on. -/
theorem node (h : HandsOn P I) (step : Step) (hp : ∀ p ∈ step.predicates, P p) : I step.node := by
  cases step with
  | condition c p => exact h.leaf p (hp p (by simp [predicates]))
  | group c first rest =>
    rw [predicates, List.forall_mem_append] at hp
    exact h.close (h.grow rest (h.node first hp.1) hp.2)

/-- A root keeps every property that steps hand on. -/
theorem grow (h : HandsOn P I) (steps : List Step) {root : Node} (hroot : I root)
    (hp : ∀ p ∈ predicatesAll steps, P p) : I (Step.grow root steps) := by
  cases steps with
  | nil => exact hroot
  | cons step steps =>
    rw [predicatesAll, List.forall_mem_append] at hp
    have hstep := h.node step hp.1
    exact h.grow steps (h.extend _ hroot hstep step.openCombinator_node) hp.2

end

/-- Steps hand on the shape of nodes. -/
theorem regular : HandsOn P (Node.Regular P) where
  leaf _ := .leaf
  extend c _ _ hold hnew _ := hold.extend c hnew
  close h := h.close

end Step.HandsOn

namespace Tree

/-- A tree without conditions is the empty one. -/
theorem eq_empty {t : Tree} (h : t.isEmpty = true) : t = {} := by
  obtain ⟨root⟩ := t
  cases root with
  | none => rfl
  | some root => contradiction

theorem addSteps_append (t : Tree) (a b : List Step) :
    t.addSteps (a ++ b) = (t.addSteps a).addSteps b :=
  List.foldl_append

theorem addSteps_some (root : Node) (steps : List Step) :
    (⟨some root⟩ : Tree).addSteps steps = ⟨some (Step.grow root steps)⟩ := by
  induction steps generalizing root with
  | nil => rfl
  | cons step steps ih => exact ih (root.extend step.combinator step.node)

/-- The first step on an empty tree gives the root; its combinator does not matter. -/
theorem addSteps_empty_cons (first : Step) (rest : List Step) :
    ({} : Tree).addSteps (first :: rest) = ⟨some (Step.grow first.node rest)⟩ :=
  addSteps_some first.node rest

/-- Single conditions under one combinator are as many steps. -/
theorem addSteps_conditions (t : Tree) (c : Combinator) (predicates : List Predicate) :
    t.addSteps (predicates.map (.condition c)) = t.attachAll c predicates :=
  List.foldl_map

/-- A group is one step, or none if it has none of its own. -/
theorem addSteps_ofGroup (t : Tree) (c : Combinator) (steps : List Step) :
    t.addSteps (Step.ofGroup c steps) = t.attachGroup c (({} : Tree).addSteps steps) := by
  cases steps with
  | nil => rfl
  | cons first rest =>
    rw [addSteps_empty_cons]
    rfl

theorem isEmpty_addSteps (t : Tree) (steps : List Step) :
    (t.addSteps steps).isEmpty = (t.isEmpty && steps.isEmpty) := by
  obtain ⟨root⟩ := t
  cases root with
  | some root => rw [addSteps_some]; rfl
  | none =>
    cases steps with
    | nil => rfl
    | cons first rest => rw [addSteps_empty_cons]; rfl

end Tree

/-! ### Runs -/

/-- An outcome on a context that has the verdict of a trace, and the steps of the trace as its only
    effect. -/
structure Trace.Describes (trace : Trace) (ctx : Context) (o : Outcome Context) : Prop where
  state : o.state = { ctx with tree := ctx.tree.addSteps trace.steps }
  verdict : o.verdict = trace.verdict

namespace Trace.Describes

variable {ctx : Context}

theorem add (c : Combinator) (request : Request) :
    (ofRequest ctx.cap c request).Describes ctx (ctx.add c request) := by
  unfold ofRequest
  rcases ctx.add_cases c request with ⟨predicates, hcheck, hadd⟩ | ⟨reason, hcheck, hadd⟩
  · rw [hcheck, hadd]
    refine ⟨?_, rfl⟩
    change _ = { ctx with tree := ctx.tree.addSteps (predicates.map (.condition c)) }
    rw [Tree.addSteps_conditions]
    rfl
  · rw [hcheck, hadd]
    exact ⟨rfl, rfl⟩

theorem close (c : Combinator) {body : Trace} {o : Outcome Context}
    (h : body.Describes ctx.inner o) : (body.close c).Describes ctx (ctx.close c o) := by
  unfold Trace.close
  rcases ctx.close_cases c o with ⟨hok, hclose⟩ | ⟨reason, hrejected, hclose⟩
  · rw [hclose, ← h.verdict, hok]
    refine ⟨?_, rfl⟩
    change { ctx with tree := ctx.tree.attachGroup c o.state.tree } =
      { ctx with tree := ctx.tree.addSteps (Step.ofGroup c body.steps) }
    rw [Tree.addSteps_ofGroup, h.state]
    rfl
  · rw [hclose, ← h.verdict, hrejected]
    exact ⟨rfl, rfl⟩

theorem andThen (guarded : Bool) {first rest : Trace} {o : Outcome Context}
    {next : Context → Outcome Context} (hfirst : first.Describes ctx o)
    (hrest : ∀ ctx' : Context, ctx'.cap = ctx.cap → rest.Describes ctx' (next ctx')) :
    (first.andThen guarded rest).Describes ctx (o.andThen guarded next) := by
  have hnext : rest.Describes o.state (next o.state) := hrest o.state (by rw [hfirst.state])
  have hboth : Describes ⟨first.steps ++ rest.steps, rest.verdict⟩ ctx
      { next o.state with events := o.events ++ (next o.state).events } := by
    refine ⟨?_, hnext.verdict⟩
    change (next o.state).state = _
    rw [hnext.state, hfirst.state, Tree.addSteps_append]
  unfold Trace.andThen
  rw [← hfirst.verdict]
  cases hverdict : o.verdict with
  | ok _ =>
    rw [Outcome.andThen_ok guarded hverdict]
    exact hboth
  | error reason =>
    cases guarded with
    | true =>
      rw [Outcome.andThen_guarded]
      exact hboth
    | false =>
      rw [Outcome.andThen_error hverdict]
      exact hfirst

end Trace.Describes

/-- Running a script adds its steps to the tree, whatever is in the tree and whether the context is
    nested. -/
theorem Script.describes_run (script : Script) (ctx : Context) :
    (script.trace ctx.cap).Describes ctx (script.run ctx) := by
  induction script generalizing ctx with
  | done => exact ⟨rfl, rfl⟩
  | giveUp reason => exact ⟨rfl, rfl⟩
  | add guarded c request rest ih =>
    refine .andThen guarded (.add c request) fun ctx' hcap => ?_
    rw [← hcap]
    exact ih ctx'
  | group guarded c body rest ihb ihr =>
    refine .andThen guarded (.close c (ihb ctx.inner)) fun ctx' hcap => ?_
    rw [← hcap]
    exact ihr ctx'

/-- So does making a single call. -/
theorem ConditionCall.describes_run (call : ConditionCall) (ctx : Context) :
    (call.trace ctx.cap).Describes ctx (call.run ctx) := by
  cases call with
  | add c request => exact .add c request
  | group c body => exact .close c (body.describes_run ctx.inner)

end SqlSelect
