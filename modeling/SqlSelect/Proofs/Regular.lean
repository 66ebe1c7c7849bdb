import SqlSelect.Proofs.Calls

/-!
The shape of condition trees. Every group has children, and an open one has at least two, since a
group is opened only to hold an old root and a new node; a group with a single child stands for a
nested sequence of calls that added one node, and its combinator is `AND`. The shape is kept by
every way a tree can grow, whatever is known of the single conditions.
-/

namespace SqlSelect

/-- Nodes of the shape that calls give them, with a property of all their conditions. -/
inductive Node.Regular (P : Predicate → Prop) : Node → Prop where
  | leaf {predicate : Predicate} : P predicate → Regular P (.leaf predicate)
  | group {combinator : Combinator} {closed : Bool} {children : List Node} :
    1 ≤ children.length → (closed = false → 2 ≤ children.length) →
    (children.length = 1 → combinator = .and) →
    (∀ node ∈ children, Regular P node) → Regular P (.group combinator closed children)

/-- Trees whose root has the shape, if they have one. -/
def Tree.Regular (P : Predicate → Prop) (t : Tree) : Prop :=
  ∀ root, t.root = some root → root.Regular P

variable {P : Predicate → Prop}

namespace Node

/-- A regular group has children. -/
theorem Regular.children_ne_nil {c : Combinator} {closed : Bool} {children : List Node}
    (h : (Node.group c closed children).Regular P) : children ≠ [] := by
  cases h with
  | group hne => exact List.ne_nil_of_length_pos hne

/-- A group of a regular node and another one is regular. -/
theorem Regular.pair (c : Combinator) {old new : Node} (ho : old.Regular P) (hn : new.Regular P) :
    (Node.group c false [old, new]).Regular P := by
  refine .group (by simp) (fun _ => by simp) (by simp) ?_
  intro node hnode
  simp only [List.mem_cons, List.not_mem_nil, or_false] at hnode
  rcases hnode with rfl | rfl
  · exact ho
  · exact hn

/-- The root after a node has been added is regular. -/
theorem Regular.extend (c : Combinator) {old new : Node} (ho : old.Regular P)
    (hn : new.Regular P) : (Node.extend c old new).Regular P := by
  cases ho with
  | leaf hp => exact .pair c (.leaf hp) hn
  | @group combinator closed children h1 h2 h3 hall =>
    cases closed with
    | true => exact .pair c (.group h1 h2 h3 hall) hn
    | false =>
      have hold : (Node.group combinator false children).Regular P := .group h1 h2 h3 hall
      unfold Node.extend
      simp only
      split
      · have hlen : 2 ≤ children.length := h2 rfl
        refine .group ?_ ?_ ?_ ?_
        · simp
        · simp only [List.length_append, List.length_singleton]
          omega
        · simp only [List.length_append, List.length_singleton]
          omega
        · intro node hnode
          rcases List.mem_append.mp hnode with hnode | hnode
          · exact hall node hnode
          · rw [List.mem_singleton.mp hnode]
            exact hn
      · exact .pair c hold hn

/-- The closed group of a regular root is regular. -/
theorem Regular.close {node : Node} (h : node.Regular P) : node.close.Regular P := by
  have single : ∀ {n : Node}, n.Regular P → (Node.group .and true [n]).Regular P := by
    intro n hn
    refine .group (by simp) (by simp) (fun _ => rfl) ?_
    intro child hchild
    rw [List.mem_singleton.mp hchild]
    exact hn
  cases h with
  | leaf hp => exact single (.leaf hp)
  | @group combinator closed children h1 h2 h3 hall =>
    cases closed with
    | true => exact single (.group h1 h2 h3 hall)
    | false => exact .group h1 (by simp) h3 hall

end Node

namespace Tree

theorem Regular.empty : ({} : Tree).Regular P := by
  intro root hroot
  simp at hroot

theorem Regular.attach (c : Combinator) {t : Tree} {node : Node} (ht : t.Regular P)
    (hn : node.Regular P) : (t.attach c node).Regular P := by
  intro root hroot
  unfold Tree.attach at hroot
  split at hroot
  · rw [← Option.some.inj hroot]
    exact hn
  · next old hold =>
    rw [← Option.some.inj hroot]
    exact (ht old hold).extend c hn

theorem Regular.attachAll (c : Combinator) {t : Tree} {predicates : List Predicate}
    (ht : t.Regular P) (hp : ∀ p ∈ predicates, P p) : (t.attachAll c predicates).Regular P := by
  induction predicates generalizing t with
  | nil => exact ht
  | cons p predicates ih =>
    exact ih (ht.attach c (.leaf (hp p (by simp)))) fun q hq => hp q (List.mem_cons_of_mem _ hq)

theorem Regular.attachGroup (c : Combinator) {t inner : Tree} (ht : t.Regular P)
    (hi : inner.Regular P) : (t.attachGroup c inner).Regular P := by
  rw [Tree.attachGroup]
  split
  · exact ht
  · next root hroot => exact ht.attach c (hi root hroot).close

/-- A regular tree is empty, one condition, a closed group, or an open group of several nodes. Only
    the last of these is printed, read and measured by its children instead of its root. -/
theorem Regular.root_cases {t : Tree} (h : t.Regular P) :
    t = {} ∨ (∃ p, P p ∧ t = ⟨some (.leaf p)⟩) ∨
      (∃ c children, (Node.group c true children).Regular P ∧
        t = ⟨some (.group c true children)⟩) ∨
      ∃ c children, 2 ≤ children.length ∧ (∀ node ∈ children, node.Regular P) ∧
        t = ⟨some (.group c false children)⟩ := by
  obtain ⟨root⟩ := t
  cases root with
  | none => exact .inl rfl
  | some root =>
    have hroot : root.Regular P := h root rfl
    cases hroot with
    | leaf hp => exact .inr (.inl ⟨_, hp, rfl⟩)
    | @group c closed children h1 h2 h3 hall =>
      cases closed with
      | true => exact .inr (.inr (.inl ⟨c, children, .group h1 h2 h3 hall, rfl⟩))
      | false => exact .inr (.inr (.inr ⟨c, children, h2 rfl, hall, rfl⟩))

end Tree

/-! ### Runs of calls -/

/-- Scripts all of whose requests have a property. -/
def Script.Uses (Q : Request → Prop) : Script → Prop
  | done => True
  | giveUp _ => True
  | add _ _ request rest => Q request ∧ rest.Uses Q
  | group _ _ body rest => body.Uses Q ∧ rest.Uses Q

/-- Calls all of whose requests have a property. -/
def ConditionCall.Uses (Q : Request → Prop) : ConditionCall → Prop
  | add _ request => Q request
  | group _ body => body.Uses Q

section Runs

variable {Q : Request → Prop}
  (hQ : ∀ cap request predicates, Q request → request.check cap = .ok predicates →
    ∀ p ∈ predicates, P p)

include hQ

theorem Context.add_regular {ctx : Context} (c : Combinator) {request : Request}
    (hr : Q request) (h : ctx.tree.Regular P) : (ctx.add c request).state.tree.Regular P := by
  rcases ctx.add_cases c request with ⟨predicates, hcheck, hadd⟩ | ⟨reason, -, hadd⟩
  · rw [hadd]
    exact h.attachAll c (hQ _ _ _ hr hcheck)
  · rw [hadd]
    exact h

omit hQ in
theorem Context.close_regular {ctx : Context} (c : Combinator) {body : Outcome Context}
    (h : ctx.tree.Regular P) (hb : body.state.tree.Regular P) :
    (ctx.close c body).state.tree.Regular P := by
  rcases ctx.close_cases c body with ⟨-, hclose⟩ | ⟨reason, -, hclose⟩
  · rw [hclose]
    exact h.attachGroup c hb
  · rw [hclose]
    exact h

omit hQ in
/-- Whatever both parts of a sequence keep is kept by the sequence. -/
theorem Outcome.andThen_state {State : Type} {I : State → Prop} {guarded : Bool}
    {first : Outcome State} {rest : State → Outcome State} (hf : I first.state)
    (hr : ∀ s, I s → I (rest s).state) : I (first.andThen guarded rest).state := by
  unfold Outcome.andThen
  split
  · exact hf
  · exact hr _ hf

/-- A script leaves a regular tree behind, at whatever point it ends. -/
theorem Script.run_regular {script : Script} (hs : script.Uses Q) {ctx : Context}
    (h : ctx.tree.Regular P) : (script.run ctx).state.tree.Regular P := by
  induction script generalizing ctx with
  | done => exact h
  | giveUp reason => exact h
  | add guarded c request rest ih =>
    exact Outcome.andThen_state (I := fun ctx : Context => ctx.tree.Regular P)
      (Context.add_regular hQ c hs.1 h) fun _ => ih hs.2
  | group guarded c body rest ihb ihr =>
    exact Outcome.andThen_state (I := fun ctx : Context => ctx.tree.Regular P)
      (Context.close_regular c h (ihb hs.1 Tree.Regular.empty)) fun _ => ihr hs.2

/-- A single call leaves a regular tree behind. -/
theorem ConditionCall.run_regular {call : ConditionCall} (hc : call.Uses Q) {ctx : Context}
    (h : ctx.tree.Regular P) : (call.run ctx).state.tree.Regular P := by
  cases call with
  | add c request => exact Context.add_regular hQ c hc h
  | group c body =>
    exact Context.close_regular c h (Script.run_regular hQ hc Tree.Regular.empty)

end Runs

end SqlSelect
