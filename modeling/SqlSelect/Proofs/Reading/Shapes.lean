import SqlSelect.Proofs.Reading.Conditions
import SqlSelect.Proofs.Reading.Parts

/-!
The shape of a condition tree: its groups with their combinators, and its conditions with the texts
of their values. Whether a group is closed is no part of the shape. An expression that was read
gives the shape back, since parentheses mark every group but the outermost one, and a chain of
expressions without parentheses is one group, which gets no combinator of its own if it has a single
member.

        a AND (b OR c) AND (d)   ──▶   AND [ a, OR [ b, c ], AND [ d ] ]
-/

namespace SqlSelect

/-- A condition, or a group of shapes. -/
inductive Shape where
  | leaf (test : Test)
  | group (combinator : Combinator) (children : List Shape)

namespace Node

mutual

/-- The shape of a node. -/
def shape (d : Dialect) : Node → Shape
  | leaf predicate => .leaf (predicate.test d)
  | group combinator _ children => .group combinator (shapeAll d children)

/-- The shapes of the children of a group, in order. -/
def shapeAll (d : Dialect) : List Node → List Shape
  | [] => []
  | node :: nodes => shape d node :: shapeAll d nodes

end

end Node

/-- The shape of a tree, if it has any conditions. -/
def Tree.shape? (d : Dialect) (t : Tree) : Option Shape :=
  t.root.map (Node.shape d)

/-- The shapes of which an expression is a chain, and the combinator between them. -/
def Expr.shapes (quote : Text → Text) : Expr → Option (Combinator × List Shape)
  | condition tokens => (Test.read quote tokens).map fun test => (.and, [.leaf test])
  | grouped e => (e.shapes quote).map fun chain => (.and, [.group chain.1 chain.2])
  | combined c left right =>
    (left.shapes quote).bind fun a => (right.shapes quote).map fun b => (c, a.2 ++ b.2)

/-- The shape of an expression. -/
def Expr.shape? (quote : Text → Text) (e : Expr) : Option Shape :=
  (e.shapes quote).map fun
    | (_, [shape]) => shape
    | (c, all) => .group c all

/-! ### Expressions of trees -/

variable {P : Predicate → Prop} (d : Dialect)

/-- Nodes whose expression is a chain of one shape, that of the node. -/
def Node.Shaped (node : Node) : Prop :=
  node.expr.shapes d.quote = some (.and, [node.shape d])

/-- A chain that goes on with nodes under a combinator. -/
theorem Expr.shapes_foldl (c : Combinator) {e : Expr} {c₀ : Combinator} {before : List Shape}
    (he : e.shapes d.quote = some (c₀, before)) {nodes : List Node}
    (h : ∀ node ∈ nodes, node.Shaped d) :
    ((Node.exprAll nodes).foldl (.combined c) e).shapes d.quote =
      some (if nodes = [] then c₀ else c, before ++ Node.shapeAll d nodes) := by
  induction nodes generalizing e c₀ before with
  | nil => simpa [Node.exprAll, Node.shapeAll] using he
  | cons node nodes ih =>
    have hnode : node.expr.shapes d.quote = some (.and, [node.shape d]) := h node (by simp)
    have hcombined : (Expr.combined c e node.expr).shapes d.quote =
        some (c, before ++ [node.shape d]) := by
      rw [Expr.shapes, he, hnode]
      rfl
    have hrest := ih hcombined fun n hn => h n (List.mem_cons_of_mem _ hn)
    rw [Node.exprAll, List.foldl_cons, hrest, if_neg (List.cons_ne_nil _ _), Node.shapeAll,
      List.append_assoc, ite_self]
    rfl

/-- The children of a group are a chain under its combinator. -/
theorem Expr.shapes_chain {c : Combinator} {children : List Node} (hne : 1 ≤ children.length)
    (hsingle : children.length = 1 → c = .and) (h : ∀ node ∈ children, node.Shaped d) :
    (Expr.chain c (Node.exprAll children)).shapes d.quote =
      some (c, Node.shapeAll d children) := by
  cases children with
  | nil => simp at hne
  | cons node nodes =>
    have hnode : node.expr.shapes d.quote = some (.and, [node.shape d]) := h node (by simp)
    have hchain := Expr.shapes_foldl d c hnode fun n hn => h n (List.mem_cons_of_mem _ hn)
    have hc : (if nodes = [] then .and else c) = c := by
      split
      · next hnil => exact (hsingle (by simp [hnil])).symm
      · rfl
    rw [Node.exprAll, Expr.chain, hchain, hc]
    rfl

theorem Node.Regular.shaped (hP : ∀ p, P p → p.isTest = true ∨ p.isFields = true) {node : Node}
    (h : node.Regular P) : node.Shaped d := by
  induction h with
  | leaf hp =>
    rw [Node.Shaped, Node.expr, Expr.shapes, Predicate.read_tokens d (hP _ hp)]
    rfl
  | @group c closed children hne _ hsingle _ ih =>
    rw [Node.Shaped, Node.expr, Expr.shapes, Expr.shapes_chain d hne hsingle ih]
    rfl

/-- The expression of a tree has the shape of the tree. -/
theorem Tree.shape?_expr? (hP : ∀ p, P p → p.isTest = true ∨ p.isFields = true) {t : Tree}
    (h : t.Regular P) : (t.expr?).map (Expr.shape? d.quote) = (t.shape? d).map some := by
  have hsingle : ∀ {root : Node}, root.Regular P →
      (some root.expr).map (Expr.shape? d.quote) = some (some (root.shape d)) := by
    intro root hroot
    refine congrArg some ?_
    rw [Expr.shape?, hroot.shaped d hP]
    rfl
  rcases h.root_cases with rfl | ⟨p, hp, rfl⟩ | ⟨c, children, hroot, rfl⟩ |
    ⟨c, children, hlen, hall, rfl⟩
  · rfl
  · exact hsingle (.leaf hp)
  · exact hsingle hroot
  · refine congrArg some ?_
    rw [Expr.shape?, Expr.shapes_chain d (by omega) (by omega) fun n hn => (hall n hn).shaped d hP]
    obtain - | ⟨a, - | ⟨b, nodes⟩⟩ := children
    · simp at hlen
    · simp at hlen
    · rfl

/-! ### Conditions of joins -/

/-- The comparison of two columns that a shape stands for, if it is one. -/
def Shape.fields? : Shape → Option Predicate
  | leaf (.columns left operator right) => some (.columns left operator right)
  | _ => none

/-- The conditions of a join that an expression stands for. -/
def Expr.joined? (quote : Text → Text) (e : Expr) : Option Tree :=
  (e.shapes quote).bind fun chain =>
    (chain.2.mapM Shape.fields?).map fun predicates => ({} : Tree).attachAll chain.1 predicates

theorem Node.shapeAll_eq_map (nodes : List Node) : shapeAll d nodes = nodes.map (shape d) := by
  induction nodes with
  | nil => rfl
  | cons node nodes ih => rw [shapeAll, ih, List.map_cons]

theorem Shape.mapM_fields? {predicates : List Predicate} (h : ∀ p ∈ predicates, p.isFields = true) :
    (Node.shapeAll d (predicates.map .leaf)).mapM fields? = some predicates := by
  have hread : ∀ p ∈ predicates, fields? ((Node.leaf p).shape d) = some p := by
    intro p hp
    have hfields := h p hp
    cases p with
    | columns left operator right => rfl
    | _ => simp [Predicate.isFields] at hfields
  have hall := mapM_map_eq_some (f := fun p => (Node.leaf p).shape d) (g := id) hread
  rw [List.map_id] at hall
  rw [Node.shapeAll_eq_map, List.map_map]
  exact hall

/-- The expression of the conditions of a join stands for these conditions. -/
theorem Tree.IsJoined.joined?_expr? {t : Tree} (h : t.IsJoined) :
    (t.expr?).map (Expr.joined? d.quote) = some (some t) := by
  obtain ⟨c, predicates, hne, hall, rfl⟩ := h
  have hshaped : ∀ node ∈ predicates.map Node.leaf, node.Shaped d := by
    intro node hnode
    obtain ⟨p, hp, rfl⟩ := List.mem_map.mp hnode
    have hleaf : (Node.leaf p).Regular fun p => p.isFields = true := .leaf (hall p hp)
    exact hleaf.shaped d fun _ hp => .inr hp
  have hfields := Shape.mapM_fields? d hall
  rcases predicates with - | ⟨p, - | ⟨q, predicates⟩⟩
  · exact absurd rfl hne
  · have hleaf := hshaped (.leaf p) (by simp)
    refine congrArg some ?_
    rw [Expr.joined?, hleaf, Option.bind_some]
    change ((Node.shapeAll d ([p].map .leaf)).mapM Shape.fields?).map _ = _
    rw [hfields]
    rfl
  · rw [attachAll_cons_cons]
    have hchain := Expr.shapes_chain d (c := c) (by simp) (by simp) hshaped
    refine congrArg some ?_
    rw [Expr.joined?, hchain, Option.bind_some, hfields, ← attachAll_cons_cons]
    rfl

end SqlSelect
