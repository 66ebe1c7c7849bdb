import SqlSelect.Condition.Predicate

/-!
The tree of conditions behind a `WHERE` or an `ON`. It grows one node at a time: a node joins the
group at the root if that group is open and has the same combinator, and otherwise the old tree and
the node become the two children of a new open group. Groups that stand for a nested sequence of
calls are closed: nothing is added to them, and they keep their parentheses everywhere.

        a AND b, then OR c      ──▶   OR [ AND [ a, b ], c ]          printed (a AND b) OR c
        a, then AND (b OR c)    ──▶   AND [ a, closed OR [ b, c ] ]   printed a AND (b OR c)
-/

namespace SqlSelect

/-- A condition or a group of conditions. -/
inductive Node where
  | leaf (predicate : Predicate)
  | group (combinator : Combinator) (closed : Bool) (children : List Node)

/-- The conditions collected so far; there is no root before the first of them. -/
structure Tree where
  root : Option Node := none

namespace Node

/-- The root that results when a node is added to a tree with the root `old`. -/
def extend (combinator : Combinator) (old new : Node) : Node :=
  match old with
  | group c false children =>
    if c = combinator then group c false (children ++ [new])
    else group combinator false [group c false children, new]
  | _ => group combinator false [old, new]

/-- The closed group of a nested sequence of calls whose tree has this root. -/
def close : Node → Node
  | group c false children => group c true children
  | node => group .and true [node]

mutual

/-- The node in SQL. Groups stand in parentheses, but for an open one at the root. -/
def render (d : Dialect) (top : Bool) : Node → Text
  | leaf predicate => predicate.render d
  | group combinator closed children =>
    let inside := List.intercalate combinator.separator (renderAll d children)
    if closed || !top then '(' :: inside ++ [')'] else inside

/-- The children of a group in SQL, in order. -/
def renderAll (d : Dialect) : List Node → List Text
  | [] => []
  | node :: nodes => render d false node :: renderAll d nodes

end

/-- The children of a group are printed one by one. -/
theorem renderAll_eq_map (d : Dialect) (nodes : List Node) :
    renderAll d nodes = nodes.map (render d false) := by
  induction nodes with
  | nil => rfl
  | cons node nodes ih => rw [renderAll, ih, List.map_cons]

end Node

namespace Tree

/-- Whether no condition has been added. -/
def isEmpty (t : Tree) : Bool :=
  t.root.isNone

/-- Adds a node. -/
def attach (combinator : Combinator) (t : Tree) (new : Node) : Tree :=
  match t.root with
  | none => ⟨some new⟩
  | some root => ⟨some (root.extend combinator new)⟩

/-- Adds single conditions one after the other. -/
def attachAll (combinator : Combinator) (t : Tree) (predicates : List Predicate) : Tree :=
  predicates.foldl (fun t p => t.attach combinator (.leaf p)) t

/-- Adds the conditions of a nested sequence of calls as one closed group; a sequence without any
    adds nothing. -/
def attachGroup (combinator : Combinator) (t inner : Tree) : Tree :=
  match inner.root with
  | none => t
  | some root => t.attach combinator root.close

/-- The conditions in SQL, without parentheses around the whole. -/
def render (d : Dialect) (t : Tree) : Text :=
  t.root.elim [] (Node.render d true)

end Tree

end SqlSelect
