import SqlSelect.Identifier
import SqlSelect.Names
import SqlSelect.Text.Blank

/-!
Sort keys: columns or verbatim expressions, each with a direction. The words for directions are
recognised in any case, but without any blanks around them.
-/

namespace SqlSelect

/-- A sort direction; ascending unless another is given. -/
inductive Direction where
  | ascending | descending
  deriving DecidableEq, Inhabited

/-- What rows are sorted by. -/
inductive SortExpression where
  | column (name : Identifier)
  | raw (expression : Text)
  deriving DecidableEq

/-- A sort key. -/
structure SortKey where
  expression : SortExpression
  direction : Direction
  deriving DecidableEq

namespace Direction

/-- The direction in SQL. -/
def text : Direction → Text
  | ascending => "ASC".toList
  | descending => "DESC".toList

/-- Reads a direction. -/
def ofText (s : Text) : Checked Direction :=
  if Text.sameWord s "ASC".toList then .ok ascending
  else if Text.sameWord s "DESC".toList then .ok descending
  else .error (.invalidDirection s)

/-- Reads a direction that may be left out. -/
def ofText? : Option Text → Checked Direction
  | none => .ok default
  | some s => ofText s

end Direction

namespace SortKey

/-- A column as a sort key. -/
def ofColumn (direction : Direction) (column : Text) : Checked SortKey := do
  let name ← Identifier.ofText column
  return ⟨.column name, direction⟩

/-- A verbatim expression, which must not be blank, as a sort key. -/
def ofRaw (direction : Direction) (expression : Text) : Checked SortKey :=
  if Text.allBlank expression then .error (.invalidArgument (.blankRaw .order))
  else .ok ⟨.raw expression, direction⟩

/-- The sort key in SQL. -/
def render (key : SortKey) : Text :=
  (match key.expression with
    | .column name => name.render
    | .raw expression => expression) ++ ' ' :: key.direction.text

/-- The sort keys that an argument names, made by `make`. The direction of the call is read first;
    the values of a mapping are directions, which take its place. -/
def readAll (make : Direction → Text → Checked SortKey) (keys : Names Text)
    (direction : Option Text) : Checked (List SortKey) := do
  let common ← Direction.ofText? direction
  match keys with
  | .one key => return [← make common key]
  | .many keys =>
    if keys.isEmpty then .error (.invalidArgument (.emptyListing .sortColumns))
    else keys.mapM (make common)
  | .pairs entries =>
    if entries.isEmpty then .error (.invalidArgument (.emptyListing .sortMapping))
    else entries.mapM fun (key, token) => do
      let direction ← Direction.ofText token
      make direction key

/-- Sort keys in SQL. -/
def renderAll (keys : List SortKey) : Text :=
  List.intercalate [','] (keys.map render)

end SortKey

end SqlSelect
