import SqlSelect.Clause.Distinct
import SqlSelect.Identifier
import SqlSelect.Names
import SqlSelect.Text.Blank

/-!
The columns that a statement puts out. Each is a column of a table or a verbatim expression, and has
an effective name: its alias, or the column as it is written. Effective names are distinct. An alias
that equals the column it stands for is not printed.
-/

namespace SqlSelect

/-- An output column. -/
inductive Output where
  | column (name : Identifier) (aliasName : Option Segment)
  | raw (expression : Text) (aliasName : Segment)
  deriving DecidableEq

/-- The output columns in order; none stands for all columns of the sources. -/
structure Outputs where
  items : List Output := []
  deriving DecidableEq

namespace Output

/-- A column under its own name. -/
def ofColumn (column : Text) : Checked Output := do
  let name ← Identifier.ofText column
  return .column name none

/-- A column under an alias; the column is checked before the alias. -/
def ofAliased (column aliasName : Text) : Checked Output := do
  let name ← Identifier.ofText column
  let shown ← Segment.parse aliasName
  return .column name (some shown)

/-- A verbatim expression, which must not be blank, under an alias, which must be given. -/
def ofRaw (expression aliasName : Text) : Checked Output :=
  if aliasName.isEmpty then .error (.invalidIdentifier .rawSelectWithoutAlias)
  else do
    let shown ← Segment.parse aliasName
    if Text.allBlank expression then .error (.invalidArgument (.blankRaw .select))
    else return .raw expression shown

/-- The name under which the column is put out. -/
def effectiveName : Output → Text
  | column name none => name.text
  | column _ (some aliasName) => aliasName.text
  | raw _ aliasName => aliasName.text

/-- The output column in SQL. -/
def render : Output → Text
  | column name none => name.render
  | column name (some aliasName) =>
    if aliasName.text = name.text then name.render
    else name.render ++ " AS ".toList ++ aliasName.render
  | raw expression aliasName => expression ++ " AS ".toList ++ aliasName.render

end Output

namespace Outputs

/-- The output columns that an argument names; the names of a mapping are aliases. -/
def read : Names Text → Checked (List Output)
  | .one column => return [← Output.ofColumn column]
  | .many columns =>
    if columns.isEmpty then .error (.invalidArgument (.emptyListing .columns))
    else columns.mapM Output.ofColumn
  | .pairs entries =>
    if entries.isEmpty then .error (.invalidArgument (.emptyListing .columnMapping))
    else entries.mapM fun (aliasName, column) => Output.ofAliased column aliasName

/-- The effective names in order. -/
def names (o : Outputs) : List Text :=
  o.items.map Output.effectiveName

/-- Adds new columns at the end, all or none of them. -/
def append (o : Outputs) (new : List Output) : Checked Outputs :=
  match firstTaken o.names (new.map Output.effectiveName) with
  | some name => .error (.duplicateIdentifier (.output name))
  | none => .ok ⟨o.items ++ new⟩

/-- The output columns in SQL. -/
def render (o : Outputs) : Text :=
  if o.items.isEmpty then ['*'] else List.intercalate [','] (o.items.map Output.render)

end Outputs

end SqlSelect
