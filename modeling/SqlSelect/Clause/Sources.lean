import SqlSelect.Clause.Distinct
import SqlSelect.Condition.Tree
import SqlSelect.Names

/-!
The sources of a statement: tables it reads from and joins onto them. A source is a table or a
verbatim expression; other clauses know it by its effective name, the alias if there is one. The
effective names of tables and joins together are distinct. A join compares fields of its own target
with fields of a source that is already there, so each `ON` speaks of earlier sources only.
-/

namespace SqlSelect

/-- A table or verbatim expression to read from. -/
inductive Source where
  | table (name : Segment) (aliasName : Option Segment)
  | raw (expression : Text) (aliasName : Segment)
  deriving DecidableEq

/-- Which rows without a partner a join keeps. -/
inductive JoinKind where
  | left | inner | right
  deriving DecidableEq

/-- A join of a target onto the sources before it. -/
structure Join where
  kind : JoinKind
  target : Source
  on : Tree

/-- The tables and joins of a statement, each in the order in which they were added. -/
structure Sources where
  tables : List Source := []
  joins : List Join := []

namespace Source

/-- A table under its own name. -/
def ofName (name : Text) : Checked Source := do
  let name ← Segment.parse name
  return .table name none

/-- A table under an alias; the table is checked before the alias. -/
def ofAliased (name aliasName : Text) : Checked Source := do
  let name ← Segment.parse name
  let shown ← Segment.parse aliasName
  return .table name (some shown)

/-- A verbatim expression, which must not be blank, under an alias. -/
def ofRaw (expression aliasName : Text) : Checked Source :=
  if Text.allBlank expression then .error (.invalidArgument (.blankRaw .table))
  else do
    let shown ← Segment.parse aliasName
    return .raw expression shown

/-- The name by which other clauses know the source. -/
def effectiveName : Source → Segment
  | table name none => name
  | table _ (some aliasName) => aliasName
  | raw _ aliasName => aliasName

/-- Whether the source is a verbatim expression. -/
def isRaw : Source → Bool
  | table _ _ => false
  | raw _ _ => true

/-- The source in SQL; an alias that equals the name of the table is not printed. -/
def render : Source → Text
  | table name none => name.render
  | table name (some aliasName) =>
    if aliasName = name then name.render else name.render ++ " AS ".toList ++ aliasName.render
  | raw expression aliasName => expression ++ " AS ".toList ++ aliasName.render

end Source

/-- The join in SQL, up to its target. -/
def JoinKind.text : JoinKind → Text
  | left => "LEFT JOIN".toList
  | inner => "INNER JOIN".toList
  | right => "RIGHT JOIN".toList

/-- The join in SQL. -/
def Join.render (d : Dialect) (j : Join) : Text :=
  j.kind.text ++ ' ' :: j.target.render ++ " ON ".toList ++ j.on.render d

/-! ### Fields of a join -/

/-- Which fields a join compares, as callers write them: one pair under an operator, equality if
    none is given, or several pairs of equal fields under a combinator. The first field of a pair
    belongs to the target. -/
inductive JoinFields where
  | pair (foreign : Text) (operator : Option Text) (near : Text)
  | pairs (entries : List (Text × Text)) (combinator : Combinator)

namespace JoinFields

/-- The pairs of fields. -/
def entries : JoinFields → List (Text × Text)
  | pair foreign _ near => [(foreign, near)]
  | pairs entries _ => entries

/-- How the comparisons of several pairs are combined. -/
def combinator : JoinFields → Combinator
  | pair _ _ _ => .and
  | pairs _ combinator => combinator

/-- The operator of the comparisons. -/
def operator : JoinFields → Checked Operator
  | pair _ (some token) _ => Operator.ofText token
  | _ => .ok .equal

/-- A pair of fields, each an unqualified name. -/
def readPair (fields : Text × Text) : Checked (Segment × Segment) := do
  let foreign ← Segment.parse fields.1
  let near ← Segment.parse fields.2
  return (foreign, near)

/-- The comparison of a field of the target with a field of the other source. -/
def comparison (target near : Segment) (operator : Operator) (fields : Segment × Segment) :
    Predicate :=
  .columns ⟨some target, fields.1⟩ operator ⟨some near, fields.2⟩

/-- The conditions of a join of a target onto another source: all fields are checked in order, then
    the operator. -/
def build (fields : JoinFields) (target near : Segment) : Checked Tree :=
  if fields.entries.isEmpty then .error (.invalidArgument (.emptyListing .joinFields))
  else do
    let pairs ← fields.entries.mapM readPair
    let operator ← fields.operator
    return ({} : Tree).attachAll fields.combinator (pairs.map (comparison target near operator))

end JoinFields

/-! ### All sources -/

namespace Sources

/-- The tables that an argument names; the names of a mapping are aliases. -/
def read : Names Text → Checked (List Source)
  | .one table => return [← Source.ofName table]
  | .many tables =>
    if tables.isEmpty then .error (.invalidArgument (.emptyListing .tables))
    else tables.mapM Source.ofName
  | .pairs entries =>
    if entries.isEmpty then .error (.invalidArgument (.emptyListing .tableMapping))
    else entries.mapM fun (aliasName, table) => Source.ofAliased table aliasName

/-- The effective names of all tables, then of all joins. -/
def names (s : Sources) : List Segment :=
  s.tables.map Source.effectiveName ++ s.joins.map fun j => j.target.effectiveName

/-- The effective name with these characters, if a source has it. -/
def find? (s : Sources) (name : Text) : Option Segment :=
  s.names.find? fun known => known.text = name

/-- Adds tables, all or none of them. -/
def addTables (s : Sources) (new : List Source) : Checked Sources :=
  match firstTaken (s.names.map Segment.text) (new.map fun t => t.effectiveName.text) with
  | some name => .error (.duplicateIdentifier (.source name))
  | none => .ok { s with tables := s.tables ++ new }

/-- Adds a join of a target onto the source with a given name: the source has to be there, the name
    of the target has to be new, and the fields have to be well-formed, in this order. -/
def addJoin (s : Sources) (kind : JoinKind) (target : Source) (localTable : Text)
    (fields : JoinFields) : Checked Sources :=
  let name := target.effectiveName
  match s.find? localTable with
  | none => .error (.orphanedJoin name.text localTable)
  | some near =>
    if name ∈ s.names then .error (.duplicateIdentifier (.source name.text))
    else do
      let on ← fields.build name near
      return { s with joins := s.joins ++ [⟨kind, target, on⟩] }

/-- The joins in SQL, each after a blank. -/
def renderJoins (d : Dialect) (s : Sources) : Text :=
  s.joins.flatMap fun j => ' ' :: j.render d

/-- The tables and joins in SQL, with a blank before each clause. -/
def render (d : Dialect) (s : Sources) : Text :=
  (if s.tables.isEmpty then []
   else " FROM ".toList ++ List.intercalate [','] (s.tables.map Source.render)) ++ s.renderJoins d

end Sources

end SqlSelect
