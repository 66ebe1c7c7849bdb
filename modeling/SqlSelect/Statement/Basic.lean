import SqlSelect.Clause.Ordering
import SqlSelect.Clause.Outputs
import SqlSelect.Clause.Sources
import SqlSelect.Clause.Window
import SqlSelect.Condition.Script
import SqlSelect.Settings
import SqlSelect.Text.Shortened

/-!
A `SELECT` statement under construction and its text. The text follows from the parts of the
statement alone, so rendering can be repeated at will; clauses without content are left out.

        SELECT outputs [FROM tables] [joins] [WHERE (conditions)] [ORDER BY keys] [LIMIT window]
-/

namespace SqlSelect

/-- The parts of a statement. -/
structure Statement where
  dialect : Dialect := default
  settings : Settings := {}
  outputs : Outputs := {}
  sources : Sources := {}
  conditions : Tree := {}
  ordering : List SortKey := []
  window : Option Window := none

namespace Statement

/-- A statement without any parts. -/
def new : Statement := {}

/-- A statement without any parts, written for a dialect. -/
def withDialect (d : Dialect) : Statement :=
  { dialect := d }

/-- A statement without any parts, written for the dialect that a provider hands out. -/
def ofProvider {Provider : Type} [DialectProvider Provider] (provider : Provider) : Statement :=
  withDialect (DialectProvider.dialect provider)

/-- Whether any condition has been added. -/
def hasConditions (s : Statement) : Bool :=
  !s.conditions.isEmpty

/-- The effective names of the output columns. -/
def selectedNames (s : Statement) : List Text :=
  s.outputs.names

/-- The effective names of tables and joins. -/
def tableNames (s : Statement) : List Text :=
  s.sources.names.map Segment.text

/-- The `WHERE` clause, after a blank. -/
def whereClause (s : Statement) : Text :=
  if s.conditions.isEmpty then []
  else " WHERE (".toList ++ s.conditions.render s.dialect ++ [')']

/-- The `ORDER BY` clause, after a blank. -/
def orderClause (s : Statement) : Text :=
  if s.ordering.isEmpty then [] else " ORDER BY ".toList ++ SortKey.renderAll s.ordering

/-- The `LIMIT` clause, after a blank. -/
def limitClause (s : Statement) : Text :=
  match s.window with
  | none => []
  | some window => " LIMIT ".toList ++ window.render

/-- The statement in SQL. -/
def sql (s : Statement) : Text :=
  "SELECT ".toList ++ s.outputs.render ++ s.sources.render s.dialect ++ s.whereClause ++
    s.orderClause ++ s.limitClause

/-- What rendering the statement reports: its text, shortened as the settings say, if they ask for
    it at all. -/
def sqlEvents (s : Statement) : List Event :=
  if s.settings.logSql then
    [.rendered s.settings.sqlLevel s.dialect.name (s.sql.shortened s.settings.maxSqlLength)]
  else []

/-- The context in which conditions are added to the statement. -/
def context (s : Statement) : Context where
  tree := s.conditions
  cap := s.settings.maxInList
  nested := false

end Statement

end SqlSelect
