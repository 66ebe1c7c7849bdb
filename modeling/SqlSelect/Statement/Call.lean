import SqlSelect.Statement.Basic

/-!
The calls that build a statement. Each call either has its whole effect or is rejected; a rejected
call leaves every part of the statement as it was and is reported once, under its own name.
-/

namespace SqlSelect

/-- The target of a join as callers write it. -/
inductive JoinTarget where
  | table (name : Text)
  | aliased (name aliasName : Text)
  | raw (expression aliasName : Text)

/-- A call on a statement. -/
inductive Call where
  | select (columns : Names Text)
  | addSelect (columns : Names Text)
  | addRawSelect (expression aliasName : Text)
  | fromTables (tables : Names Text)
  | fromAliased (table aliasName : Text)
  | fromRaw (expression aliasName : Text)
  | join (kind : JoinKind) (target : Source) (localTable : Text) (fields : JoinFields)
  | joinTarget (kind : JoinKind) (target : JoinTarget) (localTable : Text) (fields : JoinFields)
  | condition (call : ConditionCall)
  | orderBy (columns : Names Text) (direction : Option Text)
  | orderByRaw (expressions : Names Text) (direction : Option Text)
  | limit (count : Int) (offset : Option Int)
  | setDialect (d : Dialect)
  | configure (settings : Settings)

namespace JoinTarget

/-- The source that the target stands for. -/
def read : JoinTarget → Checked Source
  | table name => Source.ofName name
  | aliased name aliasName => Source.ofAliased name aliasName
  | raw expression aliasName => Source.ofRaw expression aliasName

/-- The name of a join of a kind with this target in log events. -/
def callName (kind : JoinKind) (target : JoinTarget) : Text :=
  let base := match kind with
    | .left => "left_join".toList
    | .inner => "inner_join".toList
    | .right => "right_join".toList
  match target with
  | table _ => base
  | aliased _ _ => base ++ "_as".toList
  | raw _ _ => "raw_".toList ++ base

end JoinTarget

/-- The name of a call in log events. -/
def Call.name : Call → Text
  | select _ => "select".toList
  | addSelect _ => "add_select".toList
  | addRawSelect _ _ => "add_raw_select".toList
  | fromTables _ => "from".toList
  | fromAliased _ _ => "from_as".toList
  | fromRaw _ _ => "raw_from".toList
  | join _ _ _ _ => "join".toList
  | joinTarget kind target _ _ => target.callName kind
  | condition call => call.name
  | orderBy _ _ => "order_by".toList
  | orderByRaw _ _ => "raw_order_by".toList
  | limit _ _ => "limit".toList
  | setDialect _ => "set_connection".toList
  | configure _ => "with_config".toList

namespace Statement

/-- Puts a checked part into the statement, or reports why there is none. -/
def settle {α : Type} (s : Statement) (call : Call) (put : α → Statement) :
    Checked α → Outcome Statement
  | .ok part => .unchanged (put part)
  | .error reason => ⟨s, .error reason, [.rejected call.name reason]⟩

/-- Replaces the outputs. -/
def putOutputs (s : Statement) (outputs : Outputs) : Statement :=
  { s with outputs := outputs }

/-- Replaces the sources. -/
def putSources (s : Statement) (sources : Sources) : Statement :=
  { s with sources := sources }

/-- Adds sort keys at the end. -/
def addKeys (s : Statement) (keys : List SortKey) : Statement :=
  { s with ordering := s.ordering ++ keys }

/-- Replaces the window. -/
def putWindow (s : Statement) (window : Window) : Statement :=
  { s with window := some window }

/-- Replaces the conditions by those of a context. -/
def putContext (s : Statement) (ctx : Context) : Statement :=
  { s with conditions := ctx.tree }

/-- Makes a call. -/
def perform (s : Statement) (call : Call) : Outcome Statement :=
  match call with
  | .select columns =>
    s.settle call s.putOutputs (do ({} : Outputs).append (← Outputs.read columns))
  | .addSelect columns => s.settle call s.putOutputs (do s.outputs.append (← Outputs.read columns))
  | .addRawSelect expression aliasName =>
    s.settle call s.putOutputs (do s.outputs.append [← Output.ofRaw expression aliasName])
  | .fromTables tables =>
    s.settle call s.putSources (do s.sources.addTables (← Sources.read tables))
  | .fromAliased table aliasName =>
    s.settle call s.putSources (do s.sources.addTables [← Source.ofAliased table aliasName])
  | .fromRaw expression aliasName =>
    s.settle call s.putSources (do s.sources.addTables [← Source.ofRaw expression aliasName])
  | .join kind target localTable fields =>
    s.settle call s.putSources (s.sources.addJoin kind target localTable fields)
  | .joinTarget kind target localTable fields =>
    s.settle call s.putSources (do s.sources.addJoin kind (← target.read) localTable fields)
  | .condition conditionCall => (conditionCall.run s.context).map s.putContext
  | .orderBy columns direction =>
    s.settle call s.addKeys (SortKey.readAll SortKey.ofColumn columns direction)
  | .orderByRaw expressions direction =>
    s.settle call s.addKeys (SortKey.readAll SortKey.ofRaw expressions direction)
  | .limit count offset => s.settle call s.putWindow (Window.ofInts count offset)
  | .setDialect d => .unchanged { s with dialect := d }
  | .configure settings => .unchanged { s with settings := settings }

/-- The statement after calls made one after the other, accepted or not. -/
def run (s : Statement) (calls : List Call) : Statement :=
  calls.foldl (fun s call => (s.perform call).state) s

/-- A statement that puts out the given columns. -/
def select (columns : Names Text) : Outcome Statement :=
  new.perform (.select columns)

/-- A statement that reads from a table. -/
def selectFrom (table : Text) : Outcome Statement :=
  new.perform (.fromTables (.one table))

end Statement

end SqlSelect
