import SqlSelect.Log.Level

/-!
Settings of a statement: whether rendered SQL is logged, at which level and how much of it, and how
many values a membership condition may list.
-/

namespace SqlSelect

/-- The settings of a statement; the defaults log nothing and accept lists of any length. -/
structure Settings where
  logSql : Bool := false
  sqlLevel : Level := .debug
  maxSqlLength : Option Nat := some 200
  maxInList : Option Nat := none
  deriving DecidableEq

namespace Settings

/-- Switches the logging of rendered SQL on. -/
def enableLogging (s : Settings) : Settings :=
  { s with logSql := true }

/-- Switches the logging of rendered SQL off. -/
def disableLogging (s : Settings) : Settings :=
  { s with logSql := false }

/-- Sets the level at which rendered SQL is logged. -/
def withSqlLevel (level : Level) (s : Settings) : Settings :=
  { s with sqlLevel := level }

/-- Sets the number of bytes after which logged SQL is cut. -/
def withMaxSqlLength (bytes : Nat) (s : Settings) : Settings :=
  { s with maxSqlLength := some bytes }

/-- Logs rendered SQL in full. -/
def withoutMaxSqlLength (s : Settings) : Settings :=
  { s with maxSqlLength := none }

/-- Sets the greatest number of values in a membership condition. -/
def withMaxInList (values : Nat) (s : Settings) : Settings :=
  { s with maxInList := some values }

end Settings

end SqlSelect
