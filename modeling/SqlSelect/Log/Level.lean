import SqlSelect.Number.Numeral

/-!
Levels of log events. In settings a level is named in any case, or numbered from one, the gravest,
to five.
-/

namespace SqlSelect

/-- How grave a log event is. -/
inductive Level where
  | error | warn | info | debug | trace
  deriving DecidableEq

namespace Level

/-- The levels from the gravest on. -/
def all : List Level :=
  [error, warn, info, debug, trace]

/-- The name of a level in events. -/
def text : Level → Text
  | error => "ERROR".toList
  | warn => "WARN".toList
  | info => "INFO".toList
  | debug => "DEBUG".toList
  | trace => "TRACE".toList

/-- The level with a number. -/
def ofNumber? : Nat → Option Level
  | 0 => none
  | n + 1 => all[n]?

/-- Reads a level given by its number, before which a plus sign may stand, or by its name. -/
def ofText? (s : Text) : Option Level :=
  match Numeral.value? (if s.head? = some '+' then s.tail else s) with
  | some n => ofNumber? n
  | none => all.find? fun level => Text.sameWord s level.text

end Level

end SqlSelect
