import SqlSelect.Log.Level
import SqlSelect.Rejection

/-!
What is reported to the log: rejected calls, always at level `DEBUG`, and statements that were
rendered while the settings ask for it. An event has a target, a level and named fields.
-/

namespace SqlSelect

/-- An event of the log. -/
inductive Event where
  | rejected (call : Text) (reason : Rejection)
  | rendered (level : Level) (dialect sql : Text)
  deriving DecidableEq

namespace Event

/-- The part of the library that the event comes from. -/
def target : Event → Text
  | rejected _ _ => "sqlqb.builder".toList
  | rendered _ _ _ => "sqlqb.sql".toList

/-- How grave the event is. -/
def level : Event → Level
  | rejected _ _ => .debug
  | rendered level _ _ => level

/-- The fields of the event with their names, the message last. -/
def fields : Event → List (Text × Text)
  | rejected call reason =>
    [("op".toList, call), ("kind".toList, reason.kind.label), ("error".toList, reason.message),
     ("message".toList, "sqlqb rejected call".toList)]
  | rendered _ dialect sql =>
    [("connection".toList, dialect), ("sql".toList, sql), ("message".toList, "sqlqb".toList)]

end Event

end SqlSelect
