import SqlSelect.Literal.Basic
import SqlSelect.Names
import SqlSelect.Payload.Basic
import SqlSelect.Settings

/-!
Request data as arguments of calls: scalars as literals, arrays as lists of them, strings, arrays
and objects as names, and objects or arrays as settings. Data of another shape is a type error that
says what was expected and what was found; settings only say that they could not be read.
-/

namespace SqlSelect

/-! ### Values -/

namespace Literal

/-- A whole number as a literal: a signed word if it fits, else an unsigned one, else the nearest
    floating-point number. -/
def ofWhole (n : Int) : Literal :=
  if Int64.minValue.toInt ≤ n ∧ n ≤ Int64.maxValue.toInt then int (Int64.ofInt n)
  else if 0 ≤ n ∧ n.toNat < UInt64.size then uint (UInt64.ofNat n.toNat)
  else float (Binary64.ofDecimal (n < 0) n.natAbs 0)

/-- A scalar as a literal. -/
def ofPayload : Payload → Checked Literal
  | .null => .ok null
  | .bool b => .ok (bool b)
  | .whole n => .ok (ofWhole n)
  | .decimal negative digits exponent => .ok (float (Binary64.ofDecimal negative digits exponent))
  | .text s => .ok (text s)
  | other => .error (.typeError "scalar".toList other.typeName)

/-- An array of scalars as literals; the first item that is no scalar is reported. -/
def listOfPayload : Payload → Checked (List Literal)
  | .list items => items.mapM ofPayload
  | other => .error (.typeError "array".toList other.typeName)

end Literal

/-! ### Names -/

namespace Payload

/-- The text of a string. -/
def asText : Payload → Checked Text
  | text s => .ok s
  | other => .error (.typeError "string".toList other.typeName)

/-- The fields of an object in ascending order of their names, by code points. -/
def sortedFields (fields : List (Text × Payload)) : List (Text × Payload) :=
  fields.mergeSort fun a b => !b.1.lex a.1 fun c d => c.toNat < d.toNat

end Payload

/-- A string as one name, an array of strings as a list of names, and an object of strings as a
    mapping in the order of its keys. -/
def Names.ofPayload : Payload → Checked (Names Text)
  | .text s => .ok (.one s)
  | .list items => return .many (← items.mapM Payload.asText)
  | .object fields => return .pairs (← (Payload.sortedFields fields).mapM fun (name, value) => do
      let text ← value.asText
      return (name, text))
  | other => .error (.typeError "string, array or object".toList other.typeName)

/-! ### Settings -/

namespace Payload

/-- The truth value of a boolean. -/
def asBool? : Payload → Option Bool
  | bool b => some b
  | _ => none

/-- The level that a string names. -/
def asLevel? : Payload → Option Level
  | text s => Level.ofText? s
  | _ => none

/-- A limit: none for null, otherwise a whole number that fits a machine word. -/
def asLimit? : Payload → Option (Option Nat)
  | null => some none
  | whole n => if 0 ≤ n ∧ n.toNat < UInt64.size then some (some n.toNat) else none
  | _ => none

/-- The value of a field, or a default if there is no such field. -/
def fieldOr {α : Type} (fields : List (Text × Payload)) (name : String) (default : α)
    (read : Payload → Option α) : Option α :=
  match fields.lookup name.toList with
  | none => some default
  | some value => read value

end Payload

namespace Settings

/-- The names of the settings in request data, in the order of their positions in arrays. -/
def fieldNames : List Text :=
  ["log_sql".toList, "sql_log_level".toList, "max_sql_length".toList, "max_in_list".toList]

/-- Settings from named fields; missing ones have their defaults and unknown ones are ignored. -/
def ofFields? (fields : List (Text × Payload)) : Option Settings := do
  let preset : Settings := {}
  let logSql ← Payload.fieldOr fields "log_sql" preset.logSql Payload.asBool?
  let sqlLevel ← Payload.fieldOr fields "sql_log_level" preset.sqlLevel Payload.asLevel?
  let maxSqlLength ← Payload.fieldOr fields "max_sql_length" preset.maxSqlLength Payload.asLimit?
  let maxInList ← Payload.fieldOr fields "max_in_list" preset.maxInList Payload.asLimit?
  return { logSql, sqlLevel, maxSqlLength, maxInList }

/-- Settings from an object, or from an array of their values in order, the last of which may be
    missing. -/
def ofPayload? : Payload → Option Settings
  | .object fields => ofFields? fields
  | .list items =>
    if items.length ≤ fieldNames.length then ofFields? (fieldNames.zip items) else none
  | _ => none

end Settings

end SqlSelect
