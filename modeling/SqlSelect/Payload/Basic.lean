import SqlSelect.Text.Basic

/-!
Data as it arrives in requests: JSON values, whose numbers are kept as they are written. A number
written without point and exponent is a whole number of any size; any other is a decimal with an
exponent, whose sign is kept apart so that it may be a negative zero.
-/

namespace SqlSelect

/-- A JSON value. The fields of an object stand in the order in which they were written. -/
inductive Payload where
  | null
  | bool (value : Bool)
  | whole (value : Int)
  | decimal (negative : Bool) (digits : Nat) (exponent : Int)
  | text (value : Text)
  | list (items : List Payload)
  | object (fields : List (Text × Payload))

namespace Payload

/-- What messages call the type of a value. -/
def typeName : Payload → Text
  | null => "null".toList
  | bool _ => "bool".toList
  | whole _ => "number".toList
  | decimal _ _ _ => "number".toList
  | text _ => "string".toList
  | list _ => "array".toList
  | object _ => "object".toList

/-- The value of a field of an object. -/
def field? (name : Text) : Payload → Option Payload
  | object fields => fields.lookup name
  | _ => none

end Payload

end SqlSelect
