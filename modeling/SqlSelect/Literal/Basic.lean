import SqlSelect.Calendar
import SqlSelect.Dialect
import SqlSelect.Number.Shortest
import SqlSelect.Rejection

/-!
Values on the right-hand side of a condition. They are written into the statement as SQL literals:
numbers and `NULL` bare, texts and moments through the quoting rule of the dialect. Infinities and
NaNs have no literal; they are still written when asked for, but no condition accepts them.
-/

namespace SqlSelect

/-- A value to compare with. Whole numbers up to `2 ^ 63 - 1` are signed words, greater ones
    unsigned. -/
inductive Literal where
  | null
  | bool (value : Bool)
  | int (value : Int64)
  | uint (value : UInt64)
  | float (value : Binary64)
  | text (value : Text)
  | timestamp (value : Timestamp)
  deriving DecidableEq

namespace Literal

/-- What messages call the type of a value. -/
def typeName : Literal → Text
  | null => "null".toList
  | bool _ => "bool".toList
  | int _ => "integer".toList
  | uint _ => "integer".toList
  | float _ => "float".toList
  | text _ => "string".toList
  | timestamp _ => "datetime".toList

/-- The literal in SQL. -/
def render (d : Dialect) : Literal → Text
  | null => "NULL".toList
  | bool true => ['1']
  | bool false => ['0']
  | int n => Numeral.ofInt n.toInt
  | uint n => Numeral.ofNat n.toNat
  | float x => x.text
  | text s => d.quote s
  | timestamp t => d.quote t.text

/-- Rejects values without a literal. -/
def validate : Literal → Checked Unit
  | float x =>
    if x.isFinite then .ok () else .error (.invalidArgument (.notFinite x.text))
  | _ => .ok ()

/-- The whole number that a literal stands for, if it is one. -/
def whole? : Literal → Option Int
  | int n => some n.toInt
  | uint n => some n.toNat
  | _ => none

/-- The literal of a whole number that is not negative: signed as long as it fits. -/
def ofUInt64 (n : UInt64) : Literal :=
  if n.toNat ≤ Int64.maxValue.toInt.toNat then int (Int64.ofNat n.toNat) else uint n

end Literal

end SqlSelect
