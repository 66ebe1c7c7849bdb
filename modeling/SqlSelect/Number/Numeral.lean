import SqlSelect.Text.Basic

/-!
Decimal numerals of natural numbers and integers, and the number that a row of digits stands for.
A numeral has no leading zeros and a negative one starts with a minus sign.
-/

namespace SqlSelect.Numeral

/-- The decimal digits of a natural number, without leading zeros. -/
def ofNat (n : Nat) : Text :=
  Nat.toDigits 10 n

/-- The decimal numeral of an integer. -/
def ofInt : Int → Text
  | .ofNat n => ofNat n
  | .negSucc n => '-' :: ofNat (n + 1)

/-- The numeral with zeros in front, up to `width` digits; longer numerals are left as they are. -/
def padded (width n : Nat) : Text :=
  List.replicate (width - (ofNat n).length) '0' ++ ofNat n

/-- The number that the digits stand for when they follow a number read so far. -/
def valueFrom : Nat → Text → Option Nat
  | n, [] => some n
  | n, c :: rest => if c.isDigit then valueFrom (10 * n + (c.toNat - '0'.toNat)) rest else none

/-- The number written by a row of ASCII digits, of which there has to be at least one; leading
    zeros are allowed. -/
def value? : Text → Option Nat
  | [] => none
  | c :: rest => valueFrom 0 (c :: rest)

/-- The numeral of zero is one digit. -/
theorem ofNat_zero : ofNat 0 = ['0'] := rfl

end SqlSelect.Numeral
