/-!
Binary floating-point numbers with 64 bits: a sign, eleven bits of exponent and fifty-two bits of
fraction. A finite number is a whole significand times a power of two, which is how every question
about its value is answered here; no machine arithmetic is used. A quotient of natural numbers is
rounded to the nearest such number, a tie going to the even significand.
-/

namespace SqlSelect

/-- A floating-point number of 64 bits, by its three fields. -/
structure Binary64 where
  negative : Bool
  exponent : Fin 2048
  fraction : Fin (Nat.pow 2 52)
  deriving DecidableEq

namespace Binary64

/-- The number that a 64-bit word encodes. -/
def ofBits (word : UInt64) : Binary64 where
  negative := Nat.pow 2 63 ≤ word.toNat
  exponent := ⟨word.toNat / Nat.pow 2 52 % 2048, Nat.mod_lt _ (by decide)⟩
  fraction := ⟨word.toNat % Nat.pow 2 52, Nat.mod_lt _ (by decide)⟩

/-- All numbers but infinities and NaNs. -/
def isFinite (x : Binary64) : Bool :=
  x.exponent.val ≠ 2047

/-- The exponent field of infinities with a fraction that none of them has. -/
def isNaN (x : Binary64) : Bool :=
  x.exponent.val = 2047 && x.fraction.val ≠ 0

/-- The whole number that a finite value is a power of two away from. -/
def significand (x : Binary64) : Nat :=
  if x.exponent.val = 0 then x.fraction else Nat.pow 2 52 + x.fraction

/-- The exponent of that power of two: the value is `significand * 2 ^ scale` up to the sign. -/
def scale (x : Binary64) : Int :=
  if x.exponent.val = 0 then -1074 else x.exponent.val - 1075

/-- The number of a given sign whose magnitude has a given place in the ascending order of all
    magnitudes, starting with zero; places past the largest finite one give infinity. -/
def ofRank (negative : Bool) (rank : Nat) : Binary64 where
  negative := negative
  exponent := ⟨min (rank / Nat.pow 2 52) 2047, by omega⟩
  fraction :=
    if rank / Nat.pow 2 52 < 2047 then ⟨rank % Nat.pow 2 52, Nat.mod_lt _ (by decide)⟩
    else ⟨0, by decide⟩

/-- The whole number nearest to `num / den`, the even one of two equally near. -/
def nearestWhole (num den : Nat) : Nat :=
  let low := num / den
  let rest := 2 * (num % den)
  if rest < den || (rest = den && low % 2 = 0) then low else low + 1

/-- `num / (den * 2 ^ e)` as a quotient of natural numbers. -/
def scaleDown (num den : Nat) (e : Int) : Nat × Nat :=
  if 0 ≤ e then (num, den * Nat.pow 2 e.toNat) else (num * Nat.pow 2 (-e).toNat, den)

/-- The scale at which the quotient `num / den` has a significand of fifty-three bits, or the least
    scale there is if that is greater. -/
def scaleOf (num den : Nat) : Int :=
  let guess : Int := (Nat.log2 num : Int) - Nat.log2 den - 53
  let (n, d) := scaleDown num den guess
  max (-1074) (if n / d < Nat.pow 2 53 then guess else guess + 1)

/-- The number nearest to `num / den` with the given sign; of two equally near ones that with the
    even significand, and infinity beyond the finite range. -/
def nearest (negative : Bool) (num den : Nat) : Binary64 :=
  if num = 0 then ofRank negative 0
  else
    let e := scaleOf num den
    let (n, d) := scaleDown num den e
    ofRank negative ((e + 1074).toNat * Nat.pow 2 52 + nearestWhole n d)

/-- The number nearest to `digits * 10 ^ exponent`. The power of ten need not grow past what makes
    any digits infinite, nor shrink past what makes these digits zero. -/
def ofDecimal (negative : Bool) (digits : Nat) (exponent : Int) : Binary64 :=
  if 0 ≤ exponent then nearest negative (digits * Nat.pow 10 (min exponent.toNat 310)) 1
  else nearest negative digits (Nat.pow 10 (min (-exponent).toNat (digits.log2 + 330)))

/-- The number with the value of the floating-point number that a 32-bit word encodes: one bit of
    sign, eight of exponent and twenty-three of fraction. -/
def ofBits32 (word : UInt32) : Binary64 :=
  let negative : Bool := Nat.pow 2 31 ≤ word.toNat
  let exponent := word.toNat / Nat.pow 2 23 % 256
  let fraction := word.toNat % Nat.pow 2 23
  if exponent = 255 then
    ⟨negative, 2047, ⟨fraction * Nat.pow 2 29 % Nat.pow 2 52, Nat.mod_lt _ (by decide)⟩⟩
  else
    let significand := if exponent = 0 then fraction else Nat.pow 2 23 + fraction
    nearest negative (significand * Nat.pow 2 (max exponent 1)) (Nat.pow 2 150)

end Binary64

end SqlSelect
