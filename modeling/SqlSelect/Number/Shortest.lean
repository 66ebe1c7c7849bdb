import SqlSelect.Number.Binary64
import SqlSelect.Number.Numeral

/-!
Decimal text of floating-point numbers. A finite number is written with the fewest digits that
read back as the same number, and of the candidates with that many digits with the nearest; two
equally near ones go to the greater. The digits are laid out in full, however long the number gets:
there is no exponent, and no decimal point after a whole number.

The numbers that read back as `x` fill an interval around `x` that reaches half way to its two
neighbours, ends included if the significand of `x` is even. Candidates with `n` digits lie on a
decimal grid; if any of them is in the interval, one of the two next to `x` is.
-/

namespace SqlSelect.Binary64

/-- A positive number with the ends of the interval of the numbers that round to it, all three as
    numerators over one denominator, and whether the ends belong to the interval. -/
structure Neighbourhood where
  value : Nat
  low : Nat
  high : Nat
  den : Nat
  closed : Bool

/-- The interval of the numbers that round to a finite number that is not zero. The neighbour below
    a power of two is only half as far away as the one above. -/
def neighbourhood (x : Binary64) : Neighbourhood :=
  let m := x.significand
  let e := x.scale - 2
  let unit := if 0 ≤ e then Nat.pow 2 e.toNat else 1
  let narrow := m = Nat.pow 2 52 ∧ 1 < x.exponent.val
  { value := 4 * m * unit
    low := (if narrow then 4 * m - 1 else 4 * m - 2) * unit
    high := (4 * m + 2) * unit
    den := if 0 ≤ e then 1 else Nat.pow 2 (-e).toNat
    closed := m % 2 = 0 }

/-- The number of digits in the numeral of a natural number. -/
def digitCount (n : Nat) : Nat :=
  (Numeral.ofNat n).length

/-- The exponent `k` with `10 ^ (k - 1) ≤ value / den < 10 ^ k`. -/
def Neighbourhood.magnitude (v : Neighbourhood) : Int :=
  if v.den ≤ v.value then digitCount (v.value / v.den)
  else 1 - digitCount ((v.den - 1) / v.value)

/-- The same number measured in units of `10 ^ e`. -/
def Neighbourhood.inUnits (v : Neighbourhood) (e : Int) : Neighbourhood :=
  if 0 ≤ e then { v with den := v.den * Nat.pow 10 e.toNat }
  else
    let factor := Nat.pow 10 (-e).toNat
    { v with value := v.value * factor, low := v.low * factor, high := v.high * factor }

/-- Whether the whole number `c` is in the interval. -/
def Neighbourhood.contains (v : Neighbourhood) (c : Nat) : Bool :=
  if v.closed then v.low ≤ c * v.den && c * v.den ≤ v.high
  else v.low < c * v.den && c * v.den < v.high

/-- The nearer of the whole numbers next to the value that are in the interval, if one is; the
    greater of two equally near ones. -/
def Neighbourhood.whole? (v : Neighbourhood) : Option Nat :=
  let below := v.value / v.den
  let rest := v.value % v.den
  let nearer := if 2 * rest < v.den then below else below + 1
  if v.contains below && v.contains (below + 1) then some nearer
  else if v.contains below then some below
  else if v.contains (below + 1) then some (below + 1)
  else none

/-- The first hit on the grids with more and more digits, as digits and the exponent of ten that
    they are multiplied by; after `fuel` grids without one, the digits before the point of the
    last grid. -/
def Neighbourhood.firstHit (v : Neighbourhood) : Nat → Int → Nat × Int
  | 0, e => ((v.inUnits e).value / (v.inUnits e).den, e)
  | fuel + 1, e =>
    match (v.inUnits e).whole? with
    | some c => (c, e)
    | none => v.firstHit fuel (e - 1)

/-- The shortest digits of a finite number that is not zero and the exponent of ten that they are
    multiplied by. Seventeen digits are always enough. -/
def shortest (x : Binary64) : Nat × Int :=
  let v := x.neighbourhood
  v.firstHit 17 (v.magnitude - 1)

/-- The text without the zeros at its end. -/
def dropZeros (s : Text) : Text :=
  (s.reverse.dropWhile (· = '0')).reverse

/-- The digits of `c * 10 ^ e` in full, with a point only before digits that are not all zero. -/
def positional (c : Nat) (e : Int) : Text :=
  let digits := Numeral.ofNat c
  if 0 ≤ e then digits ++ List.replicate e.toNat '0'
  else
    let places := (-e).toNat
    let all := List.replicate (places + 1 - digits.length) '0' ++ digits
    let fraction := dropZeros (all.drop (all.length - places))
    let whole := all.take (all.length - places)
    if fraction.isEmpty then whole else whole ++ '.' :: fraction

/-- The text of the magnitude of a finite number. -/
def magnitudeText (x : Binary64) : Text :=
  if x.significand = 0 then ['0']
  else
    let (c, e) := x.shortest
    positional c e

/-- The text of a number: the magnitude after a minus sign if the number has one, zero included;
    `inf` for infinities, and `NaN` without a sign. -/
def text (x : Binary64) : Text :=
  if x.isNaN then "NaN".toList
  else
    let magnitude := if x.isFinite then x.magnitudeText else "inf".toList
    if x.negative then '-' :: magnitude else magnitude

end SqlSelect.Binary64
