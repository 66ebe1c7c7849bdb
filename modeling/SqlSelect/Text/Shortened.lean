import SqlSelect.Text.Basic

/-!
Shortening a text to a number of UTF-8 bytes without splitting a character. The cut is made at the
last place at or below the limit that lies between two characters, and three dots mark that
something was left out.
-/

namespace SqlSelect.Text

/-- The number of bytes of the text in UTF-8. -/
def byteLength : Text → Nat
  | [] => 0
  | c :: rest => c.utf8Size + byteLength rest

/-- Whether the place after `n` bytes lies between two characters or at an end. -/
def isBoundary : Text → Nat → Bool
  | [], n => n = 0
  | c :: rest, n => n = 0 || (c.utf8Size ≤ n && isBoundary rest (n - c.utf8Size))

/-- The last boundary at or below `n` bytes, found by stepping back from `n`. -/
def boundaryBelow (s : Text) : Nat → Nat
  | 0 => 0
  | n + 1 => if isBoundary s (n + 1) then n + 1 else boundaryBelow s n

/-- The characters that lie wholly within the first `n` bytes. -/
def takeBytes : Text → Nat → Text
  | [], _ => []
  | c :: rest, n => if c.utf8Size ≤ n then c :: takeBytes rest (n - c.utf8Size) else []

/-- The text itself when it fits the limit or there is none, and otherwise its beginning up to the
    last boundary within the limit, followed by three dots. -/
def shortened (limit : Option Nat) (s : Text) : Text :=
  match limit with
  | none => s
  | some most =>
    if most < byteLength s then takeBytes s (boundaryBelow s most) ++ "...".toList else s

/-- A boundary search never moves up. -/
theorem boundaryBelow_le (s : Text) (n : Nat) : boundaryBelow s n ≤ n := by
  induction n with
  | zero => simp [boundaryBelow]
  | succ n ih =>
    simp only [boundaryBelow]
    split <;> omega

end SqlSelect.Text
