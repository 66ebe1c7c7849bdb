import SqlSelect.Text.Basic

/-!
Blank characters and the two ways tokens are freed from them: trimming the ends of a text and
splitting a text into its words. A character is blank when it has the Unicode property
White_Space; the property holds for twenty-five code points, which are listed here as ranges.
-/

namespace SqlSelect.Text

/-- The code points with the Unicode property White_Space, as inclusive ranges. -/
def blankRanges : List (Nat × Nat) :=
  [(0x09, 0x0D), (0x20, 0x20), (0x85, 0x85), (0xA0, 0xA0), (0x1680, 0x1680), (0x2000, 0x200A),
   (0x2028, 0x2029), (0x202F, 0x202F), (0x205F, 0x205F), (0x3000, 0x3000)]

/-- Whether a character has the property White_Space. -/
def isBlank (c : Char) : Bool :=
  blankRanges.any fun (low, high) => low ≤ c.toNat && c.toNat ≤ high

/-- Whether every character is blank; the empty text is. -/
def allBlank (s : Text) : Bool :=
  s.all isBlank

/-- The text without the blanks at its two ends. -/
def trim (s : Text) : Text :=
  ((s.dropWhile isBlank).reverse.dropWhile isBlank).reverse

/-- Puts a character at the front of the first word, starting one if there is none. -/
def extendWord (c : Char) : List Text → List Text
  | [] => [[c]]
  | word :: words => (c :: word) :: words

/-- The maximal runs of characters that are not blank, in order. -/
def words : Text → List Text
  | [] => []
  | [c] => if isBlank c then [] else [[c]]
  | c :: d :: rest =>
    if isBlank c then words (d :: rest)
    else if isBlank d then [c] :: words (d :: rest)
    else extendWord c (words (d :: rest))

end SqlSelect.Text
