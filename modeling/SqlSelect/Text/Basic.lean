/-!
Text as a list of Unicode characters. All names, literals and rendered clauses of a statement are
values of this one type, so that what is printed can be taken apart again by recursion on the
characters. Two operations are used everywhere: cutting a text at a separator, and comparing words
without regard to the case of the letters `A` to `Z`.
-/

namespace SqlSelect

/-- A sequence of Unicode characters. -/
abbrev Text := List Char

namespace Text

/-- The text before the first `sep`, and the text after it if there is a `sep` at all. -/
def cut (sep : Char) : Text → Text × Option Text
  | [] => ([], none)
  | c :: rest =>
    if c = sep then ([], some rest)
    else ((c :: (cut sep rest).1), (cut sep rest).2)

/-- Equality of words up to the case of ASCII letters; every other character stands for itself. -/
def sameWord (a b : Text) : Bool :=
  a.map Char.toLower == b.map Char.toLower

/-- The text between single quotation marks, as messages cite what the caller wrote. -/
def cited (s : Text) : Text :=
  '\'' :: s ++ ['\'']

/-- The two parts of a cut, with the separator between them, are the whole text. -/
theorem cut_append (sep : Char) (s : Text) :
    s = (cut sep s).1 ++ ((cut sep s).2.map (sep :: ·)).getD [] := by
  induction s with
  | nil => rfl
  | cons c rest ih =>
    by_cases h : c = sep
    · simp [cut, h]
    · simp [cut, h, ← ih]

end Text

end SqlSelect
