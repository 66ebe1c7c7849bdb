import SqlSelect.Rejection

/-!
The window of rows that a statement returns: at most so many, after so many others.
-/

namespace SqlSelect

/-- A limit on the number of rows, and how many to skip before. -/
structure Window where
  count : Nat
  offset : Option Nat
  deriving DecidableEq

namespace Window

/-- Reads a window from whole numbers, neither of which may be negative; the count is checked before
    the offset. -/
def ofInts (count : Int) (offset : Option Int) : Checked Window :=
  if count < 0 then .error (.invalidLimit (.negativeCount count))
  else
    match offset with
    | none => .ok ⟨count.toNat, none⟩
    | some skipped =>
      if skipped < 0 then .error (.invalidLimit (.negativeOffset skipped))
      else .ok ⟨count.toNat, some skipped.toNat⟩

/-- The window in SQL, the offset before the count. -/
def render (w : Window) : Text :=
  match w.offset with
  | none => Numeral.ofNat w.count
  | some offset => Numeral.ofNat offset ++ ',' :: Numeral.ofNat w.count

end Window

end SqlSelect
