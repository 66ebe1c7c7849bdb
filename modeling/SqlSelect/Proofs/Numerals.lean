import Mathlib.Tactic.Set
import SqlSelect.Literal.Basic

/-!
What numbers look like in SQL. The numeral of a natural number reads back as the number, so two
numbers have the same numeral only if they are equal; and the text of any number, whole or floating,
is not empty and consists of a few characters only, none of which has a meaning of its own in SQL.
Of all the texts that read as an integer, its numeral is the only one without idle characters.
-/

namespace SqlSelect

namespace Numeral

/-- Digits, signs and points, and the letters of the names for values that are not finite. -/
def isNumberChar (c : Char) : Bool :=
  c.isDigit || c ∈ ['-', '.', 'N', 'a', 'i', 'n', 'f']

/-- Texts that numbers may have. -/
def IsNumber (w : Text) : Prop :=
  w ≠ [] ∧ ∀ c ∈ w, isNumberChar c = true

/-- Digits, none of which is idle: only the numeral of zero begins with a zero. -/
def IsDecimal (w : Text) : Prop :=
  w ≠ [] ∧ (∀ c ∈ w, c.isDigit = true) ∧ (w.head? = some '0' → w = ['0'])

/-- The integer that a text reads as: the number of its digits, negative after a minus sign. -/
def int? : Text → Option Int
  | '-' :: digits => (value? digits).map fun n : Nat => -(n : Int)
  | digits => (value? digits).map fun n : Nat => (n : Int)

/-- A text that reads as an integer, without leading zeros and without a sign that is not needed. -/
def IsNumeralOf (w : Text) (n : Int) : Prop :=
  int? w = some n ∧ (IsDecimal w ∨ ∃ digits, w = '-' :: digits ∧ IsDecimal digits ∧ digits ≠ ['0'])

/-! ### Natural numbers and integers -/

theorem isDigit_ofNat {n : Nat} {c : Char} (h : c ∈ ofNat n) : c.isDigit = true :=
  Nat.isDigit_of_mem_toDigits (by decide) (by decide) h

theorem ofNat_ne_nil (n : Nat) : ofNat n ≠ [] :=
  Nat.toDigits_ne_nil

/-- Reading on over a row of digits puts them behind the number read so far. -/
theorem valueFrom_eq (n : Nat) {s : Text} (h : ∀ c ∈ s, c.isDigit = true) :
    valueFrom n s = some (Nat.ofDigitChars 10 s n) := by
  induction s generalizing n with
  | nil => rw [valueFrom, Nat.ofDigitChars_nil]
  | cons c s ih =>
    rw [valueFrom, if_pos (h c (by simp)), ih _ fun d hd => h d (List.mem_cons_of_mem _ hd),
      Nat.ofDigitChars_cons]

/-- A numeral reads back as its number. -/
theorem value?_ofNat (n : Nat) : value? (ofNat n) = some n := by
  have hvalue : valueFrom 0 (ofNat n) = some n := by
    rw [valueFrom_eq 0 fun c hc => isDigit_ofNat hc]
    exact congrArg some Nat.ofDigitChars_ten_toDigits
  cases hn : ofNat n with
  | nil => exact absurd hn (ofNat_ne_nil n)
  | cons c s =>
    rw [hn] at hvalue
    exact hvalue

theorem isDigit_iff (c : Char) : c.isDigit = true ↔ 48 ≤ c.toNat ∧ c.toNat ≤ 57 := by
  simp only [Char.isDigit, Bool.and_eq_true, decide_eq_true_eq]
  rfl

/-- The numeral of a single digit. -/
theorem ofNat_digit {c : Char} (h : c.isDigit = true) : ofNat (c.toNat - '0'.toNat) = [c] := by
  have hrange := (isDigit_iff c).mp h
  have hzero : '0'.toNat = 48 := rfl
  have hdigit : c.toNat - '0'.toNat < 10 := by omega
  have hchar : Nat.digitChar (c.toNat - '0'.toNat) = c := by
    rw [← Char.toNat_inj, Nat.toNat_digitChar_of_lt_ten hdigit]
    omega
  rw [ofNat, Nat.toDigits_of_lt_base hdigit, hchar]

/-- Digits that follow a numeral other than that of zero make a longer numeral. -/
theorem ofNat_append {n : Nat} (hn : 0 < n) {s : Text} (h : ∀ c ∈ s, c.isDigit = true) :
    ofNat n ++ s = ofNat (Nat.ofDigitChars 10 s n) := by
  induction s generalizing n with
  | nil => rw [List.append_nil, Nat.ofDigitChars_nil]
  | cons c s ih =>
    obtain ⟨hc, hrest⟩ := List.forall_mem_cons.mp h
    have hrange := (isDigit_iff c).mp hc
    have hzero : '0'.toNat = 48 := rfl
    have hlonger : ofNat n ++ [c] = ofNat (10 * n + (c.toNat - '0'.toNat)) := by
      rw [← ofNat_digit hc]
      exact Nat.toDigits_append_toDigits (by decide) hn (by omega)
    calc ofNat n ++ c :: s
      _ = ofNat n ++ [c] ++ s := by rw [List.append_assoc]; rfl
      _ = ofNat (10 * n + (c.toNat - '0'.toNat)) ++ s := by rw [hlonger]
      _ = ofNat (Nat.ofDigitChars 10 (c :: s) n) := by
        rw [ih (by omega) hrest, Nat.ofDigitChars_cons]

/-- Only the numeral of zero begins with a zero. -/
theorem eq_zero_of_head?_ofNat {n : Nat} (h : (ofNat n).head? = some '0') : n = 0 := by
  induction n using Nat.strongRecOn with
  | _ n ih =>
    by_cases hn : n < 10
    · rw [ofNat, Nat.toDigits_of_lt_base hn] at h
      have hcode := Nat.toNat_digitChar_of_lt_ten hn
      rw [Option.some.inj h] at hcode
      have hzero : '0'.toNat = 48 := rfl
      omega
    · have hfront : ofNat n = ofNat (n / 10) ++ [(n % 10).digitChar] :=
        Nat.toDigits_of_base_le (by decide) (by omega)
      obtain ⟨first, more, hcons⟩ := List.exists_cons_of_ne_nil (ofNat_ne_nil (n / 10))
      rw [hfront, hcons] at h
      have hquotient := ih (n / 10) (by omega) (by rw [hcons]; exact h)
      omega

theorem isDecimal_ofNat (n : Nat) : IsDecimal (ofNat n) := by
  refine ⟨ofNat_ne_nil n, fun c hc => isDigit_ofNat hc, fun h => ?_⟩
  rw [eq_zero_of_head?_ofNat h, ofNat_zero]

/-- Digits without an idle one are the numeral of the number that they read as. -/
theorem eq_ofNat_of_value? {w : Text} {n : Nat} (h : IsDecimal w) (hn : value? w = some n) :
    w = ofNat n := by
  obtain ⟨hne, hdigits, hzero⟩ := h
  rcases w with - | ⟨c, s⟩
  · contradiction
  · by_cases hc : c = '0'
    · have hw := hzero (by rw [hc]; rfl)
      rw [hw] at hn ⊢
      rw [← Option.some.inj hn]
      rfl
    · obtain ⟨hdigit, hrest⟩ := List.forall_mem_cons.mp hdigits
      have hpos : 0 < c.toNat - '0'.toNat := by
        have hrange := (isDigit_iff c).mp hdigit
        have hcode : c.toNat ≠ '0'.toNat := fun h => hc (Char.toNat_inj.mp h)
        have hzero : '0'.toNat = 48 := rfl
        omega
      rw [value?, valueFrom_eq 0 hdigits, Nat.ofDigitChars_cons, Nat.mul_zero, Nat.zero_add] at hn
      rw [← Option.some.inj hn, ← ofNat_append hpos hrest, ofNat_digit hdigit]
      rfl

/-! ### Signs -/

theorem int?_of_isDigit {w : Text} (h : ∀ c ∈ w, c.isDigit = true) :
    int? w = (value? w).map fun n : Nat => (n : Int) := by
  unfold int?
  split
  · exact absurd (h '-' (by simp)) (by decide)
  · rfl

/-- The numeral of an integer is the only text that reads as the integer without idle characters. -/
theorem isNumeralOf_iff {w : Text} {n : Int} : IsNumeralOf w n ↔ w = ofInt n := by
  constructor
  · rintro ⟨hread, hw | ⟨digits, rfl, hdigits, hne⟩⟩
    · rw [int?_of_isDigit hw.2.1, Option.map_eq_some_iff] at hread
      obtain ⟨m, hm, rfl⟩ := hread
      exact eq_ofNat_of_value? hw hm
    · rw [int?, Option.map_eq_some_iff] at hread
      obtain ⟨m, hm, rfl⟩ := hread
      have hdigits := eq_ofNat_of_value? hdigits hm
      cases m with
      | zero => contradiction
      | succ m => rw [hdigits]; rfl
  · rintro rfl
    cases n with
    | ofNat m =>
      refine ⟨?_, .inl (isDecimal_ofNat m)⟩
      rw [ofInt, int?_of_isDigit (isDecimal_ofNat m).2.1, value?_ofNat]
      rfl
    | negSucc m =>
      have hne : ofNat (m + 1) ≠ ['0'] := by
        intro h
        have hzero := eq_zero_of_head?_ofNat (n := m + 1) (by rw [h]; rfl)
        omega
      refine ⟨?_, .inr ⟨ofNat (m + 1), rfl, isDecimal_ofNat (m + 1), hne⟩⟩
      rw [ofInt, int?, value?_ofNat]
      rfl

theorem ofInt_injective : Function.Injective ofInt := by
  intro m n h
  have hread := (isNumeralOf_iff.mpr rfl : IsNumeralOf (ofInt m) m).1
  rw [h, (isNumeralOf_iff.mpr rfl : IsNumeralOf (ofInt n) n).1] at hread
  exact (Option.some.inj hread).symm

theorem isNumberChar_of_isDigit {c : Char} (h : c.isDigit = true) : isNumberChar c = true := by
  simp [isNumberChar, h]

theorem isNumberChar_of_mem_zeros {c : Char} {n : Nat} (h : c ∈ List.replicate n '0') :
    isNumberChar c = true := by
  rw [List.eq_of_mem_replicate h]
  decide

theorem isNumber_ofNat (n : Nat) : IsNumber (ofNat n) :=
  ⟨ofNat_ne_nil n, fun _ hc => isNumberChar_of_isDigit (isDigit_ofNat hc)⟩

theorem IsNumber.neg {w : Text} (h : IsNumber w) : IsNumber ('-' :: w) := by
  refine ⟨by simp, fun c hc => ?_⟩
  rcases List.mem_cons.mp hc with rfl | hc
  · decide
  · exact h.2 c hc

theorem isNumber_ofInt (n : Int) : IsNumber (ofInt n) := by
  cases n with
  | ofNat n => exact isNumber_ofNat n
  | negSucc n => exact (isNumber_ofNat (n + 1)).neg

end Numeral

open Numeral

namespace Binary64

theorem mem_of_mem_dropZeros {c : Char} {s : Text} (h : c ∈ dropZeros s) : c ∈ s := by
  rw [dropZeros, List.mem_reverse] at h
  exact List.mem_reverse.mp ((List.dropWhile_sublist _).subset h)

/-- Digits laid out in full are digits again, with at most one point among them. -/
theorem isNumber_positional (c : Nat) (e : Int) : IsNumber (positional c e) := by
  rw [positional]
  split
  · exact ⟨by simp [ofNat_ne_nil],
      List.forall_mem_append.mpr ⟨(isNumber_ofNat c).2, fun _ => isNumberChar_of_mem_zeros⟩⟩
  · set places := (-e).toNat
    set all := List.replicate (places + 1 - (ofNat c).length) '0' ++ ofNat c with hall
    have hlen : places < all.length := by
      rw [hall, List.length_append, List.length_replicate]
      omega
    have hdigits : ∀ d ∈ all, isNumberChar d = true := by
      rw [hall]
      exact List.forall_mem_append.mpr
        ⟨fun _ => isNumberChar_of_mem_zeros, (isNumber_ofNat c).2⟩
    have hwhole : IsNumber (all.take (all.length - places)) := by
      refine ⟨?_, fun d hd => hdigits d (List.mem_of_mem_take hd)⟩
      rw [← List.length_pos_iff, List.length_take]
      omega
    simp only
    split
    · exact hwhole
    · refine ⟨by simp, fun d hd => ?_⟩
      rcases List.mem_append.mp hd with hd | hd
      · exact hwhole.2 d hd
      · rcases List.mem_cons.mp hd with rfl | hd
        · decide
        · exact hdigits d (List.mem_of_mem_drop (mem_of_mem_dropZeros hd))

theorem isNumber_magnitudeText (x : Binary64) : IsNumber x.magnitudeText := by
  rw [magnitudeText]
  split
  · exact ⟨by simp, List.all_eq_true.mp (by decide)⟩
  · exact isNumber_positional _ _

theorem isNumber_text (x : Binary64) : IsNumber x.text := by
  have hmagnitude : IsNumber (if x.isFinite then x.magnitudeText else "inf".toList) := by
    split
    · exact isNumber_magnitudeText x
    · exact ⟨by decide, List.all_eq_true.mp (by decide)⟩
  rw [text]
  split
  · exact ⟨by decide, List.all_eq_true.mp (by decide)⟩
  · simp only
    split
    · exact hmagnitude.neg
    · exact hmagnitude

end Binary64

end SqlSelect
