import Mathlib.Data.List.Infix
import SqlSelect.Text.Shortened

/-!
What is left of a text that was shortened. Places between two characters are the valid positions in
the UTF-8 form of the text, and at most three bytes after one there is the next. So the search for
a place to cut, which steps back byte by byte from the limit, ends at such a place after three steps
at most; and the characters before it are all of which the text has room for within the limit.

        a   é       😀              b
        0   1   2   3   4   5   6   7   8     limit 6: back to 3 in three steps, and aé... is left
-/

namespace SqlSelect.Text

/-- The longest beginning of a text that has at most `most` bytes. -/
structure IsLongestWithin (s : Text) (most : Nat) (p : Text) : Prop where
  begins : p <+: s
  fits : byteLength p ≤ most
  longest : ∀ q, q <+: s → byteLength q ≤ most → q <+: p

/-! ### Bytes -/

/-- The bytes that are counted are those of the UTF-8 form. -/
theorem byteLength_eq_utf8ByteSize (s : Text) : byteLength s = (String.ofList s).utf8ByteSize := by
  induction s with
  | nil => rfl
  | cons c s ih =>
    have hsplit : String.ofList (c :: s) = String.singleton c ++ String.ofList s := by simp
    rw [byteLength, ih, hsplit, String.utf8ByteSize_append, String.utf8ByteSize_singleton]

theorem byteLength_append (a b : Text) : byteLength (a ++ b) = byteLength a + byteLength b := by
  induction a with
  | nil => simp [byteLength]
  | cons c a ih =>
    simp only [List.cons_append, byteLength, ih]
    omega

/-! ### Boundaries -/

/-- A boundary lies behind some of the characters, with all of their bytes. -/
theorem isBoundary_iff {s : Text} {n : Nat} :
    isBoundary s n = true ↔ ∃ p, p <+: s ∧ byteLength p = n := by
  induction s generalizing n with
  | nil => simp [isBoundary, byteLength, eq_comm]
  | cons c s ih =>
    simp only [isBoundary, Bool.or_eq_true, Bool.and_eq_true, decide_eq_true_eq, ih]
    constructor
    · rintro (rfl | ⟨hc, p, hp, hn⟩)
      · exact ⟨[], List.nil_prefix, rfl⟩
      · refine ⟨c :: p, (List.prefix_cons_inj c).mpr hp, ?_⟩
        rw [byteLength]
        omega
    · rintro ⟨p, hp, rfl⟩
      rcases p with - | ⟨d, p⟩
      · exact .inl rfl
      · obtain ⟨rfl, hrest⟩ := List.cons_prefix_cons.mp hp
        rw [byteLength]
        exact .inr ⟨by omega, p, hrest, by omega⟩

/-- Boundaries are the valid positions in the UTF-8 form of a text. -/
theorem isBoundary_iff_isValid {s : Text} {n : Nat} :
    isBoundary s n = true ↔ String.Pos.Raw.IsValid (String.ofList s) ⟨n⟩ := by
  rw [isBoundary_iff, String.Pos.Raw.isValid_ofList]
  simp only [← byteLength_eq_utf8ByteSize]
  constructor
  · rintro ⟨p, hp, rfl⟩
    exact ⟨p.length, by rw [← List.prefix_iff_eq_take.mp hp]⟩
  · rintro ⟨i, rfl⟩
    exact ⟨s.take i, List.take_prefix i s, rfl⟩

/-- Within a text, one of four places in a row is a boundary, since no character has more than four
    bytes. -/
theorem exists_boundary {s : Text} {n : Nat} (h : n ≤ byteLength s) :
    ∃ b, isBoundary s b = true ∧ b ≤ n ∧ n ≤ b + 3 := by
  induction s generalizing n with
  | nil => exact ⟨0, rfl, by omega, by simp only [byteLength] at h; omega⟩
  | cons c s ih =>
    have hsize := c.utf8Size_le_four
    rw [byteLength] at h
    by_cases hn : n < c.utf8Size
    · exact ⟨0, by simp [isBoundary], by omega, by omega⟩
    · obtain ⟨b, hb, hle, hnear⟩ := ih (n := n - c.utf8Size) (by omega)
      refine ⟨c.utf8Size + b, ?_, by omega, by omega⟩
      simp [isBoundary, hb]

/-! ### The search -/

/-- The search passes over no boundary. -/
theorem le_boundaryBelow {s : Text} {n b : Nat} (hb : isBoundary s b = true) (h : b ≤ n) :
    b ≤ boundaryBelow s n := by
  induction n with
  | zero => exact h
  | succ n ih =>
    rw [boundaryBelow]
    split
    · exact h
    · next hn =>
      have hne : b ≠ n + 1 := by
        rintro rfl
        exact hn hb
      exact ih (by omega)

/-- The search ends at a boundary, be it the one before all characters. -/
theorem isBoundary_boundaryBelow (s : Text) (n : Nat) : isBoundary s (boundaryBelow s n) = true := by
  induction n with
  | zero => cases s <;> simp [boundaryBelow, isBoundary]
  | succ n ih =>
    rw [boundaryBelow]
    split
    · assumption
    · exact ih

/-- The characters up to a boundary have exactly its bytes. -/
theorem byteLength_takeBytes {s : Text} {n : Nat} (h : isBoundary s n = true) :
    byteLength (takeBytes s n) = n := by
  induction s generalizing n with
  | nil =>
    simp only [isBoundary, decide_eq_true_eq] at h
    rw [takeBytes, byteLength, h]
  | cons c s ih =>
    simp only [isBoundary, Bool.or_eq_true, Bool.and_eq_true, decide_eq_true_eq] at h
    have hpos := c.utf8Size_pos
    rcases h with rfl | ⟨hc, hrest⟩
    · rw [takeBytes, if_neg (by omega), byteLength]
    · rw [takeBytes, if_pos hc, byteLength, ih hrest]
      omega

theorem takeBytes_prefix (s : Text) (n : Nat) : takeBytes s n <+: s := by
  induction s generalizing n with
  | nil => exact List.nil_prefix
  | cons c s ih =>
    rw [takeBytes]
    split
    · exact (List.prefix_cons_inj c).mpr (ih _)
    · exact List.nil_prefix

/-- Two beginnings of a text are comparable, and the one with fewer bytes is the shorter one. -/
theorem prefix_of_byteLength_le {p q s : Text} (hp : p <+: s) (hq : q <+: s)
    (h : byteLength q ≤ byteLength p) : q <+: p := by
  rcases List.prefix_or_prefix_of_prefix hq hp with hqp | ⟨rest, rfl⟩
  · exact hqp
  · rw [byteLength_append] at h
    rcases rest with - | ⟨c, rest⟩
    · simp
    · have hpos := c.utf8Size_pos
      rw [byteLength] at h
      omega

/-- What is cut off at the end of the search is all that has no room. -/
theorem isLongestWithin_boundaryBelow (s : Text) (most : Nat) :
    s.IsLongestWithin most (takeBytes s (boundaryBelow s most)) := by
  have hbytes := byteLength_takeBytes (s.isBoundary_boundaryBelow most)
  have hbegins := s.takeBytes_prefix (boundaryBelow s most)
  refine ⟨hbegins, hbytes.trans_le (s.boundaryBelow_le most), fun q hq hfits => ?_⟩
  refine prefix_of_byteLength_le hbegins hq ?_
  rw [hbytes]
  exact le_boundaryBelow (isBoundary_iff.mpr ⟨q, hq, rfl⟩) hfits

/-- A text that fits the limit, or has none, is left as it is. Of any other the longest beginning
    that fits is left, before three dots, which has less than four bytes of room to spare. It ends
    where the search for a boundary ends: the first that is met in going back from the limit, after
    three steps at most. -/
theorem shortened_longest (s : Text) :
    shortened none s = s ∧
    ∀ most,
      (byteLength s ≤ most → shortened (some most) s = s) ∧
      (most < byteLength s →
        ∃ p, shortened (some most) s = p ++ "...".toList ∧ s.IsLongestWithin most p ∧
          most < byteLength p + 4 ∧ byteLength p = boundaryBelow s most ∧
          ∃ steps ≤ 3, boundaryBelow s most + steps = most ∧
            String.Pos.Raw.IsValid (String.ofList s) ⟨boundaryBelow s most⟩ ∧
            ∀ n, boundaryBelow s most < n → n ≤ most →
              ¬String.Pos.Raw.IsValid (String.ofList s) ⟨n⟩) := by
  refine ⟨rfl, fun most => ⟨fun hfits => ?_, fun hlong => ?_⟩⟩
  · rw [shortened, if_neg (by omega)]
  · obtain ⟨b, hb, hle, hnear⟩ := exists_boundary (Nat.le_of_lt hlong)
    have hfound := le_boundaryBelow hb hle
    have hbelow := s.boundaryBelow_le most
    have hboundary := s.isBoundary_boundaryBelow most
    have hbytes := byteLength_takeBytes hboundary
    refine ⟨takeBytes s (boundaryBelow s most), ?_, s.isLongestWithin_boundaryBelow most, by omega,
      hbytes, most - boundaryBelow s most, by omega, by omega, isBoundary_iff_isValid.mp hboundary,
      fun n hn hmost hvalid => ?_⟩
    · rw [shortened, if_pos hlong]
    · have hpassed := le_boundaryBelow (isBoundary_iff_isValid.mpr hvalid) hmost
      omega

/-- A text with characters of one, two and four bytes. -/
def mixedWidths : Text :=
  "aé😀b".toList

theorem shortened_longest_mixedWidths :
    6 < byteLength mixedWidths ∧
      (∃ p, shortened (some 6) mixedWidths = p ++ "...".toList ∧
        mixedWidths.IsLongestWithin 6 p ∧ 6 < byteLength p + 4 ∧ byteLength p = 3 ∧
          ∃ steps ≤ 3, 3 + steps = 6 ∧ String.Pos.Raw.IsValid (String.ofList mixedWidths) ⟨3⟩ ∧
            ∀ n, 3 < n → n ≤ 6 → ¬String.Pos.Raw.IsValid (String.ofList mixedWidths) ⟨n⟩) ∧
      shortened (some 6) mixedWidths = "aé...".toList ∧
      byteLength mixedWidths ≤ 8 ∧ shortened (some 8) mixedWidths = mixedWidths ∧
      shortened (some 3) "😀".toList = "...".toList ∧ shortened (some 0) "😀".toList = "...".toList :=
  ⟨by decide, ((shortened_longest mixedWidths).2 6).2 (by decide), by decide, by decide,
    ((shortened_longest mixedWidths).2 8).1 (by decide), by decide, by decide⟩

end SqlSelect.Text
