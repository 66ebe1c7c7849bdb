import SqlSelect.Proofs.Grammar

/-!
Names read and printed. A text is accepted as a name if it has the form of one, and what is wrong
with any other text is a fault of the name. What was accepted keeps its characters, so it reads back
from its own text. In SQL a name differs from its text by backticks alone, two for each segment:
segments hold none of their own, and taking them away leaves the text.

        read     users.id  ──▶  segments users and id       print  ──▶  each between two backticks
        read     users.id  ◀──────────────────────────  without backticks
-/

namespace SqlSelect

/-! ### Backticks -/

/-- The text with every occurrence of a character taken away. -/
def Text.without (c : Char) (s : Text) : Text :=
  s.filter (· ≠ c)

namespace Text

variable {c : Char}

theorem without_append (a b : Text) : without c (a ++ b) = without c a ++ without c b :=
  List.filter_append a b

theorem without_cons_self (s : Text) : without c (c :: s) = without c s :=
  List.filter_cons_of_neg (by simp)

theorem without_cons_of_ne {d : Char} (h : d ≠ c) (s : Text) :
    without c (d :: s) = d :: without c s :=
  List.filter_cons_of_pos (by simpa using h)

theorem without_of_not_mem {s : Text} (h : c ∉ s) : without c s = s :=
  List.filter_eq_self.mpr fun _ hd => decide_eq_true (ne_of_mem_of_not_mem hd h)

end Text

namespace Segment

theorem backtick_not_mem (s : Segment) : '\x60' ∉ s.text :=
  fun h => absurd (isSegmentRest_of_mem h) (by decide)

theorem without_render (s : Segment) : Text.without '\x60' s.render = s.text := by
  rw [render, List.cons_append, Text.without_cons_self, Text.without_append,
    Text.without_of_not_mem s.backtick_not_mem, Text.without_cons_self]
  exact List.append_nil s.text

theorem count_render (s : Segment) : s.render.count '\x60' = 2 := by
  simp [render, List.count_eq_zero.mpr s.backtick_not_mem]

end Segment

namespace Identifier

/-- How many segments a name has. -/
def segmentCount (i : Identifier) : Nat :=
  if i.qualifier.isSome then 2 else 1

/-- A name in SQL is its text but for the backticks. -/
theorem without_render (i : Identifier) : Text.without '\x60' i.render = i.text := by
  obtain ⟨qualifier, name⟩ := i
  cases qualifier with
  | none => exact name.without_render
  | some table =>
    have hpoint : '.' ≠ '\x60' := by decide
    simp only [render, text]
    rw [Text.without_append, Text.without_cons_of_ne hpoint, table.without_render,
      name.without_render]

/-- Two backticks stand around every segment, and there are no others. -/
theorem count_render (i : Identifier) : i.render.count '\x60' = 2 * i.segmentCount := by
  obtain ⟨qualifier, name⟩ := i
  cases qualifier with
  | none => exact name.count_render
  | some table => simp [render, segmentCount, table.count_render, name.count_render]

/-! ### Texts -/

/-- Names with the same text are equal. -/
theorem text_injective {i j : Identifier} (h : i.text = j.text) : i = j := by
  have hi : ofText i.text = .ok i := ofText_eq_ok.mpr rfl
  rw [h, ofText_eq_ok.mpr rfl] at hi
  exact (Except.ok.inj hi).symm

/-- Names with the same form in SQL are equal. -/
theorem render_injective : Function.Injective render := by
  intro i j h
  refine text_injective ?_
  rw [← i.without_render, h, j.without_render]

/-- Reading accepts exactly the texts of the form of a name, with and without a qualifier, and calls
    everything else a fault of the name. A name that was read has the text it was read from, in SQL
    with two backticks for each segment; and every name, read or put together of two segments, reads
    back from its text and is known by its form in SQL. -/
theorem accepted_exactly :
    (∀ s : Text,
      ((∃ i, ofText s = .ok i) ↔ s.IsIdentifier) ∧
      ((∃ name, Segment.parse s = .ok name) ↔ s.IsSegment) ∧
      (∀ reason, ofText s = .error reason ∨ Segment.parse s = .error reason →
        reason.kind = .invalidIdentifier) ∧
      (∀ name, Segment.parse s = .ok name → ofText s = .ok { name := name }) ∧
      ∀ i, ofText s = .ok i → i.text = s ∧ i.render.count '\x60' = 2 * i.segmentCount ∧
        Text.without '\x60' i.render = s) ∧
    (∀ i : Identifier, ofText i.text = .ok i) ∧
    Function.Injective render := by
  refine ⟨fun s => ⟨Text.isIdentifier_iff.symm, Text.isSegment_iff.symm, ?_, ?_, ?_⟩,
    fun i => ofText_eq_ok.mpr rfl, render_injective⟩
  · rintro reason (h | h)
    · obtain ⟨fault, rfl⟩ := exists_fault_of_ofText h
      rfl
    · obtain ⟨fault, rfl⟩ := Segment.exists_fault_of_parse h
      rfl
  · intro name h
    exact ofText_eq_ok.mpr (Segment.parse_eq_ok.mp h)
  · intro i h
    have htext : i.text = s := ofText_eq_ok.mp h
    exact ⟨htext, i.count_render, htext ▸ i.without_render⟩

/-- A name with a qualifier, in which an underscore, letters of both cases and a digit occur. -/
def sample : Identifier where
  qualifier := some ⟨'_', ['t', '1'], by decide, by decide⟩
  name := ⟨'I', ['d'], by decide, by decide⟩

theorem accepted_exactly_sample :
    ofText "_t1.Id".toList = .ok sample ∧
      (sample.text = "_t1.Id".toList ∧ sample.render.count '\x60' = 2 * sample.segmentCount ∧
        Text.without '\x60' sample.render = "_t1.Id".toList) ∧
      sample.render = "\x60_t1\x60.\x60Id\x60".toList ∧
      Segment.parse "Id".toList = .ok sample.name ∧
      ofText "Id".toList = .ok { name := sample.name } ∧
      Segment.parse "ét".toList =
        .error (.invalidIdentifier (.badStart 'é' "ét".toList)) ∧
      Rejection.kind (.invalidIdentifier (.badStart 'é' "ét".toList)) =
        .invalidIdentifier :=
  ⟨rfl, (accepted_exactly.1 _).2.2.2.2 sample rfl, by decide, rfl,
    (accepted_exactly.1 _).2.2.2.1 sample.name rfl, rfl,
    (accepted_exactly.1 "ét".toList).2.2.1 _ (.inr rfl)⟩

end Identifier

end SqlSelect
