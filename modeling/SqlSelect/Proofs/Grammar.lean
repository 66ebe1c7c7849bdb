import SqlSelect.Identifier
import SqlSelect.Proofs.Checked

/-!
Which names are accepted. A segment is a letter of ASCII or an underscore, then letters, digits and
underscores; an identifier is one segment, or two with a point between them. Reading a name accepts
exactly these texts and keeps their characters, so a name read is known by its text alone; any other
text is rejected for what is wrong with it.
-/

namespace SqlSelect

/-- Letters of ASCII and the underscore. -/
def IsNameStart (c : Char) : Prop :=
  ('A' ≤ c ∧ c ≤ 'Z') ∨ ('a' ≤ c ∧ c ≤ 'z') ∨ c = '_'

/-- Letters and digits of ASCII, and the underscore. -/
def IsNameRest (c : Char) : Prop :=
  IsNameStart c ∨ ('0' ≤ c ∧ c ≤ '9')

/-- Texts that are names without a qualifier. -/
def Text.IsSegment (s : Text) : Prop :=
  ∃ first rest, s = first :: rest ∧ IsNameStart first ∧ ∀ c ∈ rest, IsNameRest c

/-- Texts that are names, with or without a qualifier. -/
def Text.IsIdentifier (s : Text) : Prop :=
  s.IsSegment ∨ ∃ table name : Text, table.IsSegment ∧ name.IsSegment ∧ s = table ++ '.' :: name

/-! ### Characters -/

instance : DecidablePred IsNameStart := fun c =>
  inferInstanceAs (Decidable (('A' ≤ c ∧ c ≤ 'Z') ∨ ('a' ≤ c ∧ c ≤ 'z') ∨ c = '_'))

instance : DecidablePred IsNameRest := fun c =>
  inferInstanceAs (Decidable (IsNameStart c ∨ ('0' ≤ c ∧ c ≤ '9')))

theorem isSegmentStart_iff (c : Char) : isSegmentStart c = true ↔ IsNameStart c := by
  have hupper : c.isUpper = true ↔ 'A' ≤ c ∧ c ≤ 'Z' := decide_eq_true_iff
  have hlower : c.isLower = true ↔ 'a' ≤ c ∧ c ≤ 'z' :=
    Bool.and_eq_true_iff.trans (and_congr decide_eq_true_iff decide_eq_true_iff)
  have halpha : c.isAlpha = true ↔ c.isUpper = true ∨ c.isLower = true := Bool.or_eq_true_iff
  rw [isSegmentStart, Bool.or_eq_true, decide_eq_true_iff, halpha, hupper, hlower, or_assoc]
  rfl

theorem isSegmentRest_iff (c : Char) : isSegmentRest c = true ↔ IsNameRest c := by
  rw [IsNameRest, ← isSegmentStart_iff]
  simp only [isSegmentRest, isSegmentStart, Char.isAlphanum, Char.isDigit, Char.le_def,
    Bool.or_eq_true, Bool.and_eq_true, decide_eq_true_eq, ge_iff_le]
  tauto

theorem isSegmentRest_eq (c : Char) : isSegmentRest c = decide (IsNameRest c) := by
  rw [Bool.eq_iff_iff, isSegmentRest_iff, decide_eq_true_eq]

/-- All characters of a segment may follow in one. -/
theorem Segment.isSegmentRest_of_mem {s : Segment} {c : Char} (h : c ∈ s.text) :
    isSegmentRest c = true := by
  rcases List.mem_cons.mp h with rfl | h
  · exact (isSegmentRest_iff _).mpr (.inl ((isSegmentStart_iff _).mp s.first_ok))
  · exact List.all_eq_true.mp s.rest_ok c h

/-- The point is in no segment. -/
theorem Segment.point_not_mem (s : Segment) : '.' ∉ s.text :=
  fun h => absurd (isSegmentRest_of_mem h) (by decide)

/-! ### Cutting a name -/

namespace Text

variable {sep : Char}

/-- A text without the separator is not cut. -/
theorem cut_of_not_mem {s : Text} (h : sep ∉ s) : cut sep s = (s, none) := by
  induction s with
  | nil => rfl
  | cons c rest ih =>
    rw [List.mem_cons, not_or] at h
    rw [cut, if_neg (Ne.symm h.1), ih h.2]

/-- A text is cut at its first separator. -/
theorem cut_append_cons {s : Text} (h : sep ∉ s) (rest : Text) :
    cut sep (s ++ sep :: rest) = (s, some rest) := by
  induction s with
  | nil => rw [List.nil_append, cut, if_pos rfl]
  | cons c s ih =>
    rw [List.mem_cons, not_or] at h
    rw [List.cons_append, cut, if_neg (Ne.symm h.1), ih h.2]

end Text

/-! ### Segments -/

namespace Segment

/-- A segment is read from exactly its own characters. -/
theorem ofText_eq_ok {whole s : Text} {segment : Segment} :
    ofText whole s = .ok segment ↔ segment.text = s := by
  constructor
  · intro h
    cases s with
    | nil => simp [ofText] at h
    | cons c rest =>
      simp only [ofText] at h
      split at h
      · split at h
        · simp at h
        · rw [← Except.ok.inj h]
          rfl
      · simp at h
  · rintro rfl
    obtain ⟨first, rest, hfirst, hrest⟩ := segment
    unfold text ofText
    simp only
    rw [dif_pos hfirst]
    split
    · next d hd =>
      have hmem := List.mem_of_find?_eq_some hd
      have hbad := List.find?_some hd
      rw [List.all_eq_true.mp hrest d hmem] at hbad
      contradiction
    · rfl

theorem text_ne_nil (s : Segment) : s.text ≠ [] :=
  List.cons_ne_nil _ _

/-- An unqualified name is read from exactly its own characters. -/
theorem parse_eq_ok {s : Text} {segment : Segment} : parse s = .ok segment ↔ segment.text = s := by
  constructor
  · intro h
    unfold parse at h
    split at h
    · simp at h
    · split at h
      · simp at h
      · exact ofText_eq_ok.mp h
  · rintro rfl
    have hpoint : segment.text.contains '.' = false := by simpa using segment.point_not_mem
    have hempty : segment.text.isEmpty = false := by simpa using segment.text_ne_nil
    rw [parse, hpoint, hempty]
    exact ofText_eq_ok.mpr rfl

/-- A segment that cannot be read is a fault of the name. -/
theorem exists_fault_of_ofText {whole s : Text} {reason : Rejection}
    (h : ofText whole s = .error reason) : ∃ fault, reason = .invalidIdentifier fault := by
  cases s with
  | nil => exact ⟨_, (Except.error.inj h).symm⟩
  | cons c rest =>
    simp only [ofText] at h
    split at h
    · split at h
      · exact ⟨_, (Except.error.inj h).symm⟩
      · contradiction
    · exact ⟨_, (Except.error.inj h).symm⟩

theorem exists_fault_of_parse {s : Text} {reason : Rejection} (h : parse s = .error reason) :
    ∃ fault, reason = .invalidIdentifier fault := by
  unfold parse at h
  split at h
  · exact ⟨_, (Except.error.inj h).symm⟩
  · split at h
    · exact ⟨_, (Except.error.inj h).symm⟩
    · exact exists_fault_of_ofText h

theorem isSegment_text (s : Segment) : s.text.IsSegment := by
  obtain ⟨first, rest, hfirst, hrest⟩ := s
  refine ⟨first, rest, rfl, (isSegmentStart_iff first).mp hfirst, ?_⟩
  intro c hc
  exact (isSegmentRest_iff c).mp (List.all_eq_true.mp hrest c hc)

end Segment

/-- A text of the form of a segment is one. -/
theorem Text.IsSegment.exists_segment {s : Text} (h : s.IsSegment) :
    ∃ segment : Segment, segment.text = s := by
  obtain ⟨first, rest, rfl, hfirst, hrest⟩ := h
  have hall : rest.all isSegmentRest = true :=
    List.all_eq_true.mpr fun c hc => (isSegmentRest_iff c).mpr (hrest c hc)
  exact ⟨⟨first, rest, (isSegmentStart_iff first).mpr hfirst, hall⟩, rfl⟩

/-- Unqualified names are the texts that are read as one. -/
theorem Text.isSegment_iff {s : Text} : s.IsSegment ↔ ∃ segment, Segment.parse s = .ok segment := by
  simp only [Segment.parse_eq_ok]
  constructor
  · exact IsSegment.exists_segment
  · rintro ⟨segment, rfl⟩
    exact segment.isSegment_text

instance : DecidablePred Text.IsSegment
  | [] => isFalse fun ⟨_, _, h, _⟩ => nomatch h
  | first :: rest =>
    decidable_of_iff (IsNameStart first ∧ rest.all (fun c => decide (IsNameRest c)) = true) <| by
      rw [List.all_eq_true]
      constructor
      · rintro ⟨hfirst, hrest⟩
        exact ⟨first, rest, rfl, hfirst, fun c hc => of_decide_eq_true (hrest c hc)⟩
      · rintro ⟨_, _, h, hfirst, hrest⟩
        cases h
        exact ⟨hfirst, fun c hc => decide_eq_true (hrest c hc)⟩

/-! ### Identifiers -/

namespace Identifier

/-- An identifier is read from exactly its own text. -/
theorem ofText_eq_ok {s : Text} {i : Identifier} : ofText s = .ok i ↔ i.text = s := by
  constructor
  · intro h
    have hs := Text.cut_append '.' s
    unfold ofText at h
    split at h
    · simp at h
    · split at h
      · next first hcut =>
        obtain ⟨name, hname, h⟩ := Checked.bind_eq_ok.mp h
        rw [← Checked.pure_eq_ok.mp h, hs, hcut, ← Segment.ofText_eq_ok.mp hname]
        simp [text]
      · next first second hcut =>
        split at h
        · simp at h
        · obtain ⟨table, htable, h⟩ := Checked.bind_eq_ok.mp h
          obtain ⟨name, hname, h⟩ := Checked.bind_eq_ok.mp h
          rw [← Checked.pure_eq_ok.mp h, hs, hcut, ← Segment.ofText_eq_ok.mp htable,
            ← Segment.ofText_eq_ok.mp hname]
          rfl
  · rintro rfl
    obtain ⟨qualifier, name⟩ := i
    cases qualifier with
    | none =>
      have hempty : name.text.isEmpty = false := by simpa using name.text_ne_nil
      simp only [text, ofText, hempty, Text.cut_of_not_mem name.point_not_mem]
      exact Checked.bind_eq_ok.mpr ⟨name, Segment.ofText_eq_ok.mpr rfl, rfl⟩
    | some table =>
      have hempty : (table.text ++ '.' :: name.text).isEmpty = false := by simp
      have hpoint : name.text.contains '.' = false := by simpa using name.point_not_mem
      simp only [text, ofText, hempty, Text.cut_append_cons table.point_not_mem, hpoint]
      exact Checked.bind_eq_ok.mpr ⟨table, Segment.ofText_eq_ok.mpr rfl,
        Checked.bind_eq_ok.mpr ⟨name, Segment.ofText_eq_ok.mpr rfl, rfl⟩⟩

/-- A name that cannot be read is a fault of the name. -/
theorem exists_fault_of_ofText {s : Text} {reason : Rejection} (h : ofText s = .error reason) :
    ∃ fault, reason = .invalidIdentifier fault := by
  unfold ofText at h
  split at h
  · exact ⟨_, (Except.error.inj h).symm⟩
  · split at h
    · rcases Checked.bind_eq_error.mp h with hname | ⟨name, -, h⟩
      · exact Segment.exists_fault_of_ofText hname
      · contradiction
    · split at h
      · exact ⟨_, (Except.error.inj h).symm⟩
      · rcases Checked.bind_eq_error.mp h with htable | ⟨table, -, h⟩
        · exact Segment.exists_fault_of_ofText htable
        · rcases Checked.bind_eq_error.mp h with hname | ⟨name, -, h⟩
          · exact Segment.exists_fault_of_ofText hname
          · contradiction

theorem isIdentifier_text (i : Identifier) : i.text.IsIdentifier := by
  obtain ⟨qualifier, name⟩ := i
  cases qualifier with
  | none => exact .inl name.isSegment_text
  | some table => exact .inr ⟨table.text, name.text, table.isSegment_text, name.isSegment_text, rfl⟩

end Identifier

/-- A text of the form of an identifier is one. -/
theorem Text.IsIdentifier.exists_identifier {s : Text} (h : s.IsIdentifier) :
    ∃ i : Identifier, i.text = s := by
  rcases h with h | ⟨a, b, ha, hb, rfl⟩
  · obtain ⟨name, rfl⟩ := h.exists_segment
    exact ⟨⟨none, name⟩, rfl⟩
  · obtain ⟨table, rfl⟩ := ha.exists_segment
    obtain ⟨name, rfl⟩ := hb.exists_segment
    exact ⟨⟨some table, name⟩, rfl⟩

/-- Names are the texts that are read as one. -/
theorem Text.isIdentifier_iff {s : Text} : s.IsIdentifier ↔ ∃ i, Identifier.ofText s = .ok i := by
  simp only [Identifier.ofText_eq_ok]
  constructor
  · exact IsIdentifier.exists_identifier
  · rintro ⟨i, rfl⟩
    exact i.isIdentifier_text

instance : DecidablePred Text.IsIdentifier := fun s =>
  match h : Identifier.ofText s with
  | .ok i => isTrue (Identifier.ofText_eq_ok.mp h ▸ i.isIdentifier_text)
  | .error reason => isFalse fun hs => by
    obtain ⟨i, rfl⟩ := hs.exists_identifier
    rw [Identifier.ofText_eq_ok.mpr rfl] at h
    contradiction

/-! ### Faults of names -/

namespace Text

/-- What is wrong with a text as an unqualified name: a point in it, no character at all, or the
    first character that is out of place. -/
def segmentFault? (name : Text) : Option IdentifierFault :=
  if '.' ∈ name then some (.qualifiedName name)
  else
    match name with
    | [] => some .empty
    | first :: rest =>
      if IsNameStart first then
        (rest.find? fun c => ¬IsNameRest c).map fun c => .badCharacter c name
      else some (.badStart first name)

/-- The rejection of a text as an unqualified name, if there is one. -/
def nameFaults (name : Text) : List Rejection :=
  (name.segmentFault?.map .invalidIdentifier).toList

end Text

/-- Nothing is wrong with unqualified names. -/
theorem Text.segmentFault?_eq_none {name : Text} : name.segmentFault? = none ↔ name.IsSegment := by
  unfold segmentFault?
  constructor
  · intro h
    split at h
    · contradiction
    · split at h
      · contradiction
      · next first rest hpoint =>
        split at h
        · next hfirst =>
          refine ⟨first, rest, rfl, hfirst, fun c hc => ?_⟩
          simpa using List.find?_eq_none.mp (Option.map_eq_none_iff.mp h) c hc
        · contradiction
  · intro h
    obtain ⟨segment, rfl⟩ := h.exists_segment
    rw [if_neg segment.point_not_mem]
    obtain ⟨first, rest, heq, hfirst, hrest⟩ := segment.isSegment_text
    rw [heq]
    simp only [if_pos hfirst]
    simpa using hrest

/-- An unqualified name is rejected for what is wrong with it. -/
theorem Segment.parse_of_fault {name : Text} {fault : IdentifierFault}
    (h : name.segmentFault? = some fault) : parse name = .error (.invalidIdentifier fault) := by
  unfold Text.segmentFault? at h
  unfold parse
  split at h
  · next hpoint => rw [if_pos (by simpa using hpoint), Option.some.inj h]
  · next hpoint =>
    rw [if_neg (by simpa using hpoint)]
    cases name with
    | nil => rw [← Option.some.inj h, List.isEmpty_nil, if_pos rfl]
    | cons first rest =>
      simp only at h
      rw [List.isEmpty_cons, if_neg Bool.false_ne_true, ofText]
      split at h
      · next hfirst =>
        obtain ⟨c, hc, rfl⟩ := Option.map_eq_some_iff.mp h
        have hfind : rest.find? (fun d => !isSegmentRest d) = some c := by
          simpa only [isSegmentRest_eq, decide_not] using hc
        rw [dif_pos ((isSegmentStart_iff first).mpr hfirst)]
        split
        · next d hd => rw [Option.some.inj (hd.symm.trans hfind)]
        · next hd =>
          rw [hfind] at hd
          contradiction
      · next hfirst =>
        rw [dif_neg (mt (isSegmentStart_iff first).mp hfirst), Option.some.inj h]

theorem Segment.finds_parse (name : Text) :
    Checked.Finds (parse name) name.nameFaults fun s => s.text = name := by
  unfold Text.nameFaults
  cases hfault : name.segmentFault? with
  | none =>
    obtain ⟨segment, rfl⟩ := (Text.segmentFault?_eq_none.mp hfault).exists_segment
    rw [parse_eq_ok.mpr rfl]
    exact .ok rfl
  | some fault =>
    rw [parse_of_fault hfault]
    exact .error _ []

end SqlSelect
