import SqlSelect.Proofs.Reading.Strings

/-!
Quoted values stand on their own. A server that reads a string literal at the start of a text stops
at the end of the quoted value, whatever comes next but another quote, and has its characters back.
With backslash escapes the quoted value can also be looked at without reading it: no control
character that would end or garble a line is left in it, and every quote of either kind inside it
has a backslash in front that is not escaped itself.

        it's \    ──▶    'it\'s \\'        the last quote ends the value: the backslash is escaped
-/

namespace SqlSelect

/-- Reads the literal that a text begins with: its value, and the text after it. -/
def StringRule.readLiteral (rule : StringRule) : Text → Option (Text × Text)
  | '\'' :: rest => rule.readBody .plain rest
  | _ => none

/-- Whether the character after a text is escaped: the text ends in a backslash that is not. -/
def escapesNext (before : Text) : Bool :=
  before.foldl (fun escaped c => !escaped && c == '\\') false

theorem escapesNext_concat (before : Text) (c : Char) :
    escapesNext (before ++ [c]) = (!escapesNext before && c == '\\') := by
  rw [escapesNext, List.foldl_append, escapesNext]
  rfl

/-- The character before an escaped one is a backslash that is not escaped. -/
theorem exists_of_escapesNext {before : Text} (h : escapesNext before = true) :
    ∃ head, before = head ++ ['\\'] ∧ escapesNext head = false := by
  rcases List.eq_nil_or_concat before with rfl | ⟨head, c, rfl⟩
  · contradiction
  · rw [List.concat_eq_append, escapesNext_concat, Bool.and_eq_true, beq_iff_eq] at h
    obtain ⟨hhead, rfl⟩ := h
    exact ⟨head, List.concat_eq_append, by simpa using hhead⟩

namespace Dialect

/-- What an escape is: a single character that needs none, or a backslash and another character. -/
theorem backslashing_cases (c : Char) :
    (backslashing c = [c] ∧ c ≠ '\\' ∧ c ≠ '\'' ∧ c ≠ '"') ∨ ∃ d, backslashing c = ['\\', d] := by
  unfold backslashing
  split
  case h_8 hbackslash hquote hdouble _ => exact .inl ⟨rfl, hbackslash, hquote, hdouble⟩
  all_goals exact .inr ⟨_, rfl⟩

/-- Control characters are written with other characters. -/
theorem ne_control_of_mem_backslashing {c d : Char} (h : d ∈ backslashing c) :
    d ≠ '\x00' ∧ d ≠ '\n' ∧ d ≠ '\r' ∧ d ≠ '\x1a' := by
  unfold backslashing at h
  split at h
  case h_8 hnul hline hreturn _ _ _ hend =>
    rw [List.mem_singleton.mp h]
    exact ⟨hnul, hline, hreturn, hend⟩
  all_goals
    simp only [List.mem_cons, List.not_mem_nil, or_false] at h
    rcases h with rfl | rfl <;> decide

/-- Escapes are complete: whether a character is escaped depends on what comes after them. -/
theorem escapesNext_backslashing (c : Char) (rest : Text) :
    escapesNext (backslashing c ++ rest) = escapesNext rest := by
  rcases backslashing_cases c with ⟨hc, hbackslash, -⟩ | ⟨d, hc⟩
  · have hplain : (c == '\\') = false := beq_eq_false_iff_ne.mpr hbackslash
    rw [hc]
    simp [escapesNext, hplain]
  · rw [hc]
    simp [escapesNext]

/-- Within an escape, a quote of either kind comes after the backslash. -/
theorem eq_backslash_of_quote {d c : Char} (hc : c = '\'' ∨ c = '"') {before more : Text}
    (h : backslashing d = before ++ c :: more) : before = ['\\'] := by
  rcases backslashing_cases d with ⟨hd, -, hquote, hdouble⟩ | ⟨e, hd⟩
  · rw [hd] at h
    rcases before with - | ⟨b, before⟩
    · obtain ⟨rfl, -⟩ := List.cons.inj h
      rcases hc with rfl | rfl <;> contradiction
    · simp at h
  · rw [hd] at h
    rcases before with - | ⟨b, - | ⟨b', before⟩⟩
    · obtain ⟨rfl, -⟩ := List.cons.inj h
      revert hc
      decide
    · rw [(List.cons.inj h).1]
    · simp at h

/-- Quotes of either kind are escaped wherever they stand between the quotes around a value. -/
theorem escapesNext_of_quote {s before after : Text} {c : Char} (hc : c = '\'' ∨ c = '"')
    (h : s.flatMap backslashing = before ++ c :: after) : escapesNext before = true := by
  induction s generalizing before with
  | nil => simp at h
  | cons d s ih =>
    rw [List.flatMap_cons] at h
    -- the quote comes after the escape of the first character, or is a part of it
    rcases List.append_eq_append_iff.mp h with ⟨more, rfl, hmore⟩ | ⟨more, hescape, hmore⟩
    · rw [escapesNext_backslashing]
      exact ih hmore
    · rcases more with - | ⟨first, more⟩
      · have hnil : escapesNext [] = true := ih hmore.symm
        contradiction
      · obtain ⟨rfl, -⟩ := List.cons.inj hmore
        rw [eq_backslash_of_quote hc hescape]
        rfl

end Dialect

namespace StringRule

theorem readLiteral_quote (rule : StringRule) (s : Text) {rest : Text}
    (h : rest.head? ≠ some '\'') :
    rule.readLiteral (rule.dialect.quote s ++ rest) = some (s, rest) := by
  have hquote : rule.dialect.quote s ++ rest =
      '\'' :: (s.flatMap rule.escape ++ '\'' :: rest) := by
    rw [quote_eq]
    simp
  rw [hquote, readLiteral, readBody_quoted rule s rest h]

/-- Different values are quoted differently. -/
theorem quote_injective (rule : StringRule) : Function.Injective rule.dialect.quote := by
  intro s t h
  have hs : rule.readLiteral (rule.dialect.quote s ++ []) = some (s, []) :=
    rule.readLiteral_quote s (by simp)
  rw [h, rule.readLiteral_quote t (by simp)] at hs
  exact (Prod.mk.inj (Option.some.inj hs)).1.symm

/-- Quoted values read back under both rules, whatever follows them but a quote, so different values
    are quoted differently. With backslash escapes, no control character is left, and every quote
    between the first and the last character has a backslash in front that escapes it. -/
theorem quoted_self_delimiting :
    (∀ (rule : StringRule) (s rest : Text), rest.head? ≠ some '\'' →
      rule.readLiteral (rule.dialect.quote s ++ rest) = some (s, rest)) ∧
    (∀ rule : StringRule, Function.Injective rule.dialect.quote) ∧
    (∀ s, ∀ c ∈ Dialect.mysql.quote s, c ≠ '\x00' ∧ c ≠ '\n' ∧ c ≠ '\r' ∧ c ≠ '\x1a') ∧
    ∀ s before c after, Dialect.mysql.quote s = '\'' :: (before ++ c :: after) → after ≠ [] →
      c = '\'' ∨ c = '"' → ∃ head, before = head ++ ['\\'] ∧ escapesNext head = false := by
  refine ⟨fun rule s rest => rule.readLiteral_quote s, quote_injective, fun s c hc => ?_,
    fun s before c after hquote hne hc => ?_⟩
  · rcases List.mem_append.mp hc with hc | hc
    · rcases List.mem_cons.mp hc with rfl | hc
      · decide
      · obtain ⟨d, -, hd⟩ := List.mem_flatMap.mp hc
        exact Dialect.ne_control_of_mem_backslashing hd
    · rw [List.mem_singleton.mp hc]
      decide
  · obtain ⟨inside, last, rfl⟩ := (List.eq_nil_or_concat after).resolve_left hne
    have hbody : s.flatMap Dialect.backslashing ++ ['\''] = before ++ c :: inside ++ [last] := by
      simpa using (List.cons.inj hquote).2
    exact exists_of_escapesNext
      (Dialect.escapesNext_of_quote hc (List.append_inj' hbody rfl).1)

/-- Values that end in backslashes and quotes, before a text that goes on with more of them. -/
theorem quoted_self_delimiting_trailingEscapes :
    Dialect.ansi.quote "it's \\'".toList = "'it''s \\'''".toList ∧
      Dialect.mysql.quote "\\\\'\n\"\\".toList = "'\\\\\\\\\\'\\n\\\"\\\\'".toList ∧
      (", '\\''".toList).head? ≠ some '\'' ∧
      standard.readLiteral (Dialect.ansi.quote "it's \\'".toList ++ ", '\\''".toList) =
        some ("it's \\'".toList, ", '\\''".toList) ∧
      backslash.readLiteral (Dialect.mysql.quote "\\\\'\n\"\\".toList ++ ", '\\''".toList) =
        some ("\\\\'\n\"\\".toList, ", '\\''".toList) ∧
      ∃ head, "\\\\\\\\\\".toList = head ++ ['\\'] ∧ escapesNext head = false :=
  ⟨by decide, by decide, by decide, quoted_self_delimiting.1 standard _ _ (by decide),
    quoted_self_delimiting.1 backslash _ _ (by decide),
    quoted_self_delimiting.2.2.2 "\\\\'\n\"\\".toList "\\\\\\\\\\".toList '\''
      "\\n\\\"\\\\'".toList (by decide) (by decide) (by decide)⟩

end StringRule

end SqlSelect
