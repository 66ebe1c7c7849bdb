import Mathlib.Data.List.Forall2
import Mathlib.Data.List.TakeWhile
import SqlSelect.Clause.Ordering
import SqlSelect.Condition.Token
import SqlSelect.Proofs.Checked

/-!
Which texts stand for operators, combinators and directions. The three kinds of tokens treat blanks
in three ways: an operator is known by the words of the text, a combinator by the text without the
blanks around it, a direction by the text as it is. Signs have to be exactly those of an operator;
in words, each letter may be the small or the capital one. What splitting and trimming come to is
said apart from how they are done, and both are shown to do just that.

        nOt  Like           ──▶  words nOt and Like    ──▶  NOT LIKE
        " <= "              ──▶  word <=               ──▶  <=
        "< ="               ──▶  words < and =         ──▶  no operator
-/

namespace SqlSelect

namespace Text

/-- One and the same character, or the capital and the small form of one letter of ASCII. -/
def SameLetter (c d : Char) : Prop :=
  c = d ∨ (c.isUpper = true ∧ d.toNat = c.toNat + 32) ∨ (d.isUpper = true ∧ c.toNat = d.toNat + 32)

/-- Texts that agree letter by letter. -/
def SameLetters (a b : Text) : Prop :=
  List.Forall₂ SameLetter a b

/-- Some characters, none of them blank. -/
def IsWord (s : Text) : Prop :=
  s ≠ [] ∧ ∀ c ∈ s, isBlank c = false

instance : DecidablePred IsWord := fun s =>
  decidable_of_iff (s ≠ [] ∧ s.all (fun c => !isBlank c) = true) (by simp [IsWord])

/-- The words of a text: what lies between its blanks. A word is as long as it can be, and so ends
    with the text or before a blank. -/
inductive SplitsInto : Text → List Text → Prop
  | blank {s : Text} : allBlank s = true → SplitsInto s []
  | word {before word after : Text} {words : List Text} : allBlank before = true → IsWord word →
      (∀ c, after.head? = some c → isBlank c = true) → SplitsInto after words →
      SplitsInto (before ++ word ++ after) (word :: words)

/-- A text, and what is left without the blanks around it. -/
structure TrimsTo (s t : Text) : Prop where
  around : ∃ before after, allBlank before = true ∧ allBlank after = true ∧ s = before ++ t ++ after
  first : ∀ c, t.head? = some c → isBlank c = false
  last : ∀ c, t.getLast? = some c → isBlank c = false

/-! ### Letters -/

theorem isUpper_iff (c : Char) : c.isUpper = true ↔ 65 ≤ c.toNat ∧ c.toNat ≤ 90 :=
  decide_eq_true_iff

theorem toNat_toLower (c : Char) :
    c.toLower.toNat = if c.isUpper = true then c.toNat + 32 else c.toNat := by
  split
  · next h =>
    have hrange := (isUpper_iff c).mp h
    have hlower : c.toLower.toNat = (c.val + ('a'.val - 'A'.val)).toNat :=
      congrArg Char.toNat (dif_pos (decide_eq_true_iff.mp h))
    have hoffset : 'a'.val - 'A'.val = 32 := rfl
    rw [hlower, hoffset, UInt32.toNat_add]
    exact Nat.mod_eq_of_lt (by simp; omega)
  · next h => exact congrArg Char.toNat (dif_neg fun hupper => h (decide_eq_true_iff.mpr hupper))

/-- Two letters have the same small form just if they are one letter. -/
theorem sameLetter_iff (c d : Char) : SameLetter c d ↔ c.toLower = d.toLower := by
  simp only [SameLetter, ← Char.toNat_inj, toNat_toLower, isUpper_iff]
  split <;> split <;> omega

theorem sameWord_iff {a b : Text} : sameWord a b = true ↔ SameLetters a b := by
  rw [sameWord, beq_iff_eq, SameLetters, ← List.forall₂_eq_eq_eq, List.forall₂_map_left_iff,
    List.forall₂_map_right_iff]
  simp only [← sameLetter_iff]

instance (a b : Text) : Decidable (SameLetters a b) :=
  decidable_of_iff _ sameWord_iff

theorem SameLetters.length_eq {a b : Text} (h : SameLetters a b) : a.length = b.length :=
  List.Forall₂.length_eq h

/-! ### Words -/

section Words

variable {before after s t : Text} {ws : List Text}

theorem allBlank_iff : allBlank s = true ↔ ∀ c ∈ s, isBlank c = true :=
  List.all_eq_true

theorem allBlank_append : allBlank (before ++ after) = (allBlank before && allBlank after) :=
  List.all_append

/-- Blanks in front belong to no word. -/
theorem words_cons_of_blank {c : Char} (h : isBlank c = true) (s : Text) :
    words (c :: s) = words s := by
  cases s with
  | nil => simp [words, h]
  | cons d s => simp [words, h]

theorem words_append_of_blank (h : allBlank before = true) (s : Text) :
    words (before ++ s) = words s := by
  induction before with
  | nil => rfl
  | cons c before ih =>
    simp only [allBlank, List.all_cons, Bool.and_eq_true] at h
    rw [List.cons_append, words_cons_of_blank h.1, ih h.2]

/-- A row of other characters is a word, if a blank or nothing comes after it. -/
theorem words_append_of_isWord {word : Text} (hword : IsWord word)
    (hafter : ∀ c, after.head? = some c → isBlank c = true) :
    words (word ++ after) = word :: words after := by
  obtain ⟨hne, hword⟩ := hword
  induction word with
  | nil => contradiction
  | cons c word ih =>
    obtain ⟨hc, hrest⟩ := List.forall_mem_cons.mp hword
    cases word with
    | nil =>
      cases after with
      | nil => simp [words, hc]
      | cons d after => simp [words, hc, hafter d rfl]
    | cons d word =>
      have hd : isBlank d = false := hrest d (by simp)
      have hmore := ih (List.cons_ne_nil d word) hrest
      rw [List.cons_append] at hmore
      simp [words, hc, hd, hmore, extendWord]

theorem words_eq_of_splitsInto (h : s.SplitsInto ws) : words s = ws := by
  induction h with
  | blank hs =>
    have hnone := words_append_of_blank hs []
    rwa [List.append_nil] at hnone
  | word hbefore hword hafter _ ih =>
    rw [List.append_assoc, words_append_of_blank hbefore, words_append_of_isWord hword hafter, ih]

/-- Every text has words, which are found from the end: a character that is not blank begins a word
    or belongs to the one that comes next. -/
theorem exists_splitsInto (s : Text) : ∃ ws, s.SplitsInto ws := by
  induction s with
  | nil => exact ⟨[], .blank rfl⟩
  | cons c s ih =>
    obtain ⟨ws, hs⟩ := ih
    cases hc : isBlank c with
    | true =>
      cases hs with
      | blank hs => exact ⟨[], .blank (by simpa [allBlank, hc] using hs)⟩
      | @word before word after ws hbefore hword hafter hs =>
        have hmore : allBlank (c :: before) = true := by simpa [allBlank, hc] using hbefore
        exact ⟨word :: ws, .word hmore hword hafter hs⟩
    | false =>
      have hsingle : IsWord [c] := ⟨by simp, by simpa using hc⟩
      cases hs with
      | blank hs =>
        have hnext : ∀ d, s.head? = some d → isBlank d = true :=
          fun d hd => allBlank_iff.mp hs d (List.mem_of_head? hd)
        exact ⟨[[c]], @SplitsInto.word [] [c] s [] rfl hsingle hnext (.blank hs)⟩
      | @word before word after ws hbefore hword hafter hs =>
        rcases before with - | ⟨b, before⟩
        · have hmore : IsWord (c :: word) :=
            ⟨List.cons_ne_nil c word, List.forall_mem_cons.mpr ⟨hc, hword.2⟩⟩
          exact ⟨(c :: word) :: ws, @SplitsInto.word [] (c :: word) after ws rfl hmore hafter hs⟩
        · have hnext : ∀ d, (b :: before ++ word ++ after).head? = some d → isBlank d = true := by
            rintro d ⟨⟩
            exact allBlank_iff.mp hbefore b (by simp)
          exact ⟨[c] :: word :: ws,
            @SplitsInto.word [] [c] _ _ rfl hsingle hnext (.word hbefore hword hafter hs)⟩

/-- Splitting finds the words of a text. -/
theorem splitsInto_iff : s.SplitsInto ws ↔ words s = ws := by
  constructor
  · exact words_eq_of_splitsInto
  · rintro rfl
    obtain ⟨ws, hs⟩ := s.exists_splitsInto
    rwa [words_eq_of_splitsInto hs]

/-- Blanks around a text do not change its words. -/
theorem SplitsInto.surround (hbefore : allBlank before = true) (hafter : allBlank after = true)
    (h : s.SplitsInto ws) : (before ++ s ++ after).SplitsInto ws := by
  have happend : (s ++ after).SplitsInto ws := by
    induction h with
    | blank hs => exact .blank (by rw [allBlank_append, hs, hafter]; rfl)
    | @word before word rest ws hb hword hrest _ ih =>
      rw [List.append_assoc]
      refine .word hb hword (fun c hc => ?_) ih
      cases rest with
      | nil => exact allBlank_iff.mp hafter c (List.mem_of_head? hc)
      | cons d rest => exact hrest c hc
  rw [List.append_assoc, splitsInto_iff, words_append_of_blank hbefore]
  exact splitsInto_iff.mp happend

/-! ### Trimming -/

theorem dropWhile_append_of_blank (h : allBlank before = true)
    (hfirst : ∀ c, s.head? = some c → isBlank c = false) :
    (before ++ s).dropWhile isBlank = s := by
  rw [List.dropWhile_append_of_pos (allBlank_iff.mp h)]
  cases s with
  | nil => rfl
  | cons c s => rw [List.dropWhile_cons_of_neg (by simp [hfirst c rfl])]

theorem trim_eq_of_trimsTo (h : s.TrimsTo t) : trim s = t := by
  obtain ⟨⟨before, after, hbefore, hafter, rfl⟩, hfirst, hlast⟩ := h
  rcases List.eq_nil_or_concat t with rfl | ⟨inside, c, rfl⟩
  · have hall : allBlank (before ++ [] ++ after) = true := by
      rw [List.append_nil, allBlank_append, hbefore, hafter]
      rfl
    rw [trim, List.dropWhile_eq_nil_iff.mpr (allBlank_iff.mp hall)]
    rfl
  · rw [List.concat_eq_append] at hfirst hlast ⊢
    have hafter' : allBlank after.reverse = true := by
      rw [allBlank, List.all_reverse]
      exact hafter
    have hfront := dropWhile_append_of_blank (s := inside ++ [c] ++ after) hbefore fun d hd =>
      hfirst d (by rwa [List.head?_append_of_ne_nil _ (by simp)] at hd)
    have hback := dropWhile_append_of_blank (s := (inside ++ [c]).reverse) hafter' fun d hd =>
      hlast d (by rwa [List.head?_reverse] at hd)
    rw [trim, List.append_assoc, hfront, List.reverse_append, hback, List.reverse_reverse]

theorem trimsTo_trim (s : Text) : s.TrimsTo (trim s) := by
  -- the blanks in front are taken away first, then those at the end of what is left
  let rest := s.dropWhile isBlank
  have hfront : s = s.takeWhile isBlank ++ rest := List.takeWhile_append_dropWhile.symm
  have hback : rest = trim s ++ (rest.reverse.takeWhile isBlank).reverse := by
    rw [trim, ← List.reverse_append, List.takeWhile_append_dropWhile, List.reverse_reverse]
  refine ⟨⟨s.takeWhile isBlank, (rest.reverse.takeWhile isBlank).reverse, ?_, ?_, ?_⟩, ?_, ?_⟩
  · exact List.all_takeWhile
  · rw [allBlank, List.all_reverse]
    exact List.all_takeWhile
  · rw [List.append_assoc, ← hback]
    exact hfront
  · intro c hc
    have hhead : rest.head? = some c := by rw [hback, List.head?_append, hc]; rfl
    have hsolid := List.head?_dropWhile_not isBlank s
    rw [show s.dropWhile isBlank = rest from rfl, hhead] at hsolid
    exact hsolid
  · intro c hc
    have hsolid := List.head?_dropWhile_not isBlank rest.reverse
    rw [trim, List.getLast?_reverse] at hc
    rw [hc] at hsolid
    exact hsolid

/-- Trimming takes away the blanks around a text. -/
theorem trimsTo_iff : s.TrimsTo t ↔ trim s = t := by
  constructor
  · exact trim_eq_of_trimsTo
  · rintro rfl
    exact s.trimsTo_trim

/-- Trimming leaves the words as they are. -/
theorem words_trim (s : Text) : words (trim s) = words s := by
  obtain ⟨before, after, hbefore, hafter, hs⟩ := s.trimsTo_trim.around
  have hsplit := (splitsInto_iff.mpr rfl : (trim s).SplitsInto _).surround hbefore hafter
  rw [← hs] at hsplit
  exact (words_eq_of_splitsInto hsplit).symm

/-- A text with a single word has only blanks around it. -/
theorem splitsInto_singleton {word : Text} (h : IsWord word) :
    s.SplitsInto [word] ↔ s.TrimsTo word := by
  constructor
  · intro hs
    cases hs with
    | @word before _ after _ hbefore _ _ hrest =>
      cases hrest with
      | blank hafter =>
        exact ⟨⟨before, after, hbefore, hafter, rfl⟩, fun c hc => h.2 c (List.mem_of_head? hc),
          fun c hc => h.2 c (List.mem_of_getLast? hc)⟩
  · rintro ⟨⟨before, after, hbefore, hafter, rfl⟩, -, -⟩
    exact .word hbefore h (fun c hc => allBlank_iff.mp hafter c (List.mem_of_head? hc))
      (.blank hafter)

end Words

end Text

open Text

/-! ### Operators -/

namespace Operator

/-- The words that stand for an operator: signs as they are, and words in letters of any case. -/
def SpelledBy (words : List Text) : Operator → Prop
  | equal => words = ["=".toList]
  | unequal => words = ["!=".toList]
  | different => words = ["<>".toList]
  | greater => words = [">".toList]
  | less => words = ["<".toList]
  | atLeast => words = [">=".toList]
  | atMost => words = ["<=".toList]
  | like => ∃ word, words = [word] ∧ word.SameLetters "LIKE".toList
  | notLike => ∃ first second, words = [first, second] ∧ first.SameLetters "NOT".toList ∧
      second.SameLetters "LIKE".toList

theorem keyword_or_symbol (op : Operator) : op = like ∨ op = notLike ∨ op ∈ symbols := by
  cases op <;> decide

theorem isWord_symbol : ∀ op ∈ symbols, IsWord op.text := by
  decide

theorem spelledBy_symbol {op : Operator} (h : op ∈ symbols) {ws : List Text} :
    op.SpelledBy ws ↔ ws = [op.text] := by
  cases op with
  | like | notLike => exact absurd h (by decide)
  | _ => rfl

theorem find?_symbols {t : Text} {op : Operator} :
    symbols.find? (fun symbol => symbol.text == t) = some op ↔ op ∈ symbols ∧ op.text = t := by
  constructor
  · intro h
    exact ⟨List.mem_of_find?_eq_some h, by simpa using List.find?_some h⟩
  · rintro ⟨hmem, rfl⟩
    revert op
    decide

/-- Signs stand for an operator if they are the only word of a text. -/
theorem trim_eq_symbol {s : Text} {op : Operator} (h : op ∈ symbols) :
    trim s = op.text ↔ words s = [op.text] := by
  rw [← trimsTo_iff, ← splitsInto_singleton (isWord_symbol op h), splitsInto_iff]

/-- The signs of an operator stand for no other one, and are not the letters of a word. -/
theorem spelledBy_text {symbol op : Operator} (h : symbol ∈ symbols) :
    op.SpelledBy [symbol.text] ↔ symbol = op := by
  have hlength : ∀ a ∈ symbols, a.text.length ≠ 4 := by decide
  have htext : ∀ a ∈ symbols, ∀ b ∈ symbols, a.text = b.text → a = b := by decide
  constructor
  · intro hspelled
    rcases op.keyword_or_symbol with rfl | rfl | hop
    · obtain ⟨word, hword, hletters⟩ := hspelled
      rw [← List.head_eq_of_cons_eq hword] at hletters
      exact absurd hletters.length_eq (hlength symbol h)
    · obtain ⟨first, second, hwords, -⟩ := hspelled
      simp at hwords
    · exact htext symbol h op hop (List.head_eq_of_cons_eq ((spelledBy_symbol hop).mp hspelled))
  · rintro rfl
    exact (spelledBy_symbol h).mpr rfl

/-- An operator is read from the words that stand for it. -/
theorem ofText_eq_ok {s : Text} {op : Operator} : ofText s = .ok op ↔ op.SpelledBy (words s) := by
  unfold ofText
  rw [words_trim]
  split
  · next symbol hfind =>
    obtain ⟨hmem, htrim⟩ := find?_symbols.mp hfind
    rw [(trim_eq_symbol hmem).mp htrim.symm, spelledBy_text hmem, Except.ok.injEq]
  · next hfind =>
    -- no signs of an operator: of what is left, only the two words can be one
    have hnone : op ∈ symbols → ¬op.SpelledBy (words s) := by
      intro hop hspelled
      have htrim := (trim_eq_symbol hop).mpr ((spelledBy_symbol hop).mp hspelled)
      rw [find?_symbols.mpr ⟨hop, htrim.symm⟩] at hfind
      contradiction
    rcases op.keyword_or_symbol with rfl | rfl | hop
    · simp only [SpelledBy, ← sameWord_iff]
      split
      · next word hwords => simp [hwords]
      · next first second hwords => simp [hwords, Checked.if_eq_ok]
      · next hone _ => simpa using fun word hword => (hone word hword).elim
    · simp only [SpelledBy, ← sameWord_iff]
      split
      · next word hwords => simp [hwords, Checked.if_eq_ok]
      · next first second hwords => simp [hwords]
      · next _ htwo => simpa using fun first second hword => (htwo first second hword).elim
    · have hlike : like ≠ op := by
        rintro rfl
        contradiction
      have hnotLike : notLike ≠ op := by
        rintro rfl
        contradiction
      refine iff_of_false (fun h => ?_) (hnone hop)
      split at h
      · exact hlike (Checked.if_eq_ok.mp h).2
      · exact hnotLike (Checked.if_eq_ok.mp h).2
      · contradiction

/-- Any other text is rejected as it was written. -/
theorem eq_of_ofText_eq_error {token : Text} {reason : Rejection}
    (h : ofText token = .error reason) : reason = .invalidOperator token := by
  unfold ofText at h
  split at h
  · contradiction
  · split at h
    · split at h
      · contradiction
      · exact (Except.error.inj h).symm
    · split at h
      · contradiction
      · exact (Except.error.inj h).symm
    · exact (Except.error.inj h).symm

/-- The text of an operator with blanks around it is read as the operator. -/
theorem ofText_surrounded (op : Operator) {before after : Text} (hbefore : allBlank before = true)
    (hafter : allBlank after = true) : ofText (before ++ op.text ++ after) = .ok op := by
  have hsplit := (splitsInto_iff.mpr rfl : op.text.SplitsInto _).surround hbefore hafter
  rw [ofText_eq_ok, splitsInto_iff.mp hsplit, ← ofText_eq_ok]
  cases op <;> rfl

/-- Any blanks will do between the words of an operator, as long as there are some. -/
theorem ofText_spaced {before between after : Text} (hbefore : allBlank before = true)
    (hbetween : allBlank between = true) (hne : between ≠ []) (hafter : allBlank after = true) :
    ofText (before ++ ("NOT".toList ++ between ++ "LIKE".toList) ++ after) = .ok notLike := by
  obtain ⟨b, more, rfl⟩ := List.exists_cons_of_ne_nil hne
  have hnext : ∀ c, (b :: more ++ "LIKE".toList).head? = some c → isBlank c = true := by
    rintro c ⟨⟩
    exact allBlank_iff.mp hbetween b (by simp)
  have hnot : IsWord "NOT".toList := by decide
  have hwords : words ("NOT".toList ++ (b :: more ++ "LIKE".toList)) =
      ["NOT".toList, "LIKE".toList] := by
    rw [words_append_of_isWord hnot hnext, words_append_of_blank hbetween]
    rfl
  have hsplit := (splitsInto_iff.mpr hwords).surround hbefore hafter
  rw [ofText_eq_ok, List.append_assoc "NOT".toList, splitsInto_iff.mp hsplit]
  exact ⟨_, _, rfl, by decide, by decide⟩

end Operator

/-! ### Combinators and directions -/

section Choice

variable {α : Type} (text : α → Text) (x y : α) {t : Text} {reason : Rejection}

/-- A choice between two tokens whose texts differ in length is made by the text. -/
theorem choice_eq_ok (hlength : (text x).length ≠ (text y).length) {z : α} (hz : z = x ∨ z = y) :
    (if sameWord t (text x) then .ok x else if sameWord t (text y) then .ok y
      else .error reason : Checked α) = .ok z ↔ t.SameLetters (text z) := by
  simp only [sameWord_iff]
  have hnot : t.SameLetters (text x) → ¬t.SameLetters (text y) :=
    fun hx hy => hlength (hx.length_eq.symm.trans hy.length_eq)
  rcases hz with rfl | rfl
  · split
    · simpa using ‹_›
    · next hx =>
      simp only [hx, iff_false, Checked.if_eq_ok, not_and]
      rintro - rfl
      exact hlength rfl
  · split
    · next hx =>
      simp only [hnot hx, iff_false, Except.ok.injEq]
      rintro rfl
      exact hlength rfl
    · simp

theorem eq_of_choice_eq_error {reason' : Rejection}
    (h : (if sameWord t (text x) then .ok x else if sameWord t (text y) then .ok y
      else .error reason : Checked α) = .error reason') : reason' = reason := by
  split at h
  · contradiction
  · split at h
    · contradiction
    · exact (Except.error.inj h).symm

end Choice

namespace Combinator

/-- The letters that stand for a combinator. -/
def SpelledBy (t : Text) : Combinator → Prop
  | .and => t.SameLetters "AND".toList
  | .or => t.SameLetters "OR".toList

/-- The text of a combinator, and any with the same letters, stands for it. -/
theorem spelledBy_iff {t : Text} {c : Combinator} : c.SpelledBy t ↔ t.SameLetters c.text := by
  cases c <;> rfl

/-- A combinator is read from its letters, with blanks around them or not. -/
theorem ofText_eq_ok {s : Text} {c : Combinator} : ofText s = .ok c ↔ c.SpelledBy (trim s) := by
  rw [spelledBy_iff]
  exact choice_eq_ok text .and .or (by decide) (by cases c <;> simp)

theorem eq_of_ofText_eq_error {s : Text} {reason : Rejection} (h : ofText s = .error reason) :
    reason = .invalidOperator s :=
  eq_of_choice_eq_error text .and .or h

end Combinator

namespace Direction

/-- The letters that stand for a direction. -/
def SpelledBy (t : Text) : Direction → Prop
  | ascending => t.SameLetters "ASC".toList
  | descending => t.SameLetters "DESC".toList

/-- The text of a direction, and any with the same letters, stands for it. -/
theorem spelledBy_iff {t : Text} {d : Direction} : d.SpelledBy t ↔ t.SameLetters d.text := by
  cases d <;> rfl

/-- A direction is read from its letters alone. -/
theorem ofText_eq_ok {s : Text} {d : Direction} : ofText s = .ok d ↔ d.SpelledBy s := by
  rw [spelledBy_iff]
  exact choice_eq_ok text ascending descending (by decide) (by cases d <;> simp)

theorem eq_of_ofText_eq_error {s : Text} {reason : Rejection} (h : ofText s = .error reason) :
    reason = .invalidDirection s :=
  eq_of_choice_eq_error text ascending descending h

end Direction

/-- An operator is read exactly from the words that stand for it, a combinator from its letters
    within blanks, and a direction from its letters; any other text is rejected as it was written.
    The texts of operators are read back with any blanks around them, and with any between words. -/
theorem tokens_recognized :
    (∀ s : Text,
      (∀ op, Operator.ofText s = .ok op ↔ ∃ words, s.SplitsInto words ∧ op.SpelledBy words) ∧
      (∀ c, Combinator.ofText s = .ok c ↔ ∃ t, s.TrimsTo t ∧ c.SpelledBy t) ∧
      (∀ d, Direction.ofText s = .ok d ↔ d.SpelledBy s) ∧
      (∀ reason, Operator.ofText s = .error reason ∨ Combinator.ofText s = .error reason →
        reason = .invalidOperator s) ∧
      ∀ reason, Direction.ofText s = .error reason → reason = .invalidDirection s) ∧
    ∀ before after : Text, allBlank before = true → allBlank after = true →
      (∀ op, Operator.ofText (before ++ op.text ++ after) = .ok op) ∧
      ∀ between, allBlank between = true → between ≠ [] →
        Operator.ofText (before ++ ("NOT".toList ++ between ++ "LIKE".toList) ++ after) =
          .ok .notLike := by
  refine ⟨fun s => ⟨fun op => ?_, fun c => ?_, fun d => Direction.ofText_eq_ok, ?_,
    fun _ => Direction.eq_of_ofText_eq_error⟩, fun before after hbefore hafter => ⟨fun op => ?_, ?_⟩⟩
  · simp only [splitsInto_iff, exists_eq_left', Operator.ofText_eq_ok]
  · simp only [trimsTo_iff, exists_eq_left', Combinator.ofText_eq_ok]
  · rintro reason (h | h)
    · exact Operator.eq_of_ofText_eq_error h
    · exact Combinator.eq_of_ofText_eq_error h
  · exact op.ofText_surrounded hbefore hafter
  · intro between hbetween hne
    exact Operator.ofText_spaced hbefore hbetween hne hafter

/-- Blanks of several kinds, a sign of two characters taken apart, a capital that is none of ASCII,
    and a direction with a blank before it. -/
theorem tokens_recognized_foreignBlanks :
    (allBlank "\u2003\t".toList = true ∧ allBlank "\u3000".toList = true ∧
      "\u3000".toList ≠ [] ∧ allBlank "\u00a0\n".toList = true) ∧
      Operator.ofText ("\u2003\t".toList ++ "<=".toList ++ "\u00a0\n".toList) = .ok .atMost ∧
      Operator.ofText ("\u2003\t".toList ++
        ("NOT".toList ++ "\u3000".toList ++ "LIKE".toList) ++ "\u00a0\n".toList) =
          .ok .notLike ∧
      Operator.ofText " nOt \u2028Like".toList = .ok .notLike ∧
      Operator.ofText "LI\u212aE".toList = .error (.invalidOperator "LI\u212aE".toList) ∧
      (∃ reason, Operator.ofText "< =".toList = .error reason ∧
        reason = .invalidOperator "< =".toList) ∧
      ∃ reason, Direction.ofText " asc".toList = .error reason ∧
        reason = .invalidDirection " asc".toList := by
  have hblank := tokens_recognized.2 "\u2003\t".toList "\u00a0\n".toList (by decide) (by decide)
  exact ⟨by decide, hblank.1 .atMost, hblank.2 "\u3000".toList (by decide) (by decide), by decide,
    by decide, ⟨_, rfl, (tokens_recognized.1 _).2.2.2.1 _ (.inl rfl)⟩,
    ⟨_, rfl, (tokens_recognized.1 _).2.2.2.2 _ rfl⟩⟩

end SqlSelect
