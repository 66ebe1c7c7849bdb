import SqlSelect.Dialect

/-!
Reading string literals back out of a text. A server scans a statement from the left; at a single
quote a string literal begins, and it ends at the next quote that is not part of an escape. A
doubled quote always stands for one quote, and servers with backslash escapes read a backslash and
the character after it as one character. What is proved is that a text which was put together from
single characters and quoted values is taken apart into exactly these again, whatever the values
are, as long as no character outside is a quote and no two literals touch.

        outside ──'──▶ inside ──'──▶ outside
                       │ '' stands for ', and \c for a character by the server's table ↺
-/

namespace SqlSelect

/-- A piece of a text: a character outside of string literals, or a whole literal by its value. -/
inductive Symbol where
  | char (c : Char)
  | literal (payload : Text)
  deriving DecidableEq

/-- How a server reads string literals. -/
inductive StringRule where
  | standard | backslash
  deriving DecidableEq

namespace Symbol

/-- The piece in SQL. -/
def text (quote : Text → Text) : Symbol → Text
  | char c => [c]
  | literal payload => quote payload

/-- The pieces in SQL, one after the other. -/
def spell (quote : Text → Text) (symbols : List Symbol) : Text :=
  symbols.flatMap (text quote)

/-- Whether a string literal comes first. -/
def startsLiteral : List Symbol → Bool
  | literal _ :: _ => true
  | _ => false

/-- No quote stands outside of literals, and no two literals touch. -/
def Separate : List Symbol → Prop
  | [] => True
  | char c :: rest => c ≠ '\'' ∧ Separate rest
  | literal _ :: rest => startsLiteral rest = false ∧ Separate rest

end Symbol

open SqlSelect.Symbol

namespace StringRule

/-- The dialect whose literals are read by the rule. -/
def dialect : StringRule → Dialect
  | standard => .ansi
  | backslash => .mysql

/-- How the dialect of the rule writes a character in a literal. -/
def escape : StringRule → Char → Text
  | standard => Dialect.doubling
  | backslash => Dialect.backslashing

/-- Whether the rule reads this character and the next as one. -/
def opensEscape : StringRule → Char → Bool
  | standard, _ => false
  | backslash, c => c = '\\'

/-- The character that a backslash and this character stand for. -/
def unescape : Char → Char
  | '0' => '\x00'
  | 'n' => '\n'
  | 'r' => '\r'
  | 'Z' => '\x1a'
  | c => c

/-- Puts a character in front of the value of a literal. -/
def prepend (c : Char) (read : Text × Text) : Text × Text :=
  (c :: read.1, read.2)

/-- Where a scan stands within a literal: after a whole character, after the sign that begins an
    escape, or after a quote that may turn out to be doubled. -/
inductive Place where
  | plain | escaping | quote

/-- The value of a literal whose opening quote has been read, and the text after its closing one. -/
def readBody (rule : StringRule) : Place → Text → Option (Text × Text)
  | .quote, [] => some ([], [])
  | _, [] => none
  | .plain, c :: rest =>
    if c = '\'' then readBody rule .quote rest
    else if rule.opensEscape c then readBody rule .escaping rest
    else (readBody rule .plain rest).map (prepend c)
  | .escaping, c :: rest => (readBody rule .plain rest).map (prepend (unescape c))
  | .quote, c :: rest =>
    if c = '\'' then (readBody rule .plain rest).map (prepend '\'') else some ([], c :: rest)

/-- What follows a literal is not longer than what was left to read of it. -/
theorem length_readBody (rule : StringRule) (place : Place) (s : Text) {payload rest : Text}
    (h : readBody rule place s = some (payload, rest)) : rest.length ≤ s.length := by
  induction s generalizing place payload rest with
  | nil =>
    cases place <;> simp [readBody] at h
    simp [← h.2]
  | cons c s ih =>
    have step : ∀ (d : Char) (p : Place),
        (readBody rule p s).map (prepend d) = some (payload, rest) → rest.length ≤ s.length := by
      intro d p hp
      obtain ⟨⟨q, r⟩, hr, heq⟩ := Option.map_eq_some_iff.mp hp
      obtain ⟨-, rfl⟩ := Prod.mk.inj heq
      exact ih p hr
    rw [List.length_cons]
    cases place with
    | plain =>
      rw [readBody] at h
      split at h
      · exact Nat.le_succ_of_le (ih _ h)
      · split at h
        · exact Nat.le_succ_of_le (ih _ h)
        · exact Nat.le_succ_of_le (step _ _ h)
    | escaping =>
      rw [readBody] at h
      exact Nat.le_succ_of_le (step _ _ h)
    | quote =>
      rw [readBody] at h
      split at h
      · exact Nat.le_succ_of_le (step _ _ h)
      · obtain ⟨-, rfl⟩ := Prod.mk.inj (Option.some.inj h)
        simp

/-- The text taken apart into characters and literals; none if a literal does not end. -/
def scan (rule : StringRule) : Text → Option (List Symbol)
  | [] => some []
  | c :: rest =>
    if c = '\'' then
      match _h : readBody rule .plain rest with
      | none => none
      | some (payload, more) => (scan rule more).map (literal payload :: ·)
    else (scan rule rest).map (char c :: ·)
termination_by s => s.length
decreasing_by
  · have := length_readBody rule .plain rest _h
    simp only [List.length_cons]
    omega
  · simp

/-! ### A quoted value reads back -/

/-- Reading the escaped form of a character gives the character. -/
theorem readBody_escape (rule : StringRule) (c : Char) (rest : Text) :
    readBody rule .plain (rule.escape c ++ rest) = (readBody rule .plain rest).map (prepend c) := by
  cases rule with
  | standard =>
    change readBody standard .plain (Dialect.doubling c ++ rest) = _
    unfold Dialect.doubling
    split
    · simp [readBody]
    · next hq =>
      have hc : c ≠ '\'' := hq
      simp [readBody, hc, opensEscape]
  | backslash =>
    change readBody backslash .plain (Dialect.backslashing c ++ rest) = _
    unfold Dialect.backslashing
    split
    case h_8 hq hb => simp_all [readBody, opensEscape]
    all_goals simp [readBody, opensEscape, unescape]

/-- The value of a quoted text and the quote that ends it are read in full, whatever follows, unless
    that is another quote. -/
theorem readBody_quoted (rule : StringRule) (s rest : Text) (h : rest.head? ≠ some '\'') :
    readBody rule .plain (s.flatMap rule.escape ++ '\'' :: rest) = some (s, rest) := by
  induction s with
  | nil =>
    cases rest with
    | nil => simp [readBody]
    | cons c rest =>
      have hc : c ≠ '\'' := by simpa using h
      simp [readBody, hc]
  | cons c s ih =>
    rw [List.flatMap_cons, List.append_assoc, readBody_escape, ih]
    rfl

/-- Both dialects put the escaped characters of a value between two quotes. -/
theorem quote_eq (rule : StringRule) (s : Text) :
    rule.dialect.quote s = '\'' :: (s.flatMap rule.escape ++ ['\'']) := by
  cases rule <;> rfl

/-- Separate pieces that do not begin with a literal do not begin with a quote either. -/
theorem head?_spell_ne_quote (quote : Text → Text) {symbols : List Symbol} (h : Separate symbols)
    (hs : startsLiteral symbols = false) : (spell quote symbols).head? ≠ some '\'' := by
  cases symbols with
  | nil => simp [spell]
  | cons symbol rest =>
    cases symbol with
    | char c => simpa [spell, text] using h.1
    | literal payload => simp [startsLiteral] at hs

/-- Separate pieces are read back from the text they were put into. -/
theorem scan_spell (rule : StringRule) {symbols : List Symbol} (h : Separate symbols) :
    rule.scan (spell rule.dialect.quote symbols) = some symbols := by
  induction symbols with
  | nil => simp [spell, scan]
  | cons symbol rest ih =>
    cases symbol with
    | char c =>
      have hscan := ih h.2
      have hc : c ≠ '\'' := h.1
      change rule.scan (c :: spell rule.dialect.quote rest) = _
      rw [scan, if_neg hc, hscan]
      rfl
    | literal payload =>
      have hscan := ih h.2
      have hread := readBody_quoted rule payload _
        (head?_spell_ne_quote rule.dialect.quote h.2 h.1)
      have hspell : spell rule.dialect.quote (literal payload :: rest) =
          '\'' :: (payload.flatMap rule.escape ++ '\'' :: spell rule.dialect.quote rest) := by
        simp [spell, text, quote_eq]
      rw [hspell, scan, if_pos rfl]
      split
      · next hnone => simp [hread] at hnone
      · next p more hsome =>
        rw [hread] at hsome
        obtain ⟨rfl, rfl⟩ := Prod.mk.inj (Option.some.inj hsome)
        rw [hscan]
        rfl

end StringRule

/-- A dialect whose string literals can be told apart from the text around them, with a scan that
    does it. -/
structure Dialect.Legible (d : Dialect) where
  scan : Text → Option (List Symbol)
  scan_spell : ∀ symbols, Separate symbols → scan (spell d.quote symbols) = some symbols

/-- The dialects that are built in are legible. -/
def StringRule.legible (rule : StringRule) : rule.dialect.Legible where
  scan := rule.scan
  scan_spell _ := rule.scan_spell

end SqlSelect
