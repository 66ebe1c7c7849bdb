import SqlSelect.Proofs.Reading.Strings

/-!
Statements as sequences of tokens. Once string literals have been taken out, what is left of a
statement consists of marks that stand by themselves, names between backticks, and words: the
longest runs of all other characters. No blank is lost, so the text of a statement follows from its
tokens, and a text that was put together from tokens is read as exactly these tokens, unless two
words or two literals touch in it.
-/

namespace SqlSelect

/-- The least part of a statement that has a meaning: a blank, parenthesis or comma, a keyword,
    number or sign, a name between backticks, or a string literal by its value. -/
inductive Token where
  | mark (c : Char)
  | word (w : Text)
  | name (s : Text)
  | literal (payload : Text)
  deriving DecidableEq

namespace Token

/-- Characters that are tokens by themselves. -/
def isMark (c : Char) : Bool :=
  c = ' ' || c = '(' || c = ')' || c = ','

/-- Characters that words consist of. -/
def isWordChar (c : Char) : Bool :=
  !isMark c && c ≠ '\'' && c ≠ '\x60'

/-- The symbols that a token is written with. -/
def symbols : Token → List Symbol
  | mark c => [.char c]
  | word w => w.map .char
  | name s => .char '\x60' :: (s.map .char ++ [.char '\x60'])
  | literal payload => [.literal payload]

/-- The token in SQL. -/
def text (quote : Text → Text) : Token → Text
  | mark c => [c]
  | word w => w
  | name s => '\x60' :: (s ++ ['\x60'])
  | literal payload => quote payload

/-- The tokens in SQL, one after the other. -/
def spell (quote : Text → Text) (tokens : List Token) : Text :=
  tokens.flatMap (text quote)

/-- Whether a word comes first. -/
def startsWord : List Token → Bool
  | word _ :: _ => true
  | _ => false

/-- Whether a string literal comes first. -/
def startsLiteral : List Token → Bool
  | literal _ :: _ => true
  | _ => false

/-- Every token is well-formed, and no two words and no two literals touch. -/
def Clean : List Token → Prop
  | [] => True
  | mark c :: rest => isMark c = true ∧ Clean rest
  | word w :: rest =>
    (w ≠ [] ∧ ∀ c ∈ w, isWordChar c = true) ∧ startsWord rest = false ∧ Clean rest
  | name s :: rest => (∀ c ∈ s, c ≠ '\x60' ∧ c ≠ '\'') ∧ Clean rest
  | literal _ :: rest => startsLiteral rest = false ∧ Clean rest

/-- Puts a character in front of the first word, starting one if no word comes first. -/
def extendWord (c : Char) : List Token → List Token
  | word w :: rest => word (c :: w) :: rest
  | tokens => word [c] :: tokens

/-- Reads tokens from symbols; within a name, the part of it that has been read is given. -/
def read : Option Text → List Symbol → Option (List Token)
  | none, [] => some []
  | none, .literal payload :: rest => (read none rest).map (literal payload :: ·)
  | none, .char c :: rest =>
    if c = '\x60' then read (some []) rest
    else if isMark c then (read none rest).map (mark c :: ·)
    else (read none rest).map (extendWord c)
  | some s, .char c :: rest =>
    if c = '\x60' then (read none rest).map (name s :: ·) else read (some (s ++ [c])) rest
  | some _, _ => none

/-! ### Their text -/

section Text

variable (quote : Text → Text)

@[simp] theorem text_mark (c : Char) : (mark c).text quote = [c] := rfl

@[simp] theorem text_word (w : Text) : (word w).text quote = w := rfl

@[simp] theorem text_name (s : Text) : (name s).text quote = '\x60' :: (s ++ ['\x60']) := rfl

@[simp] theorem text_literal (payload : Text) : (literal payload).text quote = quote payload := rfl

@[simp] theorem spell_nil : spell quote [] = [] := rfl

@[simp] theorem spell_cons (t : Token) (tokens : List Token) :
    spell quote (t :: tokens) = t.text quote ++ spell quote tokens :=
  List.flatMap_cons

@[simp] theorem spell_append (a b : List Token) :
    spell quote (a ++ b) = spell quote a ++ spell quote b :=
  List.flatMap_append

end Text

/-! ### Tokens and symbols -/

theorem spell_symbols (quote : Text → Text) (tokens : List Token) :
    Symbol.spell quote (tokens.flatMap symbols) = spell quote tokens := by
  have single : ∀ t : Token, Symbol.spell quote t.symbols = t.text quote := by
    intro t
    cases t <;> simp [symbols, text, Symbol.spell, Symbol.text, List.flatMap_map]
  induction tokens with
  | nil => rfl
  | cons t tokens ih =>
    simp only [Symbol.spell, spell, List.flatMap_cons, List.flatMap_append] at *
    rw [ih]
    congr 1
    exact single t

/-- A literal comes first among the symbols only if it does among the tokens. -/
theorem startsLiteral_symbols {tokens : List Token} (h : Clean tokens)
    (hs : startsLiteral tokens = false) :
    Symbol.startsLiteral (tokens.flatMap symbols) = false := by
  cases tokens with
  | nil => rfl
  | cons t rest =>
    cases t with
    | mark c => rfl
    | name s => rfl
    | literal payload => simp [startsLiteral] at hs
    | word w =>
      obtain ⟨⟨hw, -⟩, -⟩ := h
      cases w with
      | nil => exact absurd rfl hw
      | cons c w => rfl

theorem separate_map_char {w : Text} (hw : ∀ c ∈ w, c ≠ '\'') {rest : List Symbol}
    (h : Symbol.Separate rest) : Symbol.Separate (w.map .char ++ rest) := by
  induction w with
  | nil => exact h
  | cons c w ih =>
    exact ⟨hw c (by simp), ih fun d hd => hw d (List.mem_cons_of_mem _ hd)⟩

/-- The symbols of clean tokens are separate. -/
theorem Clean.separate {tokens : List Token} (h : Clean tokens) :
    Symbol.Separate (tokens.flatMap symbols) := by
  induction tokens with
  | nil => exact trivial
  | cons t rest ih =>
    rw [List.flatMap_cons]
    cases t with
    | mark c =>
      refine ⟨?_, ih h.2⟩
      rintro rfl
      exact absurd h.1 (by decide)
    | word w =>
      obtain ⟨⟨-, hw⟩, -, hrest⟩ := h
      refine separate_map_char (fun c hc => ?_) (ih hrest)
      rintro rfl
      exact absurd (hw _ hc) (by decide)
    | name s =>
      obtain ⟨hs, hrest⟩ := h
      have hclose : Symbol.Separate (.char '\x60' :: rest.flatMap symbols) :=
        ⟨by decide, ih hrest⟩
      have hname := separate_map_char (fun c hc => (hs c hc).2) hclose
      refine ⟨by decide, ?_⟩
      simpa using hname
    | literal payload => exact ⟨startsLiteral_symbols h.2 h.1, ih h.2⟩

/-! ### Tokens read back -/

theorem read_name (s acc : Text) (hs : ∀ c ∈ s, c ≠ '\x60') (rest : List Symbol) :
    read (some acc) (s.map .char ++ .char '\x60' :: rest) =
      (read none rest).map (name (acc ++ s) :: ·) := by
  induction s generalizing acc with
  | nil => simp [read]
  | cons c s ih =>
    have hc : c ≠ '\x60' := hs c (by simp)
    rw [List.map_cons, List.cons_append, read, if_neg hc,
      ih (acc ++ [c]) fun d hd => hs d (List.mem_cons_of_mem _ hd)]
    simp

theorem read_word {w : Text} (hne : w ≠ []) (hw : ∀ c ∈ w, isWordChar c = true)
    {rest : List Symbol} {tokens : List Token} (h : read none rest = some tokens)
    (hs : startsWord tokens = false) :
    read none (w.map .char ++ rest) = some (word w :: tokens) := by
  induction w with
  | nil => exact absurd rfl hne
  | cons c w ih =>
    have hc := hw c (by simp)
    have hb : c ≠ '\x60' := by
      rintro rfl
      exact absurd hc (by decide)
    have hm : isMark c = false := by
      simp only [isWordChar, Bool.and_eq_true, Bool.not_eq_true'] at hc
      exact hc.1.1
    rw [List.map_cons, List.cons_append, read, if_neg hb, if_neg (by simp [hm])]
    cases w with
    | nil =>
      rw [List.map_nil, List.nil_append, h]
      cases tokens with
      | nil => rfl
      | cons t tokens =>
        cases t with
        | word _ => simp [startsWord] at hs
        | _ => rfl
    | cons d w =>
      rw [ih (by simp) fun e he => hw e (List.mem_cons_of_mem _ he)]
      rfl

/-- Clean tokens are read back from their symbols. -/
theorem read_symbols {tokens : List Token} (h : Clean tokens) :
    read none (tokens.flatMap symbols) = some tokens := by
  induction tokens with
  | nil => rfl
  | cons t rest ih =>
    rw [List.flatMap_cons]
    cases t with
    | mark c =>
      have hb : c ≠ '\x60' := by
        rintro rfl
        exact absurd h.1 (by decide)
      simp [symbols, read, hb, h.1, ih h.2]
    | word w =>
      obtain ⟨⟨hne, hw⟩, hs, hrest⟩ := h
      exact read_word hne hw (ih hrest) hs
    | name s =>
      obtain ⟨hs, hrest⟩ := h
      have hread := read_name s [] (fun c hc => (hs c hc).1) (rest.flatMap symbols)
      rw [ih hrest] at hread
      simpa [symbols, read] using hread
    | literal payload => simp [symbols, read, ih h.2]

end Token

/-- The tokens of a text in a legible dialect. -/
def Dialect.Legible.lex {d : Dialect} (L : d.Legible) (s : Text) : Option (List Token) :=
  (L.scan s).bind (Token.read none)

/-- Clean tokens are read back from their text. -/
theorem Dialect.Legible.lex_spell {d : Dialect} (L : d.Legible) {tokens : List Token}
    (h : Token.Clean tokens) : L.lex (Token.spell d.quote tokens) = some tokens := by
  rw [Dialect.Legible.lex, ← Token.spell_symbols, L.scan_spell _ h.separate, Option.bind_some,
    Token.read_symbols h]

end SqlSelect
