import SqlSelect.Proofs.Grammar
import SqlSelect.Proofs.Reading.Clauses

/-!
What the tokens of a plain statement are like. Those of every part are clean in front of anything
that may follow it, so the tokens of a whole statement are clean, and its text is read as exactly
these tokens. The words that hold a statement together occur only where a clause or a combinator
puts them: identifiers, operators and values are made of inert tokens.
-/

namespace SqlSelect

open Token (spell Clean startsWord startsLiteral isWordChar)

/-- A property of all items of some lists and of a separator is one of all items of the lists with
    the separator between them. -/
theorem forall_mem_intercalate {α : Type} {p : α → Prop} {separator : List α}
    {parts : List (List α)} (hs : ∀ a ∈ separator, p a) (hp : ∀ part ∈ parts, ∀ a ∈ part, p a) :
    ∀ a ∈ List.intercalate separator parts, p a := by
  induction parts with
  | nil => simp
  | cons part parts ih =>
    have hmore := ih fun q h => hp q (List.mem_cons_of_mem _ h)
    cases parts with
    | nil => simpa using hp part (by simp)
    | cons next parts =>
      rw [List.intercalate_cons_cons]
      exact List.forall_mem_append.mpr
        ⟨List.forall_mem_append.mpr ⟨hp part (by simp), hs⟩, hmore⟩

namespace Token

/-- Words that open the clauses of a statement. -/
def clauseWords : List Text :=
  ["FROM".toList, "LEFT".toList, "INNER".toList, "RIGHT".toList, "WHERE".toList, "ORDER".toList,
    "LIMIT".toList]

/-- Words with a meaning for the structure of a statement. -/
def reserved : List Text :=
  "AND".toList :: "OR".toList :: clauseWords

/-- Tokens without a meaning for the structure of a statement. -/
def isInert : Token → Bool
  | mark c => c = ' '
  | word w => !reserved.contains w
  | name _ => true
  | literal _ => true

/-- Tokens that may follow any others. -/
structure Follows (rest : List Token) : Prop where
  clean : Clean rest
  noWord : startsWord rest = false
  noLiteral : startsLiteral rest = false

theorem Follows.nil : Follows [] :=
  ⟨trivial, rfl, rfl⟩

theorem Clean.mark {rest : List Token} (h : Clean rest) {c : Char} (hc : isMark c = true) :
    Follows (mark c :: rest) :=
  ⟨⟨hc, h⟩, rfl, rfl⟩

theorem Follows.word {rest : List Token} (h : Follows rest) {w : Text} (hne : w ≠ [])
    (hw : ∀ c ∈ w, isWordChar c = true) : Clean (word w :: rest) :=
  ⟨⟨hne, hw⟩, h.noWord, h.clean⟩

/-- A word of the language is clean in front of anything that is no word. -/
theorem Follows.keyword {rest : List Token} (h : Follows rest) (w : String)
    (hw : w.toList ≠ [] ∧ w.toList.all isWordChar = true := by decide) :
    Clean (keyword w :: rest) :=
  h.word hw.1 (List.all_eq_true.mp hw.2)

theorem Clean.blank {rest : List Token} (h : Clean rest) : Follows (blank :: rest) :=
  h.mark rfl

/-- Parts with separators between them are clean if each part is. -/
theorem Follows.intercalate {separator : List Token} {parts : List (List Token)}
    (hseparator : ∀ rest, Clean rest → Follows (separator ++ rest))
    (hparts : ∀ part ∈ parts, ∀ rest, Follows rest → Clean (part ++ rest)) {rest : List Token}
    (h : Follows rest) : Clean (List.intercalate separator parts ++ rest) := by
  induction parts with
  | nil => simpa using h.clean
  | cons part parts ih =>
    have hpart := hparts part (by simp)
    cases parts with
    | nil => simpa using hpart rest h
    | cons next parts =>
      have hmore := ih fun p hp => hparts p (List.mem_cons_of_mem _ hp)
      rw [List.intercalate_cons_cons, List.append_assoc, List.append_assoc]
      exact hpart _ (hseparator _ hmore)

theorem Follows.commas {α : Type} {tokens : α → List Token} {items : List α}
    (hitems : ∀ a ∈ items, ∀ rest, Follows rest → Clean (tokens a ++ rest)) {rest : List Token}
    (h : Follows rest) : Clean (List.intercalate [.mark ','] (items.map tokens) ++ rest) := by
  refine h.intercalate (fun rest hrest => hrest.mark (by decide)) ?_
  intro part hpart
  obtain ⟨a, ha, rfl⟩ := List.mem_map.mp hpart
  exact hitems a ha

end Token

open Token (Follows)

/-- Tokens the last of which is no blank. -/
def Token.EndsWell (tokens : List Token) : Prop :=
  ∃ t, tokens.getLast? = some t ∧ t ≠ blank

namespace Token.EndsWell

theorem single {t : Token} (h : t ≠ blank) : EndsWell [t] :=
  ⟨t, rfl, h⟩

theorem append (a : List Token) {b : List Token} (h : EndsWell b) : EndsWell (a ++ b) := by
  obtain ⟨t, ht, hne⟩ := h
  exact ⟨t, by simp [ht], hne⟩

theorem cons (t : Token) {tokens : List Token} (h : EndsWell tokens) : EndsWell (t :: tokens) :=
  append [t] h

/-- Parts with separators between them end as the last of them. -/
theorem intercalate (separator : List Token) {parts : List (List Token)} (hne : parts ≠ [])
    (h : ∀ part ∈ parts, EndsWell part) : EndsWell (List.intercalate separator parts) := by
  induction parts with
  | nil => exact absurd rfl hne
  | cons part parts ih =>
    cases parts with
    | nil => simpa using h part (by simp)
    | cons next parts =>
      rw [List.intercalate_cons_cons]
      exact append _ (ih (by simp) fun p hp => h p (List.mem_cons_of_mem _ hp))

end Token.EndsWell

/-! ### Identifiers, operators and values -/

theorem Segment.clean_cons (s : Segment) {rest : List Token} (h : Clean rest) :
    Follows (s.token :: rest) := by
  refine ⟨⟨fun c hc => ?_, h⟩, rfl, rfl⟩
  have hrest := isSegmentRest_of_mem hc
  constructor
  · rintro rfl
    exact absurd hrest (by decide)
  · rintro rfl
    exact absurd hrest (by decide)

theorem Identifier.endsWell (i : Identifier) : Token.EndsWell i.tokens := by
  rw [tokens]
  cases i.qualifier with
  | none => exact .single (by simp [Segment.token])
  | some table => exact .cons _ (.cons _ (.single (by simp [Segment.token])))

/-- An identifier ends with a name, so anything may follow it. -/
theorem Identifier.clean_append (i : Identifier) {rest : List Token} (h : Clean rest) :
    Follows (i.tokens ++ rest) := by
  have hname := i.name.clean_cons h
  rw [tokens]
  cases i.qualifier with
  | none => exact hname
  | some table => exact table.clean_cons (hname.word (by decide) (List.all_eq_true.mp (by decide)))

theorem Token.isWordChar_or (c : Char) :
    isWordChar c = true ∨ c ∈ [' ', '(', ')', ',', '\'', '\x60'] := by
  simp only [isWordChar, isMark, List.mem_cons, List.not_mem_nil, or_false]
  grind

theorem Numeral.IsNumber.isWordChar {w : Text} (h : IsNumber w) :
    ∀ c ∈ w, Token.isWordChar c = true := by
  intro c hc
  have hnumber := h.2 c hc
  rcases Token.isWordChar_or c with hword | hmark
  · exact hword
  · have hmarks : [' ', '(', ')', ',', '\'', '\x60'].all (!isNumberChar ·) = true := by decide
    have hother := List.all_eq_true.mp hmarks c hmark
    rw [hnumber] at hother
    contradiction

/-- Numbers are no words of the language. -/
theorem Numeral.IsNumber.not_reserved {w : Text} (h : IsNumber w) : w ∉ Token.reserved := by
  intro hw
  have hreserved : ∀ v ∈ Token.reserved, v.any (fun c => !isNumberChar c) = true := by decide
  obtain ⟨c, hc, hn⟩ := List.any_eq_true.mp (hreserved w hw)
  rw [h.2 c hc] at hn
  contradiction

/-- A value is a string literal, one of three words, or a number. -/
theorem Literal.token_cases (l : Literal) :
    (∃ payload, l.token = .literal payload) ∨
      ∃ w, l.token = .word w ∧ (w = "NULL".toList ∨ Numeral.IsNumber w) := by
  cases l with
  | null => exact .inr ⟨_, rfl, .inl rfl⟩
  | bool b => cases b <;> exact .inr ⟨_, rfl, .inr ⟨by decide, List.all_eq_true.mp (by decide)⟩⟩
  | int n => exact .inr ⟨_, rfl, .inr (Numeral.isNumber_ofInt _)⟩
  | uint n => exact .inr ⟨_, rfl, .inr (Numeral.isNumber_ofNat _)⟩
  | float x => exact .inr ⟨_, rfl, .inr x.isNumber_text⟩
  | text s => exact .inl ⟨_, rfl⟩
  | timestamp t => exact .inl ⟨_, rfl⟩

theorem Literal.clean_cons (l : Literal) {rest : List Token} (h : Follows rest) :
    Clean (l.token :: rest) := by
  rcases l.token_cases with ⟨payload, hl⟩ | ⟨w, hl, rfl | hw⟩
  · rw [hl]
    exact ⟨h.noLiteral, h.clean⟩
  · rw [hl]
    exact h.keyword "NULL"
  · rw [hl]
    exact h.word hw.1 hw.isWordChar

theorem Literal.isInert_token (l : Literal) : l.token.isInert = true := by
  rcases l.token_cases with ⟨payload, hl⟩ | ⟨w, hl, rfl | hw⟩
  · rw [hl]
    rfl
  · rw [hl]
    decide
  · simp [hl, Token.isInert, hw.not_reserved]

theorem Literal.token_ne_mark (l : Literal) (c : Char) : l.token ≠ .mark c := by
  rcases l.token_cases with ⟨payload, hl⟩ | ⟨w, hl, -⟩
  · simp [hl]
  · simp [hl]

theorem Operator.clean_append (o : Operator) {rest : List Token} (h : Follows rest) :
    Clean (o.tokens ++ rest) := by
  cases o with
  | notLike => exact (h.keyword "LIKE").blank.keyword "NOT"
  | _ => exact h.word (by decide) (List.all_eq_true.mp (by decide))

theorem Identifier.isInert_tokens {i : Identifier} {t : Token} (h : t ∈ i.tokens) :
    t.isInert = true := by
  unfold tokens at h
  cases hq : i.qualifier <;> simp only [hq, List.mem_cons, List.not_mem_nil, or_false] at h
  · rw [h]
    rfl
  · rcases h with rfl | rfl | rfl
    · rfl
    · decide
    · rfl

theorem Operator.isInert_tokens {o : Operator} {t : Token} (h : t ∈ o.tokens) :
    t.isInert = true := by
  have hall : o.tokens.all Token.isInert = true := by cases o <;> decide
  exact List.all_eq_true.mp hall t h

/-! ### Conditions -/

theorem Subject.clean_append (subject : Subject) {rest : List Token} (h : Clean rest) :
    Clean (subject.tokens ++ rest) := by
  cases subject with
  | column name => exact (name.clean_append h).clean
  | raw e => exact h
  | length name =>
    have hname := (name.clean_append (h.mark (c := ')') rfl).clean).clean
    have hopen := (hname.mark (c := '(') rfl).keyword "LENGTH"
    rw [tokens]
    simpa only [List.cons_append, List.append_assoc, List.nil_append] using hopen

theorem clean_valueTokens (values : List Literal) {rest : List Token} (h : Follows rest) :
    Clean (valueTokens values ++ rest) :=
  h.commas fun l _ _ hrest => l.clean_cons hrest

theorem Predicate.clean_append (p : Predicate) {rest : List Token} (h : Follows rest) :
    Clean (p.tokens ++ rest) := by
  cases p with
  | compare subject operator value =>
    have hvalue := (value.clean_cons h).blank
    have hoperator := (operator.clean_append hvalue).blank
    have hsubject := subject.clean_append hoperator.clean
    rw [tokens]
    simpa only [List.cons_append, List.append_assoc, List.nil_append] using hsubject
  | null column negated =>
    have hnull := h.keyword "NULL"
    have htest : Clean ((if negated then [keyword "NOT", blank, keyword "NULL"]
        else [keyword "NULL"]) ++ rest) := by
      cases negated with
      | false => exact hnull
      | true => exact hnull.blank.keyword "NOT"
    have hcolumn := column.clean_append (htest.blank.keyword "IS").blank.clean
    rw [tokens]
    simpa only [List.cons_append, List.append_assoc] using hcolumn.clean
  | inList column values negated =>
    have hvalues := (clean_valueTokens values (h.clean.mark (c := ')') rfl)).mark (c := '(') rfl
    have hin := hvalues.clean.blank.keyword "IN"
    have hmembership : Clean (membership negated ++
        .mark '(' :: (valueTokens values ++ .mark ')' :: rest)) := by
      cases negated with
      | false => exact hin
      | true => exact hin.blank.keyword "NOT"
    have hcolumn := column.clean_append hmembership.blank.clean
    rw [tokens]
    simpa only [List.cons_append, List.append_assoc, List.nil_append] using hcolumn.clean
  | columns left operator right =>
    have hright := right.clean_append h.clean
    rw [tokens]
    split
    · have hleft := left.clean_append (operator.clean_append hright.clean.blank).blank.clean
      simpa only [List.cons_append, List.append_assoc] using hleft.clean
    · have hleft := left.clean_append (operator.clean_append hright)
      simpa only [List.append_assoc] using hleft.clean

theorem Combinator.clean_append (c : Combinator) {rest : List Token} (h : Clean rest) :
    Follows (c.tokens ++ rest) := by
  cases c with
  | and => exact (h.blank.keyword "AND").blank
  | or => exact (h.blank.keyword "OR").blank

/-- The children of a group with the combinator between them. -/
theorem Node.clean_children (c : Combinator) {children : List Node}
    (hchildren : ∀ node ∈ children, ∀ rest, Follows rest → Clean (node.tokens ++ rest))
    {rest : List Token} (h : Follows rest) :
    Clean (List.intercalate c.tokens (tokensAll children) ++ rest) := by
  refine h.intercalate (fun rest hrest => c.clean_append hrest) ?_
  rw [tokensAll_eq_map]
  intro part hpart
  obtain ⟨node, hnode, rfl⟩ := List.mem_map.mp hpart
  exact hchildren node hnode

theorem Node.clean_append {P : Predicate → Prop} {node : Node} (hnode : node.Regular P)
    {rest : List Token} (h : Follows rest) : Clean (node.tokens ++ rest) := by
  induction hnode generalizing rest with
  | leaf hp => exact Predicate.clean_append _ h
  | @group c closed children _ _ _ _ ih =>
    have hinside := clean_children c (fun node hnode rest hrest => ih node hnode hrest)
      (h.clean.mark (c := ')') rfl)
    have hopen := hinside.mark (c := '(') rfl
    rw [tokens]
    simpa only [List.cons_append, List.append_assoc, List.nil_append] using hopen.clean

theorem Tree.clean_append {P : Predicate → Prop} {t : Tree} (ht : t.Regular P)
    {rest : List Token} (h : Follows rest) : Clean (t.tokens ++ rest) := by
  rcases ht.root_cases with rfl | ⟨p, -, rfl⟩ | ⟨c, children, hroot, rfl⟩ |
    ⟨c, children, -, hall, rfl⟩
  · exact h.clean
  · exact p.clean_append h
  · exact Node.clean_append hroot h
  · exact Node.clean_children c
      (fun node hnode rest hrest => Node.clean_append (hall node hnode) hrest) h

/-! ### Clauses -/

theorem Output.clean_append (o : Output) {rest : List Token} (h : Follows rest) :
    Clean (o.tokens ++ rest) := by
  cases o with
  | raw expression aliasName => exact h.clean
  | column name aliasName =>
    have hname := (name.clean_append h.clean).clean
    cases aliasName with
    | none => exact hname
    | some aliasName =>
      rw [tokens]
      split
      · exact hname
      · have halias := (aliasName.clean_cons h.clean).clean.blank.keyword "AS"
        have hcolumn := name.clean_append halias.blank.clean
        simpa only [List.cons_append, List.append_assoc, List.nil_append] using hcolumn.clean

theorem Outputs.clean_append (o : Outputs) {rest : List Token} (h : Follows rest) :
    Clean (o.tokens ++ rest) := by
  rw [tokens]
  split
  · exact h.keyword "*"
  · exact h.commas fun o _ _ hrest => o.clean_append hrest

theorem Source.clean_append (t : Source) {rest : List Token} (h : Follows rest) :
    Clean (t.tokens ++ rest) := by
  cases t with
  | raw expression aliasName => exact h.clean
  | table name aliasName =>
    have hname := (name.clean_cons h.clean).clean
    cases aliasName with
    | none => exact hname
    | some aliasName =>
      rw [tokens]
      split
      · exact hname
      · have halias := (aliasName.clean_cons h.clean).clean.blank.keyword "AS"
        exact (name.clean_cons halias.blank.clean).clean

theorem Join.clean_rest {j : Join} (hj : j.on.IsJoined) {rest : List Token} (h : Follows rest) :
    Follows (j.rest ++ rest) := by
  have hon := (Tree.clean_append hj.regular h).blank.keyword "ON"
  have htarget := (j.target.clean_append hon.blank).blank.keyword "JOIN"
  rw [Join.rest]
  simpa only [List.cons_append, List.append_assoc] using htarget.blank

theorem SortKey.clean_append (key : SortKey) {rest : List Token} (h : Follows rest) :
    Clean (key.tokens ++ rest) := by
  have hdirection : Clean (.word key.direction.text :: rest) := by
    cases key.direction with
    | ascending => exact h.keyword "ASC"
    | descending => exact h.keyword "DESC"
  rw [tokens]
  cases key.expression with
  | raw expression => exact hdirection.blank.clean
  | column name =>
    have hname := name.clean_append hdirection.blank.clean
    simpa only [List.cons_append, List.append_assoc, List.nil_append] using hname.clean

theorem Window.clean_append (w : Window) {rest : List Token} (h : Follows rest) :
    Clean (w.tokens ++ rest) := by
  have hnumber : ∀ n {more : List Token}, Follows more → Clean (.word (Numeral.ofNat n) :: more) :=
    fun n _ h => h.word (Numeral.isNumber_ofNat n).1 (Numeral.isNumber_ofNat n).isWordChar
  rw [tokens]
  cases w.offset with
  | none => exact hnumber _ h
  | some offset => exact hnumber _ ((hnumber _ h).mark rfl)

namespace Statement

/-- What a clause of a statement can be. -/
theorem clause_cases {s : Statement} {clause : Token × List Token} (h : clause ∈ s.clauses) :
    (s.sources.tables ≠ [] ∧ clause = (keyword "FROM",
      blank :: List.intercalate [.mark ','] (s.sources.tables.map Source.tokens))) ∨
    (∃ j ∈ s.sources.joins, clause = (j.kind.word, j.rest)) ∨
    clause = (keyword "WHERE", blank :: .mark '(' :: (s.conditions.tokens ++ [.mark ')'])) ∨
    (s.ordering ≠ [] ∧ clause = (keyword "ORDER", blank :: keyword "BY" :: blank ::
      List.intercalate [.mark ','] (s.ordering.map SortKey.tokens))) ∨
    ∃ window : Window, clause = (keyword "LIMIT", blank :: window.tokens) := by
  simp only [clauses, List.mem_append] at h
  rcases h with (((h | h) | h) | h) | h
  · unfold fromTokens at h
    split at h
    · simp at h
    · next hne =>
      exact .inl ⟨by simpa using hne, List.mem_singleton.mp h⟩
  · obtain ⟨j, hj, rfl⟩ := List.mem_map.mp h
    exact .inr (.inl ⟨j, hj, rfl⟩)
  · unfold whereTokens at h
    split at h
    · simp at h
    · exact .inr (.inr (.inl (List.mem_singleton.mp h)))
  · unfold orderTokens at h
    split at h
    · simp at h
    · next hne =>
      exact .inr (.inr (.inr (.inl ⟨by simpa using hne, List.mem_singleton.mp h⟩)))
  · unfold limitTokens at h
    split at h
    · simp at h
    · exact .inr (.inr (.inr (.inr ⟨_, List.mem_singleton.mp h⟩)))

/-- The tokens of each clause of a plain statement are clean. -/
theorem clean_clause {s : Statement} (h : s.IsPlain) {clause : Token × List Token}
    (hclause : clause ∈ s.clauses) {rest : List Token} (hrest : Follows rest) :
    Clean (clause.1 :: (clause.2 ++ rest)) := by
  rcases clause_cases hclause with ⟨-, rfl⟩ | ⟨j, hj, rfl⟩ | rfl | ⟨-, rfl⟩ | ⟨window, rfl⟩
  · have htables : Clean (List.intercalate [.mark ','] (s.sources.tables.map Source.tokens) ++
        rest) := hrest.commas fun t _ _ => t.clean_append
    exact htables.blank.keyword "FROM"
  · have hjoin := Join.clean_rest (h.joins j hj).2 hrest
    cases hkind : j.kind with
    | left => exact hjoin.keyword "LEFT"
    | inner => exact hjoin.keyword "INNER"
    | right => exact hjoin.keyword "RIGHT"
  · have hinside := Tree.clean_append h.conditions (hrest.clean.mark (c := ')') rfl)
    have hopen := (hinside.mark (c := '(') rfl).clean.blank.keyword "WHERE"
    simpa only [List.cons_append, List.append_assoc, List.nil_append] using hopen
  · have hkeys : Clean (List.intercalate [.mark ','] (s.ordering.map SortKey.tokens) ++ rest) :=
      hrest.commas fun key _ _ => key.clean_append
    exact (hkeys.blank.keyword "BY").blank.keyword "ORDER"
  · exact (window.clean_append hrest).blank.keyword "LIMIT"

theorem clean_concat {clauses : List (Token × List Token)}
    (h : ∀ clause ∈ clauses, ∀ rest, Follows rest → Clean (clause.1 :: (clause.2 ++ rest))) :
    Follows (concat clauses) := by
  induction clauses with
  | nil => exact .nil
  | cons clause clauses ih =>
    have hmore := ih fun c hc => h c (List.mem_cons_of_mem _ hc)
    exact (h clause (by simp) _ hmore).blank

/-- The tokens of a plain statement are clean. -/
theorem clean_tokens {s : Statement} (h : s.IsPlain) : Clean s.tokens := by
  have hclauses : Follows (concat s.clauses) :=
    clean_concat fun clause hclause rest hrest => clean_clause h hclause hrest
  exact ((s.outputs.clean_append hclauses).blank).keyword "SELECT"

end Statement

end SqlSelect
