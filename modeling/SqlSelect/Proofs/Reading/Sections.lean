import SqlSelect.Proofs.Reading.Conditions

/-!
Cutting a statement into its clauses. A clause goes from the word that opens it to the blank before
the next such word. Since names stand between backticks and values between quotes, no clause of a
plain statement has such a word within it, so the statement is cut exactly where it was put
together.

        SELECT * FROM a WHERE (b = 1)   ──▶   SELECT *  |  FROM a  |  WHERE (b = 1)
-/

namespace SqlSelect

namespace Token

/-- Whether a token is a word that opens a clause. -/
def opensClause : Token → Bool
  | word w => clauseWords.contains w
  | _ => false

/-- Tokens none of which opens a clause. -/
def Quiet (tokens : List Token) : Prop :=
  ∀ t ∈ tokens, t.opensClause = false

end Token

open Token (Quiet EndsWell)

/-- The tokens before the first clause, and the clauses with the words that open them. -/
def sections : List Token → List Token × List (Token × List Token)
  | [] => ([], [])
  | t :: rest =>
    match sections rest with
    | (before, clauses) =>
      if t.opensClause then ([], (t, before) :: clauses)
      else if t = blank ∧ before = [] ∧ clauses ≠ [] then ([], clauses)
      else (t :: before, clauses)

/-! ### Sections of clauses put together -/

/-- Tokens before a clause stand before it. -/
theorem sections_append {body rest : List Token} {clauses : List (Token × List Token)}
    (hq : Quiet body) (he : body.getLast? ≠ some blank) (h : sections rest = ([], clauses)) :
    sections (body ++ rest) = (body, clauses) := by
  induction body with
  | nil => exact h
  | cons t body ih =>
    have ht : t.opensClause = false := hq t (by simp)
    have hbody : sections (body ++ rest) = (body, clauses) := by
      refine ih (fun u hu => hq u (List.mem_cons_of_mem _ hu)) ?_
      intro hlast
      cases body with
      | nil => simp at hlast
      | cons u body => exact he (by rw [List.getLast?_cons_cons]; exact hlast)
    have hkeep : ¬(t = blank ∧ body = [] ∧ clauses ≠ []) := by
      rintro ⟨rfl, rfl, -⟩
      exact he rfl
    rw [List.cons_append, sections, hbody]
    simp only
    rw [if_neg (by simp [ht]), if_neg hkeep]

/-- Clauses that were put together one after the other are cut apart again. -/
theorem Token.EndsWell.ne_blank {tokens : List Token} (h : EndsWell tokens) :
    tokens.getLast? ≠ some blank := by
  obtain ⟨t, ht, hne⟩ := h
  rw [ht]
  simpa using hne

theorem sections_concat {clauses : List (Token × List Token)}
    (h : ∀ clause ∈ clauses, clause.1.opensClause = true ∧ Quiet clause.2 ∧ EndsWell clause.2) :
    sections (Statement.concat clauses) = ([], clauses) := by
  induction clauses with
  | nil => rfl
  | cons clause clauses ih =>
    obtain ⟨hopens, hquiet, hends⟩ := h clause (by simp)
    have hrest := ih fun c hc => h c (List.mem_cons_of_mem _ hc)
    have hbody := sections_append hquiet hends.ne_blank hrest
    have hclause : sections (clause.1 :: (clause.2 ++ Statement.concat clauses)) =
        ([], clause :: clauses) := by
      rw [sections, hbody]
      simp only
      rw [if_pos hopens]
    change sections (blank :: clause.1 :: (clause.2 ++ Statement.concat clauses)) = _
    rw [sections, hclause]
    simp only
    rw [if_neg (by decide), if_pos (by simp)]

/-! ### Quiet tokens -/

namespace Token

@[simp] theorem opensClause_mark (c : Char) : (mark c).opensClause = false := rfl

@[simp] theorem opensClause_name (s : Text) : (name s).opensClause = false := rfl

@[simp] theorem quiet_nil : Quiet [] := by
  simp [Quiet]

@[simp] theorem quiet_cons {t : Token} {tokens : List Token} :
    Quiet (t :: tokens) ↔ t.opensClause = false ∧ Quiet tokens :=
  List.forall_mem_cons

@[simp] theorem quiet_append {a b : List Token} : Quiet (a ++ b) ↔ Quiet a ∧ Quiet b :=
  List.forall_mem_append

theorem opensClause_of_isInert {t : Token} (h : t.isInert = true) : t.opensClause = false := by
  cases t with
  | word w =>
    have hw : w ∉ reserved := by simpa [isInert] using h
    have hclause : w ∉ clauseWords := fun hmem =>
      hw (List.mem_cons_of_mem _ (List.mem_cons_of_mem _ hmem))
    simpa [opensClause] using hclause
  | _ => rfl

/-- Items with commas between them are quiet if each item is. -/
theorem Quiet.commas {α : Type} {tokens : α → List Token} {items : List α}
    (h : ∀ a ∈ items, Quiet (tokens a)) :
    Quiet (List.intercalate [.mark ','] (items.map tokens)) := by
  refine forall_mem_intercalate (quiet_cons.mpr ⟨rfl, quiet_nil⟩) ?_
  intro part hpart
  obtain ⟨a, ha, rfl⟩ := List.mem_map.mp hpart
  exact h a ha

end Token

theorem Identifier.quiet (i : Identifier) : Quiet i.tokens :=
  fun _ h => Token.opensClause_of_isInert (isInert_tokens h)

theorem Operator.quiet (o : Operator) : Quiet o.tokens :=
  fun _ h => Token.opensClause_of_isInert (isInert_tokens h)

theorem Literal.quiet (l : Literal) : l.token.opensClause = false :=
  Token.opensClause_of_isInert l.isInert_token

theorem Subject.quiet (subject : Subject) : Quiet subject.tokens := by
  cases subject with
  | column name => exact name.quiet
  | raw e => exact Token.quiet_nil
  | length name =>
    rw [tokens]
    simp only [Token.quiet_cons, Token.quiet_append, Token.quiet_nil, name.quiet]
    decide

theorem Predicate.quiet (p : Predicate) : Quiet p.tokens := by
  cases p with
  | compare subject operator value =>
    rw [tokens]
    simp [subject.quiet, operator.quiet, value.quiet]
  | null column negated =>
    rw [tokens]
    have hnull : Quiet (if negated then [keyword "NOT", blank, keyword "NULL"]
        else [keyword "NULL"]) := by
      cases negated <;> (intro t ht; revert t; decide)
    simp [column.quiet, hnull, Token.opensClause, Token.clauseWords]
  | inList column values negated =>
    rw [tokens]
    have hin : Quiet (membership negated) := by
      cases negated <;> (intro t ht; revert t; decide)
    have hvalues : Quiet (valueTokens values) :=
      Quiet.commas fun l _ => Token.quiet_cons.mpr ⟨l.quiet, Token.quiet_nil⟩
    simp [column.quiet, hin, hvalues]
  | columns left operator right =>
    rw [tokens]
    split <;> simp [left.quiet, operator.quiet, right.quiet]

theorem Combinator.quiet (c : Combinator) : Quiet c.tokens := by
  cases c <;> (intro t ht; revert t; decide)

namespace Node

theorem quiet_children (c : Combinator) {children : List Node}
    (h : ∀ node ∈ children, Quiet node.tokens) :
    Quiet (List.intercalate c.tokens (tokensAll children)) := by
  refine forall_mem_intercalate c.quiet ?_
  rw [tokensAll_eq_map]
  intro part hpart
  obtain ⟨node, hnode, rfl⟩ := List.mem_map.mp hpart
  exact h node hnode

theorem Regular.quiet {P : Predicate → Prop} {node : Node} (h : node.Regular P) :
    Quiet node.tokens := by
  induction h with
  | leaf hp => exact Predicate.quiet _
  | @group c closed children _ _ _ _ ih =>
    rw [Node.tokens]
    simp [quiet_children c ih]

end Node

theorem Tree.Regular.quiet {P : Predicate → Prop} {t : Tree} (h : t.Regular P) :
    Quiet t.tokens := by
  rcases h.root_cases with rfl | ⟨p, -, rfl⟩ | ⟨c, children, hroot, rfl⟩ |
    ⟨c, children, -, hall, rfl⟩
  · exact Token.quiet_nil
  · exact p.quiet
  · exact hroot.quiet
  · exact Node.quiet_children c fun node hnode => (hall node hnode).quiet

/-! ### Quiet clauses -/

theorem Output.quiet (o : Output) : Quiet o.tokens := by
  have has : (keyword "AS").opensClause = false := by decide
  cases o with
  | raw expression aliasName => exact Token.quiet_nil
  | column name aliasName =>
    cases aliasName with
    | none => exact name.quiet
    | some aliasName =>
      rw [tokens]
      split <;> simp [name.quiet, Segment.token, has]

theorem Outputs.quiet (o : Outputs) : Quiet o.tokens := by
  have hall : (keyword "*").opensClause = false := by decide
  rw [tokens]
  split
  · simp [hall]
  · exact .commas fun o _ => o.quiet

theorem Source.quiet (t : Source) : Quiet t.tokens := by
  have has : (keyword "AS").opensClause = false := by decide
  cases t with
  | raw expression aliasName => exact Token.quiet_nil
  | table name aliasName =>
    cases aliasName with
    | none => simp [tokens, Segment.token]
    | some aliasName =>
      rw [tokens]
      split <;> simp [Segment.token, has]

theorem Join.quiet {j : Join} (h : j.on.IsJoined) : Quiet j.rest := by
  have hjoin : (keyword "JOIN").opensClause = false := by decide
  have hon : (keyword "ON").opensClause = false := by decide
  rw [Join.rest]
  simp [j.target.quiet, h.regular.quiet, hjoin, hon]

theorem SortKey.quiet (key : SortKey) : Quiet key.tokens := by
  have hdirection : (Token.word key.direction.text).opensClause = false := by
    cases key.direction <;> decide
  rw [tokens]
  cases key.expression with
  | raw expression => simp [hdirection]
  | column name => simp [name.quiet, hdirection]

theorem Window.quiet (w : Window) : Quiet w.tokens := by
  have hnumber : ∀ n, (Token.word (Numeral.ofNat n)).opensClause = false := fun n =>
    Token.opensClause_of_isInert (by simp [Token.isInert, (Numeral.isNumber_ofNat n).not_reserved])
  rw [tokens]
  cases w.offset <;> simp [hnumber]

/-! ### Clauses that end well -/

theorem Segment.endsWell (s : Segment) : EndsWell [s.token] :=
  .single (by simp [token])

theorem Output.endsWell {o : Output} (h : o.isRaw = false) : EndsWell o.tokens := by
  cases o with
  | raw expression aliasName => simp [isRaw] at h
  | column name aliasName =>
    cases aliasName with
    | none => exact name.endsWell
    | some aliasName =>
      rw [tokens]
      split
      · exact name.endsWell
      · exact .append _ (.cons _ (.cons _ (.cons _ aliasName.endsWell)))

theorem Outputs.endsWell {o : Outputs} (h : ∀ i ∈ o.items, i.isRaw = false) :
    EndsWell o.tokens := by
  rw [tokens]
  split
  · exact .single (by decide)
  · next hne =>
    refine .intercalate _ (by simpa using hne) ?_
    intro part hpart
    obtain ⟨i, hi, rfl⟩ := List.mem_map.mp hpart
    exact Output.endsWell (h i hi)

theorem Source.endsWell {t : Source} (h : t.isRaw = false) : EndsWell t.tokens := by
  cases t with
  | raw expression aliasName => simp [isRaw] at h
  | table name aliasName =>
    cases aliasName with
    | none => exact name.endsWell
    | some aliasName =>
      rw [tokens]
      split
      · exact name.endsWell
      · exact .cons _ (.cons _ (.cons _ (.cons _ aliasName.endsWell)))

/-- The conditions of a join are one condition or an open group of several. -/
theorem Tree.IsJoined.endsWell {t : Tree} (h : t.IsJoined) : EndsWell t.tokens := by
  have hends : ∀ {p : Predicate}, p.isFields = true → EndsWell p.tokens :=
    fun hp => (Predicate.isCondition (.inr hp)).ends
  rcases h.root_cases with ⟨p, hp, rfl⟩ | ⟨c, predicates, hlen, hall, rfl⟩
  · exact hends hp
  · change EndsWell (List.intercalate c.tokens (Node.tokensAll (predicates.map .leaf)))
    rw [Node.tokensAll_eq_map, List.map_map]
    refine .intercalate _ ?_ ?_
    · intro hnil
      rw [List.map_eq_nil_iff] at hnil
      simp [hnil] at hlen
    · intro part hpart
      obtain ⟨p, hp, rfl⟩ := List.mem_map.mp hpart
      exact hends (hall p hp)

theorem Join.endsWell {j : Join} (h : j.on.IsJoined) : EndsWell j.rest :=
  .cons _ (.cons _ (.cons _ (.append _ (.cons _ (.cons _ (.cons _ h.endsWell))))))

theorem SortKey.endsWell (key : SortKey) : EndsWell key.tokens :=
  .append _ (.cons _ (.single (by simp)))

theorem Window.endsWell (w : Window) : EndsWell w.tokens := by
  rw [tokens]
  cases w.offset with
  | none => exact .single (by simp)
  | some offset => exact .cons _ (.cons _ (.single (by simp)))

/-! ### Sections of a statement -/

namespace Statement

/-- What a clause of a plain statement is like. -/
theorem clause_sections {s : Statement} (h : s.IsPlain) {clause : Token × List Token}
    (hclause : clause ∈ s.clauses) :
    clause.1.opensClause = true ∧ Quiet clause.2 ∧ EndsWell clause.2 := by
  rcases clause_cases hclause with ⟨hne, rfl⟩ | ⟨j, hj, rfl⟩ | rfl | ⟨hne, rfl⟩ | ⟨window, rfl⟩
  · have htables : Quiet (List.intercalate [.mark ','] (s.sources.tables.map Source.tokens)) :=
      .commas fun t _ => t.quiet
    refine ⟨rfl, by simp [htables], .cons _ (.intercalate _ (by simpa using hne) ?_)⟩
    intro part hpart
    obtain ⟨t, ht, rfl⟩ := List.mem_map.mp hpart
    exact Source.endsWell (h.tables t ht)
  · have hon := (h.joins j hj).2
    refine ⟨?_, Join.quiet hon, Join.endsWell hon⟩
    cases j.kind <;> rfl
  · refine ⟨rfl, by simp [h.conditions.quiet], .cons _ (.cons _ (.append _ ?_))⟩
    exact .single (by decide)
  · have hby : (keyword "BY").opensClause = false := by decide
    have hkeys : Quiet (List.intercalate [.mark ','] (s.ordering.map SortKey.tokens)) :=
      .commas fun key _ => key.quiet
    refine ⟨rfl, by simp [hby, hkeys],
      .cons _ (.cons _ (.cons _ (.intercalate _ (by simpa using hne) ?_)))⟩
    intro part hpart
    obtain ⟨key, -, rfl⟩ := List.mem_map.mp hpart
    exact key.endsWell
  · exact ⟨rfl, by simp [window.quiet], .cons _ window.endsWell⟩

/-- The tokens of a plain statement are cut into the clauses they were put together from. -/
theorem sections_tokens {s : Statement} (h : s.IsPlain) :
    sections s.tokens = (keyword "SELECT" :: blank :: s.outputs.tokens, s.clauses) := by
  have hclauses := sections_concat fun clause hclause => clause_sections h hclause
  have hselect : (keyword "SELECT").opensClause = false := by decide
  have hquiet : Quiet (keyword "SELECT" :: blank :: s.outputs.tokens) := by
    simp [hselect, s.outputs.quiet]
  have hends : EndsWell (keyword "SELECT" :: blank :: s.outputs.tokens) :=
    .cons _ (.cons _ (Outputs.endsWell h.outputs))
  exact sections_append hquiet hends.ne_blank hclauses

end Statement

end SqlSelect
