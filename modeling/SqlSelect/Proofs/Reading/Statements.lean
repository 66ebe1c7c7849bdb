import SqlSelect.Proofs.Reading.Sections
import SqlSelect.Proofs.Reading.Shapes

/-!
Reading a whole statement. What a statement says is its description: the outputs, tables and joins
by what they stand for and by their effective names, the shape of the conditions, the sort keys and
the window. The reader cuts the text into tokens and these into clauses, and each clause puts its
part into the description. Plain statements are read with the description they have, so two of them
with the same text say the same.

        text  ──scan──▶  tokens  ──sections──▶  clauses  ──one by one──▶  description
-/

namespace SqlSelect

/-- What a statement says. -/
structure Description where
  outputs : List (Option Identifier × Text)
  tables : List (Option Segment × Segment) := []
  joins : List (JoinKind × (Option Segment × Segment) × Tree) := []
  conditions : Option Shape := none
  ordering : List SortKey := []
  window : Option Window := none

/-- The table of a source, if it is one, and the effective name. -/
def Source.described (t : Source) : Option Segment × Segment :=
  (t.table?, t.effectiveName)

/-- The kind of a join, its target and its conditions. -/
def Join.described (j : Join) : JoinKind × (Option Segment × Segment) × Tree :=
  (j.kind, j.target.described, j.on)

/-- What the statement says: columns and effective names of its outputs, tables and effective names
    of its sources, the conditions of joins, the shape of its own conditions, the sort keys and the
    window. -/
def Statement.description (s : Statement) : Description where
  outputs := s.outputs.items.map fun o => (o.column?, o.effectiveName)
  tables := s.sources.tables.map Source.described
  joins := s.sources.joins.map Join.described
  conditions := s.conditions.shape? s.dialect
  ordering := s.ordering
  window := s.window

/-! ### Readers of clauses -/

namespace Description

/-- Reads the outputs; a star stands for none. -/
def readOutputs (tokens : List Token) : Option (List (Option Identifier × Text)) :=
  (readItems Output.read tokens).or (if tokens = [keyword "*"] then some [] else none)

/-- Reads a source up to its end. -/
def readSource (tokens : List Token) : Option (Option Segment × Segment) :=
  match Source.read tokens with
  | some (source, []) => some source
  | _ => none

/-- Reads conditions up to their end. -/
def readExpr (tokens : List Token) : Option Expr :=
  (readConditions tokens).join

/-- Reads a join by the word that opens it and the tokens after it. -/
def readJoin (quote : Text → Text) (word : Token) (tokens : List Token) :
    Option (JoinKind × (Option Segment × Segment) × Tree) := do
  let kind ← [JoinKind.left, .inner, .right].find? fun kind => kind.word = word
  let rest ← [blank, keyword "JOIN", blank].isPrefixOf? tokens
  let (target, rest) ← Source.read rest
  let conditions ← [blank, keyword "ON", blank].isPrefixOf? rest
  let on ← (← readExpr conditions).joined? quote
  return (kind, target, on)

/-- Puts what a clause says into a description. -/
def readClause (quote : Text → Text) (described : Description) :
    Token × List Token → Option Description
  | (word, tokens) =>
    if word = keyword "FROM" then do
      let tables ← readItems readSource (tokens.drop 1)
      return { described with tables := tables }
    else if word = keyword "WHERE" then do
      let shape ← (← readExpr (tokens.drop 2).dropLast).shape? quote
      return { described with conditions := some shape }
    else if word = keyword "ORDER" then do
      let keys ← readItems SortKey.read (tokens.drop 3)
      return { described with ordering := keys }
    else if word = keyword "LIMIT" then do
      let window ← Window.read (tokens.drop 1)
      return { described with window := some window }
    else do
      let j ← readJoin quote word tokens
      return { described with joins := described.joins ++ [j] }

/-- Reads a statement from its tokens. -/
def read (quote : Text → Text) (tokens : List Token) : Option Description :=
  match sections tokens with
  | (before, clauses) => do
    let outputs ← readOutputs (before.drop 2)
    clauses.foldlM (readClause quote) { outputs := outputs }

end Description

/-- Reads a statement from a text in a legible dialect. -/
def Dialect.Legible.readStatement {d : Dialect} (L : d.Legible) (s : Text) : Option Description :=
  (L.lex s).bind (Description.read d.quote)

/-! ### Clauses read back -/

theorem Identifier.comma_not_mem (i : Identifier) : Token.mark ',' ∉ i.tokens := by
  intro h
  exact absurd (isInert_tokens h) (by decide)

theorem Output.comma_not_mem (o : Output) : Token.mark ',' ∉ o.tokens := by
  cases o with
  | raw expression aliasName => simp [tokens]
  | column name aliasName =>
    cases aliasName with
    | none => exact name.comma_not_mem
    | some aliasName =>
      rw [tokens]
      split <;> simp [name.comma_not_mem, Segment.token]

theorem Source.comma_not_mem (t : Source) : Token.mark ',' ∉ t.tokens := by
  cases t with
  | raw expression aliasName => simp [tokens]
  | table name aliasName =>
    cases aliasName with
    | none => simp [tokens, Segment.token]
    | some aliasName =>
      rw [tokens]
      split <;> simp [Segment.token]

theorem SortKey.comma_not_mem (key : SortKey) : Token.mark ',' ∉ key.tokens := by
  obtain ⟨expression, direction⟩ := key
  cases expression with
  | raw expression => simp [tokens]
  | column name => simp [tokens, name.comma_not_mem]

namespace Description

theorem readOutputs_tokens {o : Outputs} (h : ∀ i ∈ o.items, i.isRaw = false) :
    readOutputs o.tokens = some (o.items.map fun i => (i.column?, i.effectiveName)) := by
  rw [Outputs.tokens]
  split
  · next hempty =>
    rw [List.isEmpty_iff.mp hempty]
    rfl
  · next hne =>
    have hitems : readItems Output.read (List.intercalate [.mark ','] (o.items.map Output.tokens)) =
        some (o.items.map fun i => (i.column?, i.effectiveName)) :=
      readItems_commas (by simpa using hne) fun i hi =>
        ⟨i.comma_not_mem, Output.read_tokens (h i hi)⟩
    rw [readOutputs, hitems]
    rfl

theorem readSource_tokens {t : Source} (h : t.isRaw = false) :
    readSource t.tokens = some t.described := by
  have hread := Source.read_tokens h [] rfl
  rw [List.append_nil] at hread
  rw [readSource, hread]
  rfl

theorem readJoin_rest (d : Dialect) {j : Join} (ht : j.target.isRaw = false)
    (ho : j.on.IsJoined) : readJoin d.quote j.kind.word j.rest = some j.described := by
  have hkind : [JoinKind.left, .inner, .right].find? (fun kind => kind.word = j.kind.word) =
      some j.kind := by
    cases j.kind <;> rfl
  have hrest : [blank, keyword "JOIN", blank].isPrefixOf? j.rest =
      some (j.target.tokens ++ blank :: keyword "ON" :: blank :: j.on.tokens) :=
    isPrefixOf?_append _ _
  have htarget := Source.read_tokens ht (blank :: keyword "ON" :: blank :: j.on.tokens) rfl
  have hon : [blank, keyword "ON", blank].isPrefixOf?
      (blank :: keyword "ON" :: blank :: j.on.tokens) = some j.on.tokens :=
    isPrefixOf?_append _ _
  have hconditions := Tree.readConditions_tokens (fun _ hp => .inr hp) ho.regular
  have hjoined := ho.joined?_expr? d
  cases he : j.on.expr? with
  | none => simp [he] at hjoined
  | some e =>
    have htree : e.joined? d.quote = some j.on := by simpa [he] using hjoined
    have hexpr : readExpr j.on.tokens = some e := by
      rw [readExpr, hconditions, he]
      rfl
    simp only [readJoin, hkind, hrest, htarget, hon, hexpr, htree, Option.bind_eq_bind,
      Option.bind_some]
    rfl

/-! ### Clauses one by one -/

variable (quote : Text → Text) {described : Description}

theorem readClause_from {tokens : List Token} {tables : List (Option Segment × Segment)}
    (h : readItems readSource tokens = some tables) :
    readClause quote described (keyword "FROM", blank :: tokens) =
      some { described with tables := tables } := by
  change (readItems readSource tokens).bind _ = _
  rw [h]
  rfl

theorem readClause_where {tokens : List Token} {e : Expr} {shape : Shape}
    (he : readExpr tokens = some e) (h : e.shape? quote = some shape) :
    readClause quote described (keyword "WHERE", blank :: .mark '(' :: (tokens ++ [.mark ')'])) =
      some { described with conditions := some shape } := by
  change (readExpr (tokens ++ [Token.mark ')']).dropLast).bind _ = _
  rw [List.dropLast_concat, he]
  change (e.shape? quote).bind _ = _
  rw [h]
  rfl

theorem readClause_order {tokens : List Token} {keys : List SortKey}
    (h : readItems SortKey.read tokens = some keys) :
    readClause quote described (keyword "ORDER", blank :: keyword "BY" :: blank :: tokens) =
      some { described with ordering := keys } := by
  change (readItems SortKey.read tokens).bind _ = _
  rw [h]
  rfl

theorem readClause_limit (window : Window) :
    readClause quote described (keyword "LIMIT", blank :: window.tokens) =
      some { described with window := some window } := by
  change (Window.read window.tokens).bind _ = _
  rw [window.read_tokens]
  rfl

theorem readClause_join {kind : JoinKind} {tokens : List Token}
    {j : JoinKind × (Option Segment × Segment) × Tree}
    (h : readJoin quote kind.word tokens = some j) :
    readClause quote described (kind.word, tokens) =
      some { described with joins := described.joins ++ [j] } := by
  have hclause : readClause quote described (kind.word, tokens) =
      (readJoin quote kind.word tokens).bind fun j =>
        some { described with joins := described.joins ++ [j] } := by
    cases kind <;> rfl
  rw [hclause, h]
  rfl

/-! ### Statements read back -/

variable {s : Statement}

/-- A single clause is read by its step. -/
theorem foldlM_single {clause : Token × List Token} {next : Description}
    (h : readClause quote described clause = some next) :
    [clause].foldlM (readClause quote) described = some next := by
  rw [List.foldlM_cons, h]
  rfl

theorem foldlM_fromTokens (h : s.IsPlain) (hd : described.tables = []) :
    s.fromTokens.foldlM (readClause quote) described =
      some { described with tables := s.sources.tables.map Source.described } := by
  rw [Statement.fromTokens]
  split
  · next hempty =>
    rw [List.isEmpty_iff.mp hempty, List.map_nil, ← hd]
    rfl
  · next hne =>
    refine foldlM_single quote (readClause_from quote ?_)
    exact readItems_commas (by simpa using hne) fun t ht =>
      ⟨t.comma_not_mem, readSource_tokens (h.tables t ht)⟩

theorem foldlM_joinTokens (h : s.IsPlain) (described : Description) :
    s.joinTokens.foldlM (readClause s.dialect.quote) described =
      some { described with joins := described.joins ++ s.sources.joins.map Join.described } := by
  have hjoins := h.joins
  rw [Statement.joinTokens]
  generalize s.sources.joins = joins at hjoins
  induction joins generalizing described with
  | nil => simp
  | cons j joins ih =>
    obtain ⟨ht, ho⟩ := hjoins j (by simp)
    have hrest := fun described => ih described fun k hk => hjoins k (List.mem_cons_of_mem _ hk)
    rw [List.map_cons, List.foldlM_cons,
      readClause_join s.dialect.quote (readJoin_rest s.dialect ht ho)]
    change List.foldlM _ _ _ = _
    rw [hrest]
    simp

theorem foldlM_whereTokens (h : s.IsPlain) (hd : described.conditions = none) :
    s.whereTokens.foldlM (readClause s.dialect.quote) described =
      some { described with conditions := s.conditions.shape? s.dialect } := by
  have hread := Tree.readConditions_tokens (fun _ hp => .inl hp) h.conditions
  have hshape := Tree.shape?_expr? s.dialect (fun _ hp => .inl hp) h.conditions
  rw [Statement.whereTokens]
  cases hroot : s.conditions.root with
  | none =>
    have hempty : s.conditions.isEmpty = true := by simp [Tree.isEmpty, hroot]
    rw [if_pos hempty, Tree.shape?, hroot, Option.map_none, ← hd]
    rfl
  | some root =>
    have hempty : ¬s.conditions.isEmpty = true := by simp [Tree.isEmpty, hroot]
    have hsome : s.conditions.shape? s.dialect = some (root.shape s.dialect) := by
      rw [Tree.shape?, hroot]
      rfl
    rw [hsome] at hshape
    obtain ⟨e, he, heshape⟩ := Option.map_eq_some_iff.mp hshape
    rw [if_neg hempty, hsome]
    refine foldlM_single _ (readClause_where _ ?_ heshape)
    rw [readExpr, hread, he]
    rfl

theorem foldlM_orderTokens (h : s.IsPlain) (hd : described.ordering = []) :
    s.orderTokens.foldlM (readClause quote) described =
      some { described with ordering := s.ordering } := by
  rw [Statement.orderTokens]
  split
  · next hempty =>
    rw [List.isEmpty_iff.mp hempty, ← hd]
    rfl
  · next hne =>
    have hkeys := readItems_commas (f := id) (by simpa using hne) fun key hk =>
      ⟨SortKey.comma_not_mem key, SortKey.read_tokens (h.ordering key hk)⟩
    rw [List.map_id] at hkeys
    exact foldlM_single quote (readClause_order quote hkeys)

theorem foldlM_limitTokens (hd : described.window = none) :
    s.limitTokens.foldlM (readClause quote) described =
      some { described with window := s.window } := by
  rw [Statement.limitTokens]
  cases s.window with
  | none =>
    have hsame : described = { described with window := none } := by rw [← hd]
    exact congrArg some hsame
  | some window => exact foldlM_single quote (readClause_limit quote window)

/-- The tokens of a plain statement are read as its description. -/
theorem read_tokens (h : s.IsPlain) : read s.dialect.quote s.tokens = some s.description := by
  have houtputs := readOutputs_tokens h.outputs
  have hclauses : s.clauses.foldlM (readClause s.dialect.quote)
      { outputs := s.outputs.items.map fun o => (o.column?, o.effectiveName) } =
        some s.description := by
    simp only [Statement.clauses, List.foldlM_append, Option.bind_eq_bind]
    rw [foldlM_fromTokens _ h rfl, Option.bind_some, foldlM_joinTokens h, Option.bind_some,
      foldlM_whereTokens h rfl, Option.bind_some, foldlM_orderTokens _ h rfl, Option.bind_some,
      foldlM_limitTokens _ rfl]
    rfl
  rw [read, Statement.sections_tokens h]
  change (readOutputs s.outputs.tokens).bind _ = _
  rw [houtputs]
  exact hclauses

end Description

namespace Statement

/-- The text of a plain statement in a legible dialect is read as what the statement says. -/
theorem IsPlain.readStatement_sql {s : Statement} (h : s.IsPlain) (L : s.dialect.Legible) :
    L.readStatement s.sql = some s.description := by
  rw [Dialect.Legible.readStatement, ← spell_tokens h, L.lex_spell (clean_tokens h),
    Option.bind_some]
  exact Description.read_tokens h

/-- Every text of a statement that was built without verbatim SQL, and is written for a built-in
    dialect, is read by the reader of that dialect as what the statement says. So no two statements
    that say different things have the same text. -/
theorem sql_unambiguous (rule : StringRule) :
    (∀ (d : Dialect) (calls : List Call), (∀ call ∈ calls, call.IsPlain) →
      ((withDialect d).run calls).dialect = rule.dialect →
      rule.legible.readStatement ((withDialect d).run calls).sql =
        some ((withDialect d).run calls).description) ∧
    (∀ (d₁ d₂ : Dialect) (calls₁ calls₂ : List Call),
      (∀ call ∈ calls₁, call.IsPlain) → (∀ call ∈ calls₂, call.IsPlain) →
      ((withDialect d₁).run calls₁).dialect = rule.dialect →
      ((withDialect d₂).run calls₂).dialect = rule.dialect →
      ((withDialect d₁).run calls₁).sql = ((withDialect d₂).run calls₂).sql →
      ((withDialect d₁).run calls₁).description = ((withDialect d₂).run calls₂).description) := by
  have hread : ∀ (d : Dialect) (calls : List Call), (∀ call ∈ calls, call.IsPlain) →
      ((withDialect d).run calls).dialect = rule.dialect →
      rule.legible.readStatement ((withDialect d).run calls).sql =
        some ((withDialect d).run calls).description := by
    intro d calls hcalls hd
    have hplain := (isPlain_withDialect d).run hcalls
    have hlegible : ∀ d' : Dialect, ∀ L : d'.Legible, ((withDialect d).run calls).dialect = d' →
        L.readStatement ((withDialect d).run calls).sql =
          some ((withDialect d).run calls).description := by
      rintro _ L rfl
      exact hplain.readStatement_sql L
    exact hlegible _ rule.legible hd
  refine ⟨hread, ?_⟩
  intro d₁ d₂ calls₁ calls₂ h₁ h₂ hd₁ hd₂ hsql
  have hboth := hread d₁ calls₁ h₁ hd₁
  rw [hsql, hread d₂ calls₂ h₂ hd₂] at hboth
  exact (Option.some.inj hboth).symm

/-- Calls for all clauses, with a value that holds a comma, a quote and a parenthesis. -/
def callsForAllClauses : List Call :=
  [.select (.pairs [("x".toList, "t.a".toList)]), .fromTables (.one "t".toList),
    .joinTarget .left (.aliased "u".toList "v".toList) "t".toList
      (.pair "id".toList none "u_id".toList),
    .condition (.add .and (.inList false "t.a".toList [.text "1,'2)".toList, .null])),
    .orderBy (.one "x".toList) (some "desc".toList), .limit 5 (some 2)]

theorem sql_unambiguous_callsForAllClauses :
    ((withDialect .ansi).run callsForAllClauses).sql =
        "SELECT \x60t\x60.\x60a\x60 AS \x60x\x60 FROM \x60t\x60 ".toList ++
        "LEFT JOIN \x60u\x60 AS \x60v\x60 ON \x60v\x60.\x60id\x60=\x60t\x60.\x60u_id\x60 ".toList ++
        "WHERE (\x60t\x60.\x60a\x60 IN ('1,''2)',NULL)) ORDER BY \x60x\x60 DESC LIMIT 2,5".toList ∧
      StringRule.standard.legible.readStatement
          ((withDialect .ansi).run callsForAllClauses).sql =
        some ((withDialect .ansi).run callsForAllClauses).description := by
  have hplain : ∀ call ∈ callsForAllClauses, call.IsPlain := by
    intro call hcall
    simp only [callsForAllClauses, List.mem_cons, List.not_mem_nil, or_false] at hcall
    rcases hcall with rfl | rfl | rfl | rfl | rfl | rfl
    · exact trivial
    · exact trivial
    · exact rfl
    · exact rfl
    · exact trivial
    · exact trivial
  exact ⟨rfl, (sql_unambiguous .standard).1 .ansi callsForAllClauses hplain rfl⟩

end Statement

end SqlSelect
