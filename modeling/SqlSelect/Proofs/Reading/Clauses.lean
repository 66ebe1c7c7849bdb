import SqlSelect.Proofs.Numerals
import SqlSelect.Proofs.Plain
import SqlSelect.Proofs.Reading.Tokens

/-!
The tokens that each part of a statement is written with. Verbatim expressions may hold anything,
so they have no tokens of their own; for all other parts the text is the text of the tokens, and
the tokens are clean, so that they can be read back. Words with a meaning for the structure of a
statement never occur among the tokens of an identifier, an operator or a value.
-/

namespace SqlSelect

open Token (spell Clean)

/-! ### Tokens of single parts -/

/-- The blank between two words. -/
abbrev blank : Token := .mark ' '

/-- A word of the language. -/
abbrev keyword (w : String) : Token := .word w.toList

/-- The name of a segment. -/
def Segment.token (s : Segment) : Token :=
  .name s.text

/-- The names of an identifier, with a point between them if there are two. -/
def Identifier.tokens (i : Identifier) : List Token :=
  match i.qualifier with
  | none => [i.name.token]
  | some table => [table.token, keyword ".", i.name.token]

/-- A value is one word, or one string literal. -/
def Literal.token : Literal → Token
  | null => keyword "NULL"
  | bool true => keyword "1"
  | bool false => keyword "0"
  | int n => .word (Numeral.ofInt n.toInt)
  | uint n => .word (Numeral.ofNat n.toNat)
  | float x => .word x.text
  | text s => .literal s
  | timestamp t => .literal t.text

/-- The words of an operator. -/
def Operator.tokens : Operator → List Token
  | notLike => [keyword "NOT", blank, keyword "LIKE"]
  | operator => [.word operator.text]

/-- The tokens of a left-hand side. -/
def Subject.tokens : Subject → List Token
  | column name => name.tokens
  | raw _ => []
  | length name => keyword "LENGTH" :: .mark '(' :: (name.tokens ++ [.mark ')'])

/-- The words that introduce a list of values. -/
def membership (negated : Bool) : List Token :=
  if negated then [keyword "NOT", blank, keyword "IN", blank] else [keyword "IN", blank]

/-- The tokens of a list of values. -/
def valueTokens (values : List Literal) : List Token :=
  List.intercalate [.mark ','] (values.map fun v => [v.token])

/-- The tokens of a single condition. -/
def Predicate.tokens : Predicate → List Token
  | compare subject operator value =>
    subject.tokens ++ blank :: (operator.tokens ++ [blank, value.token])
  | null column negated =>
    column.tokens ++ blank :: keyword "IS" :: blank ::
      (if negated then [keyword "NOT", blank, keyword "NULL"] else [keyword "NULL"])
  | inList column values negated =>
    column.tokens ++ blank ::
      (membership negated ++ .mark '(' :: (valueTokens values ++ [.mark ')']))
  | columns left operator right =>
    if operator.isKeyword then left.tokens ++ blank :: (operator.tokens ++ blank :: right.tokens)
    else left.tokens ++ operator.tokens ++ right.tokens

/-- The word of a combinator. -/
def Combinator.word (c : Combinator) : Token :=
  .word c.text

/-- A combinator as it stands between two conditions. -/
def Combinator.tokens (c : Combinator) : List Token :=
  [blank, c.word, blank]

namespace Node

mutual

/-- The tokens of a node within a group, where every group has its parentheses. -/
def tokens : Node → List Token
  | leaf predicate => predicate.tokens
  | group combinator _ children =>
    .mark '(' :: (List.intercalate combinator.tokens (tokensAll children) ++ [.mark ')'])

/-- The tokens of the children of a group, in order. -/
def tokensAll : List Node → List (List Token)
  | [] => []
  | node :: nodes => tokens node :: tokensAll nodes

end

end Node

/-- The tokens of a tree; an open group at the root has no parentheses. -/
def Tree.tokens (t : Tree) : List Token :=
  match t.root with
  | none => []
  | some (.group combinator false children) =>
    List.intercalate combinator.tokens (Node.tokensAll children)
  | some root => root.tokens

/-- The tokens of an output column; an alias equal to the column is not printed. -/
def Output.tokens : Output → List Token
  | column name none => name.tokens
  | column name (some aliasName) =>
    if aliasName.text = name.text then name.tokens
    else name.tokens ++ [blank, keyword "AS", blank, aliasName.token]
  | raw _ _ => []

/-- The tokens of the output columns. -/
def Outputs.tokens (o : Outputs) : List Token :=
  if o.items.isEmpty then [keyword "*"]
  else List.intercalate [.mark ','] (o.items.map Output.tokens)

/-- The tokens of a table; an alias equal to its name is not printed. -/
def Source.tokens : Source → List Token
  | table name none => [name.token]
  | table name (some aliasName) =>
    if aliasName = name then [name.token]
    else [name.token, blank, keyword "AS", blank, aliasName.token]
  | raw _ _ => []

/-- The first word of a join. -/
def JoinKind.word : JoinKind → Token
  | left => keyword "LEFT"
  | inner => keyword "INNER"
  | right => keyword "RIGHT"

/-- The tokens of a join after its first word. -/
def Join.rest (j : Join) : List Token :=
  blank :: keyword "JOIN" :: blank :: (j.target.tokens ++ blank :: keyword "ON" :: blank ::
    j.on.tokens)

/-- The tokens of a sort key. -/
def SortKey.tokens (key : SortKey) : List Token :=
  (match key.expression with
    | .column name => name.tokens
    | .raw _ => []) ++ [blank, .word key.direction.text]

/-- The tokens of a window. -/
def Window.tokens (w : Window) : List Token :=
  match w.offset with
  | none => [.word (Numeral.ofNat w.count)]
  | some offset => [.word (Numeral.ofNat offset), .mark ',', .word (Numeral.ofNat w.count)]

namespace Statement

/-- The clause of the tables: its first word and the tokens that follow it. -/
def fromTokens (s : Statement) : List (Token × List Token) :=
  if s.sources.tables.isEmpty then []
  else
    [(keyword "FROM", blank :: List.intercalate [.mark ','] (s.sources.tables.map Source.tokens))]

/-- The clauses of the joins. -/
def joinTokens (s : Statement) : List (Token × List Token) :=
  s.sources.joins.map fun j => (j.kind.word, j.rest)

/-- The clause of the conditions. -/
def whereTokens (s : Statement) : List (Token × List Token) :=
  if s.conditions.isEmpty then []
  else [(keyword "WHERE", blank :: .mark '(' :: (s.conditions.tokens ++ [.mark ')']))]

/-- The clause of the sort keys. -/
def orderTokens (s : Statement) : List (Token × List Token) :=
  if s.ordering.isEmpty then []
  else [(keyword "ORDER", blank :: keyword "BY" :: blank ::
    List.intercalate [.mark ','] (s.ordering.map SortKey.tokens))]

/-- The clause of the window. -/
def limitTokens (s : Statement) : List (Token × List Token) :=
  match s.window with
  | none => []
  | some window => [(keyword "LIMIT", blank :: window.tokens)]

/-- The clauses after the output columns: the first word of each, and the tokens that follow it. -/
def clauses (s : Statement) : List (Token × List Token) :=
  s.fromTokens ++ s.joinTokens ++ s.whereTokens ++ s.orderTokens ++ s.limitTokens

/-- Clauses one after the other, each after a blank. -/
def concat (clauses : List (Token × List Token)) : List Token :=
  clauses.flatMap fun clause => blank :: clause.1 :: clause.2

/-- The tokens of a statement. -/
def tokens (s : Statement) : List Token :=
  keyword "SELECT" :: blank :: (s.outputs.tokens ++ concat s.clauses)

end Statement

/-! ### Their text -/

/-- What goes through lists part by part goes through lists with a separator between them. -/
theorem intercalate_of_append {α β : Type} {f : List α → List β} (hnil : f [] = [])
    (happend : ∀ a b, f (a ++ b) = f a ++ f b) (separator : List α) (parts : List (List α)) :
    f (List.intercalate separator parts) = List.intercalate (f separator) (parts.map f) := by
  induction parts with
  | nil => exact hnil
  | cons part parts ih =>
    cases parts with
    | nil => simp
    | cons next parts =>
      rw [List.intercalate_cons_cons, happend, happend, ih, List.map_cons, List.map_cons,
        List.map_cons, List.intercalate_cons_cons]

section Text

variable (d : Dialect)

/-- Lists of tokens with a separator between them are written with its text between theirs. -/
theorem spell_intercalate (separator : List Token) (parts : List (List Token)) :
    spell d.quote (List.intercalate separator parts) =
      List.intercalate (spell d.quote separator) (parts.map (spell d.quote)) :=
  intercalate_of_append rfl (Token.spell_append d.quote) separator parts

/-- Items with a comma between them are written with a comma between their texts. -/
theorem spell_commas {α : Type} {tokens : α → List Token} {render : α → Text} {items : List α}
    (h : ∀ a ∈ items, spell d.quote (tokens a) = render a) :
    spell d.quote (List.intercalate [.mark ','] (items.map tokens)) =
      List.intercalate [','] (items.map render) := by
  rw [spell_intercalate, List.map_map]
  congr 1
  exact List.map_congr_left h

theorem Identifier.spell_tokens (i : Identifier) : spell d.quote i.tokens = i.render := by
  unfold Identifier.tokens Identifier.render
  cases i.qualifier <;> simp [Segment.token, Segment.render]

theorem Literal.text_token (l : Literal) : l.token.text d.quote = l.render d := by
  cases l with
  | bool b => cases b <;> simp [token, render]
  | _ => simp [token, render]

theorem Operator.spell_tokens (o : Operator) : spell d.quote o.tokens = o.text := by
  cases o <;> rfl

theorem Subject.render_length (name : Identifier) :
    (length name).render = "LENGTH(".toList ++ name.render ++ [')'] := rfl

theorem Subject.spell_tokens {subject : Subject} (h : ∀ e, subject ≠ raw e) :
    spell d.quote subject.tokens = subject.render := by
  cases subject with
  | column name => exact Identifier.spell_tokens d name
  | raw e => exact (h e rfl).elim
  | length name =>
    rw [render_length, tokens]
    simp [Identifier.spell_tokens d]

theorem spell_valueTokens (values : List Literal) :
    spell d.quote (valueTokens values) = List.intercalate [','] (values.map (Literal.render d)) :=
  spell_commas d fun l _ => by simp [Literal.text_token]

/-- The text of a test of a column. -/
theorem Predicate.spell_tokens {p : Predicate} (h : p.isTest = true ∨ p.isFields = true) :
    spell d.quote p.tokens = p.render d := by
  cases p with
  | compare subject operator value =>
    have hs : ∀ e, subject ≠ .raw e := by
      rintro e rfl
      simp [isTest, isFields] at h
    simp [tokens, render, Subject.spell_tokens d hs, Operator.spell_tokens d, Literal.text_token]
  | null column negated =>
    cases negated <;> simp [tokens, render, Identifier.spell_tokens d]
  | inList column values negated =>
    cases negated <;>
      simp [tokens, render, membership, Identifier.spell_tokens d, spell_valueTokens d]
  | columns left operator right =>
    rw [tokens, render]
    split <;> simp [Identifier.spell_tokens d, Operator.spell_tokens d]

theorem Combinator.spell_tokens (c : Combinator) : spell d.quote c.tokens = c.separator := by
  cases c <;> rfl

namespace Node

theorem tokensAll_eq_map (nodes : List Node) : tokensAll nodes = nodes.map tokens := by
  induction nodes with
  | nil => rfl
  | cons node nodes ih => rw [tokensAll, ih, List.map_cons]

/-- The children of a group with the combinator between them. -/
theorem spell_children (c : Combinator) {children : List Node}
    (h : ∀ node ∈ children, spell d.quote node.tokens = node.render d false) :
    spell d.quote (List.intercalate c.tokens (tokensAll children)) =
      List.intercalate c.separator (renderAll d children) := by
  rw [spell_intercalate, Combinator.spell_tokens, tokensAll_eq_map, renderAll_eq_map, List.map_map]
  congr 1
  exact List.map_congr_left h

/-- The text of a node within a group. -/
theorem spell_tokens {P : Predicate → Prop}
    (hP : ∀ p, P p → p.isTest = true ∨ p.isFields = true) {node : Node} (h : node.Regular P) :
    spell d.quote node.tokens = node.render d false := by
  induction h with
  | leaf hp => exact Predicate.spell_tokens d (hP _ hp)
  | @group c closed children _ _ _ _ ih =>
    have hinside := spell_children d c ih
    simp [tokens, render, hinside]

end Node

/-- The text of a tree. -/
theorem Tree.spell_tokens {P : Predicate → Prop}
    (hP : ∀ p, P p → p.isTest = true ∨ p.isFields = true) {t : Tree} (h : t.Regular P) :
    spell d.quote t.tokens = t.render d := by
  rcases h.root_cases with rfl | ⟨p, hp, rfl⟩ | ⟨c, children, hroot, rfl⟩ |
    ⟨c, children, -, hall, rfl⟩
  · rfl
  · exact Node.spell_tokens d hP (.leaf hp)
  · exact Node.spell_tokens d hP hroot
  · have hinside := Node.spell_children d c fun node hnode =>
      Node.spell_tokens d hP (hall node hnode)
    simpa [Tree.tokens, Tree.render, Node.render] using hinside

theorem Output.spell_tokens {o : Output} (h : o.isRaw = false) :
    spell d.quote o.tokens = o.render := by
  cases o with
  | raw expression aliasName => simp [isRaw] at h
  | column name aliasName =>
    cases aliasName with
    | none => exact Identifier.spell_tokens d name
    | some aliasName =>
      rw [tokens, render]
      split <;> simp [Identifier.spell_tokens d, Segment.token, Segment.render]

theorem Outputs.spell_tokens {o : Outputs} (h : ∀ i ∈ o.items, i.isRaw = false) :
    spell d.quote o.tokens = o.render := by
  unfold tokens render
  split
  · simp
  · exact spell_commas d fun i hi => Output.spell_tokens d (h i hi)

theorem Source.spell_tokens {t : Source} (h : t.isRaw = false) :
    spell d.quote t.tokens = t.render := by
  cases t with
  | raw expression aliasName => simp [isRaw] at h
  | table name aliasName =>
    cases aliasName with
    | none => simp [tokens, render, Segment.token, Segment.render]
    | some aliasName =>
      rw [tokens, render]
      split <;> simp [Segment.token, Segment.render]

/-- The conditions of a join have the shape of any condition tree. -/
theorem Tree.IsJoined.regular {t : Tree} (h : t.IsJoined) :
    t.Regular fun p => p.isFields = true := by
  obtain ⟨c, predicates, -, hall, rfl⟩ := h
  exact Tree.Regular.empty.attachAll c hall

theorem JoinKind.text_eq (kind : JoinKind) :
    kind.word.text d.quote ++ ' ' :: "JOIN".toList = kind.text := by
  cases kind <;> rfl

theorem Join.spell_rest {j : Join} (ht : j.target.isRaw = false) (ho : j.on.IsJoined) :
    j.kind.word.text d.quote ++ spell d.quote j.rest = j.render d := by
  have htarget := Source.spell_tokens d ht
  have hon := Tree.spell_tokens d (P := fun p => p.isFields = true) (fun _ hp => .inr hp) ho.regular
  rw [Join.render, ← JoinKind.text_eq d, ← htarget, ← hon]
  simp [rest]

theorem SortKey.spell_tokens {key : SortKey} (h : key.isRaw = false) :
    spell d.quote key.tokens = key.render := by
  obtain ⟨expression, direction⟩ := key
  cases expression with
  | raw expression => simp [isRaw] at h
  | column name => simp [tokens, render, Identifier.spell_tokens d]

theorem Window.spell_tokens (w : Window) : spell d.quote w.tokens = w.render := by
  unfold tokens render
  cases w.offset <;> simp

end Text

namespace Statement

/-- Clauses in SQL, each after a blank. -/
def spellClauses (d : Dialect) (clauses : List (Token × List Token)) : Text :=
  spell d.quote (concat clauses)

theorem spellClauses_append (d : Dialect) (a b : List (Token × List Token)) :
    spellClauses d (a ++ b) = spellClauses d a ++ spellClauses d b := by
  rw [spellClauses, concat, List.flatMap_append, Token.spell_append]
  rfl

theorem spell_fromTokens {s : Statement} (h : s.IsPlain) :
    spellClauses s.dialect s.fromTokens =
      if s.sources.tables.isEmpty then []
      else " FROM ".toList ++ List.intercalate [','] (s.sources.tables.map Source.render) := by
  have htables := spell_commas s.dialect fun t ht => Source.spell_tokens s.dialect (h.tables t ht)
  rw [fromTokens]
  split
  · rfl
  · simp [spellClauses, concat, htables]

theorem spell_joinTokens {s : Statement} (h : s.IsPlain) :
    spellClauses s.dialect s.joinTokens = s.sources.renderJoins s.dialect := by
  have hjoins := h.joins
  rw [joinTokens, Sources.renderJoins]
  generalize s.sources.joins = joins at hjoins
  induction joins with
  | nil => rfl
  | cons j joins ih =>
    have hj := hjoins j (by simp)
    rw [List.map_cons, ← List.singleton_append, spellClauses_append,
      ih fun k hk => hjoins k (List.mem_cons_of_mem _ hk), List.flatMap_cons,
      ← Join.spell_rest s.dialect hj.1 hj.2]
    simp [spellClauses, concat]

theorem spell_whereTokens {s : Statement} (h : s.IsPlain) :
    spellClauses s.dialect s.whereTokens = s.whereClause := by
  have hconditions := Tree.spell_tokens s.dialect (fun _ hp => .inl hp) h.conditions
  unfold whereTokens whereClause
  split
  · rfl
  · simp [spellClauses, concat, hconditions]

theorem spell_orderTokens {s : Statement} (h : s.IsPlain) :
    spellClauses s.dialect s.orderTokens = s.orderClause := by
  have hkeys := spell_commas s.dialect fun key hk =>
    SortKey.spell_tokens s.dialect (h.ordering key hk)
  unfold orderTokens orderClause
  split
  · rfl
  · simp [spellClauses, concat, hkeys, SortKey.renderAll]

theorem spell_limitTokens (s : Statement) :
    spellClauses s.dialect s.limitTokens = s.limitClause := by
  unfold limitTokens limitClause
  cases s.window with
  | none => rfl
  | some window => simp [spellClauses, concat, Window.spell_tokens]

theorem sql_eq (s : Statement) :
    s.sql = "SELECT ".toList ++ s.outputs.render ++ s.sources.render s.dialect ++ s.whereClause ++
      s.orderClause ++ s.limitClause :=
  rfl

/-- The text of a plain statement is the text of its tokens. -/
theorem spell_tokens {s : Statement} (h : s.IsPlain) :
    spell s.dialect.quote s.tokens = s.sql := by
  have hsplit : spell s.dialect.quote s.tokens =
      "SELECT ".toList ++ spell s.dialect.quote s.outputs.tokens ++
        spellClauses s.dialect s.clauses := by
    rw [tokens, Token.spell_cons, Token.spell_cons, Token.spell_append]
    rfl
  have hclauses : spellClauses s.dialect s.clauses =
      s.sources.render s.dialect ++ s.whereClause ++ s.orderClause ++ s.limitClause := by
    rw [clauses, spellClauses_append, spellClauses_append, spellClauses_append,
      spellClauses_append, spell_fromTokens h, spell_joinTokens h, spell_whereTokens h,
      spell_orderTokens h, spell_limitTokens]
    rfl
  rw [hsplit, hclauses, Outputs.spell_tokens s.dialect h.outputs, sql_eq]
  simp only [List.append_assoc]

end Statement

end SqlSelect
