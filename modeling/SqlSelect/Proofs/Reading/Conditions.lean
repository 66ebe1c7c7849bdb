import SqlSelect.Proofs.Reading.Vocabulary

/-!
Reading conditions the way servers do. The tokens are first cut into single conditions, combinators
and parentheses: a parenthesis within a condition belongs to it, up to the one that closes it. Then
`AND` binds tighter than `OR`, conditions under the same combinator are taken from left to right,
and parentheses come before everything. At every level the reader has the alternatives that are
complete and the product that is being read; at an opening parenthesis it puts the level aside.

        a AND b OR c      ──▶   alternatives [ a AND b ], then c
        a AND (b OR c)    ──▶   a aside, alternatives [ b ], then c, then the product of a with both

The printed form of a condition tree is read as the tree was built, whatever stands around it.
-/

namespace SqlSelect

open Token (spell EndsWell)

/-- A single condition, a combinator or a parenthesis. -/
inductive Lexeme where
  | opening | closing
  | combinator (c : Combinator)
  | condition (tokens : List Token)

/-- Conditions as they are read: single ones by their tokens, and how they are combined. -/
inductive Expr where
  | condition (tokens : List Token)
  | combined (c : Combinator) (left right : Expr)
  | grouped (e : Expr)

/-! ### Lexemes -/

/-- The lexeme of a parenthesis or a combinator. -/
def Token.sign? (t : Token) : Option Lexeme :=
  if t = .mark '(' then some .opening
  else if t = .mark ')' then some .closing
  else if t = Combinator.and.word then some (.combinator .and)
  else if t = Combinator.or.word then some (.combinator .or)
  else none

/-- How many parentheses are open within a condition after one more token; none if the token is
    no part of the condition. -/
def Token.within (depth : Nat) (t : Token) : Option Nat :=
  match t.sign?, depth with
  | some .opening, n => some (n + 1)
  | some .closing, 0 => none
  | some .closing, n + 1 => some n
  | some (.combinator _), 0 => none
  | _, n => some n

/-- The condition whose tokens have been collected, the last one first; a blank after it is no part
    of it. -/
def collected (pending : List Token) : Lexeme :=
  .condition (pending.dropWhile (· = blank)).reverse

/-- Cuts tokens into lexemes, with the tokens of the condition that is being read and the number of
    parentheses that are open within it. -/
def lexemes : List Token → Nat → List Token → List Lexeme
  | [], _, [] => []
  | last :: before, _, [] => [collected (last :: before)]
  | [], _, t :: rest =>
    if t = blank then lexemes [] 0 rest
    else
      match t.sign? with
      | some sign => sign :: lexemes [] 0 rest
      | none => lexemes [t] 0 rest
  | last :: before, depth, t :: rest =>
    match t.within depth with
    | some depth => lexemes (t :: last :: before) depth rest
    | none => collected (last :: before) :: (t.sign?.toList ++ lexemes [] 0 rest)

/-! ### Expressions -/

/-- What stands before a condition at its level of parentheses: the alternatives that are complete,
    and the product that the condition goes on with. -/
structure Before where
  alternatives : Option Expr := none
  product : Option Expr := none

/-- What stands at a level of parentheses after a condition. -/
structure After where
  alternatives : Option Expr
  product : Expr

/-- Goes on with a condition. -/
def Before.put (b : Before) (e : Expr) : After :=
  ⟨b.alternatives, b.product.elim e fun p => .combined .and p e⟩

/-- All of a level as one expression. -/
def After.expr (a : After) : Expr :=
  a.alternatives.elim a.product fun alternatives => .combined .or alternatives a.product

/-- Goes on with a combinator. -/
def After.next (a : After) : Combinator → Before
  | .and => ⟨a.alternatives, some a.product⟩
  | .or => ⟨some a.expr, none⟩

mutual

/-- Reads on where a condition or an opening parenthesis has to come, with the levels put aside. -/
def readOperand : List Before → Before → List Lexeme → Option Expr
  | aside, before, .condition tokens :: rest =>
    readOperator aside (before.put (.condition tokens)) rest
  | aside, before, .opening :: rest => readOperand (before :: aside) {} rest
  | _, _, _ => none

/-- Reads on where a combinator, a closing parenthesis or the end has to come. -/
def readOperator : List Before → After → List Lexeme → Option Expr
  | [], after, [] => some after.expr
  | aside, after, .combinator c :: rest => readOperand aside (after.next c) rest
  | before :: aside, after, .closing :: rest =>
    readOperator aside (before.put (.grouped after.expr)) rest
  | _, _, _ => none

end

/-- Reads conditions from tokens; without any tokens there are none. -/
def readConditions (tokens : List Token) : Option (Option Expr) :=
  match lexemes [] 0 tokens with
  | [] => some none
  | all => (readOperand [] {} all).map some

/-! ### The expression of a tree -/

/-- Expressions under one combinator, from left to right. -/
def Expr.chain (c : Combinator) : List Expr → Expr
  | [] => .condition []
  | e :: rest => rest.foldl (.combined c) e

namespace Node

mutual

/-- The expression of a node within a group. -/
def expr : Node → Expr
  | leaf predicate => .condition predicate.tokens
  | group combinator _ children => .grouped (.chain combinator (exprAll children))

/-- The expressions of the children of a group, in order. -/
def exprAll : List Node → List Expr
  | [] => []
  | node :: nodes => expr node :: exprAll nodes

end

end Node

/-- The expression of a tree; an open group at the root stands for itself. -/
def Tree.expr? (t : Tree) : Option Expr :=
  match t.root with
  | none => none
  | some (.group combinator false children) => some (.chain combinator (Node.exprAll children))
  | some root => some root.expr

/-! ### Single conditions are kept together -/

/-- How many parentheses are open within a condition after more tokens; none if they leave it. -/
def Token.withinAll : Nat → List Token → Option Nat
  | depth, [] => some depth
  | depth, t :: rest => (t.within depth).bind fun depth => withinAll depth rest

/-- Tokens of a single condition: it begins with a token of its own, does not leave its parentheses
    nor end within one, and has no blank at its end. -/
structure Token.IsCondition (tokens : List Token) : Prop where
  starts : ∃ t rest, tokens = t :: rest ∧ t ≠ blank ∧ t.sign? = none ∧ withinAll 0 rest = some 0
  ends : EndsWell tokens

/-- Tokens that end a condition before them: none, or a sign, perhaps after a blank. -/
inductive Token.Stops : List Token → Prop where
  | nil : Stops []
  | sign {t rest} : within 0 t = none → Stops (t :: rest)
  | blankSign {t rest} : within 0 t = none → Stops (blank :: t :: rest)

open Token (Stops IsCondition)

/-- A token within a condition is collected. -/
theorem lexemes_push {last t : Token} {before : List Token} {depth depth' : Nat}
    (h : t.within depth = some depth') (rest : List Token) :
    lexemes (last :: before) depth (t :: rest) = lexemes (t :: last :: before) depth' rest := by
  rw [lexemes, h]

/-- A token that is no part of a condition ends it. -/
theorem lexemes_stop {last t : Token} {before : List Token} {depth : Nat}
    (h : t.within depth = none) (rest : List Token) :
    lexemes (last :: before) depth (t :: rest) =
      collected (last :: before) :: (t.sign?.toList ++ lexemes [] 0 rest) := by
  rw [lexemes, h]

theorem lexemes_within {last : Token} {before : List Token} {depth depth' : Nat}
    {tokens : List Token} (h : Token.withinAll depth tokens = some depth') (rest : List Token) :
    lexemes (last :: before) depth (tokens ++ rest) =
      lexemes (tokens.reverse ++ last :: before) depth' rest := by
  induction tokens generalizing last before depth with
  | nil =>
    rw [Token.withinAll] at h
    rw [Option.some.inj h]
    rfl
  | cons t tokens ih =>
    rw [Token.withinAll, Option.bind_eq_some_iff] at h
    obtain ⟨depth₁, ht, h⟩ := h
    rw [List.cons_append, lexemes_push ht, ih h]
    simp

/-- A token that ends a condition is a lexeme by itself. -/
theorem lexemes_sign {t : Token} (h : t.within 0 = none) (rest : List Token) :
    lexemes [] 0 (t :: rest) = t.sign?.toList ++ lexemes [] 0 rest := by
  have hne : t ≠ blank := by
    rintro rfl
    exact absurd h (by decide)
  rw [lexemes, if_neg hne]
  cases hs : t.sign? with
  | none => simp [Token.within, hs] at h
  | some sign => rfl

theorem lexemes_blank (rest : List Token) : lexemes [] 0 (blank :: rest) = lexemes [] 0 rest := by
  rw [lexemes, if_pos rfl]

/-- A condition is cut off whole. -/
theorem lexemes_condition {tokens : List Token} (h : IsCondition tokens) {rest : List Token}
    (hr : Stops rest) :
    lexemes [] 0 (tokens ++ rest) = .condition tokens :: lexemes [] 0 rest := by
  obtain ⟨⟨t, more, rfl, hblank, hsign, hwithin⟩, last, hlast, hne⟩ := h
  obtain ⟨before, hbefore⟩ := List.getLast?_eq_some_iff.mp hlast
  have hstart : lexemes [] 0 (t :: more ++ rest) = lexemes (last :: before.reverse) 0 rest := by
    have hreverse : more.reverse ++ [t] = last :: before.reverse := by
      rw [← List.reverse_cons, hbefore, List.reverse_append]
      rfl
    rw [List.cons_append, lexemes, if_neg hblank, hsign]
    simp only
    rw [lexemes_within hwithin, hreverse]
  have hcollected : collected (last :: before.reverse) = .condition (t :: more) := by
    rw [collected, List.dropWhile_cons_of_neg (by simpa using hne), List.reverse_cons,
      List.reverse_reverse, hbefore]
  have hdrop : collected (blank :: last :: before.reverse) = .condition (t :: more) := by
    rw [← hcollected, collected, List.dropWhile_cons_of_pos (by simp)]
    rfl
  rw [hstart]
  cases hr with
  | nil =>
    rw [← hcollected]
    rfl
  | sign hs => rw [lexemes_stop hs, lexemes_sign hs, hcollected]
  | blankSign hs =>
    have hblank : Token.within 0 blank = some 0 := by decide
    rw [lexemes_push hblank, lexemes_stop hs, lexemes_blank, lexemes_sign hs, hdrop]

/-! ### Printed conditions -/

theorem Token.sign?_eq_none {t : Token} (h : t.isInert = true) : t.sign? = none := by
  cases t with
  | mark c =>
    simp only [isInert, decide_eq_true_eq] at h
    rw [h]
    decide
  | word w =>
    have hw : w ∉ reserved := by simpa [isInert] using h
    have hand : word w ≠ Combinator.and.word := by
      intro he
      injection he with he
      exact hw (he ▸ by decide)
    have hor : word w ≠ Combinator.or.word := by
      intro he
      injection he with he
      exact hw (he ▸ by decide)
    rw [sign?, if_neg (by simp), if_neg (by simp), if_neg hand, if_neg hor]
  | name s => simp [sign?, Combinator.word]
  | literal payload => simp [sign?, Combinator.word]

namespace Token

theorem within_of_sign? {t : Token} (h : t.sign? = none) (depth : Nat) :
    t.within depth = some depth := by
  unfold within
  rw [h]

/-- Tokens without parentheses and combinators. -/
def Signless (tokens : List Token) : Prop :=
  ∀ t ∈ tokens, t.sign? = none

theorem Signless.nil : Signless [] := by
  simp [Signless]

theorem Signless.cons {t : Token} {tokens : List Token} (ht : t.sign? = none)
    (h : Signless tokens) : Signless (t :: tokens) :=
  List.forall_mem_cons.mpr ⟨ht, h⟩

theorem Signless.append {a b : List Token} (ha : Signless a) (hb : Signless b) :
    Signless (a ++ b) :=
  List.forall_mem_append.mpr ⟨ha, hb⟩

/-- Tokens without signs leave the parentheses of a condition as they are. -/
theorem Signless.withinAll_append {a : List Token} (h : Signless a) (depth : Nat)
    (b : List Token) : withinAll depth (a ++ b) = withinAll depth b := by
  induction a with
  | nil => rfl
  | cons t a ih =>
    rw [List.cons_append, withinAll, within_of_sign? (h t (by simp)), Option.bind_some,
      ih fun u hu => h u (List.mem_cons_of_mem _ hu)]

theorem Signless.withinAll {tokens : List Token} (h : Signless tokens) (depth : Nat) :
    withinAll depth tokens = some depth := by
  have happend := h.withinAll_append depth []
  rwa [List.append_nil] at happend

end Token

open Token (Signless)

theorem Identifier.signless (i : Identifier) : Signless i.tokens :=
  fun _ h => Token.sign?_eq_none (isInert_tokens h)

theorem Operator.signless (o : Operator) : Signless o.tokens :=
  fun _ h => Token.sign?_eq_none (isInert_tokens h)

theorem Literal.sign?_token (l : Literal) : l.token.sign? = none :=
  Token.sign?_eq_none l.isInert_token

theorem signless_valueTokens (values : List Literal) : Signless (valueTokens values) := by
  refine forall_mem_intercalate (Signless.cons (by decide) .nil) ?_
  intro part hpart
  obtain ⟨l, -, rfl⟩ := List.mem_map.mp hpart
  exact Signless.cons l.sign?_token .nil

/-- An identifier begins with a name. -/
theorem Identifier.tokens_eq_cons (i : Identifier) :
    ∃ s rest, i.tokens = .name s :: rest ∧ Signless rest := by
  have hsigns := i.signless
  unfold tokens at hsigns ⊢
  cases hq : i.qualifier with
  | none => exact ⟨_, _, rfl, .nil⟩
  | some table =>
    rw [hq] at hsigns
    exact ⟨_, _, rfl, fun t ht => hsigns t (List.mem_cons_of_mem _ ht)⟩

/-- A left-hand side begins like a condition and leaves no parenthesis open. -/
theorem Subject.starts (subject : Subject) (h : ∀ e, subject ≠ .raw e) {more : List Token}
    (hmore : Token.withinAll 0 more = some 0) :
    ∃ t rest, subject.tokens ++ more = t :: rest ∧ t ≠ blank ∧ t.sign? = none ∧
      Token.withinAll 0 rest = some 0 := by
  cases subject with
  | raw e => exact (h e rfl).elim
  | column name =>
    obtain ⟨s, rest, htokens, hrest⟩ := name.tokens_eq_cons
    refine ⟨.name s, rest ++ more, ?_, by simp, Token.sign?_eq_none rfl, ?_⟩
    · rw [tokens, htokens]
      rfl
    · rw [hrest.withinAll_append, hmore]
  | length name =>
    refine ⟨keyword "LENGTH", .mark '(' :: (name.tokens ++ .mark ')' :: more), ?_, by decide,
      by decide, ?_⟩
    · rw [tokens, List.cons_append, List.cons_append, List.append_assoc]
      rfl
    · have hopen : Token.within 0 (.mark '(') = some 1 := by decide
      have hclose : Token.within 1 (.mark ')') = some 0 := by decide
      rw [Token.withinAll, hopen, Option.bind_some, name.signless.withinAll_append,
        Token.withinAll, hclose, Option.bind_some, hmore]

/-- A list of values in parentheses leaves none open. -/
theorem withinAll_values (values : List Literal) :
    Token.withinAll 0 (.mark '(' :: (valueTokens values ++ [.mark ')'])) = some 0 := by
  have hopen : Token.within 0 (.mark '(') = some 1 := by decide
  have hclose : Token.withinAll 1 [.mark ')'] = some 0 := by decide
  rw [Token.withinAll, hopen, Option.bind_some, (signless_valueTokens values).withinAll_append,
    hclose]

/-- Tests of columns and comparisons of two columns are read as single conditions. -/
theorem Predicate.isCondition {p : Predicate} (h : p.isTest = true ∨ p.isFields = true) :
    IsCondition p.tokens := by
  cases p with
  | compare subject operator value =>
    have hs : ∀ e, subject ≠ .raw e := by
      rintro e rfl
      simp [isTest, isFields] at h
    have hrest : Signless (blank :: (operator.tokens ++ [blank, value.token])) :=
      .cons (by decide)
        (operator.signless.append (.cons (by decide) (.cons value.sign?_token .nil)))
    refine ⟨Subject.starts subject hs (hrest.withinAll 0), .append _ (.cons _ (.append _ ?_))⟩
    exact .cons _ (.single (value.token_ne_mark ' '))
  | null column negated =>
    have hrest : Signless (blank :: keyword "IS" :: blank ::
        (if negated then [keyword "NOT", blank, keyword "NULL"] else [keyword "NULL"])) := by
      cases negated <;> (intro t ht; revert t; decide)
    refine ⟨Subject.starts (.column column) (by simp) (hrest.withinAll 0),
      .append _ (.cons _ (.cons _ (.cons _ ?_)))⟩
    cases negated with
    | false => exact .single (by decide)
    | true => exact .cons _ (.cons _ (.single (by decide)))
  | inList column values negated =>
    have hin : Signless (blank :: membership negated) := by
      cases negated <;> (intro t ht; revert t; decide)
    have hrest : Token.withinAll 0 (blank :: membership negated ++
        .mark '(' :: (valueTokens values ++ [.mark ')'])) = some 0 := by
      rw [hin.withinAll_append, withinAll_values]
    refine ⟨Subject.starts (.column column) (by simp) hrest, .append _ (.cons _ (.append _ ?_))⟩
    exact .cons _ (.append _ (.single (by decide)))
  | columns left operator right =>
    rw [tokens]
    split
    · have hrest : Signless (blank :: (operator.tokens ++ blank :: right.tokens)) :=
        .cons (by decide) (operator.signless.append (.cons (by decide) right.signless))
      exact ⟨Subject.starts (.column left) (by simp) (hrest.withinAll 0),
        .append _ (.cons _ (.append _ (.cons _ right.endsWell)))⟩
    · refine ⟨?_, .append _ right.endsWell⟩
      rw [List.append_assoc]
      exact Subject.starts (.column left) (by simp)
        ((operator.signless.append right.signless).withinAll 0)

/-! ### Printed trees -/

/-- Levels at which one combinator goes on: under `AND` there is no alternative yet, and under `OR`
    no product. -/
def Before.Suits (b : Before) : Combinator → Prop
  | .and => b.alternatives = none
  | .or => b.product = none

/-- One more expression under the combinator of a level. -/
theorem Before.Suits.next {c : Combinator} {b : Before} (h : b.Suits c) (e e' : Expr) :
    ((b.put e).next c).Suits c ∧
      (((b.put e).next c).put e').expr = .combined c (b.put e).expr e' := by
  cases c with
  | and =>
    have hnone : b.alternatives = none := h
    refine ⟨hnone, ?_⟩
    simp [After.next, Before.put, After.expr, hnone]
  | or => exact ⟨rfl, rfl⟩

theorem Combinator.within_word (c : Combinator) : c.word.within 0 = none := by
  cases c <;> decide

theorem Combinator.lexemes_tokens (c : Combinator) (rest : List Token) :
    lexemes [] 0 (c.tokens ++ rest) = .combinator c :: lexemes [] 0 rest := by
  have hsign : c.word.sign? = some (.combinator c) := by cases c <;> rfl
  rw [tokens, List.cons_append, lexemes_blank, List.cons_append, lexemes_sign c.within_word, hsign]
  change _ :: lexemes [] 0 (blank :: rest) = _
  rw [lexemes_blank]

theorem Combinator.stops_tokens (c : Combinator) (rest : List Token) : Stops (c.tokens ++ rest) :=
  .blankSign c.within_word

namespace Node

/-- Nodes that are read as their expressions wherever a condition may stand. -/
def Readable (node : Node) : Prop :=
  ∀ {rest : List Token}, Stops rest → ∀ aside before,
    readOperand aside before (lexemes [] 0 (node.tokens ++ rest)) =
      readOperator aside (before.put node.expr) (lexemes [] 0 rest)

/-- Nodes under one combinator are read from left to right. The level at which they begin is
    general, since every node but the first goes on with what was read before it. -/
theorem read_children (c : Combinator) {node : Node} {nodes : List Node}
    (hall : ∀ n ∈ node :: nodes, n.Readable) {rest : List Token} (hr : Stops rest)
    (aside : List Before) {before : Before} (hb : before.Suits c) :
    ∃ after, after.expr = (exprAll nodes).foldl (.combined c) (before.put node.expr).expr ∧
      readOperand aside before
          (lexemes [] 0 (List.intercalate c.tokens (tokensAll (node :: nodes)) ++ rest)) =
        readOperator aside after (lexemes [] 0 rest) := by
  induction nodes generalizing node before with
  | nil =>
    refine ⟨before.put node.expr, rfl, ?_⟩
    have hnode := hall node (by simp) hr aside before
    simpa [tokensAll] using hnode
  | cons next nodes ih =>
    obtain ⟨hsuits, hexpr⟩ := hb.next node.expr next.expr
    obtain ⟨after, hafter, hread⟩ := ih (fun n hn => hall n (List.mem_cons_of_mem _ hn)) hsuits
    refine ⟨after, ?_, ?_⟩
    · rw [hafter, hexpr]
      rfl
    · have hnode := hall node (by simp) (c.stops_tokens
        (List.intercalate c.tokens (tokensAll (next :: nodes)) ++ rest)) aside before
      rw [tokensAll, tokensAll, List.intercalate_cons_cons, List.append_assoc, List.append_assoc,
        ← tokensAll, hnode, c.lexemes_tokens, readOperator, hread]

theorem read_group (c : Combinator) {children : List Node} (hne : 1 ≤ children.length)
    (hall : ∀ n ∈ children, n.Readable) {rest : List Token} (hr : Stops rest)
    (aside : List Before) :
    ∃ after, after.expr = .chain c (exprAll children) ∧
      readOperand aside {}
          (lexemes [] 0 (List.intercalate c.tokens (tokensAll children) ++ rest)) =
        readOperator aside after (lexemes [] 0 rest) := by
  cases children with
  | nil => simp at hne
  | cons node nodes =>
    have hempty : ({} : Before).Suits c := by cases c <;> rfl
    exact read_children c hall hr aside hempty

/-- Every node of a regular tree is read as its expression. -/
theorem Regular.readable {P : Predicate → Prop}
    (hP : ∀ p, P p → p.isTest = true ∨ p.isFields = true) {node : Node} (h : node.Regular P) :
    node.Readable := by
  induction h with
  | leaf hp =>
    intro rest hr aside before
    rw [tokens, lexemes_condition (Predicate.isCondition (hP _ hp)) hr, readOperand]
    rfl
  | @group c closed children hne _ _ _ ih =>
    intro rest hr aside before
    have hopen : lexemes [] 0 ((Node.group c closed children).tokens ++ rest) =
        .opening :: lexemes [] 0 (List.intercalate c.tokens (tokensAll children) ++
          .mark ')' :: rest) := by
      rw [Node.tokens, List.cons_append, List.append_assoc]
      rfl
    have hstops : Stops (.mark ')' :: rest) := .sign (by decide)
    have hclose : lexemes [] 0 (.mark ')' :: rest) = .closing :: lexemes [] 0 rest := rfl
    obtain ⟨after, hafter, hread⟩ := read_group c hne ih hstops (before :: aside)
    rw [hopen, readOperand, hread, hclose, readOperator, hafter]
    rfl

end Node

/-- Conditions that are read from some tokens are read from these tokens alone. -/
theorem readConditions_eq_some {tokens : List Token} {e : Expr}
    (h : readOperand [] {} (lexemes [] 0 tokens) = some e) :
    readConditions tokens = some (some e) := by
  rw [readConditions]
  split
  · next hnil => simp [hnil, readOperand] at h
  · rw [h]
    rfl

/-- The tokens of a tree are read as its expression. -/
theorem Tree.readConditions_tokens {P : Predicate → Prop}
    (hP : ∀ p, P p → p.isTest = true ∨ p.isFields = true) {t : Tree} (h : t.Regular P) :
    readConditions t.tokens = some t.expr? := by
  have hsingle : ∀ {root : Node}, root.Regular P →
      readConditions root.tokens = some (some root.expr) := by
    intro root hroot
    have hread := hroot.readable hP .nil [] {}
    rw [List.append_nil] at hread
    exact readConditions_eq_some hread
  rcases h.root_cases with rfl | ⟨p, hp, rfl⟩ | ⟨c, children, hroot, rfl⟩ |
    ⟨c, children, hlen, hall, rfl⟩
  · rfl
  · exact hsingle (.leaf hp)
  · exact hsingle hroot
  · obtain ⟨after, hafter, hread⟩ := Node.read_group c (Nat.one_le_of_lt hlen)
      (fun n hn => (hall n hn).readable hP) .nil []
    rw [List.append_nil] at hread
    change readConditions (List.intercalate c.tokens (Node.tokensAll children)) = _
    rw [readConditions_eq_some hread, hafter]
    rfl

/-- Without parentheses, `AND` binds tighter than `OR`. -/
example (a b c : Text) :
    readConditions [.name a, blank, keyword "OR", blank, .name b, blank, keyword "AND", blank,
        .name c] =
      some (some (.combined .or (.condition [.name a])
        (.combined .and (.condition [.name b]) (.condition [.name c])))) :=
  rfl

end SqlSelect
