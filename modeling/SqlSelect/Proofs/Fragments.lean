import SqlSelect.Proofs.Masking
import SqlSelect.Proofs.Reading.Vocabulary

/-!
The text of a statement as fragments with quoted values between them. The fragments hold no quote
and are the same for all text values that the calls may have been given, so values cannot change the
statement around them; and a server that scans the text finds exactly these fragments and values.

        fragment₀  'value₁'  fragment₁  'value₂'  …  fragmentₖ
-/

namespace SqlSelect

open Token (Follows)

/-! ### Fragments of symbols -/

namespace Symbol

/-- The texts between the literals, one more than there are literals. -/
def fragments : List Symbol → List Text
  | [] => [[]]
  | char c :: rest =>
    match fragments rest with
    | [] => [[c]]
    | f :: more => (c :: f) :: more
  | literal _ :: rest => [] :: fragments rest

/-- The value of a literal. -/
def payload? : Symbol → Option Text
  | char _ => none
  | literal payload => some payload

/-- The values of the literals, in order. -/
def payloads (symbols : List Symbol) : List Text :=
  symbols.filterMap payload?

/-- The symbol without the value of the literal it may be. -/
def hidden : Symbol → Symbol
  | char c => char c
  | literal _ => literal []

theorem fragments_ne_nil (symbols : List Symbol) : fragments symbols ≠ [] := by
  cases symbols with
  | nil => simp [fragments]
  | cons symbol rest =>
    cases symbol with
    | char c =>
      rw [fragments]
      split <;> simp
    | literal payload => simp [fragments]

end Symbol

/-- Fragments with quoted values between them. -/
def weave (quote : Text → Text) : List Text → List Text → Text
  | f :: fragments, payload :: payloads => f ++ quote payload ++ weave quote fragments payloads
  | fragments, _ => fragments.flatten

namespace Symbol

/-- A character in front of symbols is one in front of their first fragment. -/
theorem fragments_char (c : Char) {rest : List Symbol} {f : Text} {more : List Text}
    (h : fragments rest = f :: more) : fragments (char c :: rest) = (c :: f) :: more := by
  rw [fragments, h]

theorem weave_char (quote : Text → Text) (c : Char) (f : Text) (more payloads : List Text) :
    weave quote ((c :: f) :: more) payloads = c :: weave quote (f :: more) payloads := by
  cases payloads <;> rfl

/-- What symbols are written with is woven of their fragments and their values. -/
theorem spell_eq_weave (quote : Text → Text) (symbols : List Symbol) :
    spell quote symbols = weave quote (fragments symbols) (payloads symbols) ∧
      (fragments symbols).length = (payloads symbols).length + 1 := by
  induction symbols with
  | nil => exact ⟨rfl, rfl⟩
  | cons symbol rest ih =>
    obtain ⟨hspell, hlength⟩ := ih
    cases symbol with
    | char c =>
      obtain ⟨f, more, hf⟩ := List.exists_cons_of_ne_nil (fragments_ne_nil rest)
      rw [hf] at hspell hlength
      have hpayloads : payloads (char c :: rest) = payloads rest := rfl
      rw [fragments_char c hf, hpayloads, weave_char, ← hspell]
      exact ⟨rfl, hlength⟩
    | literal payload =>
      have hpayloads : payloads (literal payload :: rest) = payload :: payloads rest := rfl
      have hfragments : fragments (literal payload :: rest) = [] :: fragments rest := rfl
      rw [hpayloads, hfragments, weave, ← hspell]
      exact ⟨rfl, by simp [hlength]⟩

/-- The fragments of separate symbols hold no quote. -/
theorem Separate.quote_not_mem {symbols : List Symbol} (h : Separate symbols) :
    ∀ f ∈ fragments symbols, '\'' ∉ f := by
  induction symbols with
  | nil => simp [fragments]
  | cons symbol rest ih =>
    cases symbol with
    | char c =>
      have hrest := ih h.2
      obtain ⟨f, more, hf⟩ := List.exists_cons_of_ne_nil (fragments_ne_nil rest)
      rw [hf] at hrest
      rw [fragments_char c hf]
      refine List.forall_mem_cons.mpr ⟨?_, fun g hg => hrest g (List.mem_cons_of_mem _ hg)⟩
      intro hmem
      rcases List.mem_cons.mp hmem with hc | hmem
      · exact h.1 hc.symm
      · exact hrest f (by simp) hmem
    | literal payload => exact List.forall_mem_cons.mpr ⟨by simp, ih h.2⟩

/-- The fragments do not depend on the values. -/
theorem fragments_hidden (symbols : List Symbol) :
    fragments (symbols.map hidden) = fragments symbols := by
  induction symbols with
  | nil => rfl
  | cons symbol rest ih =>
    cases symbol with
    | char c => rw [List.map_cons, hidden, fragments, fragments, ih]
    | literal payload => rw [List.map_cons, hidden, fragments, fragments, ih]

end Symbol

/-! ### Values among the tokens -/

namespace Token

/-- The value of a string literal. -/
def payload? : Token → Option Text
  | literal payload => some payload
  | _ => none

/-- The values of the string literals, in order. -/
def payloads (tokens : List Token) : List Text :=
  tokens.filterMap payload?

/-- The token without the value of the string literal it may be. -/
def hidden : Token → Token
  | literal _ => literal []
  | t => t

@[simp] theorem payloads_nil : payloads [] = [] := rfl

@[simp] theorem payloads_append (a b : List Token) :
    payloads (a ++ b) = payloads a ++ payloads b :=
  List.filterMap_append

@[simp] theorem payloads_mark (c : Char) (rest : List Token) :
    payloads (mark c :: rest) = payloads rest := rfl

@[simp] theorem payloads_word (w : Text) (rest : List Token) :
    payloads (word w :: rest) = payloads rest := rfl

@[simp] theorem payloads_name (s : Text) (rest : List Token) :
    payloads (name s :: rest) = payloads rest := rfl

theorem payloads_intercalate {separator : List Token} (h : payloads separator = [])
    (parts : List (List Token)) :
    payloads (List.intercalate separator parts) = parts.flatMap payloads := by
  induction parts with
  | nil => rfl
  | cons part parts ih =>
    cases parts with
    | nil => simp
    | cons next parts =>
      rw [List.intercalate_cons_cons, payloads_append, payloads_append, h, ih, List.append_nil]
      rfl

theorem hidden_intercalate (separator : List Token) (parts : List (List Token)) :
    (List.intercalate separator parts).map hidden =
      List.intercalate (separator.map hidden) (parts.map (List.map hidden)) :=
  intercalate_of_append rfl (fun _ _ => List.map_append) separator parts

theorem payloads_symbols (tokens : List Token) :
    Symbol.payloads (tokens.flatMap symbols) = payloads tokens := by
  have hchars : ∀ w : Text, Symbol.payloads (w.map .char) = [] := by
    intro w
    simp [Symbol.payloads, Symbol.payload?]
  have happend : ∀ a b, Symbol.payloads (a ++ b) = Symbol.payloads a ++ Symbol.payloads b :=
    fun a b => List.filterMap_append
  induction tokens with
  | nil => rfl
  | cons t tokens ih =>
    rw [List.flatMap_cons, happend, ih]
    cases t with
    | mark c => rfl
    | word w => rw [symbols, hchars, payloads_word, List.nil_append]
    | name s =>
      have hname : Symbol.payloads (symbols (name s)) = [] := by
        change Symbol.payloads (s.map .char ++ [.char '\x60']) = []
        rw [happend, hchars]
        rfl
      rw [hname, payloads_name, List.nil_append]
    | literal payload => rfl

theorem symbols_hidden (tokens : List Token) :
    (tokens.map hidden).flatMap symbols = (tokens.flatMap symbols).map Symbol.hidden := by
  have hchars : ∀ w : Text, (w.map Symbol.char).map Symbol.hidden = w.map .char := by
    intro w
    simp [Symbol.hidden]
  induction tokens with
  | nil => rfl
  | cons t tokens ih =>
    rw [List.map_cons, List.flatMap_cons, List.flatMap_cons, List.map_append, ih]
    congr 1
    cases t with
    | mark c => rfl
    | word w => exact (hchars w).symm
    | name s => simp [hidden, symbols, Symbol.hidden]
    | literal payload => rfl

end Token

open Token (payloads)

/-! ### Values of conditions -/

/-- The text that a value is written with between quotes, if it is. -/
def Literal.payload? : Literal → Option Text
  | text s => some s
  | timestamp t => some t.text
  | _ => none

/-- The texts between quotes in a condition, from left to right. -/
def Predicate.payloads : Predicate → List Text
  | compare _ _ value => value.payload?.toList
  | inList _ values _ => values.filterMap Literal.payload?
  | _ => []

namespace Node

mutual

/-- The texts between quotes in a node, from left to right. -/
def payloads : Node → List Text
  | leaf predicate => predicate.payloads
  | group _ _ children => payloadsAll children

/-- The texts between quotes in nodes one after the other. -/
def payloadsAll : List Node → List Text
  | [] => []
  | node :: nodes => payloads node ++ payloadsAll nodes

end

end Node

/-- The texts between quotes in a tree, from left to right. -/
def Tree.payloads (t : Tree) : List Text :=
  t.root.elim [] Node.payloads

theorem Identifier.payloads_tokens (i : Identifier) : payloads i.tokens = [] := by
  rw [tokens]
  cases i.qualifier <;> rfl

theorem Operator.payloads_tokens (o : Operator) : payloads o.tokens = [] := by
  cases o <;> rfl

theorem Subject.payloads_tokens (subject : Subject) : payloads subject.tokens = [] := by
  cases subject with
  | column name => exact name.payloads_tokens
  | raw e => rfl
  | length name =>
    rw [tokens]
    simp [name.payloads_tokens]

theorem Literal.payloads_token (l : Literal) : payloads [l.token] = l.payload?.toList := by
  cases l with
  | bool b => cases b <;> rfl
  | _ => rfl

theorem Predicate.payloads_tokens (p : Predicate) : Token.payloads p.tokens = p.payloads := by
  cases p with
  | compare subject operator value =>
    have hvalue := value.payloads_token
    rw [tokens]
    simp [subject.payloads_tokens, operator.payloads_tokens, hvalue, payloads]
  | null column negated =>
    rw [tokens]
    cases negated <;> simp [column.payloads_tokens, payloads]
  | inList column values negated =>
    have hvalues : Token.payloads (valueTokens values) = values.filterMap Literal.payload? := by
      rw [valueTokens, Token.payloads_intercalate rfl]
      induction values with
      | nil => rfl
      | cons l values ih =>
        rw [List.map_cons, List.flatMap_cons, ih, l.payloads_token]
        cases hl : l.payload? <;> simp [hl]
    rw [tokens]
    cases negated <;> simp [column.payloads_tokens, membership, hvalues, payloads]
  | columns left operator right =>
    rw [tokens]
    split <;>
      simp [left.payloads_tokens, operator.payloads_tokens, right.payloads_tokens, payloads]

namespace Node

theorem payloadsAll_eq_flatMap (nodes : List Node) :
    payloadsAll nodes = nodes.flatMap payloads := by
  induction nodes with
  | nil => rfl
  | cons node nodes ih => rw [payloadsAll, ih, List.flatMap_cons]

theorem payloads_children (c : Combinator) {children : List Node}
    (h : ∀ node ∈ children, Token.payloads node.tokens = node.payloads) :
    Token.payloads (List.intercalate c.tokens (tokensAll children)) = payloadsAll children := by
  have hc : Token.payloads c.tokens = [] := by cases c <;> rfl
  rw [Token.payloads_intercalate hc, tokensAll_eq_map, payloadsAll_eq_flatMap, List.flatMap_map]
  exact List.flatMap_congr h

theorem Regular.payloads_tokens {P : Predicate → Prop} {node : Node} (h : node.Regular P) :
    Token.payloads node.tokens = node.payloads := by
  induction h with
  | leaf hp => exact Predicate.payloads_tokens _
  | @group c closed children _ _ _ _ ih =>
    have hchildren := payloads_children c ih
    rw [tokens]
    simp [hchildren, payloads]

end Node

/-- The string literals among the tokens of a tree are those of its values. -/
theorem Tree.Regular.payloads_tokens {P : Predicate → Prop} {t : Tree} (h : t.Regular P) :
    Token.payloads t.tokens = t.payloads := by
  rcases h.root_cases with rfl | ⟨p, -, rfl⟩ | ⟨c, children, hroot, rfl⟩ |
    ⟨c, children, -, hall, rfl⟩
  · rfl
  · exact p.payloads_tokens
  · exact hroot.payloads_tokens
  · exact Node.payloads_children c fun node hnode => (hall node hnode).payloads_tokens

/-- Joins compare columns, so they have no values. -/
theorem Tree.IsJoined.payloads_eq_nil {t : Tree} (h : t.IsJoined) : t.payloads = [] := by
  have hleaf : ∀ {p : Predicate}, p.isFields = true → p.payloads = [] := by
    intro p hp
    cases p with
    | columns left operator right => rfl
    | _ => simp [Predicate.isFields] at hp
  rcases h.root_cases with ⟨p, hp, rfl⟩ | ⟨c, predicates, -, hall, rfl⟩
  · exact hleaf hp
  · change Node.payloadsAll _ = []
    rw [Node.payloadsAll_eq_flatMap, List.flatMap_eq_nil_iff]
    intro node hnode
    obtain ⟨p, hp, rfl⟩ := List.mem_map.mp hnode
    exact hleaf (hall p hp)

/-! ### Values of statements -/

theorem Output.payloads_tokens (o : Output) : payloads o.tokens = [] := by
  cases o with
  | raw expression aliasName => rfl
  | column name aliasName =>
    cases aliasName with
    | none => exact name.payloads_tokens
    | some aliasName =>
      rw [tokens]
      split <;> simp [name.payloads_tokens, Segment.token]

theorem Source.payloads_tokens (t : Source) : payloads t.tokens = [] := by
  cases t with
  | raw expression aliasName => rfl
  | table name aliasName =>
    cases aliasName with
    | none => rfl
    | some aliasName =>
      rw [tokens]
      split <;> rfl

theorem SortKey.payloads_tokens (key : SortKey) : payloads key.tokens = [] := by
  rw [tokens]
  cases key.expression with
  | raw expression => rfl
  | column name => simp [name.payloads_tokens]

theorem Window.payloads_tokens (w : Window) : payloads w.tokens = [] := by
  rw [tokens]
  cases w.offset <;> rfl

theorem Join.payloads_rest {j : Join} (h : j.on.IsJoined) : payloads j.rest = [] := by
  rw [Join.rest]
  simp [j.target.payloads_tokens, h.regular.payloads_tokens, h.payloads_eq_nil]

theorem payloads_commas {α : Type} {tokens : α → List Token} (h : ∀ a, payloads (tokens a) = [])
    (items : List α) : payloads (List.intercalate [.mark ','] (items.map tokens)) = [] := by
  rw [Token.payloads_intercalate rfl, List.flatMap_eq_nil_iff]
  intro part hpart
  obtain ⟨a, -, rfl⟩ := List.mem_map.mp hpart
  exact h a

namespace Statement

variable {s : Statement}

theorem concat_append (a b : List (Token × List Token)) :
    concat (a ++ b) = concat a ++ concat b :=
  List.flatMap_append

theorem payloads_fromTokens (s : Statement) : payloads (concat s.fromTokens) = [] := by
  have htables := payloads_commas Source.payloads_tokens s.sources.tables
  rw [fromTokens]
  split
  · rfl
  · simp [concat, htables]

theorem IsPlain.payloads_joinTokens (h : s.IsPlain) : payloads (concat s.joinTokens) = [] := by
  have hjoins := h.joins
  rw [joinTokens]
  generalize s.sources.joins = joins at hjoins
  induction joins with
  | nil => rfl
  | cons j joins ih =>
    have hword : ∀ rest, payloads (j.kind.word :: rest) = payloads rest := by
      intro rest
      cases j.kind <;> rfl
    have hrest := ih fun k hk => hjoins k (List.mem_cons_of_mem _ hk)
    rw [List.map_cons, ← List.singleton_append, concat_append, Token.payloads_append, hrest]
    simp [concat, hword, Join.payloads_rest (hjoins j (by simp)).2]

theorem IsPlain.payloads_whereTokens (h : s.IsPlain) :
    payloads (concat s.whereTokens) = s.conditions.payloads := by
  have hconditions := h.conditions.payloads_tokens
  rw [whereTokens]
  split
  · next hempty =>
    have hroot : s.conditions.root = none := by simpa [Tree.isEmpty] using hempty
    rw [Tree.payloads, hroot]
    rfl
  · simp [concat, hconditions]

theorem payloads_orderTokens (s : Statement) : payloads (concat s.orderTokens) = [] := by
  have hkeys := payloads_commas SortKey.payloads_tokens s.ordering
  rw [orderTokens]
  split
  · rfl
  · simp [concat, hkeys]

theorem payloads_limitTokens (s : Statement) : payloads (concat s.limitTokens) = [] := by
  rw [limitTokens]
  cases s.window with
  | none => rfl
  | some window => simp [concat, window.payloads_tokens]

/-- The string literals of a plain statement are those of its conditions. -/
theorem IsPlain.payloads_tokens (h : s.IsPlain) : payloads s.tokens = s.conditions.payloads := by
  have houtputs : payloads s.outputs.tokens = [] := by
    rw [Outputs.tokens]
    split
    · rfl
    · exact payloads_commas Output.payloads_tokens _
  have hclauses : payloads (concat s.clauses) = s.conditions.payloads := by
    rw [clauses, concat_append, concat_append, concat_append, concat_append]
    simp only [Token.payloads_append]
    rw [payloads_fromTokens, h.payloads_joinTokens, h.payloads_whereTokens, payloads_orderTokens,
      payloads_limitTokens]
    simp
  rw [tokens, Token.payloads_word, Token.payloads_mark, Token.payloads_append, houtputs, hclauses]
  rfl

end Statement

/-! ### Tokens without their values -/

theorem Literal.hidden_token (l : Literal) : l.masked.token.hidden = l.token.hidden := by
  cases l <;> rfl

theorem Predicate.hidden_tokens (p : Predicate) :
    p.masked.tokens.map Token.hidden = p.tokens.map Token.hidden := by
  cases p with
  | compare subject operator value =>
    rw [masked, tokens, tokens]
    simp [value.hidden_token]
  | inList column values negated =>
    have hvalues : (valueTokens (values.map Literal.masked)).map Token.hidden =
        (valueTokens values).map Token.hidden := by
      rw [valueTokens, valueTokens, Token.hidden_intercalate, Token.hidden_intercalate]
      congr 1
      rw [List.map_map, List.map_map, List.map_map]
      refine List.map_congr_left fun l _ => ?_
      exact congrArg (fun t => [t]) l.hidden_token
    rw [masked, tokens, tokens]
    simp [hvalues]
  | _ => rfl

namespace Node

theorem hidden_children (c : Combinator) {children : List Node}
    (h : ∀ node ∈ children, node.masked.tokens.map Token.hidden = node.tokens.map Token.hidden) :
    (List.intercalate c.tokens (tokensAll (maskedAll children))).map Token.hidden =
      (List.intercalate c.tokens (tokensAll children)).map Token.hidden := by
  rw [Token.hidden_intercalate, Token.hidden_intercalate, maskedAll_eq_map, tokensAll_eq_map,
    tokensAll_eq_map, List.map_map, List.map_map, List.map_map]
  congr 1
  exact List.map_congr_left h

theorem Regular.hidden_tokens {P : Predicate → Prop} {node : Node} (h : node.Regular P) :
    node.masked.tokens.map Token.hidden = node.tokens.map Token.hidden := by
  induction h with
  | leaf hp => exact Predicate.hidden_tokens _
  | @group c closed children _ _ _ _ ih =>
    have hchildren := hidden_children c ih
    rw [masked, tokens, tokens]
    simp [hchildren]

end Node

theorem Tree.Regular.hidden_tokens {P : Predicate → Prop} {t : Tree} (h : t.Regular P) :
    t.masked.tokens.map Token.hidden = t.tokens.map Token.hidden := by
  rcases h.root_cases with rfl | ⟨p, -, rfl⟩ | ⟨c, children, hroot, rfl⟩ |
    ⟨c, children, -, hall, rfl⟩
  · rfl
  · exact p.hidden_tokens
  · exact hroot.hidden_tokens
  · exact Node.hidden_children c fun node hnode => (hall node hnode).hidden_tokens

/-! ### Runs with other values -/

theorem Request.isRaw_masked (request : Request) : request.masked.isRaw = request.isRaw := by
  cases request <;> rfl

theorem Script.uses_masked (script : Script) :
    script.masked.Uses (fun request => request.isRaw = false) ↔
      script.Uses fun request => request.isRaw = false := by
  induction script with
  | done => exact Iff.rfl
  | giveUp reason => exact Iff.rfl
  | add guarded c request rest ih =>
    rw [masked, Uses, Uses, request.isRaw_masked, ih]
  | group guarded c body rest ihb ihr =>
    rw [masked, Uses, Uses, ihb, ihr]

/-- Whether a call hands in verbatim SQL does not depend on its values. -/
theorem Call.isPlain_masked (call : Call) : call.masked.IsPlain ↔ call.IsPlain := by
  cases call with
  | condition call =>
    cases call with
    | add c request =>
      change request.masked.isRaw = false ↔ request.isRaw = false
      rw [request.isRaw_masked]
    | group c body => exact body.uses_masked
  | _ => exact Iff.rfl

/-- Calls that differ in their values and dialects only are plain together. -/
theorem Call.isPlain_of_masked {calls calls' : List Call}
    (h : calls'.map Call.masked = calls.map Call.masked) (hcalls : ∀ call ∈ calls, call.IsPlain) :
    ∀ call ∈ calls', call.IsPlain := by
  intro call' hcall'
  have hmem : call'.masked ∈ calls.map Call.masked := h ▸ List.mem_map_of_mem hcall'
  obtain ⟨call, hcall, heq⟩ := List.mem_map.mp hmem
  rw [← call'.isPlain_masked, ← heq, call.isPlain_masked]
  exact hcalls call hcall

namespace Statement

/-- Runs of calls that differ in their values and dialects only come to the same verdicts, and to
    the same statement once it is masked. -/
theorem run_alike {d d' : Dialect} {calls calls' : List Call}
    (h : calls'.map Call.masked = calls.map Call.masked) :
    (withDialect d').verdicts calls' = (withDialect d).verdicts calls ∧
      ((withDialect d').run calls').masked = ((withDialect d).run calls).masked := by
  have hnew : ∀ d : Dialect, new.masked = (withDialect d).masked := fun _ => rfl
  obtain ⟨hverdicts, hrun⟩ := run_masked calls (hnew d)
  obtain ⟨hverdicts', hrun'⟩ := run_masked calls' (hnew d')
  rw [h] at hverdicts' hrun'
  exact ⟨hverdicts'.symm.trans hverdicts, hrun'.symm.trans hrun⟩

/-- Plain statements that are the same once they are masked have the same tokens but for values. -/
theorem IsPlain.hidden_tokens {s s' : Statement} (hs : s.IsPlain) (hs' : s'.IsPlain)
    (h : s'.masked = s.masked) : s'.tokens.map Token.hidden = s.tokens.map Token.hidden := by
  obtain ⟨d', conditions, rfl, hconditions⟩ := eq_of_masked h
  have htokens : conditions.tokens.map Token.hidden = s.conditions.tokens.map Token.hidden := by
    rw [← hs.conditions.hidden_tokens, ← hconditions]
    exact hs'.conditions.hidden_tokens.symm
  have hempty : conditions.isEmpty = s.conditions.isEmpty := by
    have hmasked : ∀ t : Tree, t.masked.isEmpty = t.isEmpty := fun t => Option.isNone_map
    rw [← hmasked conditions, hconditions, hmasked]
  have hwhere : (concat (whereTokens { s with dialect := d', conditions := conditions })).map
      Token.hidden = (concat s.whereTokens).map Token.hidden := by
    unfold whereTokens
    simp only [hempty]
    split
    · rfl
    · simp [concat, htokens]
  have hclauses : (concat (clauses { s with dialect := d', conditions := conditions })).map
      Token.hidden = (concat s.clauses).map Token.hidden := by
    simp only [clauses, concat_append, List.map_append]
    rw [hwhere]
    rfl
  rw [tokens, tokens, List.map_cons, List.map_cons, List.map_append, hclauses]
  simp

/-- What the text of a plain statement consists of. -/
theorem IsPlain.woven {s : Statement} (h : s.IsPlain) {rule : StringRule}
    (hrule : s.dialect = rule.dialect) {fragments : List Text}
    (hfragments : Symbol.fragments (s.tokens.flatMap Token.symbols) = fragments) :
    fragments.length = s.conditions.payloads.length + 1 ∧
      s.sql = weave rule.dialect.quote fragments s.conditions.payloads ∧
      (rule.scan s.sql).map (fun symbols => (Symbol.fragments symbols, Symbol.payloads symbols)) =
        some (fragments, s.conditions.payloads) := by
  have hseparate := (clean_tokens h).separate
  have hpayloads : Symbol.payloads (s.tokens.flatMap Token.symbols) = s.conditions.payloads := by
    rw [Token.payloads_symbols, h.payloads_tokens]
  have hsql : s.sql = Symbol.spell rule.dialect.quote (s.tokens.flatMap Token.symbols) := by
    rw [Token.spell_symbols, ← hrule, spell_tokens h]
  obtain ⟨hweave, hlength⟩ :=
    Symbol.spell_eq_weave rule.dialect.quote (s.tokens.flatMap Token.symbols)
  rw [hfragments, hpayloads] at hweave hlength
  refine ⟨hlength, hsql.trans hweave, ?_⟩
  rw [hsql, rule.scan_spell hseparate, Option.map_some, hfragments, hpayloads]

/-- Text values cannot change a statement. For any run of calls without verbatim SQL there are
    fragments without quotes such that every run with other text values, or with other dialects,
    comes to the same verdicts; and if it ends in a built-in dialect, its text is made of these
    fragments with the quoted values of its conditions between them, and a scan by the rule of the
    dialect finds exactly the fragments and the values. -/
theorem text_values_harmless {d : Dialect} {calls : List Call}
    (hcalls : ∀ call ∈ calls, call.IsPlain) :
    ∃ fragments : List Text, (∀ f ∈ fragments, '\'' ∉ f) ∧
      ∀ (d' : Dialect) (calls' : List Call), calls'.map Call.masked = calls.map Call.masked →
        (withDialect d').verdicts calls' = (withDialect d).verdicts calls ∧
        ∀ rule : StringRule, ((withDialect d').run calls').dialect = rule.dialect →
          let s := (withDialect d').run calls'
          fragments.length = s.conditions.payloads.length + 1 ∧
          s.sql = weave rule.dialect.quote fragments s.conditions.payloads ∧
          (rule.scan s.sql).map
              (fun symbols => (Symbol.fragments symbols, Symbol.payloads symbols)) =
            some (fragments, s.conditions.payloads) := by
  have hplain := (isPlain_withDialect d).run hcalls
  refine ⟨Symbol.fragments (((withDialect d).run calls).tokens.flatMap Token.symbols),
    (clean_tokens hplain).separate.quote_not_mem, ?_⟩
  intro d' calls' halike
  have hplain' := (isPlain_withDialect d').run (Call.isPlain_of_masked halike hcalls)
  obtain ⟨hverdicts, hmasked⟩ := run_alike halike
  refine ⟨hverdicts, fun rule hrule => hplain'.woven hrule ?_⟩
  have hhidden := hplain.hidden_tokens hplain' hmasked
  rw [← Symbol.fragments_hidden, ← Token.symbols_hidden, hhidden, Token.symbols_hidden,
    Symbol.fragments_hidden]

/-- Calls that look for a text at the start of a column, within a group. -/
def search (s : Text) : List Call :=
  [.fromTables (.one "t".toList),
    .condition (.group .or
      (.add false .and (.pattern .after false "a".toList (.text s))
        (.add true .and (.equal "no column".toList (.text s)) .done)))]

theorem text_values_harmless_search :
    (∀ call ∈ search "x".toList, call.IsPlain) ∧
      ∃ fragments : List Text, (∀ f ∈ fragments, '\'' ∉ f) ∧
        (withDialect .mysql).verdicts (search "' OR 1=1 -- \\".toList) =
          (withDialect .ansi).verdicts (search "x".toList) ∧
        ((withDialect .mysql).run (search "' OR 1=1 -- \\".toList)).sql =
          weave Dialect.mysql.quote fragments ["' OR 1=1 -- \\%".toList] := by
  have hplain : ∀ call ∈ search "x".toList, call.IsPlain := by
    intro call hcall
    simp only [search, List.mem_cons, List.not_mem_nil, or_false] at hcall
    rcases hcall with rfl | rfl
    · exact trivial
    · exact ⟨rfl, rfl, trivial⟩
  refine ⟨hplain, ?_⟩
  obtain ⟨fragments, hquotes, hall⟩ := text_values_harmless (d := .ansi) hplain
  obtain ⟨hverdicts, htext⟩ := hall .mysql (search "' OR 1=1 -- \\".toList) rfl
  exact ⟨fragments, hquotes, hverdicts, (htext .backslash rfl).2.1⟩

end Statement

end SqlSelect
