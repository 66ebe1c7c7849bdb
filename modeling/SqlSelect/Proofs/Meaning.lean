import SqlSelect.Proofs.Reading.Conditions
import SqlSelect.Proofs.Requests

/-!
What a `WHERE` clause means. Servers evaluate conditions in three-valued logic, and a run of calls
has a value of its own: from left to right, each accepted call puts what it adds behind what is
there, under its combinator. The tree flattens runs of one combinator, opens a group where the
combinator changes and closes the groups of nested calls, and the text has parentheses by yet
another rule; still the text is read back with exactly the value of the calls.

        calls:   a, OR b, AND (c, OR d)      value:  (a OR b) AND (c OR d)
        text:    (a OR b) AND (c OR d)
-/

namespace SqlSelect

/-- Truth values of three-valued logic. -/
inductive Truth where
  | yes | no | unknown
  deriving DecidableEq

namespace Truth

/-- Both are true. -/
def and : Truth → Truth → Truth
  | no, _ => no
  | _, no => no
  | yes, yes => yes
  | _, _ => unknown

/-- At least one of them is true. -/
def or : Truth → Truth → Truth
  | yes, _ => yes
  | _, yes => yes
  | no, no => no
  | _, _ => unknown

end Truth

/-- What a combinator does to truth values. -/
def Combinator.join : Combinator → Truth → Truth → Truth
  | .and => Truth.and
  | .or => Truth.or

/-- The value of an expression, given the values of the texts of its conditions. -/
def Expr.value (quote : Text → Text) (assign : Text → Truth) : Expr → Truth
  | condition tokens => assign (Token.spell quote tokens)
  | combined c left right => c.join (left.value quote assign) (right.value quote assign)
  | grouped e => e.value quote assign

/-- Reads conditions from a text in a legible dialect. -/
def Dialect.Legible.readConditions {d : Dialect} (L : d.Legible) (s : Text) :
    Option (Option Expr) :=
  (L.lex s).bind SqlSelect.readConditions

/-! ### The value of calls -/

/-- Puts a value, if there is one, behind the value so far, if there is one. -/
def Combinator.contribute (c : Combinator) : Option Truth → Option Truth → Option Truth
  | none, new => new
  | some old, none => some old
  | some old, some new => some (c.join old new)

/-- The value of the calls of a script behind the value so far, with the values of conditions and
    the cap on lists of values. Only calls that are accepted count, and a script ends at the first
    call that is rejected without being guarded. -/
def Script.value (assign : Predicate → Truth) (cap : Option Nat) :
    Script → Option Truth → Option Truth
  | done, x => x
  | giveUp _, x => x
  | add guarded c request rest, x =>
    match request.check cap with
    | .ok predicates =>
      rest.value assign cap (predicates.foldl (fun x p => c.contribute x (some (assign p))) x)
    | .error _ => if guarded then rest.value assign cap x else x
  | group guarded c body rest, x =>
    match (body.run { cap := cap, nested := true }).verdict with
    | .ok () => rest.value assign cap (c.contribute x (body.value assign cap none))
    | .error _ => if guarded then rest.value assign cap x else x

/-- An accepted call with a mapping or a list counts as calls for one condition each: it yields one
    condition for each entry, and these contribute in order, each under the combinator of the call. -/
theorem Script.value_add_singles (assign : Predicate → Truth) {cap : Option Nat} {request : Request}
    {predicates : List Predicate} (h : request.check cap = .ok predicates) (guarded : Bool)
    (c : Combinator) (rest : Script) (x : Option Truth) :
    (add guarded c request rest).value assign cap x =
      (request.singles.foldr (add guarded c) rest).value assign cap x := by
  have hsingles := (Request.check_eq_ok.mp h).2
  rw [value, h]
  simp only
  clear h
  generalize request.singles = singles at hsingles ⊢
  induction hsingles generalizing x with
  | nil => rfl
  | cons hfirst _ ih =>
    rw [List.foldl_cons, List.foldr_cons, value, hfirst, ih]
    rfl

/-! ### The value of a tree -/

section Values

variable (d : Dialect) (assign : Text → Truth)

/-- The value of a node. -/
def Node.value (node : Node) : Truth :=
  node.expr.value d.quote assign

/-- The value of a tree, if it has any conditions. -/
def Tree.value? (t : Tree) : Option Truth :=
  t.root.map (Node.value d assign)

theorem Node.exprAll_append (a b : List Node) : exprAll (a ++ b) = exprAll a ++ exprAll b := by
  induction a with
  | nil => rfl
  | cons node a ih => rw [List.cons_append, exprAll, ih, exprAll, List.cons_append]

/-- A chain that is made longer is combined with what is added to it. -/
theorem Expr.chain_concat (c : Combinator) {all : List Expr} (h : all ≠ []) (e : Expr) :
    chain c (all ++ [e]) = .combined c (chain c all) e := by
  cases all with
  | nil => exact absurd rfl h
  | cons first all => rw [List.cons_append, chain, chain, List.foldl_concat]

/-- Adding a node to a root combines its value with that of the root. -/
theorem Node.value_extend {P : Predicate → Prop} (c : Combinator) {old : Node}
    (h : old.Regular P) (new : Node) :
    (Node.extend c old new).value d assign =
      c.join (old.value d assign) (new.value d assign) := by
  cases h with
  | leaf hp => rfl
  | @group combinator closed children hne _ _ _ =>
    cases closed with
    | true => rfl
    | false =>
      unfold extend
      simp only
      split
      · next hc =>
        have hall : exprAll children ≠ [] := by
          cases children with
          | nil => simp at hne
          | cons node nodes => simp [exprAll]
        unfold value
        rw [expr, expr, exprAll_append, exprAll, exprAll, Expr.chain_concat combinator hall, hc]
        rfl
      · rfl

/-- Closing a group does not change its value. -/
theorem Node.value_close (node : Node) : node.close.value d assign = node.value d assign := by
  cases node with
  | leaf p => rfl
  | group c closed children => cases closed <;> rfl

theorem Tree.value?_attach {P : Predicate → Prop} (c : Combinator) {t : Tree} (h : t.Regular P)
    (node : Node) : (t.attach c node).value? d assign =
      c.contribute (t.value? d assign) (some (node.value d assign)) := by
  obtain ⟨root⟩ := t
  cases root with
  | none => rfl
  | some root =>
    have hroot : root.Regular P := h root rfl
    exact congrArg some (Node.value_extend d assign c hroot node)

theorem Tree.value?_attachGroup {P : Predicate → Prop} (c : Combinator) {t : Tree}
    (h : t.Regular P) (inner : Tree) : (t.attachGroup c inner).value? d assign =
      c.contribute (t.value? d assign) (inner.value? d assign) := by
  obtain ⟨root⟩ := inner
  cases root with
  | none =>
    change t.value? d assign = c.contribute (t.value? d assign) none
    cases t.value? d assign <;> rfl
  | some root =>
    change (t.attach c root.close).value? d assign = _
    rw [Tree.value?_attach d assign c h, Node.value_close]
    rfl

theorem Tree.value?_attachAll (c : Combinator) {t : Tree}
    (h : t.Regular fun p => p.isTest = true) {predicates : List Predicate}
    (hp : ∀ p ∈ predicates, p.isTest = true) : (t.attachAll c predicates).value? d assign =
      predicates.foldl (fun x p => c.contribute x (some (assign (p.render d))))
        (t.value? d assign) := by
  induction predicates generalizing t with
  | nil => rfl
  | cons p predicates ih =>
    have hp₁ : p.isTest = true := hp p (by simp)
    have hleaf : (Node.leaf p).value d assign = assign (p.render d) :=
      congrArg assign (Predicate.spell_tokens d (.inl hp₁))
    have hattach : (t.attach c (.leaf p)).Regular fun p => p.isTest = true := h.attach c (.leaf hp₁)
    change ((t.attach c (.leaf p)).attachAll c predicates).value? d assign = _
    rw [ih hattach fun q hq => hp q (List.mem_cons_of_mem _ hq), Tree.value?_attach d assign c h,
      hleaf]
    rfl

/-- The expression of a tree has the value of the tree. -/
theorem Tree.value_expr? (t : Tree) :
    t.expr?.map (Expr.value d.quote assign) = t.value? d assign := by
  obtain ⟨root⟩ := t
  cases root with
  | none => rfl
  | some root =>
    cases root with
    | leaf p => rfl
    | group c closed children => cases closed <;> rfl

/-! ### Runs -/

/-- A run of calls puts the value of the calls behind the value of the tree it starts from. -/
theorem Script.value?_run {script : Script} (hs : script.Uses fun request => request.isRaw = false)
    {ctx : Context} (h : ctx.tree.Regular fun p => p.isTest = true) :
    (script.run ctx).state.tree.value? d assign =
      script.value (fun p => assign (p.render d)) ctx.cap (ctx.tree.value? d assign) := by
  induction script generalizing ctx with
  | done => rfl
  | giveUp reason => rfl
  | add guarded c request rest ih =>
    rw [Script.run, Script.value]
    rcases ctx.add_cases c request with ⟨predicates, hcheck, hadd⟩ | ⟨reason, hcheck, hadd⟩
    · have htests := Request.isTest_of_check ctx.cap request predicates hs.1 hcheck
      have hadded : (ctx.tree.attachAll c predicates).Regular fun p => p.isTest = true :=
        h.attachAll c htests
      rw [hadd, Outcome.andThen_ok guarded rfl, hcheck]
      simp only [Outcome.unchanged]
      rw [ih hs.2 hadded, Tree.value?_attachAll d assign c h htests]
    · rw [hadd, hcheck]
      cases guarded with
      | false => rw [Outcome.andThen_error rfl]; rfl
      | true => rw [Outcome.andThen_guarded]; exact ih hs.2 h
  | group guarded c body rest ihb ihr =>
    have hinner : (body.run ctx.inner).state.tree.Regular fun p => p.isTest = true :=
      Script.run_regular Request.isTest_of_check hs.1 Tree.Regular.empty
    have hempty : ctx.inner.tree.Regular fun p => p.isTest = true := Tree.Regular.empty
    have hvalue : (body.run ctx.inner).state.tree.value? d assign =
        body.value (fun p => assign (p.render d)) ctx.cap none := ihb hs.1 hempty
    have hcontext : ({ cap := ctx.cap, nested := true } : Context) = ctx.inner := rfl
    rw [Script.run, Script.value, hcontext]
    rcases ctx.close_cases c (body.run ctx.inner) with ⟨hok, hclose⟩ | ⟨reason, hrejected, hclose⟩
    · have hadded := h.attachGroup c hinner
      rw [hclose, Outcome.andThen_ok guarded rfl, hok]
      simp only
      rw [ihr hs.2 hadded, Tree.value?_attachGroup d assign c h, hvalue]
    · rw [hclose, hrejected]
      cases guarded with
      | false => rw [Outcome.andThen_error rfl]; rfl
      | true => rw [Outcome.andThen_guarded]; exact ihr hs.2 h

end Values

/-- The text of the conditions that calls have added is read back with the value of the calls, where
    a mapping or a list counts as a call for each of its entries (`value_add_singles`), and there is
    none exactly if no call has added any. -/
theorem Script.readConditions_run {d : Dialect} (L : d.Legible) (assign : Text → Truth)
    {script : Script} (hs : script.Uses fun request => request.isRaw = false) {ctx : Context}
    (hctx : ctx.tree.isEmpty = true) :
    (L.readConditions ((script.run ctx).state.tree.render d)).map
        (Option.map (Expr.value d.quote assign)) =
      some (script.value (fun p => assign (p.render d)) ctx.cap none) := by
  have hroot : ctx.tree.root = none := by simpa [Tree.isEmpty] using hctx
  have hempty : ctx.tree.Regular fun p => p.isTest = true := by
    intro root h
    rw [hroot] at h
    contradiction
  have hregular := Script.run_regular Request.isTest_of_check hs hempty
  have hclean := Tree.clean_append hregular .nil
  rw [List.append_nil] at hclean
  have hvalue := Script.value?_run d assign hs hempty
  have hnone : ctx.tree.value? d assign = none := by simp [Tree.value?, hroot]
  have hread : L.readConditions ((script.run ctx).state.tree.render d) =
      some (script.run ctx).state.tree.expr? := by
    rw [Dialect.Legible.readConditions, ← Tree.spell_tokens d (fun _ hp => .inl hp) hregular,
      L.lex_spell hclean]
    exact Tree.readConditions_tokens (fun _ hp => .inl hp) hregular
  rw [hread, Option.map_some, Tree.value_expr?, hvalue, hnone]

/-- A condition, an alternative group in which one call is rejected and dropped, and a value that
    looks like SQL: only the condition on `b` is true. -/
theorem Script.readConditions_run_sample :
    (StringRule.backslash.legible.readConditions
        ((Script.run
          (.add false .and (.equal "a".toList (.int 1))
            (.group false .or
              (.add false .and (.equal "b".toList (.text "' OR (1".toList))
                (.add true .and (.equal "no column".toList .null)
                  (.add false .or (.null true (.one "c".toList)) .done)))
              .done))
          .standalone).state.tree.render .mysql)).map
        (Option.map (Expr.value Dialect.mysql.quote
          fun s => if s.head? = some '\x60' ∧ s.tail.head? = some 'b' then .yes else .unknown)) =
      some (some .yes) :=
  Eq.trans (Script.readConditions_run StringRule.backslash.legible _
    (by exact ⟨rfl, ⟨rfl, rfl, rfl, trivial⟩, trivial⟩) rfl) (by decide)

end SqlSelect
