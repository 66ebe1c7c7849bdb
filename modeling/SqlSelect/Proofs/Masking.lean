import SqlSelect.Proofs.Calls
import SqlSelect.Proofs.Checked
import SqlSelect.Statement.Call

/-!
Runs that differ in nothing but their text values and their dialects. Masking empties the text
values of requests and of the conditions made of them, and forgets the dialect. No check looks at a
text value, so every call comes to the same verdict with the masked request, and the states after it
are the same once they are masked as well.
-/

namespace SqlSelect

/-! ### Masks -/

/-- Text values are emptied; all others stay. -/
def Literal.masked : Literal → Literal
  | text _ => text []
  | l => l

/-- The condition with its values masked. -/
def Predicate.masked : Predicate → Predicate
  | compare subject operator value => compare subject operator value.masked
  | inList column values negated => inList column (values.map Literal.masked) negated
  | p => p

namespace Node

mutual

/-- The node with its conditions masked. -/
def masked : Node → Node
  | leaf predicate => leaf predicate.masked
  | group combinator closed children => group combinator closed (maskedAll children)

/-- Nodes with their conditions masked, in order. -/
def maskedAll : List Node → List Node
  | [] => []
  | node :: nodes => masked node :: maskedAll nodes

end

end Node

/-- The tree with its conditions masked. -/
def Tree.masked (t : Tree) : Tree :=
  ⟨t.root.map Node.masked⟩

/-- The context with its conditions masked. -/
def Context.masked (ctx : Context) : Context :=
  { ctx with tree := ctx.tree.masked }

/-- The statement with its conditions masked, without its own dialect. -/
def Statement.masked (s : Statement) : Statement :=
  { s with conditions := s.conditions.masked, dialect := default }

/-- A pair with its value masked. -/
def maskedPair (pair : Text × Literal) : Text × Literal :=
  (pair.1, pair.2.masked)

/-- The request with its values masked. -/
def Request.masked : Request → Request
  | equal column value => equal column value.masked
  | compare column operator value => compare column operator value.masked
  | equalEach pairs => equalEach (pairs.map maskedPair)
  | raw expression operator value => raw expression operator value.masked
  | null negated columns => null negated columns
  | pattern wildcards negated column value => pattern wildcards negated column value.masked
  | patternEach wildcards negated pairs => patternEach wildcards negated (pairs.map maskedPair)
  | inList negated column values => inList negated column (values.map Literal.masked)
  | inListEach negated pairs =>
    inListEach negated (pairs.map fun pair => (pair.1, pair.2.map Literal.masked))
  | length column value => length column value.masked
  | compareLength column operator value => compareLength column operator value.masked
  | lengthEach pairs => lengthEach (pairs.map maskedPair)

/-- The script with its requests masked. -/
def Script.masked : Script → Script
  | done => done
  | giveUp reason => giveUp reason
  | add guarded c request rest => add guarded c request.masked rest.masked
  | group guarded c body rest => group guarded c body.masked rest.masked

/-- The call with its requests masked. -/
def ConditionCall.masked : ConditionCall → ConditionCall
  | add c request => add c request.masked
  | group c body => group c body.masked

/-- The call with its requests masked, or to the default dialect if it sets one. -/
def Call.masked : Call → Call
  | condition call => condition call.masked
  | setDialect _ => setDialect default
  | call => call

/-! ### Checks -/

/-- Two checks that agree on every item, up to a mask of what they accept, agree on the list. -/
theorem Checked.mapM_map_eq {α β γ : Type} {f g : α → Checked β} {mask : β → γ}
    (items : List α) (h : ∀ a ∈ items, (f a).map mask = (g a).map mask) :
    (items.mapM f).map (List.map mask) = (items.mapM g).map (List.map mask) := by
  induction items with
  | nil => rfl
  | cons a items ih =>
    have ha := h a (by simp)
    have hrest := ih fun b hb => h b (List.mem_cons_of_mem _ hb)
    -- A mask may be put on before the item and the rest are put together.
    have hstep : ∀ (x : Checked β) (xs : Checked (List β)),
        (do return (← x) :: (← xs)).map (List.map mask) =
          (do return (← x.map mask) :: (← xs.map (List.map mask)) : Checked (List γ)) := by
      intro x xs
      cases x <;> cases xs <;> rfl
    rw [List.mapM_cons, List.mapM_cons]
    refine (hstep _ _).trans (Eq.trans ?_ (hstep _ _).symm)
    rw [ha, hrest]

namespace Predicate

theorem comparing_masked (column operator : Text) (value : Literal) :
    (comparing column operator value.masked).map masked =
      (comparing column operator value).map masked := by
  unfold comparing
  cases Identifier.ofText column with
  | error reason => rfl
  | ok name =>
    cases Operator.ofText operator with
    | error reason => rfl
    | ok op => cases value <;> rfl

theorem comparingRaw_masked (expression operator : Text) (value : Literal) :
    (comparingRaw expression operator value.masked).map masked =
      (comparingRaw expression operator value).map masked := by
  unfold comparingRaw
  split
  · rfl
  · cases Operator.ofText operator with
    | error reason => rfl
    | ok op => cases value <;> rfl

theorem matching_masked (wildcards : Wildcards) (negated : Bool) (column : Text)
    (value : Literal) : (matching wildcards negated column value.masked).map masked =
      (matching wildcards negated column value).map masked := by
  unfold matching
  cases Identifier.ofText column with
  | error reason => rfl
  | ok name => cases value <;> rfl

theorem forM_validate_masked (values : List Literal) :
    (values.map Literal.masked).forM Literal.validate = values.forM Literal.validate := by
  induction values with
  | nil => rfl
  | cons l values ih =>
    have hl : l.masked.validate = l.validate := by cases l <;> rfl
    change (l.masked.validate >>= fun _ => (values.map Literal.masked).forM Literal.validate) =
      (l.validate >>= fun _ => values.forM Literal.validate)
    rw [hl, ih]

theorem listing_masked (cap : Option Nat) (negated : Bool) (column : Text)
    (values : List Literal) :
    (listing cap negated column (values.map Literal.masked)).map masked =
      (listing cap negated column values).map masked := by
  unfold listing
  cases Identifier.ofText column with
  | error reason => rfl
  | ok name =>
    have hvalues : (values.map Literal.masked).map Literal.masked = values.map Literal.masked := by
      rw [List.map_map]
      refine List.map_congr_left fun l _ => ?_
      cases l <;> rfl
    have hmask : (inList name (values.map Literal.masked) negated).masked =
        (inList name values negated).masked := by
      rw [masked, masked, hvalues]
    change ((checkSize cap name.text (values.map Literal.masked).length).bind _).map _ =
      ((checkSize cap name.text values.length).bind _).map _
    rw [List.length_map]
    cases checkSize cap name.text values.length with
    | error reason => rfl
    | ok _ =>
      change (((values.map Literal.masked).forM Literal.validate).bind _).map _ =
        ((values.forM Literal.validate).bind _).map _
      rw [forM_validate_masked]
      cases values.forM Literal.validate with
      | error reason => rfl
      | ok _ => exact congrArg Except.ok hmask

theorem measuring_masked (column operator : Text) (value : Literal) :
    (measuring column operator value.masked).map masked =
      (measuring column operator value).map masked := by
  unfold measuring
  cases Identifier.ofText column with
  | error reason => rfl
  | ok name =>
    cases Operator.ofText operator with
    | error reason => rfl
    | ok op => cases value <;> rfl

end Predicate

namespace Request

theorem each_masked {α : Type} {check : Text → α → Checked Predicate}
    {mask : Text × α → Text × α}
    (h : ∀ pair, (check (mask pair).1 (mask pair).2).map Predicate.masked =
      (check pair.1 pair.2).map Predicate.masked) (pairs : List (Text × α)) :
    (each check (pairs.map mask)).map (List.map Predicate.masked) =
      (each check pairs).map (List.map Predicate.masked) := by
  have hall := Checked.mapM_map_eq pairs fun pair _ => h pair
  have hstep : ∀ z : Checked (List Predicate),
      (z >>= fun all =>
        if all.isEmpty then .error (.invalidArgument (.emptyListing .conditionMapping))
        else return all).map (List.map Predicate.masked) =
      z.map (List.map Predicate.masked) >>= fun all =>
        if all.isEmpty then .error (.invalidArgument (.emptyListing .conditionMapping))
        else return all := by
    intro z
    rcases z with reason | ⟨_ | ⟨p, all⟩⟩ <;> rfl
  rw [each]
  rw [List.mapM_map]
  exact (hstep _).trans ((congrArg (· >>= _) hall).trans (hstep _).symm)

/-- The one condition of a masked request. -/
theorem single_masked {x y : Checked Predicate}
    (h : x.map Predicate.masked = y.map Predicate.masked) :
    (do return [← x] : Checked (List Predicate)).map (List.map Predicate.masked) =
      (do return [← y] : Checked (List Predicate)).map (List.map Predicate.masked) := by
  have hstep : ∀ z : Checked Predicate,
      (do return [← z] : Checked (List Predicate)).map (List.map Predicate.masked) =
        (z.map Predicate.masked).map fun p => [p] := by
    intro z
    cases z <;> rfl
  rw [hstep, hstep, h]

/-- A masked request comes to the same fault, or to the same conditions once they are masked. -/
theorem check_masked (cap : Option Nat) (request : Request) :
    (request.masked.check cap).map (List.map Predicate.masked) =
      (request.check cap).map (List.map Predicate.masked) := by
  cases request with
  | equal column value => exact single_masked (Predicate.comparing_masked _ _ _)
  | compare column operator value => exact single_masked (Predicate.comparing_masked _ _ _)
  | equalEach pairs =>
    refine @each_masked _ (fun column => Predicate.comparing column ['=']) maskedPair ?_ pairs
    exact fun pair => Predicate.comparing_masked pair.1 ['='] pair.2
  | raw expression operator value => exact single_masked (Predicate.comparingRaw_masked _ _ _)
  | null negated columns => rfl
  | pattern wildcards negated column value =>
    exact single_masked (Predicate.matching_masked _ _ _ _)
  | patternEach wildcards negated pairs =>
    exact each_masked (fun _ => Predicate.matching_masked _ _ _ _) pairs
  | inList negated column values => exact single_masked (Predicate.listing_masked _ _ _ _)
  | inListEach negated pairs => exact each_masked (fun _ => Predicate.listing_masked _ _ _ _) pairs
  | length column value => exact single_masked (Predicate.measuring_masked _ _ _)
  | compareLength column operator value => exact single_masked (Predicate.measuring_masked _ _ _)
  | lengthEach pairs =>
    refine @each_masked _ (fun column => Predicate.measuring column ['=']) maskedPair ?_ pairs
    exact fun pair => Predicate.measuring_masked pair.1 ['='] pair.2

end Request

/-! ### Trees -/

namespace Node

theorem maskedAll_eq_map (nodes : List Node) : maskedAll nodes = nodes.map masked := by
  induction nodes with
  | nil => rfl
  | cons node nodes ih => rw [maskedAll, ih, List.map_cons]

theorem masked_extend (c : Combinator) (old new : Node) :
    (Node.extend c old new).masked = Node.extend c old.masked new.masked := by
  cases old with
  | leaf p => rfl
  | group combinator closed children =>
    cases closed with
    | true => rfl
    | false =>
      by_cases hc : combinator = c
      · simp [extend, hc, masked, maskedAll_eq_map]
      · simp [extend, hc, masked, maskedAll_eq_map]

theorem masked_close (node : Node) : node.close.masked = node.masked.close := by
  cases node with
  | leaf p => rfl
  | group c closed children => cases closed <;> rfl

end Node

namespace Tree

theorem masked_attach (c : Combinator) (t : Tree) (node : Node) :
    (t.attach c node).masked = t.masked.attach c node.masked := by
  obtain ⟨root⟩ := t
  cases root with
  | none => rfl
  | some root =>
    change (⟨some (Node.extend c root node).masked⟩ : Tree) = _
    rw [Node.masked_extend]
    rfl

theorem masked_attachAll (c : Combinator) (t : Tree) (predicates : List Predicate) :
    (t.attachAll c predicates).masked =
      t.masked.attachAll c (predicates.map Predicate.masked) := by
  induction predicates generalizing t with
  | nil => rfl
  | cons p predicates ih =>
    change ((t.attach c (.leaf p)).attachAll c predicates).masked = _
    rw [ih, masked_attach]
    rfl

theorem masked_attachGroup (c : Combinator) (t inner : Tree) :
    (t.attachGroup c inner).masked = t.masked.attachGroup c inner.masked := by
  obtain ⟨root⟩ := inner
  cases root with
  | none => rfl
  | some root =>
    change (t.attach c root.close).masked = _
    rw [masked_attach, Node.masked_close]
    rfl

end Tree

/-! ### Runs -/

/-- Two outcomes on contexts with the same verdict, and with states that are the same once they are
    masked. -/
structure Context.Agree (a b : Outcome Context) : Prop where
  verdict : a.verdict = b.verdict
  state : a.state.masked = b.state.masked

/-- The verdicts of all calls that a script makes in a context, those within a group before that of
    the group. -/
def Script.verdicts : Script → Context → List (Checked Unit)
  | done, _ => []
  | giveUp _, _ => []
  | add guarded c request rest, ctx =>
    let call := ctx.add c request
    call.verdict :: if guarded || call.verdict.isOk then rest.verdicts call.state else []
  | group guarded c body rest, ctx =>
    let call := ctx.close c (body.run ctx.inner)
    body.verdicts ctx.inner ++
      call.verdict :: if guarded || call.verdict.isOk then rest.verdicts call.state else []

namespace Context

variable {ctx ctx' : Context}

theorem cap_of_masked (h : ctx'.masked = ctx.masked) : ctx'.cap = ctx.cap := by
  have hcap := congrArg (fun c : Context => c.cap) h
  exact hcap

/-- Contexts that are the same once they are masked stay so when their trees grow alike. -/
theorem masked_with_tree (h : ctx'.masked = ctx.masked) {t t' : Tree} (ht : t'.masked = t.masked) :
    ({ ctx' with tree := t' } : Context).masked = ({ ctx with tree := t } : Context).masked := by
  change ({ ctx'.masked with tree := t'.masked } : Context) = { ctx.masked with tree := t.masked }
  rw [h, ht]

theorem tree_of_masked (h : ctx'.masked = ctx.masked) : ctx'.tree.masked = ctx.tree.masked := by
  have htree := congrArg (fun c : Context => c.tree) h
  exact htree

theorem inner_masked (h : ctx'.masked = ctx.masked) : ctx'.inner.masked = ctx.inner.masked := by
  simp [inner, masked, cap_of_masked h]

/-- A masked request does to a masked context what the request does to the context. -/
theorem agree_add (h : ctx'.masked = ctx.masked) (c : Combinator) (request : Request) :
    Agree (ctx'.add c request.masked) (ctx.add c request) := by
  have hcheck := Request.check_masked ctx.cap request
  have hcap := cap_of_masked h
  -- The verdicts agree, so two of the four cases cannot be.
  rcases ctx'.add_cases c request.masked with ⟨all', hall', hadd'⟩ | ⟨reason', hreason', hadd'⟩ <;>
    rcases ctx.add_cases c request with ⟨all, hall, hadd⟩ | ⟨reason, hreason, hadd⟩
  · rw [hcap] at hall'
    rw [hall, hall'] at hcheck
    have hmask : all'.map Predicate.masked = all.map Predicate.masked := Except.ok.inj hcheck
    rw [hadd, hadd']
    refine ⟨rfl, masked_with_tree h ?_⟩
    rw [Tree.masked_attachAll, Tree.masked_attachAll, hmask, tree_of_masked h]
  · rw [hcap] at hall'
    rw [hreason, hall'] at hcheck
    contradiction
  · rw [hcap] at hreason'
    rw [hall, hreason'] at hcheck
    contradiction
  · rw [hcap] at hreason'
    rw [hreason, hreason'] at hcheck
    rw [hadd, hadd']
    exact ⟨congrArg Except.error (Except.error.inj hcheck), h⟩

theorem agree_close (h : ctx'.masked = ctx.masked) (c : Combinator) {body body' : Outcome Context}
    (hbody : Agree body' body) : Agree (ctx'.close c body') (ctx.close c body) := by
  rcases ctx'.close_cases c body' with ⟨hok', hclose'⟩ | ⟨reason', hreason', hclose'⟩ <;>
    rcases ctx.close_cases c body with ⟨hok, hclose⟩ | ⟨reason, hreason, hclose⟩
  · rw [hclose, hclose']
    refine ⟨rfl, masked_with_tree h ?_⟩
    rw [Tree.masked_attachGroup, Tree.masked_attachGroup, tree_of_masked h,
      tree_of_masked hbody.state]
  · have hverdict := hbody.verdict
    rw [hok', hreason] at hverdict
    contradiction
  · have hverdict := hbody.verdict
    rw [hok, hreason'] at hverdict
    contradiction
  · have hverdict := hbody.verdict
    rw [hreason, hreason'] at hverdict
    rw [hclose, hclose']
    exact ⟨hverdict, h⟩

/-- Sequences agree if their first calls do, and if the rest does on all states that agree. -/
theorem Agree.andThen {first first' : Outcome Context} (hfirst : Agree first' first)
    {rest rest' : Context → Outcome Context} (guarded : Bool)
    (hrest : ∀ {ctx ctx' : Context}, ctx'.masked = ctx.masked → Agree (rest' ctx') (rest ctx)) :
    Agree (first'.andThen guarded rest') (first.andThen guarded rest) := by
  have hgoes := hrest hfirst.state
  cases hv : first.verdict with
  | ok _ =>
    have hv' : first'.verdict = .ok () := hfirst.verdict.trans hv
    rw [Outcome.andThen_ok guarded hv, Outcome.andThen_ok guarded hv']
    exact ⟨hgoes.verdict, hgoes.state⟩
  | error reason =>
    have hv' : first'.verdict = .error reason := hfirst.verdict.trans hv
    cases guarded with
    | true =>
      rw [Outcome.andThen_guarded, Outcome.andThen_guarded]
      exact ⟨hgoes.verdict, hgoes.state⟩
    | false =>
      rw [Outcome.andThen_error hv, Outcome.andThen_error hv']
      exact hfirst

end Context

open Context (Agree)

namespace Script

/-- A masked script does to a masked context what the script does to the context. -/
theorem agree_run (script : Script) {ctx ctx' : Context} (h : ctx'.masked = ctx.masked) :
    Agree (script.masked.run ctx') (script.run ctx) := by
  induction script generalizing ctx ctx' with
  | done => exact ⟨rfl, h⟩
  | giveUp reason => exact ⟨rfl, h⟩
  | add guarded c request rest ih =>
    exact (Context.agree_add h c request).andThen guarded ih
  | group guarded c body rest ihb ihr =>
    exact (Context.agree_close h c (ihb (Context.inner_masked h))).andThen guarded ihr

/-- All calls of a masked script come to the verdicts of the calls of the script. -/
theorem verdicts_masked (script : Script) {ctx ctx' : Context} (h : ctx'.masked = ctx.masked) :
    script.masked.verdicts ctx' = script.verdicts ctx := by
  induction script generalizing ctx ctx' with
  | done => rfl
  | giveUp reason => rfl
  | add guarded c request rest ih =>
    have hcall := Context.agree_add h c request
    have hrest := ih hcall.state
    rw [masked, verdicts, verdicts]
    simp only [hcall.verdict, hrest]
  | group guarded c body rest ihb ihr =>
    have hinner := Context.inner_masked h
    have hcall := Context.agree_close h c (agree_run body hinner)
    have hrest := ihr hcall.state
    rw [masked, verdicts, verdicts, ihb hinner]
    simp only [hcall.verdict, hrest]

end Script

/-- A masked call does to a masked context what the call does to the context. -/
theorem ConditionCall.agree_run (call : ConditionCall) {ctx ctx' : Context}
    (h : ctx'.masked = ctx.masked) : Agree (call.masked.run ctx') (call.run ctx) := by
  cases call with
  | add c request => exact Context.agree_add h c request
  | group c body => exact Context.agree_close h c (body.agree_run (Context.inner_masked h))

/-! ### Statements -/

namespace Statement

/-- Two outcomes on statements with the same verdict, and with states that are the same once they
    are masked. -/
structure Agree (a b : Outcome Statement) : Prop where
  verdict : a.verdict = b.verdict
  state : a.state.masked = b.state.masked

/-- The verdicts of a call on a statement, after those of its group if it is one. -/
def callVerdicts (s : Statement) (call : Call) : List (Checked Unit) :=
  (match call with
    | .condition (.group _ body) => body.verdicts s.context.inner
    | _ => []) ++ [(s.perform call).verdict]

/-- The verdicts of all calls that are made on a statement one after the other. -/
def verdicts : Statement → List Call → List (Checked Unit)
  | _, [] => []
  | s, call :: calls => s.callVerdicts call ++ verdicts (s.perform call).state calls

variable {s s' : Statement}

/-- Statements that are the same once they are masked have all parts but the conditions and the
    dialect in common. -/
theorem eq_of_masked (h : s'.masked = s.masked) :
    ∃ d conditions, s' = { s with dialect := d, conditions := conditions } ∧
      conditions.masked = s.conditions.masked := by
  cases s
  cases s'
  simp only [masked, mk.injEq] at h
  obtain ⟨-, rfl, rfl, rfl, hconditions, rfl, rfl⟩ := h
  exact ⟨_, _, rfl, hconditions⟩

theorem agree_settle {α : Type} {call call' : Call} {put put' : α → Statement}
    (h : s'.masked = s.masked) (part : Checked α) (hput : ∀ a, (put' a).masked = (put a).masked) :
    Agree (s'.settle call' put' part) (s.settle call put part) := by
  cases part with
  | error reason => exact ⟨rfl, h⟩
  | ok a => exact ⟨rfl, hput a⟩

/-- A masked call does to a masked statement what the call does to the statement. -/
theorem agree_perform (h : s'.masked = s.masked) (call : Call) :
    Agree (s'.perform call.masked) (s.perform call) := by
  obtain ⟨d', conditions, rfl, hconditions⟩ := eq_of_masked h
  have houtputs : ∀ o, (putOutputs { s with dialect := d', conditions := conditions } o).masked =
      (s.putOutputs o).masked := by simp [putOutputs, masked, hconditions]
  have hsources : ∀ t, (putSources { s with dialect := d', conditions := conditions } t).masked =
      (s.putSources t).masked := by simp [putSources, masked, hconditions]
  have hkeys : ∀ k, (addKeys { s with dialect := d', conditions := conditions } k).masked =
      (s.addKeys k).masked := by simp [addKeys, masked, hconditions]
  have hwindow : ∀ w, (putWindow { s with dialect := d', conditions := conditions } w).masked =
      (s.putWindow w).masked := by simp [putWindow, masked, hconditions]
  cases call with
  | condition call =>
    have hcontext : (context { s with dialect := d', conditions := conditions }).masked =
        s.context.masked := by simp [context, Context.masked, hconditions]
    have hcall := call.agree_run hcontext
    refine ⟨hcall.verdict, ?_⟩
    have htree := Context.tree_of_masked hcall.state
    change (putContext { s with dialect := d', conditions := conditions } _).masked =
      (s.putContext (call.run s.context).state).masked
    simp [putContext, masked, htree]
  | setDialect d =>
    exact ⟨rfl, by simp [perform, Call.masked, Outcome.unchanged, masked, hconditions]⟩
  | configure settings =>
    exact ⟨rfl, by simp [perform, Call.masked, Outcome.unchanged, masked, hconditions]⟩
  | select columns => exact agree_settle h _ houtputs
  | addSelect columns => exact agree_settle h _ houtputs
  | addRawSelect expression aliasName => exact agree_settle h _ houtputs
  | fromTables tables => exact agree_settle h _ hsources
  | fromAliased table aliasName => exact agree_settle h _ hsources
  | fromRaw expression aliasName => exact agree_settle h _ hsources
  | join kind target localTable fields => exact agree_settle h _ hsources
  | joinTarget kind target localTable fields => exact agree_settle h _ hsources
  | orderBy columns direction => exact agree_settle h _ hkeys
  | orderByRaw expressions direction => exact agree_settle h _ hkeys
  | limit count offset => exact agree_settle h _ hwindow

theorem callVerdicts_masked (h : s'.masked = s.masked) (call : Call) :
    s'.callVerdicts call.masked = s.callVerdicts call := by
  have hcall := (agree_perform h call).verdict
  cases call with
  | condition call =>
    cases call with
    | add c request => exact congrArg (fun v => [v]) hcall
    | group c body =>
      have hinner : s'.context.inner.masked = s.context.inner.masked := by
        obtain ⟨d', conditions, rfl, -⟩ := eq_of_masked h
        rfl
      have hbody := body.verdicts_masked hinner
      change body.masked.verdicts s'.context.inner ++ [_] = body.verdicts s.context.inner ++ [_]
      rw [hbody]
      exact congrArg (fun v => body.verdicts s.context.inner ++ [v]) hcall
  | _ => exact congrArg (fun v => [v]) hcall

/-- Masked calls come to the verdicts of the calls, and to the statement they come to once it is
    masked. -/
theorem run_masked (calls : List Call) (h : s'.masked = s.masked) :
    s'.verdicts (calls.map Call.masked) = s.verdicts calls ∧
      (s'.run (calls.map Call.masked)).masked = (s.run calls).masked := by
  induction calls generalizing s s' with
  | nil => exact ⟨rfl, h⟩
  | cons call calls ih =>
    obtain ⟨hverdicts, hrun⟩ := ih (agree_perform h call).state
    refine ⟨?_, hrun⟩
    rw [List.map_cons, verdicts, verdicts, callVerdicts_masked h, hverdicts]

end Statement

end SqlSelect
