import SqlSelect.Proofs.Calls
import SqlSelect.Statement.Call

/-!
Rejected calls can be erased. A rejected call leaves everything as it was, and so does a rejected
call of a group, whether it is guarded or not. So nothing is lost if all of them are taken out of a
run, at the top and within the groups that were accepted: every call that is left is accepted, and
the statement at the end is the same.

        where a,  where ?,  group (b,  guarded ?,  or c)     ──▶   where a,  group (b,  or c)
-/

namespace SqlSelect

/-! ### Scripts -/

namespace Script

/-- The script without the calls that are rejected when it runs in a context; accepted groups are
    pruned likewise. -/
def pruned : Script → Context → Script
  | done, _ => done
  | giveUp reason, _ => giveUp reason
  | add guarded c request rest, ctx =>
    let call := (ConditionCall.add c request).run ctx
    match call.verdict with
    | .ok () => add guarded c request (rest.pruned call.state)
    | .error _ => rest.pruned call.state
  | group guarded c body rest, ctx =>
    let call := (ConditionCall.group c body).run ctx
    match call.verdict with
    | .ok () => group guarded c (body.pruned ctx.inner) (rest.pruned call.state)
    | .error _ => rest.pruned call.state

/-- Whether every call of the script is accepted when it runs in a context, those of its groups
    included. -/
def AllAccepted : Script → Context → Prop
  | done, _ => True
  | giveUp _, _ => False
  | add _ c request rest, ctx =>
    let call := (ConditionCall.add c request).run ctx
    call.verdict = .ok () ∧ rest.AllAccepted call.state
  | group _ c body rest, ctx =>
    let call := (ConditionCall.group c body).run ctx
    body.AllAccepted ctx.inner ∧ call.verdict = .ok () ∧ rest.AllAccepted call.state

/-- What pruning is to achieve: a run of accepted calls with the same state at its end. -/
structure Prunes (script pruned : Script) (ctx : Context) : Prop where
  allAccepted : pruned.AllAccepted ctx
  verdict : (pruned.run ctx).verdict = .ok ()
  state : (pruned.run ctx).state = (script.run ctx).state

/-- A group is accepted with pruned calls if it is with all of them, and adds the same. -/
theorem Prunes.group {c : Combinator} {body less : Script} {ctx : Context}
    (h : body.Prunes less ctx.inner) (hbody : (body.run ctx.inner).verdict = .ok ()) :
    ((ConditionCall.group c less).run ctx).verdict = .ok () ∧
      ((ConditionCall.group c less).run ctx).state =
        ((ConditionCall.group c body).run ctx).state := by
  rw [ConditionCall.run, ConditionCall.run, ctx.close_ok c h.verdict, ctx.close_ok c hbody, h.state]
  exact ⟨rfl, rfl⟩

/-- A script whose first call is rejected is pruned as what follows that call. -/
theorem Prunes.skip {script rest less : Script} {ctx : Context} {guarded : Bool}
    {call : Outcome Context} (hrun : script.run ctx = call.andThen guarded rest.run)
    (hok : (script.run ctx).verdict = .ok ()) (hcall : call.state = ctx)
    (h : rest.Prunes less ctx) : script.Prunes less ctx := by
  have hgoes := Outcome.andThen_continues (hrun ▸ hok)
  refine ⟨h.allAccepted, h.verdict, ?_⟩
  rw [hrun, hgoes, hcall]
  exact h.state

/-- A script whose first call is accepted is pruned as a call that does the same and the pruned
    rest. -/
theorem Prunes.keep {script kept rest less : Script} {ctx : Context} {guarded : Bool}
    {call same : Outcome Context} (hrun : script.run ctx = call.andThen guarded rest.run)
    (hkept : kept.run ctx = same.andThen guarded less.run)
    (hok : (script.run ctx).verdict = .ok ()) (hverdict : same.verdict = .ok ())
    (hsame : same.state = call.state) (haccepted : kept.AllAccepted ctx)
    (h : rest.Prunes less call.state) : script.Prunes kept ctx := by
  have hgoes := Outcome.andThen_continues (hrun ▸ hok)
  rw [Outcome.andThen_ok guarded hverdict, hsame] at hkept
  refine ⟨haccepted, ?_, ?_⟩
  · rw [hkept]
    exact h.verdict
  · rw [hkept, hrun, hgoes]
    exact h.state

/-- A script that ends well also does so without its rejected calls, and in the same state. -/
theorem prunes_pruned {script : Script} {ctx : Context}
    (h : (script.run ctx).verdict = .ok ()) : script.Prunes (script.pruned ctx) ctx := by
  induction script generalizing ctx with
  | done => exact ⟨trivial, rfl, rfl⟩
  | giveUp reason => contradiction
  | add guarded c request rest ih =>
    have hrun : (add guarded c request rest).run ctx =
        ((ConditionCall.add c request).run ctx).andThen guarded rest.run := rfl
    have hgoes := Outcome.andThen_continues (hrun ▸ h)
    have hrest : rest.Prunes (rest.pruned ((ConditionCall.add c request).run ctx).state)
        ((ConditionCall.add c request).run ctx).state := ih (by rwa [hrun, hgoes] at h)
    cases hcall : ((ConditionCall.add c request).run ctx).verdict with
    | ok _ =>
      have hpruned : (add guarded c request rest).pruned ctx = add guarded c request
          (rest.pruned ((ConditionCall.add c request).run ctx).state) := by
        simp only [pruned, hcall]
      rw [hpruned]
      exact hrest.keep hrun rfl h hcall rfl ⟨hcall, hrest.allAccepted⟩
    | error reason =>
      have hstate := ConditionCall.state_of_rejected hcall
      have hpruned : (add guarded c request rest).pruned ctx = rest.pruned ctx := by
        simp only [pruned, hcall, hstate]
      rw [hstate] at hrest
      rw [hpruned]
      exact hrest.skip hrun h hstate
  | group guarded c body rest ihb ihr =>
    have hrun : (group guarded c body rest).run ctx =
        ((ConditionCall.group c body).run ctx).andThen guarded rest.run := rfl
    have hgoes := Outcome.andThen_continues (hrun ▸ h)
    have hrest : rest.Prunes (rest.pruned ((ConditionCall.group c body).run ctx).state)
        ((ConditionCall.group c body).run ctx).state := ihr (by rwa [hrun, hgoes] at h)
    cases hcall : ((ConditionCall.group c body).run ctx).verdict with
    | ok _ =>
      have hbody := ConditionCall.body_of_accepted hcall
      have hinner := ihb hbody
      obtain ⟨hverdict, hsame⟩ := hinner.group (c := c) hbody
      have hpruned : (group guarded c body rest).pruned ctx =
          group guarded c (body.pruned ctx.inner)
            (rest.pruned ((ConditionCall.group c body).run ctx).state) := by
        simp only [pruned, hcall]
      have hafter : (rest.pruned ((ConditionCall.group c body).run ctx).state).AllAccepted
          ((ConditionCall.group c (body.pruned ctx.inner)).run ctx).state := by
        rw [hsame]
        exact hrest.allAccepted
      rw [hpruned]
      exact hrest.keep hrun rfl h hverdict hsame ⟨hinner.allAccepted, hverdict, hafter⟩
    | error reason =>
      have hstate := ConditionCall.state_of_rejected hcall
      have hpruned : (group guarded c body rest).pruned ctx = rest.pruned ctx := by
        simp only [pruned, hcall, hstate]
      rw [hstate] at hrest
      rw [hpruned]
      exact hrest.skip hrun h hstate

end Script

/-! ### Statements -/

/-- Whether a call on a statement is accepted, with all calls of its group if it is one. -/
def Call.AllAccepted (s : Statement) (call : Call) : Prop :=
  (s.perform call).verdict = .ok () ∧
    match call with
    | .condition (.group _ body) => body.AllAccepted s.context.inner
    | _ => True

namespace Statement

/-- The call without the rejected calls of its group, if it is one. -/
def prunedCall (s : Statement) : Call → Call
  | .condition (.group c body) => .condition (.group c (body.pruned s.context.inner))
  | call => call

/-- The calls that are accepted when they are made on a statement one after the other, without the
    rejected calls of their groups. -/
def pruned : Statement → List Call → List Call
  | _, [] => []
  | s, call :: calls =>
    match (s.perform call).verdict with
    | .ok () => s.prunedCall call :: pruned (s.perform call).state calls
    | .error _ => pruned (s.perform call).state calls

/-- Whether all calls are accepted when they are made on a statement one after the other, those of
    groups included. -/
def AllAccepted : Statement → List Call → Prop
  | _, [] => True
  | s, call :: calls => call.AllAccepted s ∧ AllAccepted (s.perform call).state calls

theorem settle_of_rejected {α : Type} {s : Statement} {call : Call} {put : α → Statement}
    {part : Checked α} {reason : Rejection}
    (h : (s.settle call put part).verdict = .error reason) :
    (s.settle call put part).state = s := by
  cases part with
  | error _ => rfl
  | ok _ => contradiction

/-- A rejected call on a statement leaves every part of it as it was. -/
theorem state_of_rejected {s : Statement} {call : Call} {reason : Rejection}
    (h : (s.perform call).verdict = .error reason) : (s.perform call).state = s := by
  cases call with
  | condition call =>
    have hcall : (call.run s.context).state = s.context := ConditionCall.state_of_rejected h
    change s.putContext (call.run s.context).state = s
    rw [hcall]
    rfl
  | setDialect d => contradiction
  | configure settings => contradiction
  | _ => exact settle_of_rejected h

/-- An accepted call does the same without the rejected calls of its group. -/
theorem perform_prunedCall {s : Statement} {call : Call} (h : (s.perform call).verdict = .ok ()) :
    (s.prunedCall call).AllAccepted s ∧
      (s.perform (s.prunedCall call)).state = (s.perform call).state := by
  cases call with
  | condition call =>
    cases call with
    | add c request => exact ⟨⟨h, trivial⟩, rfl⟩
    | group c body =>
      have hbody : (body.run s.context.inner).verdict = .ok () := ConditionCall.body_of_accepted h
      have hpruned := Script.prunes_pruned hbody
      obtain ⟨hverdict, hstate⟩ := hpruned.group (c := c) hbody
      exact ⟨⟨hverdict, hpruned.allAccepted⟩, congrArg s.putContext hstate⟩
  | _ => exact ⟨⟨h, trivial⟩, rfl⟩

/-- Pruning a run leaves accepted calls only and the same statement at the end. -/
theorem run_pruned (s : Statement) (calls : List Call) :
    s.AllAccepted (s.pruned calls) ∧ s.run (s.pruned calls) = s.run calls := by
  induction calls generalizing s with
  | nil => exact ⟨trivial, rfl⟩
  | cons call calls ih =>
    have hrest := ih (s.perform call).state
    cases hcall : (s.perform call).verdict with
    | ok _ =>
      obtain ⟨haccepted, hstate⟩ := perform_prunedCall hcall
      have hpruned : s.pruned (call :: calls) =
          s.prunedCall call :: (s.perform call).state.pruned calls := by
        simp only [pruned, hcall]
      rw [hpruned]
      refine ⟨⟨haccepted, ?_⟩, ?_⟩
      · rw [hstate]
        exact hrest.1
      · change (s.perform (s.prunedCall call)).state.run _ = (s.perform call).state.run calls
        rw [hstate, hrest.2]
    | error reason =>
      have hpruned : s.pruned (call :: calls) = s.pruned calls := by
        simp only [pruned, hcall, state_of_rejected hcall]
      have hrun : s.run (call :: calls) = s.run calls :=
        congrArg (fun s : Statement => s.run calls) (state_of_rejected hcall)
      rw [state_of_rejected hcall] at hrest
      rw [hpruned, hrun]
      exact hrest

/-- Rejected calls can be erased. At every point of a run, on a statement or within a group, a
    rejected call leaves all of its state as it was; and the run without the rejected calls, at the
    top and within accepted groups, has accepted calls only and comes to the same statement with the
    same text. -/
theorem rejected_erasable (s : Statement) (calls : List Call) :
    (∀ before call reason, ((s.run before).perform call).verdict = .error reason →
      ((s.run before).perform call).state = s.run before) ∧
    (∀ (ctx : Context) (call : ConditionCall) reason, (call.run ctx).verdict = .error reason →
      (call.run ctx).state = ctx) ∧
    s.AllAccepted (s.pruned calls) ∧
    s.run (s.pruned calls) = s.run calls ∧
    (s.run (s.pruned calls)).sql = (s.run calls).sql := by
  obtain ⟨haccepted, hrun⟩ := run_pruned s calls
  refine ⟨?_, ?_, haccepted, hrun, congrArg sql hrun⟩
  · intro before call reason h
    exact state_of_rejected h
  · intro ctx call reason h
    exact ConditionCall.state_of_rejected h

/-- Calls of which a limit, and a guarded condition within the group, are rejected. -/
def callsWithFaults : List Call :=
  [.fromTables (.one "t".toList), .limit (-1) none,
    .condition (.group .and
      (.add false .and (.equal "a".toList (.int 1))
        (.add true .or (.equal "no column".toList .null) .done)))]

theorem rejected_erasable_callsWithFaults :
    (new.pruned callsWithFaults).length = 2 ∧
      new.AllAccepted (new.pruned callsWithFaults) ∧
      (new.run (new.pruned callsWithFaults)).sql =
        "SELECT * FROM \x60t\x60 WHERE ((\x60a\x60 = 1))".toList :=
  ⟨by decide, (rejected_erasable new callsWithFaults).2.2.1,
    (rejected_erasable new callsWithFaults).2.2.2.2.trans (by decide)⟩

end Statement

end SqlSelect
