import SqlSelect.Condition.Script

/-!
What the calls of a script come to, one by one. A request is either accepted, and its conditions are
added, or it is rejected and leaves the context as it was; so it is with a group and the run of its
own calls. In a sequence, only a rejected call that is not guarded keeps the rest from being made.
-/

namespace SqlSelect

namespace Outcome

variable {State : Type} {first : Outcome State} {rest : State → Outcome State}

/-- A sequence goes on after an accepted call. -/
theorem andThen_ok (guarded : Bool) (h : first.verdict = .ok ()) :
    first.andThen guarded rest =
      { rest first.state with events := first.events ++ (rest first.state).events } := by
  unfold andThen
  rw [h]

/-- A sequence goes on after a guarded call. -/
theorem andThen_guarded :
    first.andThen true rest =
      { rest first.state with events := first.events ++ (rest first.state).events } := by
  unfold andThen
  cases first.verdict <;> rfl

/-- A sequence ends with a rejected call that is not guarded. -/
theorem andThen_error {reason : Rejection} (h : first.verdict = .error reason) :
    first.andThen false rest = first := by
  unfold andThen
  rw [h]

/-- A sequence that ends well has gone on after its first call. -/
theorem andThen_continues {guarded : Bool} (h : (first.andThen guarded rest).verdict = .ok ()) :
    first.andThen guarded rest =
      { rest first.state with events := first.events ++ (rest first.state).events } := by
  cases hv : first.verdict with
  | ok _ => exact andThen_ok guarded hv
  | error reason =>
    cases guarded with
    | true => exact andThen_guarded
    | false =>
      rw [andThen_error hv, hv] at h
      contradiction

end Outcome

namespace Context

/-- A request is accepted and its conditions are added, or it is rejected without any effect. -/
theorem add_cases (ctx : Context) (c : Combinator) (request : Request) :
    (∃ predicates, request.check ctx.cap = .ok predicates ∧
      ctx.add c request = .unchanged { ctx with tree := ctx.tree.attachAll c predicates }) ∨
    ∃ reason, request.check ctx.cap = .error reason ∧
      ctx.add c request = ⟨ctx, .error reason, ctx.report (callName c request.name) reason⟩ := by
  rw [add]
  cases request.check ctx.cap with
  | ok predicates => exact .inl ⟨predicates, rfl, rfl⟩
  | error reason => exact .inr ⟨reason, rfl, rfl⟩

/-- A group is added if its calls end well, and has no effect otherwise. -/
theorem close_cases (ctx : Context) (c : Combinator) (body : Outcome Context) :
    (body.verdict = .ok () ∧ ctx.close c body =
      ⟨{ ctx with tree := ctx.tree.attachGroup c body.state.tree }, .ok (), body.events⟩) ∨
    ∃ reason, body.verdict = .error reason ∧ ctx.close c body =
      ⟨ctx, .error reason,
        body.events ++ ctx.report (callName c "where_group".toList) reason⟩ := by
  rw [close]
  cases body.verdict with
  | ok _ => exact .inl ⟨rfl, rfl⟩
  | error reason => exact .inr ⟨reason, rfl, rfl⟩

theorem close_ok (ctx : Context) (c : Combinator) {body : Outcome Context}
    (h : body.verdict = .ok ()) : ctx.close c body =
      ⟨{ ctx with tree := ctx.tree.attachGroup c body.state.tree }, .ok (), body.events⟩ := by
  rcases ctx.close_cases c body with ⟨-, hclose⟩ | ⟨reason, hrejected, -⟩
  · exact hclose
  · rw [h] at hrejected
    contradiction

end Context

/-- The calls of an accepted group end well. -/
theorem ConditionCall.body_of_accepted {c : Combinator} {body : Script} {ctx : Context}
    (h : ((group c body).run ctx).verdict = .ok ()) : (body.run ctx.inner).verdict = .ok () := by
  rw [run] at h
  rcases ctx.close_cases c (body.run ctx.inner) with ⟨hok, -⟩ | ⟨reason, -, hclose⟩
  · exact hok
  · rw [hclose] at h
    contradiction

/-- A rejected call on a context leaves it as it was. -/
theorem ConditionCall.state_of_rejected {call : ConditionCall} {ctx : Context} {reason : Rejection}
    (h : (call.run ctx).verdict = .error reason) : (call.run ctx).state = ctx := by
  cases call with
  | add c request =>
    rw [run] at h ⊢
    rcases ctx.add_cases c request with ⟨_, -, hadd⟩ | ⟨_, -, hadd⟩
    · rw [hadd] at h
      contradiction
    · rw [hadd]
  | group c body =>
    rw [run] at h ⊢
    rcases ctx.close_cases c (body.run ctx.inner) with ⟨-, hclose⟩ | ⟨_, -, hclose⟩
    · rw [hclose] at h
      contradiction
    · rw [hclose]

end SqlSelect
