import SqlSelect.Proofs.Accumulation
import SqlSelect.Proofs.Grammar
import SqlSelect.Proofs.Masking

/-!
Conditions mean the same at every depth. A call on conditions is judged by the cap on lists of
values alone: neither the tree so far, nor the calls before it, nor the depth of the groups around
it matter, for every group hands its own cap on. So the calls of a script come to the same verdicts
on a statement and in a group, and the group has the text of the conditions in one more pair of
parentheses.

        on a statement:   where a,  or b               a OR b
        in a group:       where_group (a,  or b)      (a OR b)
-/

namespace SqlSelect

/-! ### Places -/

/-- How a script starts: with a call, which may be guarded, and the rest of the script. -/
inductive Script.Starts : Script → Bool → ConditionCall → Script → Prop where
  | add (guarded : Bool) (c : Combinator) (request : Request) (rest : Script) :
    Starts (.add guarded c request rest) guarded (.add c request) rest
  | group (guarded : Bool) (c : Combinator) (body rest : Script) :
    Starts (.group guarded c body rest) guarded (.group c body) rest

/-- The calls that are made while a script runs in a context, at any depth, each with the context in
    which it is made. -/
inductive Script.Makes : Script → Context → ConditionCall → Context → Prop where
  | here {script rest : Script} {ctx : Context} {guarded : Bool} {call : ConditionCall} :
    script.Starts guarded call rest → Makes script ctx call ctx
  | inside {script body rest : Script} {ctx place : Context} {guarded : Bool} {c : Combinator}
    {call : ConditionCall} : script.Starts guarded (.group c body) rest →
    Makes body ctx.inner call place → Makes script ctx call place
  | later {script rest : Script} {ctx place : Context} {guarded : Bool}
    {first call : ConditionCall} : script.Starts guarded first rest →
    (guarded = true ∨ (first.run ctx).verdict = .ok ()) →
    Makes rest (first.run ctx).state call place → Makes script ctx call place

namespace ConditionCall

/-- Calls keep the cap that they are made under. -/
theorem cap_run (call : ConditionCall) (ctx : Context) : (call.run ctx).state.cap = ctx.cap := by
  rw [(call.describes_run ctx).state]

/-- The verdict of a call depends on the cap alone. -/
theorem verdict_of_cap (call : ConditionCall) {ctx ctx' : Context} (h : ctx'.cap = ctx.cap) :
    (call.run ctx').verdict = (call.run ctx).verdict := by
  rw [(call.describes_run ctx').verdict, (call.describes_run ctx).verdict, h]

end ConditionCall

namespace Script

/-- The cap is the same at every depth and at every point of a script. -/
theorem Makes.cap {script : Script} {ctx place : Context} {call : ConditionCall}
    (h : script.Makes ctx call place) : place.cap = ctx.cap := by
  induction h with
  | here _ => rfl
  | inside _ _ ih => exact ih
  | @later _ _ ctx _ _ first _ _ _ _ ih => exact ih.trans (first.cap_run ctx)

/-- The verdicts of all calls of a script depend on the cap alone. -/
theorem verdicts_of_cap (script : Script) {ctx ctx' : Context} (h : ctx'.cap = ctx.cap) :
    script.verdicts ctx' = script.verdicts ctx := by
  induction script generalizing ctx ctx' with
  | done => rfl
  | giveUp reason => rfl
  | add guarded c request rest ih =>
    let call : ConditionCall := .add c request
    have hverdict : (ctx'.add c request).verdict = (ctx.add c request).verdict :=
      call.verdict_of_cap h
    have hrest : rest.verdicts (ctx'.add c request).state =
        rest.verdicts (ctx.add c request).state :=
      ih ((call.cap_run ctx').trans (h.trans (call.cap_run ctx).symm))
    rw [verdicts, verdicts]
    simp only [hverdict, hrest]
  | group guarded c body rest ihb ihr =>
    let call : ConditionCall := .group c body
    have hbody : body.verdicts ctx'.inner = body.verdicts ctx.inner := ihb h
    have hverdict : (ctx'.close c (body.run ctx'.inner)).verdict =
        (ctx.close c (body.run ctx.inner)).verdict := call.verdict_of_cap h
    have hrest : rest.verdicts (ctx'.close c (body.run ctx'.inner)).state =
        rest.verdicts (ctx.close c (body.run ctx.inner)).state :=
      ihr ((call.cap_run ctx').trans (h.trans (call.cap_run ctx).symm))
    rw [verdicts, verdicts, hbody]
    simp only [hverdict, hrest]

/-! ### Scripts on statements -/

/-- Makes the calls of a script on a statement itself. -/
def follow : Script → Statement → Outcome Statement
  | done, s => .unchanged s
  | giveUp reason, s => ⟨s, .error reason, []⟩
  | add guarded c request rest, s =>
    (s.perform (.condition (.add c request))).andThen guarded rest.follow
  | group guarded c body rest, s =>
    (s.perform (.condition (.group c body))).andThen guarded rest.follow

/-- The verdicts of all calls that a script makes on a statement itself, those within a group before
    that of the group. -/
def followVerdicts : Script → Statement → List (Checked Unit)
  | done, _ => []
  | giveUp _, _ => []
  | add guarded c request rest, s =>
    let call := s.perform (.condition (.add c request))
    s.callVerdicts (.condition (.add c request)) ++
      if guarded || call.verdict.isOk then rest.followVerdicts call.state else []
  | group guarded c body rest, s =>
    let call := s.perform (.condition (.group c body))
    s.callVerdicts (.condition (.group c body)) ++
      if guarded || call.verdict.isOk then rest.followVerdicts call.state else []

end Script

/-- A sequence of calls on a part goes like the sequence on the whole, if what follows does. -/
theorem Outcome.andThen_map {State State' : Type} {embed : State → State'} {first : Outcome State}
    {rest : State → Outcome State} {rest' : State' → Outcome State'} (guarded : Bool)
    (h : rest' (embed first.state) = (rest first.state).map embed) :
    (first.map embed).andThen guarded rest' = (first.andThen guarded rest).map embed := by
  have hboth : ({ rest' (embed first.state) with
      events := first.events ++ (rest' (embed first.state)).events } : Outcome State') =
      Outcome.map embed
        { rest first.state with events := first.events ++ (rest first.state).events } := by
    rw [h]
    rfl
  cases hv : first.verdict with
  | ok _ =>
    have hv' : (first.map embed).verdict = .ok () := hv
    rw [andThen_ok guarded hv, andThen_ok guarded hv']
    exact hboth
  | error reason =>
    cases guarded with
    | true =>
      rw [andThen_guarded, andThen_guarded]
      exact hboth
    | false =>
      have hv' : (first.map embed).verdict = .error reason := hv
      rw [andThen_error hv, andThen_error hv']

/-- After a call on conditions, the statement offers the context that the call has left. -/
theorem Statement.context_perform (s : Statement) (call : ConditionCall) :
    (s.perform (.condition call)).state.context = (call.run s.context).state := by
  change (s.putContext (call.run s.context).state).context = _
  rw [(call.describes_run s.context).state]
  rfl

namespace Script

/-- A script on a statement does what it does in the context of the statement. -/
theorem follow_eq (script : Script) (s : Statement) :
    script.follow s = (script.run s.context).map s.putContext := by
  induction script generalizing s with
  | done => rfl
  | giveUp reason => rfl
  | add guarded c request rest ih =>
    have hcontext := s.context_perform (.add c request)
    have hrest := ih (s.perform (.condition (.add c request))).state
    rw [hcontext] at hrest
    exact Outcome.andThen_map guarded hrest
  | group guarded c body rest ihb ihr =>
    have hcontext := s.context_perform (.group c body)
    have hrest := ihr (s.perform (.condition (.group c body))).state
    rw [hcontext] at hrest
    exact Outcome.andThen_map guarded hrest

theorem followVerdicts_eq (script : Script) (s : Statement) :
    script.followVerdicts s = script.verdicts s.context := by
  induction script generalizing s with
  | done => rfl
  | giveUp reason => rfl
  | add guarded c request rest ih =>
    rw [followVerdicts, verdicts]
    simp only [ih, s.context_perform]
    rfl
  | group guarded c body rest ihb ihr =>
    rw [followVerdicts, verdicts]
    simp only [ihr, s.context_perform]
    change (body.verdicts s.context.inner ++ [_]) ++ _ = _
    rw [List.append_assoc]
    rfl

end Script

/-! ### Groups -/

/-- A group is accepted or rejected as the script that it runs. -/
theorem ConditionCall.verdict_group (c : Combinator) (body : Script) (ctx : Context) :
    ((group c body).run ctx).verdict = (body.run ctx.inner).verdict := by
  rw [run]
  rcases ctx.close_cases c (body.run ctx.inner) with ⟨hok, hclose⟩ | ⟨reason, hrejected, hclose⟩
  · rw [hclose, hok]
  · rw [hclose, hrejected]

/-- A group of some steps is written as these in one more pair of parentheses. -/
theorem Step.textAll_ofGroup (d : Dialect) (c : Combinator) {steps : List Step} (h : steps ≠ []) :
    textAll d (ofGroup c steps) = '(' :: textAll d steps ++ [')'] := by
  cases steps with
  | nil => exact absurd rfl h
  | cons first rest => rfl

namespace Statement

variable {s t : Statement}

/-- On statements under the same cap, calls on conditions come to the same verdicts. -/
theorem callVerdicts_of_cap (h : t.settings.maxInList = s.settings.maxInList)
    (call : ConditionCall) :
    t.callVerdicts (.condition call) = s.callVerdicts (.condition call) := by
  have hcall : (t.perform (.condition call)).verdict = (s.perform (.condition call)).verdict :=
    call.verdict_of_cap h
  unfold callVerdicts
  rw [hcall]
  cases call with
  | add c request => rfl
  | group c body =>
    have hbody : body.verdicts t.context.inner = body.verdicts s.context.inner :=
      body.verdicts_of_cap h
    simp only [hbody]

/-- The verdicts of a group are those of its script on a statement, and then that of the script. -/
theorem callVerdicts_group (h : t.settings.maxInList = s.settings.maxInList) (c : Combinator)
    (script : Script) :
    t.callVerdicts (.condition (.group c script)) =
      script.followVerdicts s ++ [(script.follow s).verdict] := by
  have hverdict : ((ConditionCall.group c script).run s.context).verdict =
      (script.follow s).verdict := by
    rw [ConditionCall.verdict_group, script.follow_eq,
      (script.describes_run s.context.inner).verdict]
    exact (script.describes_run s.context).verdict.symm
  have hbody : script.verdicts s.context = script.verdicts s.context.inner :=
    script.verdicts_of_cap rfl
  rw [callVerdicts_of_cap h, script.followVerdicts_eq, hbody, ← hverdict]
  rfl

/-- The conditions after a script that is followed to a good end. -/
theorem conditions_follow (script : Script) (s : Statement) :
    (script.follow s).state.conditions =
      s.conditions.addSteps (script.trace s.settings.maxInList).steps := by
  rw [script.follow_eq]
  exact congrArg Context.tree (script.describes_run s.context).state

/-- The conditions after a group whose script ends well. -/
theorem conditions_group (c : Combinator) {script : Script}
    (h : (script.trace s.settings.maxInList).verdict = .ok ()) :
    (s.perform (.condition (.group c script))).state.conditions =
      s.conditions.addSteps (Step.ofGroup c (script.trace s.settings.maxInList).steps) := by
  rw [conditions_perform, Call.steps, ConditionCall.trace, Trace.close, h]

/-- A group on a statement without conditions has the text of its script on such a statement in one
    more pair of parentheses, if the script ends well and leaves any conditions. -/
theorem render_group (h : t.settings.maxInList = s.settings.maxInList)
    (hs : s.hasConditions = false) (ht : t.hasConditions = false) (c : Combinator) {script : Script}
    (hok : (script.follow s).verdict = .ok ())
    (hsome : (script.follow s).state.hasConditions = true) (d : Dialect) :
    (t.perform (.condition (.group c script))).state.conditions.render d =
      '(' :: (script.follow s).state.conditions.render d ++ [')'] := by
  have hverdict : (script.trace s.settings.maxInList).verdict = .ok () := by
    rw [script.follow_eq] at hok
    exact (script.describes_run s.context).verdict.symm.trans hok
  have hfollow := conditions_follow script s
  rw [s.eq_empty_of_hasConditions hs] at hfollow
  have hsteps : (script.trace s.settings.maxInList).steps ≠ [] := by
    intro hnil
    rw [hasConditions, hfollow, hnil] at hsome
    contradiction
  rw [conditions_group c (h ▸ hverdict), t.eq_empty_of_hasConditions ht, h, hfollow,
    Step.render_addSteps, Step.render_addSteps, Step.textAll_ofGroup d c hsteps]

end Statement

/-! ### Lists of values -/

/-- A list is refused for its length only under a cap below it. -/
theorem Predicate.checkSize_eq_long {cap : Option Nat} {column : Text} {size limit : Nat} :
    checkSize cap column size = .error (.invalidArgument (.longInList column size limit)) ↔
      cap = some limit ∧ limit < size := by
  unfold checkSize
  split
  · next hzero => simp [hzero]
  · cases cap with
    | none => simp
    | some most =>
      by_cases hlong : most < size
      · simp only [if_pos hlong, Except.error.injEq, Rejection.invalidArgument.injEq,
          ArgumentFault.longInList.injEq, true_and, Option.some.injEq]
        exact ⟨fun h => ⟨h, h ▸ hlong⟩, And.left⟩
      · simp only [if_neg hlong, reduceCtorEq, Option.some.injEq, false_iff]
        rintro ⟨rfl, h⟩
        exact hlong h

/-- Values are refused only for being no finite numbers. -/
theorem Literal.exists_text_of_forM {values : List Literal} {reason : Rejection}
    (h : values.forM validate = .error reason) :
    ∃ text, reason = .invalidArgument (.notFinite text) := by
  induction values with
  | nil => contradiction
  | cons value values ih =>
    rcases Checked.bind_eq_error.mp h with hvalue | ⟨-, -, hrest⟩
    · cases value with
      | float x =>
        simp only [validate] at hvalue
        split at hvalue
        · contradiction
        · exact ⟨_, (Except.error.inj hvalue).symm⟩
      | _ => contradiction
    · exact ih hrest

namespace Predicate

variable {cap : Option Nat} {column : Text} {values : List Literal} {limit : Nat}

/-- Membership in a list is refused for the length of the list exactly if the column can be read and
    the cap is below this length. -/
theorem listing_eq_long (negated : Bool) :
    listing cap negated column values =
        .error (.invalidArgument (.longInList column values.length limit)) ↔
      column.IsIdentifier ∧ cap = some limit ∧ limit < values.length := by
  constructor
  · intro h
    rcases Checked.bind_eq_error.mp h with hname | ⟨name, hname, h⟩
    · obtain ⟨fault, hfault⟩ := Identifier.exists_fault_of_ofText hname
      contradiction
    · obtain rfl := Identifier.ofText_eq_ok.mp hname
      rcases Checked.bind_eq_error.mp h with hsize | ⟨-, -, h⟩
      · exact ⟨name.isIdentifier_text, checkSize_eq_long.mp hsize⟩
      · rcases Checked.bind_eq_error.mp h with hvalues | ⟨-, -, h⟩
        · obtain ⟨text, htext⟩ := Literal.exists_text_of_forM hvalues
          exact nomatch Rejection.invalidArgument.inj htext
        · contradiction
  · rintro ⟨hcolumn, hlong⟩
    obtain ⟨name, rfl⟩ := hcolumn.exists_identifier
    exact Checked.bind_eq_error.mpr (.inr ⟨name, Identifier.ofText_eq_ok.mpr rfl,
      Checked.bind_eq_error.mpr (.inl (checkSize_eq_long.mpr hlong))⟩)

end Predicate

/-- A call for membership in a list is refused for the length of the list exactly if the column can
    be read and the cap is below this length. -/
theorem ConditionCall.verdict_eq_long (c : Combinator) (negated : Bool) (column : Text)
    (values : List Literal) (limit : Nat) (ctx : Context) :
    ((add c (.inList negated column values)).run ctx).verdict =
        .error (.invalidArgument (.longInList column values.length limit)) ↔
      column.IsIdentifier ∧ ctx.cap = some limit ∧ limit < values.length := by
  rw [← Predicate.listing_eq_long negated, (describes_run _ ctx).verdict, trace,
    Trace.ofRequest, Request.check]
  cases Predicate.listing ctx.cap negated column values with
  | ok p => exact ⟨(nomatch ·), (nomatch ·)⟩
  | error reason =>
    exact ⟨fun h => congrArg _ (Except.error.inj h), fun h => congrArg _ (Except.error.inj h)⟩

/-! ### Every depth -/

/-- A statement without any parts, under a cap on lists of values. -/
def Statement.withCap (cap : Option Nat) : Statement where
  settings := { maxInList := cap }

/-- Conditions mean the same at every depth. A call comes to the verdict that it has on a statement
    without any parts under the same cap, whatever statement it is made on, and wherever in a script
    it is made. So a script comes to the same verdicts on a statement and in a group, call by call;
    if it ends well and leaves any conditions, the group has their text in one more pair of
    parentheses. In particular a list of values is refused for its length by the cap on the
    statement, however deep it stands. -/
theorem conditions_same_at_every_depth :
    (∀ (s : Statement) (call : ConditionCall),
      s.callVerdicts (.condition call) =
        (Statement.withCap s.settings.maxInList).callVerdicts (.condition call)) ∧
    (∀ (script : Script) (ctx place : Context) (call : ConditionCall),
      script.Makes ctx call place →
        (call.run place).verdict =
          ((Statement.withCap ctx.cap).perform (.condition call)).verdict) ∧
    (∀ (s t : Statement) (c : Combinator) (script : Script),
      t.settings.maxInList = s.settings.maxInList →
        t.callVerdicts (.condition (.group c script)) =
            script.followVerdicts s ++ [(script.follow s).verdict] ∧
          (s.hasConditions = false → t.hasConditions = false →
            (script.follow s).verdict = .ok () →
            (script.follow s).state.hasConditions = true →
              ∀ d : Dialect,
                (t.perform (.condition (.group c script))).state.conditions.render d =
                  '(' :: (script.follow s).state.conditions.render d ++ [')'])) ∧
    ∀ (script : Script) (ctx place : Context) (c : Combinator) (negated : Bool) (column : Text)
      (values : List Literal) (limit : Nat),
      script.Makes ctx (.add c (.inList negated column values)) place →
        (((ConditionCall.add c (.inList negated column values)).run place).verdict =
            .error (.invalidArgument (.longInList column values.length limit)) ↔
          column.IsIdentifier ∧ ctx.cap = some limit ∧ limit < values.length) := by
  refine ⟨?_, ?_, ?_, ?_⟩
  · intro s call
    let t := Statement.withCap s.settings.maxInList
    have hcap : s.settings.maxInList = t.settings.maxInList := rfl
    exact Statement.callVerdicts_of_cap hcap call
  · intro script ctx place call hmakes
    exact call.verdict_of_cap hmakes.cap
  · intro s t c script hcap
    exact ⟨Statement.callVerdicts_group hcap c script,
      fun hs ht hok hsome d => Statement.render_group hcap hs ht c hok hsome d⟩
  · intro script ctx place c negated column values limit hmakes
    rw [ConditionCall.verdict_eq_long, hmakes.cap]

/-- A script with a group in which a list of two values is guarded, an alternative after the group,
    and a guarded call on no column. -/
def scriptWithLists : Script :=
  .group false .and
    (.add true .and (.inList false "a".toList [.int 1, .int 2])
      (.add false .or (.inList true "b".toList [.int 3]) .done))
    (.add true .and (.null false (.one "no column".toList))
      (.add false .or (.equal "c".toList (.int 4)) .done))

/-- Under a cap of one, the list of two values is refused within the group as everywhere. -/
theorem conditions_same_at_every_depth_scriptWithLists :
    ((Statement.withCap (some 1)).perform
        (.condition (.group .or scriptWithLists))).state.conditions.render .ansi =
      "((\x60b\x60 NOT IN (3)) OR \x60c\x60 = 4)".toList ∧
    ∃ place, scriptWithLists.Makes (Statement.withCap (some 1)).context
        (.add .and (.inList false "a".toList [.int 1, .int 2])) place ∧
      ((ConditionCall.add .and (.inList false "a".toList [.int 1, .int 2])).run place).verdict =
        .error (.invalidArgument (.longInList "a".toList 2 1)) := by
  obtain ⟨-, -, hgroup, hlists⟩ := conditions_same_at_every_depth
  have hmakes : scriptWithLists.Makes (Statement.withCap (some 1)).context
      (.add .and (.inList false "a".toList [.int 1, .int 2]))
      (Statement.withCap (some 1)).context.inner :=
    .inside (.group _ _ _ _) (.here (.add _ _ _ _))
  refine ⟨?_, _, hmakes, ?_⟩
  · have hrender := (hgroup (.withCap (some 1)) (.withCap (some 1)) .or scriptWithLists rfl).2
      rfl rfl rfl rfl .ansi
    exact hrender.trans (by decide)
  · exact (hlists _ _ _ _ _ _ _ _ hmakes).mpr (by decide)

end SqlSelect
