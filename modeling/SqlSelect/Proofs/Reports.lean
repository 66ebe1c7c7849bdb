import Mathlib.Data.List.Forall2
import SqlSelect.Proofs.Calls
import SqlSelect.Proofs.Methods

/-!
What the log holds after a run. Groups run their calls in nested contexts, which are silent; so a
rejection is reported by the outermost call alone, however deep it arose and wherever it was dropped
on the way, and under the name of the method that made that call. Texts are reported when a
statement is rendered and its settings ask for it, and at no other time.

        where_group (a,  guarded ?,  or_where_group (b, ?))     ──▶   one event: where_group, ?
-/

namespace SqlSelect

/-! ### Events -/

/-- Events that report the rejection of a call under a name. -/
structure Event.Reports (e : Event) (name : Text) (reason : Rejection) : Prop where
  target : e.target = "sqlqb.builder".toList
  level : e.level = .debug
  fields : e.fields =
    [("op".toList, name), ("kind".toList, reason.kind.label), ("error".toList, reason.message),
      ("message".toList, "sqlqb rejected call".toList)]

/-- Events that report the text of a statement, shortened as its settings say. -/
structure Event.Shows (e : Event) (s : Statement) : Prop where
  target : e.target = "sqlqb.sql".toList
  level : e.level = s.settings.sqlLevel
  fields : e.fields =
    [("connection".toList, s.dialect.name),
      ("sql".toList, s.sql.shortened s.settings.maxSqlLength), ("message".toList, "sqlqb".toList)]

/-- Outcomes that report nothing if they are accepted, and otherwise what `report` says about the
    reason. -/
structure Outcome.Emits {State : Type} (o : Outcome State) (report : Rejection → List Event) :
    Prop where
  accepted : o.verdict = .ok () → o.events = []
  rejected : ∀ reason, o.verdict = .error reason → o.events = report reason

/-- Outcomes that report a rejection once, under a name, and nothing else. -/
structure Outcome.ReportsOnce {State : Type} (o : Outcome State) (name : Text) : Prop where
  accepted : o.verdict = .ok () → o.events = []
  rejected : ∀ reason, o.verdict = .error reason → ∃ e, o.events = [e] ∧ e.Reports name reason

namespace Outcome.Emits

variable {State : Type} {o : Outcome State} {report : Rejection → List Event}

theorem of_accepted (hverdict : o.verdict = .ok ()) (hevents : o.events = []) : o.Emits report := by
  refine ⟨fun _ => hevents, fun reason h => ?_⟩
  rw [hverdict] at h
  contradiction

theorem of_rejected {reason : Rejection} (hverdict : o.verdict = .error reason)
    (hevents : o.events = report reason) : o.Emits report := by
  refine ⟨fun h => ?_, fun other h => ?_⟩
  · rw [hverdict] at h
    contradiction
  · rw [hverdict] at h
    rw [hevents, Except.error.inj h]

end Outcome.Emits

/-! ### Nested contexts -/

/-- Outcomes on nested contexts that report nothing. -/
structure Context.Silent (o : Outcome Context) : Prop where
  events : o.events = []
  nested : o.state.nested = true

namespace Context

variable {ctx : Context}

/-- A nested context reports no rejection. -/
theorem report_nested (h : ctx.nested = true) (name : Text) (reason : Rejection) :
    ctx.report name reason = [] := by
  rw [report, if_pos h]

theorem silent_add (h : ctx.nested = true) (c : Combinator) (request : Request) :
    Silent (ctx.add c request) := by
  rcases ctx.add_cases c request with ⟨predicates, -, hadd⟩ | ⟨reason, -, hadd⟩
  · rw [hadd]
    exact ⟨rfl, h⟩
  · rw [hadd]
    exact ⟨report_nested h _ reason, h⟩

theorem silent_close (h : ctx.nested = true) (c : Combinator) {body : Outcome Context}
    (hbody : body.events = []) : Silent (ctx.close c body) := by
  rcases ctx.close_cases c body with ⟨-, hclose⟩ | ⟨reason, -, hclose⟩
  · rw [hclose]
    exact ⟨hbody, h⟩
  · rw [hclose]
    refine ⟨?_, h⟩
    change body.events ++ ctx.report _ reason = []
    rw [hbody, report_nested h, List.append_nil]

/-- A sequence is silent if its first call is, and if the rest is on every nested context. -/
theorem Silent.andThen (guarded : Bool) {first : Outcome Context}
    {rest : Context → Outcome Context} (hfirst : Silent first)
    (hrest : ∀ ctx : Context, ctx.nested = true → Silent (rest ctx)) :
    Silent (first.andThen guarded rest) := by
  have hnext := hrest first.state hfirst.nested
  have hboth : Silent
      { rest first.state with events := first.events ++ (rest first.state).events } := by
    refine ⟨?_, hnext.nested⟩
    change first.events ++ (rest first.state).events = []
    rw [hfirst.events, hnext.events, List.append_nil]
  cases hv : first.verdict with
  | ok _ =>
    rw [Outcome.andThen_ok guarded hv]
    exact hboth
  | error reason =>
    cases guarded with
    | true =>
      rw [Outcome.andThen_guarded]
      exact hboth
    | false =>
      rw [Outcome.andThen_error hv]
      exact hfirst

end Context

/-- A script in a nested context reports nothing, whatever is rejected in it and in its groups. -/
theorem Script.silent_run (script : Script) {ctx : Context} (h : ctx.nested = true) :
    Context.Silent (script.run ctx) := by
  induction script generalizing ctx with
  | done => exact ⟨rfl, h⟩
  | giveUp reason => exact ⟨rfl, h⟩
  | add guarded c request rest ih =>
    exact (Context.silent_add h c request).andThen guarded fun _ => ih
  | group guarded c body rest ihb ihr =>
    have hbody : Context.Silent (body.run ctx.inner) := ihb rfl
    exact (Context.silent_close h c hbody.events).andThen guarded fun _ => ihr

namespace ConditionCall

/-- An accepted call on conditions reports nothing, and a rejected one what its own context does. -/
theorem emits_run (call : ConditionCall) (ctx : Context) :
    (call.run ctx).Emits (ctx.report call.name) := by
  cases call with
  | add c request =>
    rw [run]
    rcases ctx.add_cases c request with ⟨predicates, -, hadd⟩ | ⟨reason, -, hadd⟩
    · rw [hadd]
      exact .of_accepted rfl rfl
    · rw [hadd]
      exact .of_rejected rfl rfl
  | group c body =>
    have hbody : (body.run ctx.inner).events = [] := (body.silent_run rfl).events
    rw [run]
    rcases ctx.close_cases c (body.run ctx.inner) with ⟨-, hclose⟩ | ⟨reason, -, hclose⟩
    · rw [hclose]
      exact .of_accepted rfl hbody
    · rw [hclose, hbody]
      exact .of_rejected rfl rfl

/-- A call on a nested context is silent. -/
theorem silent_run (call : ConditionCall) {ctx : Context} (h : ctx.nested = true) :
    Context.Silent (call.run ctx) := by
  cases call with
  | add c request => exact Context.silent_add h c request
  | group c body => exact Context.silent_close h c (body.silent_run rfl).events

end ConditionCall

namespace Context

/-- The events of calls on a context that are made one after the other. -/
def log : Context → List ConditionCall → List Event
  | _, [] => []
  | ctx, call :: calls => (call.run ctx).events ++ log (call.run ctx).state calls

/-- Calls on a nested context leave nothing in the log. -/
theorem log_nested {ctx : Context} (h : ctx.nested = true) (calls : List ConditionCall) :
    ctx.log calls = [] := by
  induction calls generalizing ctx with
  | nil => rfl
  | cons call calls ih =>
    have hcall := call.silent_run h
    rw [log, hcall.events, ih hcall.nested, List.append_nil]

end Context

/-! ### Statements -/

/-- What is done with a statement: a call is made on it, or it is rendered. -/
inductive Action where
  | make (call : Call)
  | render

/-- The call that an action makes, if it makes one. -/
def Action.call? : Action → Option Call
  | make call => some call
  | render => none

namespace Statement

/-- The outcome of an action; rendering is always accepted and leaves the statement as it is. -/
def act (s : Statement) : Action → Outcome Statement
  | .make call => s.perform call
  | .render => ⟨s, .ok (), s.sqlEvents⟩

/-- The statement after some actions. -/
def after (s : Statement) (actions : List Action) : Statement :=
  actions.foldl (fun s action => (s.act action).state) s

/-- The events of actions on a statement one after the other. -/
def log : Statement → List Action → List Event
  | _, [] => []
  | s, action :: actions => (s.act action).events ++ log (s.act action).state actions

/-- The methods of the rejected calls among some actions, with the reasons of their rejections. -/
def rejections : Statement → List Action → List (Text × Rejection)
  | _, [] => []
  | s, .render :: actions => rejections s actions
  | s, .make call :: actions =>
    match (s.perform call).verdict with
    | .ok () => rejections (s.perform call).state actions
    | .error reason => (call.method.toList, reason) :: rejections (s.perform call).state actions

/-- The statements that are rendered among some actions while their settings ask for a report. -/
def shown : Statement → List Action → List Statement
  | _, [] => []
  | s, .render :: actions => if s.settings.logSql then s :: shown s actions else shown s actions
  | s, .make call :: actions => shown (s.perform call).state actions

theorem emits_settle {α : Type} (s : Statement) (call : Call) (put : α → Statement)
    (part : Checked α) :
    (s.settle call put part).Emits fun reason => [.rejected call.name reason] := by
  cases part with
  | ok a => exact .of_accepted rfl rfl
  | error reason => exact .of_rejected rfl rfl

/-- An accepted call reports nothing, and a rejected one the method that made it. -/
theorem emits_perform (s : Statement) (call : Call) :
    (s.perform call).Emits fun reason => [.rejected call.method.toList reason] := by
  rw [← call.name_eq_method]
  cases call with
  | condition call =>
    obtain ⟨haccepted, hrejected⟩ := call.emits_run s.context
    exact ⟨haccepted, hrejected⟩
  | setDialect d => exact .of_accepted rfl rfl
  | configure settings => exact .of_accepted rfl rfl
  | _ => exact emits_settle s _ _ _

theorem reportsOnce_perform (s : Statement) (call : Call) :
    (s.perform call).ReportsOnce call.method.toList := by
  obtain ⟨haccepted, hrejected⟩ := s.emits_perform call
  exact ⟨haccepted, fun reason hv => ⟨_, hrejected reason hv, rfl, rfl, rfl⟩⟩

/-- Rendering reports the text exactly if the settings ask for it. -/
theorem events_render (s : Statement) :
    (s.settings.logSql = false → (s.act .render).events = []) ∧
      (s.settings.logSql = true → ∃ e, (s.act .render).events = [e] ∧ e.Shows s) := by
  change (_ → s.sqlEvents = []) ∧ (_ → ∃ e, s.sqlEvents = [e] ∧ e.Shows s)
  unfold sqlEvents
  refine ⟨fun h => by rw [h]; rfl, fun h => ?_⟩
  rw [if_pos h]
  exact ⟨_, rfl, rfl, rfl, rfl⟩

/-- Rendering changes nothing: the statement after some actions is that after their calls. -/
theorem after_eq_run (s : Statement) (actions : List Action) :
    s.after actions = s.run (actions.filterMap Action.call?) := by
  induction actions generalizing s with
  | nil => rfl
  | cons action actions ih =>
    cases action with
    | make call => exact ih (s.perform call).state
    | render => exact ih s

/-- The log holds one report for each rejected call and one for each text that is to be shown. -/
theorem log_split (s : Statement) (actions : List Action) :
    List.Forall₂ (fun e rejection => e.Reports rejection.1 rejection.2)
        ((s.log actions).filter (·.target = "sqlqb.builder".toList)) (s.rejections actions) ∧
      List.Forall₂ Event.Shows
        ((s.log actions).filter (·.target = "sqlqb.sql".toList)) (s.shown actions) := by
  induction actions generalizing s with
  | nil => exact ⟨.nil, .nil⟩
  | cons action actions ih =>
    rw [log, List.filter_append, List.filter_append]
    cases action with
    | make call =>
      obtain ⟨hreports, hshows⟩ := ih (s.perform call).state
      obtain ⟨haccepted, hrejected⟩ := s.emits_perform call
      rw [rejections, shown]
      change List.Forall₂ _ ((s.perform call).events.filter _ ++ _) _ ∧
        List.Forall₂ _ ((s.perform call).events.filter _ ++ _) _
      cases hv : (s.perform call).verdict with
      | ok _ =>
        rw [haccepted hv]
        exact ⟨hreports, hshows⟩
      | error reason =>
        rw [hrejected reason hv]
        exact ⟨.cons ⟨rfl, rfl, rfl⟩ hreports, hshows⟩
    | render =>
      obtain ⟨hreports, hshows⟩ := ih s
      rw [rejections, shown]
      change List.Forall₂ _ (s.sqlEvents.filter _ ++ _) _ ∧
        List.Forall₂ _ (s.sqlEvents.filter _ ++ _) _
      unfold sqlEvents
      split
      · exact ⟨hreports, .cons ⟨rfl, rfl, rfl⟩ hshows⟩
      · exact ⟨hreports, hshows⟩

/-- Each rejected call is reported exactly once, by the outermost call, the name of whose method the
    report has with the reason that is returned, and an accepted call reports nothing; contexts that
    stand by themselves report nothing at all; and rendering changes nothing and reports the text
    once if the settings ask for it, and not otherwise. So the log of a run holds the reports of the
    rejected calls, one for each, in order, and likewise those of the texts. -/
theorem rejections_reported_once :
    (∀ (s : Statement) (call : Call), (s.perform call).ReportsOnce call.method.toList) ∧
    (∀ calls : List ConditionCall, Context.standalone.log calls = []) ∧
    (∀ s : Statement, (s.settings.logSql = false → (s.act .render).events = []) ∧
      (s.settings.logSql = true → ∃ e, (s.act .render).events = [e] ∧ e.Shows s)) ∧
    ∀ (s : Statement) (actions : List Action),
      s.after actions = s.run (actions.filterMap Action.call?) ∧
      List.Forall₂ (fun e rejection => e.Reports rejection.1 rejection.2)
        ((s.log actions).filter (·.target = "sqlqb.builder".toList)) (s.rejections actions) ∧
      List.Forall₂ Event.Shows
        ((s.log actions).filter (·.target = "sqlqb.sql".toList)) (s.shown actions) :=
  ⟨reportsOnce_perform, Context.log_nested rfl, events_render,
    fun s actions => ⟨s.after_eq_run actions, s.log_split actions⟩⟩

/-- A group within a group, in which one rejected call is dropped and a second one is not. -/
def nestedFaults : Call :=
  .condition (.group .or
    (.add true .and (.equal "no column".toList .null)
      (.group false .or (.add false .and (.compare "b".toList "===".toList (.int 2)) .done) .done)))

/-- A pattern for a column whose name has a blank in it. -/
def misnamedPattern : Call :=
  .condition (.add .or (.pattern .after true "no column".toList (.text "x".toList)))

/-- A mapping that has a list without values in it. -/
def emptyMembership : Call :=
  .condition (.add .and (.inListEach true [("a".toList, [.int 1]), ("b".toList, [])]))

/-- A join of an expression onto a table that is not there. -/
def orphanedExpression : Call :=
  .joinTarget .inner (.raw "SELECT 1".toList "t".toList) "a".toList
    (.pair "x".toList none "y".toList)

/-- A statement whose texts are logged up to eight bytes. -/
def loggedStatement : Statement :=
  { settings := { logSql := true, sqlLevel := .info, maxSqlLength := some 8 } }

theorem rejections_reported_once_nestedFaults :
    (loggedStatement.perform nestedFaults).verdict = .error (.invalidOperator "===".toList) ∧
      (∃ e, (loggedStatement.perform nestedFaults).events = [e] ∧
        e.Reports "or_where_group".toList (.invalidOperator "===".toList)) ∧
      (∃ e, (loggedStatement.perform misnamedPattern).events = [e] ∧
        e.Reports "or_where_not_starts_with".toList
          (.invalidIdentifier (.badCharacter ' ' "no column".toList))) ∧
      (∃ e, (loggedStatement.perform emptyMembership).events = [e] ∧
        e.Reports "where_not_in_map".toList (.invalidArgument (.emptyInList "b".toList))) ∧
      (∃ e, (loggedStatement.perform orphanedExpression).events = [e] ∧
        e.fields = [("op".toList, "raw_inner_join".toList), ("kind".toList, "orphaned_join".toList),
          ("error".toList, "Orphaned join: local table 'a' is not registered ".toList ++
            "(joining 't')".toList),
          ("message".toList, "sqlqb rejected call".toList)]) ∧
      (loggedStatement.perform (.condition (.group .and
        (.add true .and (.inList false "a".toList []) .done)))).events = [] ∧
      loggedStatement.settings.logSql = true ∧
      (∃ e, (loggedStatement.act .render).events = [e] ∧ e.Shows loggedStatement) ∧
      new.settings.logSql = false ∧ (new.act .render).events = [] := by
  obtain ⟨hreported, -, hrendered, -⟩ := rejections_reported_once
  refine ⟨by decide, ?_, ?_, ?_, ?_, ?_, rfl, ?_, rfl, ?_⟩
  · exact (hreported loggedStatement nestedFaults).rejected _ (by decide)
  · exact (hreported loggedStatement misnamedPattern).rejected _ (by decide)
  · exact (hreported loggedStatement emptyMembership).rejected _ (by decide)
  · obtain ⟨e, hevents, he⟩ := (hreported loggedStatement orphanedExpression).rejected
      (.orphanedJoin "t".toList "a".toList) (by decide)
    exact ⟨e, hevents, he.fields.trans (by decide)⟩
  · exact (hreported loggedStatement _).accepted (by decide)
  · exact (hrendered loggedStatement).2 rfl
  · exact (hrendered new).1 rfl

end Statement

end SqlSelect
