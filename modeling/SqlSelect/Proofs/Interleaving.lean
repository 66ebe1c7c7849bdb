import SqlSelect.Proofs.Effects
import SqlSelect.Proofs.Masking

/-!
Calls about different parts of a statement do not touch each other. A call reads and changes one
part only, and its verdict depends on that part alone. So a run may be reordered at will, as long as
the calls about each part stay in their order: every call comes to the same verdict, accepted or
not, and the statement at the end is the same.

        from t,  where a,  select c,  where ?        ──┐
                                                       ├──▶   the same statement, one call rejected
        where a,  where ?,  select c,  from t        ──┘
-/

namespace SqlSelect

/-! ### Parts -/

/-- The parts of a statement that calls are about. The settings go with the conditions, whose checks
    look at the cap on lists of values. -/
inductive Part where
  | outputs | sources | conditions | ordering | window | dialect
  deriving DecidableEq

/-- What a part of a statement holds. -/
def Part.Content : Part → Type
  | outputs => Outputs
  | sources => Sources
  | conditions => Tree × Settings
  | ordering => List SortKey
  | window => Option Window
  | dialect => Dialect

/-- The part that a call is about. -/
def Call.part : Call → Part
  | select _ => .outputs
  | addSelect _ => .outputs
  | addRawSelect _ _ => .outputs
  | fromTables _ => .sources
  | fromAliased _ _ => .sources
  | fromRaw _ _ => .sources
  | join _ _ _ _ => .sources
  | joinTarget _ _ _ _ => .sources
  | condition _ => .conditions
  | orderBy _ _ => .ordering
  | orderByRaw _ _ => .ordering
  | limit _ _ => .window
  | setDialect _ => .dialect
  | configure _ => .conditions

namespace Statement

/-- The content of a part. -/
def part (s : Statement) : (p : Part) → p.Content
  | .outputs => s.outputs
  | .sources => s.sources
  | .conditions => (s.conditions, s.settings)
  | .ordering => s.ordering
  | .window => s.window
  | .dialect => s.dialect

variable {s t : Statement} {p : Part}

/-- A statement is known by its parts. -/
theorem ext_part (h : ∀ p, s.part p = t.part p) : s = t := by
  have houtputs : s.outputs = t.outputs := h .outputs
  have hsources : s.sources = t.sources := h .sources
  obtain ⟨hconditions, hsettings⟩ := Prod.mk.inj (h .conditions)
  have hordering : s.ordering = t.ordering := h .ordering
  have hwindow : s.window = t.window := h .window
  have hdialect : s.dialect = t.dialect := h .dialect
  cases s
  cases t
  simp_all

/-! ### Calls keep to their part -/

/-- The statement with other content in one part. -/
def setPart (s : Statement) : (p : Part) → p.Content → Statement
  | .outputs, outputs => { s with outputs := outputs }
  | .sources, sources => { s with sources := sources }
  | .conditions, (conditions, settings) => { s with conditions := conditions, settings := settings }
  | .ordering, keys => { s with ordering := keys }
  | .window, window => { s with window := window }
  | .dialect, d => { s with dialect := d }

theorem setPart_part (s : Statement) (p : Part) : s.setPart p (s.part p) = s := by
  cases p <;> rfl

theorem part_setPart_of_ne {q : Part} (h : p ≠ q) (content : q.Content) :
    (s.setPart q content).part p = s.part p := by
  cases q <;> cases p <;> first | rfl | exact absurd rfl h

/-- A call sets its own part and leaves all others as they were. -/
theorem perform_eq_setPart (s : Statement) (call : Call) :
    ∃ content, (s.perform call).state = s.setPart call.part content := by
  let I (t : Statement) : Prop := ∃ content, t = s.setPart call.part content
  have hsame : I s := ⟨s.part call.part, (s.setPart_part call.part).symm⟩
  change I (s.perform call).state
  cases call with
  | select _ | addSelect _ | addRawSelect _ _ =>
    exact settle_state hsame fun outputs _ => ⟨outputs, rfl⟩
  | fromTables _ | fromAliased _ _ | fromRaw _ _ | join _ _ _ _ | joinTarget _ _ _ _ =>
    exact settle_state hsame fun sources _ => ⟨sources, rfl⟩
  | condition call => exact ⟨((call.run s.context).state.tree, s.settings), rfl⟩
  | orderBy _ _ | orderByRaw _ _ =>
    exact settle_state hsame fun keys _ => ⟨s.ordering ++ keys, rfl⟩
  | limit _ _ => exact settle_state hsame fun window _ => ⟨some window, rfl⟩
  | setDialect d => exact ⟨d, rfl⟩
  | configure settings => exact ⟨(s.conditions, settings), rfl⟩

theorem part_perform_of_ne (s : Statement) (call : Call) (h : p ≠ call.part) :
    (s.perform call).state.part p = s.part p := by
  obtain ⟨content, hstate⟩ := s.perform_eq_setPart call
  rw [hstate, part_setPart_of_ne h]

/-- Two outcomes on statements with the same verdict that leave a part alike. -/
structure AlikeAt (p : Part) (a b : Outcome Statement) : Prop where
  verdict : a.verdict = b.verdict
  part : a.state.part p = b.state.part p

theorem alikeAt_settle {α : Type} {call : Call} {put put' : α → Statement} {x y : Checked α}
    (h : s.part p = t.part p) (hxy : x = y) (hput : ∀ a, (put a).part p = (put' a).part p) :
    AlikeAt p (s.settle call put x) (t.settle call put' y) := by
  subst hxy
  cases x with
  | error reason => exact ⟨rfl, h⟩
  | ok a => exact ⟨rfl, hput a⟩

/-- Conditions are checked and added in the same context, if this part is alike. -/
theorem context_of_part (h : s.part .conditions = t.part .conditions) : s.context = t.context := by
  obtain ⟨hconditions, hsettings⟩ := Prod.mk.inj h
  rw [context, context, hconditions, hsettings]

/-- The verdict of a call and what becomes of its part depend on that part alone. -/
theorem alikeAt_perform (call : Call) (h : s.part call.part = t.part call.part) :
    AlikeAt call.part (s.perform call) (t.perform call) := by
  cases call with
  | select columns => exact alikeAt_settle h rfl fun _ => rfl
  | addSelect _ | addRawSelect _ _ =>
    have houtputs : s.outputs = t.outputs := h
    exact alikeAt_settle h (by rw [houtputs]) fun _ => rfl
  | fromTables _ | fromAliased _ _ | fromRaw _ _ | join _ _ _ _ | joinTarget _ _ _ _ =>
    have hsources : s.sources = t.sources := h
    exact alikeAt_settle h (by rw [hsources]) fun _ => rfl
  | condition call =>
    have hcontext : s.context = t.context := context_of_part h
    have hsettings : s.settings = t.settings := congrArg Prod.snd h
    refine ⟨congrArg (fun ctx => (call.run ctx).verdict) hcontext, ?_⟩
    change ((call.run s.context).state.tree, s.settings) =
      ((call.run t.context).state.tree, t.settings)
    rw [hcontext, hsettings]
  | orderBy _ _ | orderByRaw _ _ => exact alikeAt_settle h rfl fun keys => congrArg (· ++ keys) h
  | limit count offset => exact alikeAt_settle h rfl fun _ => rfl
  | setDialect d => exact ⟨rfl, rfl⟩
  | configure settings =>
    have hconditions : s.conditions = t.conditions := congrArg Prod.fst h
    exact ⟨rfl, congrArg (·, settings) hconditions⟩

/-- So do the verdicts of the calls within a group. -/
theorem callVerdicts_of_part (call : Call) (h : s.part call.part = t.part call.part) :
    s.callVerdicts call = t.callVerdicts call := by
  unfold callVerdicts
  rw [(alikeAt_perform call h).verdict]
  cases call with
  | condition call => rw [context_of_part h]
  | _ => rfl

/-! ### Runs -/

/-- The verdicts of the calls of a run that are about one part, in order, each with those of the
    calls of its group. -/
def partVerdicts (p : Part) : Statement → List Call → List (List (Checked Unit))
  | _, [] => []
  | s, call :: calls =>
    if call.part = p then s.callVerdicts call :: partVerdicts p (s.perform call).state calls
    else partVerdicts p (s.perform call).state calls

/-- What a run makes of a part, and the verdicts of the calls about it, are those of a run with
    these calls only, on any statement that is alike in this part. -/
theorem run_part (calls : List Call) (h : s.part p = t.part p) :
    (s.run calls).part p = (t.run (calls.filter (·.part = p))).part p ∧
      s.partVerdicts p calls = t.partVerdicts p (calls.filter (·.part = p)) := by
  induction calls generalizing s t with
  | nil => exact ⟨h, rfl⟩
  | cons call calls ih =>
    by_cases hcall : call.part = p
    · subst hcall
      obtain ⟨hrun, hverdicts⟩ := ih (alikeAt_perform call h).part
      rw [List.filter_cons_of_pos (by simp)]
      refine ⟨hrun, ?_⟩
      rw [partVerdicts, partVerdicts, if_pos rfl, if_pos rfl, hverdicts,
        callVerdicts_of_part call h]
    · have hother : (s.perform call).state.part p = t.part p :=
        (part_perform_of_ne s call (Ne.symm hcall)).trans h
      obtain ⟨hrun, hverdicts⟩ := ih hother
      rw [List.filter_cons_of_neg (by simpa using hcall)]
      refine ⟨hrun, ?_⟩
      rw [partVerdicts, if_neg hcall, hverdicts]

/-- Only the order of the calls about the same part matters. Two runs on a statement in which these
    are the same calls in the same order, for each part, come to the same verdicts, call by call and
    within groups, to the same statement and to the same text. -/
theorem interleaving_irrelevant (s : Statement) {a b : List Call}
    (h : ∀ p, a.filter (·.part = p) = b.filter (·.part = p)) :
    (∀ p, s.partVerdicts p a = s.partVerdicts p b) ∧
      s.run a = s.run b ∧ (s.run a).sql = (s.run b).sql := by
  have hverdicts : ∀ p, s.partVerdicts p a = s.partVerdicts p b := by
    intro p
    rw [(run_part (t := s) a rfl).2, (run_part (t := s) b rfl).2, h p]
  have hrun : s.run a = s.run b := by
    refine ext_part fun p => ?_
    rw [(run_part (t := s) a rfl).1, (run_part (t := s) b rfl).1, h p]
  exact ⟨hverdicts, hrun, congrArg sql hrun⟩

/-- Calls about all parts, of which a join, a list of values and a limit are rejected. -/
def callsInTurn : List Call :=
  [.fromTables (.one "t".toList),
    .joinTarget .left (.table "u".toList) "v".toList (.pair "id".toList none "u".toList),
    .configure { maxInList := some 1 },
    .condition (.group .and (.add true .or (.inList false "a".toList [.int 1, .int 2])
      (.add false .or (.equal "b".toList (.text "x".toList)) .done))),
    .select (.one "c".toList),
    .orderBy (.one "c".toList) none,
    .limit 5 none,
    .limit (-1) none,
    .setDialect .mysql]

/-- The same calls, with those about the last parts first. -/
def callsByPart : List Call :=
  [.setDialect .mysql,
    .limit 5 none,
    .limit (-1) none,
    .orderBy (.one "c".toList) none,
    .configure { maxInList := some 1 },
    .condition (.group .and (.add true .or (.inList false "a".toList [.int 1, .int 2])
      (.add false .or (.equal "b".toList (.text "x".toList)) .done))),
    .select (.one "c".toList),
    .fromTables (.one "t".toList),
    .joinTarget .left (.table "u".toList) "v".toList (.pair "id".toList none "u".toList)]

theorem interleaving_irrelevant_callsInTurn :
    (∀ p, callsInTurn.filter (·.part = p) = callsByPart.filter (·.part = p)) ∧
      (new.run callsByPart).sql =
        "SELECT \x60c\x60 FROM \x60t\x60 WHERE ((\x60b\x60 = 'x')) ".toList ++
          "ORDER BY \x60c\x60 ASC LIMIT 5".toList := by
  have h : ∀ p, callsInTurn.filter (·.part = p) = callsByPart.filter (·.part = p) := by
    intro p
    cases p <;> rfl
  exact ⟨h, (interleaving_irrelevant new h).2.2.symm.trans (by decide)⟩

end Statement

end SqlSelect
