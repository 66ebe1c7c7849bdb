import SqlSelect.Proofs.Entries
import SqlSelect.Proofs.Erasure
import SqlSelect.Proofs.Requests

/-!
A call with several items is the sequence of its single calls. A batch is checked as a whole before
anything is added, while single calls check and add one item after the other; yet a batch is
accepted exactly if it has any items and all single calls are, and then both leave the same state.
They may differ in which of several faults is reported: conditions and sort keys are refused for the
first fault, names are first read in full, and only then compared with each other.

        select [a, b],  order_by {c: desc, d: asc}
          ──▶   select a,  add_select b,  order_by c desc,  order_by d asc
-/

namespace SqlSelect

open Checked Outcome

/-! ### Conditions -/

namespace Request

/-- Conditions are added to a tree request by request. -/
theorem addsOneByOne_attachAll (c : Combinator) :
    AddsOneByOne fun (t : Tree) (parts : List (List Predicate)) =>
      .ok (t.attachAll c parts.flatten) where
  nil _ := rfl
  cons t first rest := by
    simp only [Tree.attachAll, List.flatten_cons, List.flatten_nil, List.append_nil,
      List.foldl_append]
    rfl

/-- Wherever calls add the conditions of a request to a tree, a request is the batch of its single
    requests, and rejected for the same reason. -/
theorem batchOf_singles {State Call : Type} (perform : State → Call → Outcome State)
    (embed : Tree → State) (wrap : Request → Call) {cap : Option Nat} {c : Combinator}
    (hcall : ∀ t r,
      Yields embed (do .ok (t.attachAll c (← check cap r))) (perform (embed t) (wrap r)))
    (t : Tree) (request : Request)
    (hrejected : ∀ reason, (perform (embed t) (wrap request)).verdict = .error reason →
      (perform (embed t) (wrap request)).state = embed t) :
    BatchOf perform (embed t) (wrap request) (request.singles.map wrap) ∧
      (request.singles.map wrap ≠ [] → (perform (embed t) (wrap request)).verdict =
        (inTurn perform (embed t) (request.singles.map wrap)).verdict) := by
  have hadd := addsOneByOne_attachAll c
  have hsingle : ∀ t r, Yields embed (do .ok (t.attachAll c [← check cap r].flatten))
      (perform (embed t) (wrap r)) := by
    simpa using hcall
  have hbatch : request.singles ≠ [] →
      Yields embed (do .ok (t.attachAll c (← request.singles.mapM (check cap)).flatten))
        (perform (embed t) (wrap request)) := by
    intro hne
    have hyields := hcall t request
    rw [check_eq_singles cap hne, bind_map_left] at hyields
    exact hyields
  constructor
  · refine .of_items hadd hsingle hbatch ?_ hrejected
    intro hnil
    obtain ⟨reason, hcheck⟩ := check_of_no_singles cap hnil
    have hverdict := (hcall t request).verdict
    rw [hcheck] at hverdict
    exact ⟨reason, hverdict⟩
  · intro hne
    have hne : request.singles ≠ [] := by simpa using hne
    exact verdict_eq_inTurn hadd (fun _ _ => ⟨_, rfl⟩) hsingle (hbatch hne)

end Request

/-- The calls for one condition each that a call on conditions stands for. -/
def ConditionCall.singles : ConditionCall → List ConditionCall
  | add c request => request.singles.map (add c)
  | group c body => [group c body]

/-- A request that is made in a context adds its conditions to the tree. -/
theorem Context.yields_add (ctx : Context) (c : Combinator) (t : Tree) (request : Request) :
    Yields (fun t => { ctx with tree := t }) (do .ok (t.attachAll c (← request.check ctx.cap)))
      (({ ctx with tree := t } : Context).add c request) := by
  rw [add]
  cases request.check ctx.cap with
  | error reason => exact ⟨rfl, fun _ h => by contradiction⟩
  | ok predicates =>
    refine ⟨rfl, fun t' h => ?_⟩
    rw [← Except.ok.inj h]
    rfl

/-- A call on conditions is the batch of its single calls, and rejected for the same reason. -/
theorem ConditionCall.batchOf_singles (call : ConditionCall) (ctx : Context) :
    BatchOf (fun ctx call => run call ctx) ctx call call.singles ∧
      (call.singles ≠ [] → (call.run ctx).verdict =
        (inTurn (fun ctx call => run call ctx) ctx call.singles).verdict) := by
  have hrejected : ∀ reason, (call.run ctx).verdict = .error reason → (call.run ctx).state = ctx :=
    fun _ => state_of_rejected
  cases call with
  | add c request =>
    exact Request.batchOf_singles (fun ctx call => run call ctx) (fun t => { ctx with tree := t })
      (add c) (ctx.yields_add c) ctx.tree request hrejected
  | group c body =>
    refine ⟨.self hrejected, fun _ => ?_⟩
    rw [singles, inTurn_singleton]

/-! ### Sort keys -/

namespace Statement

/-- A checked part is put into the statement. -/
theorem yields_settle {α : Type} (s : Statement) (call : Call) (put : α → Statement)
    (x : Checked α) : Yields put x (s.settle call put x) := by
  cases x with
  | error reason => exact ⟨rfl, nofun⟩
  | ok a => exact ⟨rfl, fun _ h => congrArg put (Except.ok.inj h)⟩

/-- The statement with other sort keys. -/
def withKeys (s : Statement) (keys : List SortKey) : Statement :=
  { s with ordering := keys }

/-- Checked sort keys are added behind those that are there. -/
theorem yields_addKeys (s : Statement) (call : Call) (old : List SortKey)
    (x : Checked (List SortKey)) :
    Yields s.withKeys (do .ok (old ++ (← x)))
      ((s.withKeys old).settle call (s.withKeys old).addKeys x) := by
  cases x with
  | error reason => exact ⟨rfl, nofun⟩
  | ok new =>
    refine ⟨rfl, fun keys h => ?_⟩
    rw [← Except.ok.inj h]
    rfl

/-- A call that adds sort keys is the batch of calls with one key and its direction each, and
    rejected for the same reason. -/
theorem batchOf_keys (s : Statement) {make : Direction → Text → Checked SortKey}
    (order : Names Text → Option Text → Call)
    (horder : ∀ (s : Statement) keys direction, s.perform (order keys direction) =
      s.settle (order keys direction) s.addKeys (SortKey.readAll make keys direction))
    {keys : Names Text} {direction : Option Text}
    (hdirection : ∀ entries, keys = .pairs entries → ∃ d, Direction.ofText? direction = .ok d) :
    let singles := (keys.listed direction).map fun (key, own) => order (.one key) own
    BatchOf perform s (order keys direction) singles ∧
      (singles ≠ [] →
        (s.perform (order keys direction)).verdict = (inTurn perform s singles).verdict) := by
  have hadd : AddsOneByOne fun old new : List SortKey => Except.ok (old ++ new) :=
    ⟨fun old => congrArg Except.ok (List.append_nil old),
      fun old key rest => congrArg Except.ok (List.append_cons old key rest)⟩
  have hcall : ∀ old keys direction,
      Yields s.withKeys (do .ok (old ++ (← SortKey.readAll make keys direction)))
        ((s.withKeys old).perform (order keys direction)) := by
    intro old keys direction
    rw [horder]
    exact yields_addKeys s _ old _
  have hsingle : ∀ old (entry : Text × Option Text),
      Yields s.withKeys (do .ok (old ++ [← SortKey.ofEntry make entry]))
        ((s.withKeys old).perform (order (.one entry.1) entry.2)) := by
    intro old entry
    have hyields := hcall old (.one entry.1) entry.2
    rw [SortKey.readAll_one, bind_assoc] at hyields
    simpa only [pure_bind] using hyields
  have hbatch : keys.listed direction ≠ [] →
      Yields s.withKeys
        (do .ok (s.ordering ++ (← (keys.listed direction).mapM (SortKey.ofEntry make))))
        ((s.withKeys s.ordering).perform (order keys direction)) := by
    intro hne
    rw [← SortKey.readAll_eq make hne hdirection]
    exact hcall s.ordering keys direction
  constructor
  · refine BatchOf.of_items hadd hsingle hbatch ?_ fun _ => state_of_rejected
    intro hnil
    obtain ⟨reason, hread⟩ := SortKey.readAll_of_none make hnil
    have hverdict := (hcall s.ordering keys direction).verdict
    rw [hread] at hverdict
    exact ⟨reason, hverdict⟩
  · intro hne
    have hne : keys.listed direction ≠ [] := by simpa using hne
    exact verdict_eq_inTurn hadd (fun _ _ => ⟨_, rfl⟩) hsingle (hbatch hne)

end Statement

/-! ### Statements -/

namespace Call

/-- The call that adds one table, under an alias if there is one. -/
def addTable : Text × Option Text → Call
  | (name, none) => fromTables (.one name)
  | (aliasName, some name) => fromAliased name aliasName

/-- The single calls that a call stands for. All outputs but the first are added to those before. -/
def singles : Call → List Call
  | select columns =>
    match columns.listed none with
    | [] => []
    | first :: rest => select (.single first) :: rest.map fun entry => addSelect (.single entry)
  | addSelect columns => (columns.listed none).map fun entry => addSelect (.single entry)
  | fromTables tables => (tables.listed none).map addTable
  | condition call => call.singles.map condition
  | orderBy keys direction => (keys.listed direction).map fun (key, own) => orderBy (.one key) own
  | orderByRaw keys direction =>
    (keys.listed direction).map fun (key, own) => orderByRaw (.one key) own
  | call => [call]

/-- Calls whose own direction is left out or can be read, if all sort keys have others. -/
def HasDirection : Call → Prop
  | orderBy (.pairs _) direction => ∃ d, Direction.ofText? direction = .ok d
  | orderByRaw (.pairs _) direction => ∃ d, Direction.ofText? direction = .ok d
  | _ => True

/-- Calls with names that have to stay distinct. -/
def AddsNames : Call → Prop
  | select _ => True
  | addSelect _ => True
  | fromTables _ => True
  | _ => False

end Call

namespace Statement

section Reading

variable {β Part : Type} {ofEntry : Text × Option Text → Checked β}
  {read : Names Text → Checked (List β)} {s : Statement} {call : Call} {put : Part → Statement}
  {add : List β → Checked Part}

/-- A call that reads a single entry and adds it. -/
theorem yields_single (h : Names.ReadBy ofEntry read) (entry : Text × Option Text) :
    Yields put (do add [← ofEntry entry])
      (s.settle call put (do add (← read (.single entry)))) := by
  rw [h.bind_single]
  exact yields_settle _ _ _ _

/-- A call that reads all entries of an argument and adds them. -/
theorem yields_listed (h : Names.ReadBy ofEntry read) {names : Names Text}
    (hne : names.listed none ≠ []) :
    Yields put (do add (← (names.listed none).mapM ofEntry))
      (s.settle call put (do add (← read names))) := by
  rw [← h.each names hne]
  exact yields_settle _ _ _ _

theorem rejected_of_none (h : Names.ReadBy ofEntry read) {names : Names Text}
    (hnil : names.listed none = []) :
    ∃ reason, (s.settle call put (do add (← read names))).verdict = .error reason := by
  obtain ⟨listing, hread⟩ := h.empty names hnil
  rw [hread]
  exact ⟨_, rfl⟩

/-- What is read and then added is refused for a fault of a name just if it cannot be read for this
    fault, where additions find no such faults. -/
theorem settle_eq_fault (hadd : ∀ new fault, add new ≠ .error (.invalidIdentifier fault))
    {x : Checked (List β)} (fault : IdentifierFault) :
    (s.settle call put (do add (← x))).verdict = .error (.invalidIdentifier fault) ↔
      x = .error (.invalidIdentifier fault) := by
  cases x with
  | error reason =>
    exact ⟨fun h => congrArg _ (Except.error.inj h), fun h => congrArg _ (Except.error.inj h)⟩
  | ok new =>
    refine ⟨fun h => ?_, (nomatch ·)⟩
    change (s.settle call put (add new)).verdict = _ at h
    cases hnew : add new with
    | ok part =>
      rw [hnew] at h
      contradiction
    | error reason =>
      rw [hnew] at h
      exact absurd (hnew.trans (congrArg _ (Except.error.inj h))) (hadd new fault)

/-- Items are refused for a fault of a name, whatever names repeat, exactly if one of them is not
    well-formed. -/
theorem malformed_iff (h : Names.ReadBy ofEntry read) {IsName : Text → Prop}
    (hok : ∀ entry, (Item.ofEntry entry).WellFormed IsName ↔ ∃ b, ofEntry entry = .ok b)
    (hfault : ∀ entry reason, ofEntry entry = .error reason →
      ∃ fault, reason = .invalidIdentifier fault)
    (hadd : ∀ new fault, add new ≠ .error (.invalidIdentifier fault)) (names : Names Text) :
    (∃ item ∈ names.items, ¬item.WellFormed IsName) ↔
      ∃ fault, (s.settle call put (do add (← read names))).verdict =
        .error (.invalidIdentifier fault) := by
  rw [h.exists_fault_iff hok hfault]
  exact exists_congr fun fault => (settle_eq_fault hadd fault).symm

end Reading

theorem yields_addSelect (s : Statement) (o : Outputs) (entry : Text × Option Text) :
    Yields s.putOutputs (do o.append [← Names.readEntry Identifier.ofText Output.column entry])
      ((s.putOutputs o).perform (.addSelect (.single entry))) := by
  rw [perform]
  exact yields_single (s := s.putOutputs o) Outputs.readBy_readEntry entry

/-- A call that adds outputs is the batch of calls that add one each. -/
theorem batchOf_addSelect (s : Statement) (columns : Names Text) :
    BatchOf perform s (.addSelect columns) (Call.addSelect columns).singles :=
  .of_items Outputs.addsOneByOne_append s.yields_addSelect
    (yields_listed Outputs.readBy_readEntry) (rejected_of_none Outputs.readBy_readEntry)
    fun _ => state_of_rejected

/-- A call that replaces the outputs is the batch of one that does so with the first of the new ones
    and of calls that add the others. -/
theorem batchOf_select (s : Statement) (columns : Names Text) :
    BatchOf perform s (.select columns) (Call.select columns).singles := by
  have hrejected : ∀ reason, (s.perform (.select columns)).verdict = .error reason →
      (s.perform (.select columns)).state = s := fun _ => state_of_rejected
  rw [Call.singles]
  cases hlisted : columns.listed none with
  | nil => exact .none (rejected_of_none Outputs.readBy_readEntry hlisted) hrejected
  | cons first rest =>
    let readEntry := Names.readEntry Identifier.ofText Output.column
    have hbatch : Yields s.putOutputs (do ({} : Outputs).append (← (first :: rest).mapM readEntry))
        (s.perform (.select columns)) := by
      rw [← hlisted]
      exact yields_listed Outputs.readBy_readEntry (by simp [hlisted])
    have hfirst : Yields s.putOutputs (do ({} : Outputs).append [← readEntry first])
        (s.perform (.select (.single first))) := yields_single Outputs.readBy_readEntry first
    have hturn : Yields s.putOutputs (addEach Outputs.append readEntry {} (first :: rest))
        (inTurn perform s
          (.select (.single first) :: rest.map fun entry => .addSelect (.single entry))) := by
      rw [addEach_cons, inTurn]
      exact hfirst.andThen fun o => yields_inTurn s.yields_addSelect o rest
    exact .of_yields Outputs.addsOneByOne_append (List.cons_ne_nil _ _) hbatch hturn hrejected

theorem yields_addTable (s : Statement) (o : Sources) (entry : Text × Option Text) :
    Yields s.putSources (do o.addTables [← Names.readEntry Segment.parse Source.table entry])
      ((s.putSources o).perform (.addTable entry)) := by
  obtain ⟨name, value⟩ := entry
  cases value with
  | none =>
    rw [Call.addTable, perform]
    exact yields_single (s := s.putSources o) Sources.readBy_readEntry (name, none)
  | some table => exact yields_settle _ _ _ _

/-- A call that adds tables is the batch of calls that add one each. -/
theorem batchOf_fromTables (s : Statement) (tables : Names Text) :
    BatchOf perform s (.fromTables tables) (Call.fromTables tables).singles :=
  .of_items Sources.addsOneByOne_addTables s.yields_addTable
    (yields_listed Sources.readBy_readEntry) (rejected_of_none Sources.readBy_readEntry)
    fun _ => state_of_rejected

/-- A call on conditions is the batch of its single calls, and rejected for the same reason. -/
theorem batchOf_condition (s : Statement) (call : ConditionCall) :
    BatchOf perform s (.condition call) (Call.condition call).singles ∧
      ((Call.condition call).singles ≠ [] → (s.perform (.condition call)).verdict =
        (inTurn perform s (Call.condition call).singles).verdict) := by
  cases call with
  | add c request =>
    have hcall : ∀ (t : Tree) (r : Request),
        Yields (fun t => { s with conditions := t })
          (do .ok (t.attachAll c (← r.check s.context.cap)))
          (({ s with conditions := t } : Statement).perform (.condition (.add c r))) :=
      fun t r => (s.context.yields_add c t r).map s.putContext
    have hbatch := Request.batchOf_singles perform (fun t => { s with conditions := t })
      (fun r => .condition (.add c r)) hcall s.conditions request fun _ => state_of_rejected
    have hsingles : (Call.condition (.add c request)).singles =
        request.singles.map fun r => .condition (.add c r) := by
      rw [Call.singles, ConditionCall.singles, List.map_map]
      rfl
    rw [hsingles]
    exact hbatch
  | group c body =>
    refine ⟨.self fun _ => state_of_rejected, fun _ => ?_⟩
    rw [Call.singles, ConditionCall.singles, List.map_singleton, inTurn_singleton]

/-- Every call is the batch of its single calls, and rejected for the same reason if it adds no
    names. -/
theorem batchOf_singles (s : Statement) (call : Call) (hdirection : call.HasDirection) :
    BatchOf perform s call call.singles ∧
      (¬call.AddsNames → call.singles ≠ [] →
        (s.perform call).verdict = (inTurn perform s call.singles).verdict) := by
  cases call with
  | select columns => exact ⟨s.batchOf_select columns, fun h => absurd trivial h⟩
  | addSelect columns => exact ⟨s.batchOf_addSelect columns, fun h => absurd trivial h⟩
  | fromTables tables => exact ⟨s.batchOf_fromTables tables, fun h => absurd trivial h⟩
  | condition call => exact ⟨(s.batchOf_condition call).1, fun _ => (s.batchOf_condition call).2⟩
  | orderBy keys direction =>
    have hkeys : ∀ entries, keys = .pairs entries → ∃ d, Direction.ofText? direction = .ok d := by
      rintro entries rfl
      exact hdirection
    obtain ⟨hbatch, hverdict⟩ := s.batchOf_keys .orderBy (fun _ _ _ => rfl) hkeys
    exact ⟨hbatch, fun _ => hverdict⟩
  | orderByRaw keys direction =>
    have hkeys : ∀ entries, keys = .pairs entries → ∃ d, Direction.ofText? direction = .ok d := by
      rintro entries rfl
      exact hdirection
    obtain ⟨hbatch, hverdict⟩ := s.batchOf_keys .orderByRaw (fun _ _ _ => rfl) hkeys
    exact ⟨hbatch, fun _ => hverdict⟩
  | _ =>
    exact ⟨.self fun _ => state_of_rejected,
      fun _ _ => congrArg Outcome.verdict (inTurn_singleton s _).symm⟩

/-- Outputs are refused for a fault of a name exactly if one of them is not well-formed. -/
theorem malformed_output_iff (s : Statement) (o : Outputs) (call : Call) (columns : Names Text) :
    (∃ item ∈ columns.items, ¬item.WellFormed Text.IsIdentifier) ↔
      ∃ fault, (s.settle call s.putOutputs (do o.append (← Outputs.read columns))).verdict =
        .error (.invalidIdentifier fault) :=
  malformed_iff Outputs.readBy_readEntry
    (Names.wellFormed_iff_readEntry fun _ => Text.isIdentifier_iff)
    (Names.exists_fault_of_readEntry fun _ _ => Identifier.exists_fault_of_ofText)
    o.append_ne_fault columns

theorem malformed_table_iff (s : Statement) (tables : Names Text) :
    (∃ item ∈ tables.items, ¬item.WellFormed Text.IsSegment) ↔
      ∃ fault, (s.perform (.fromTables tables)).verdict = .error (.invalidIdentifier fault) :=
  malformed_iff Sources.readBy_readEntry
    (Names.wellFormed_iff_readEntry fun _ => Text.isSegment_iff)
    (Names.exists_fault_of_readEntry fun _ _ => Segment.exists_fault_of_parse)
    s.sources.addTables_ne_fault tables

/-- A call with several items is the sequence of its single calls, on statements and in contexts. It
    is accepted exactly if there are any and all of them are accepted one after the other; then both
    leave the same state, and otherwise the call has no effect. Conditions and sort keys are refused
    for the reason of the first single call that is; outputs and tables for a fault of a name
    whenever there is one, whatever names repeat. -/
theorem batches_like_single_calls :
    (∀ (ctx : Context) (call : ConditionCall),
      BatchOf (fun ctx call => call.run ctx) ctx call call.singles ∧
        (call.singles ≠ [] → (call.run ctx).verdict =
          (inTurn (fun ctx call => call.run ctx) ctx call.singles).verdict)) ∧
    (∀ (s : Statement) (call : Call), call.HasDirection →
      BatchOf perform s call call.singles ∧
        (¬call.AddsNames → call.singles ≠ [] →
          (s.perform call).verdict = (inTurn perform s call.singles).verdict)) ∧
    ∀ (s : Statement) (names : Names Text),
      ((∃ item ∈ names.items, ¬item.WellFormed Text.IsIdentifier) ↔
        ∃ fault, (s.perform (.select names)).verdict = .error (.invalidIdentifier fault)) ∧
      ((∃ item ∈ names.items, ¬item.WellFormed Text.IsIdentifier) ↔
        ∃ fault, (s.perform (.addSelect names)).verdict = .error (.invalidIdentifier fault)) ∧
      ((∃ item ∈ names.items, ¬item.WellFormed Text.IsSegment) ↔
        ∃ fault, (s.perform (.fromTables names)).verdict = .error (.invalidIdentifier fault)) := by
  refine ⟨fun ctx call => call.batchOf_singles ctx, batchOf_singles, fun s names => ⟨?_, ?_, ?_⟩⟩
  · exact malformed_output_iff s {} (.select names) names
  · exact malformed_output_iff s s.outputs (.addSelect names) names
  · exact malformed_table_iff s names

/-- A call with three sort keys, of which the second has no direction and the third no column. -/
def sortKeysWithFaults : Call :=
  .orderBy (.pairs [("a".toList, "desc".toList), ("b".toList, "up".toList),
    ("no column".toList, "asc".toList)]) none

/-- The sort keys are refused for the second one, outputs for the one that is no name rather than
    for those that repeat, and outputs that are well-formed and distinct are put out in order. -/
theorem batches_like_single_calls_sortKeysWithFaults :
    let aliased := Call.select (.pairs [("x".toList, "a".toList), ("y".toList, "t.b".toList)])
    sortKeysWithFaults.HasDirection ∧
      (new.perform sortKeysWithFaults).verdict = .error (.invalidDirection "up".toList) ∧
      (∃ fault, (new.perform (.addSelect (.many ["a".toList, "a".toList, "1".toList]))).verdict =
        .error (.invalidIdentifier fault)) ∧
      (new.perform aliased).verdict = .ok () := by
  intro aliased
  obtain ⟨-, hcalls, hnames⟩ := batches_like_single_calls
  have hdirection : sortKeysWithFaults.HasDirection := ⟨default, rfl⟩
  have hkeys := (hcalls new sortKeysWithFaults hdirection).2 id (List.cons_ne_nil _ _)
  have houtputs := (hcalls new aliased trivial).1
  refine ⟨hdirection, hkeys.trans (by decide), ?_, ?_⟩
  · exact (hnames new _).2.1.mp ⟨.named "1".toList none, by simp [Names.items], by decide⟩
  · exact houtputs.accepted_iff.mpr ⟨List.cons_ne_nil _ _, by decide⟩

end Statement

end SqlSelect