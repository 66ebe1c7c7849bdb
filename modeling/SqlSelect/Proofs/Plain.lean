import SqlSelect.Proofs.Effects

/-!
Statements without verbatim SQL. If no call hands in an expression to be printed as it is, then
every output is a column, every source a table, every sort key a column, every condition a test of a
column by values, and every join compares fields of two sources. This is kept call by call, and so
it holds after any run of such calls, accepted or not.
-/

namespace SqlSelect

/-! ### Parts -/

/-- Whether a condition tests a column, or its length, by values. -/
def Predicate.isTest : Predicate → Bool
  | compare (.raw _) _ _ => false
  | columns _ _ _ => false
  | _ => true

/-- Whether a condition compares two columns. -/
def Predicate.isFields : Predicate → Bool
  | columns _ _ _ => true
  | _ => false

/-- Whether an output is a verbatim expression. -/
def Output.isRaw : Output → Bool
  | column _ _ => false
  | raw _ _ => true

/-- Whether a sort key is a verbatim expression. -/
def SortKey.isRaw (key : SortKey) : Bool :=
  match key.expression with
  | .column _ => false
  | .raw _ => true

/-- Conditions of a join: comparisons of columns, added one after the other under one combinator. -/
def Tree.IsJoined (t : Tree) : Prop :=
  ∃ c predicates, predicates ≠ [] ∧ (∀ p ∈ predicates, p.isFields = true) ∧
    t = ({} : Tree).attachAll c predicates

/-- Conditions added to an open group under its own combinator become its last children. -/
theorem Tree.attachAll_group (c : Combinator) (children : List Node)
    (predicates : List Predicate) :
    Tree.attachAll c ⟨some (.group c false children)⟩ predicates =
      ⟨some (.group c false (children ++ predicates.map .leaf))⟩ := by
  induction predicates generalizing children with
  | nil => simp [attachAll]
  | cons p predicates ih =>
    have hattach : Tree.attach c ⟨some (.group c false children)⟩ (.leaf p) =
        ⟨some (.group c false (children ++ [.leaf p]))⟩ := by
      simp [attach, Node.extend]
    change Tree.attachAll c (Tree.attach c ⟨some (.group c false children)⟩ (.leaf p)) _ = _
    rw [hattach, ih, List.append_assoc]
    rfl

/-- Several conditions under one combinator are an open group. -/
theorem Tree.attachAll_cons_cons (c : Combinator) (p q : Predicate) (predicates : List Predicate) :
    ({} : Tree).attachAll c (p :: q :: predicates) =
      ⟨some (.group c false ((p :: q :: predicates).map .leaf))⟩ :=
  attachAll_group c [.leaf p, .leaf q] predicates

/-- The conditions of a join are one comparison or an open group of several. -/
theorem Tree.IsJoined.root_cases {t : Tree} (h : t.IsJoined) :
    (∃ p : Predicate, p.isFields = true ∧ t = ⟨some (.leaf p)⟩) ∨
      ∃ c, ∃ predicates : List Predicate, 2 ≤ predicates.length ∧
        (∀ p ∈ predicates, p.isFields = true) ∧
        t = ⟨some (.group c false (predicates.map .leaf))⟩ := by
  obtain ⟨c, predicates, hne, hall, rfl⟩ := h
  rcases predicates with - | ⟨p, - | ⟨q, predicates⟩⟩
  · exact absurd rfl hne
  · exact .inl ⟨p, hall p (by simp), rfl⟩
  · exact .inr ⟨c, p :: q :: predicates, by simp, hall, attachAll_cons_cons c p q predicates⟩

/-- Statements no part of which is verbatim. -/
structure Statement.IsPlain (s : Statement) : Prop where
  outputs : ∀ o ∈ s.outputs.items, o.isRaw = false
  tables : ∀ t ∈ s.sources.tables, t.isRaw = false
  joins : ∀ j ∈ s.sources.joins, j.target.isRaw = false ∧ j.on.IsJoined
  conditions : s.conditions.Regular fun p => p.isTest = true
  ordering : ∀ key ∈ s.ordering, key.isRaw = false

/-! ### Calls -/

/-- Whether a request compares a verbatim expression. -/
def Request.isRaw : Request → Bool
  | raw _ _ _ => true
  | _ => false

/-- Whether the target of a join is a verbatim expression. -/
def JoinTarget.isRaw : JoinTarget → Bool
  | raw _ _ => true
  | _ => false

/-- Calls that hand in no verbatim expression. -/
def Call.IsPlain : Call → Prop
  | addRawSelect _ _ => False
  | fromRaw _ _ => False
  | join _ target _ _ => target.isRaw = false
  | joinTarget _ target _ _ => target.isRaw = false
  | condition call => call.Uses fun request => request.isRaw = false
  | orderByRaw _ _ => False
  | _ => True

/-! ### Checks of requests -/

open Checked

theorem Predicate.isTest_comparing {column operator : Text} {value : Literal} {p : Predicate}
    (h : comparing column operator value = .ok p) : p.isTest = true := by
  simp only [comparing, bind_eq_ok, pure_eq_ok] at h
  obtain ⟨_, -, _, -, _, -, rfl⟩ := h
  rfl

theorem Predicate.isTest_matching {w : Wildcards} {negated : Bool} {column : Text}
    {value : Literal} {p : Predicate} (h : matching w negated column value = .ok p) :
    p.isTest = true := by
  simp only [matching, bind_eq_ok, pure_eq_ok] at h
  obtain ⟨_, -, _, -, rfl⟩ := h
  rfl

theorem Predicate.isTest_testingNull {negated : Bool} {column : Text} {p : Predicate}
    (h : testingNull negated column = .ok p) : p.isTest = true := by
  simp only [testingNull, bind_eq_ok, pure_eq_ok] at h
  obtain ⟨_, -, rfl⟩ := h
  rfl

theorem Predicate.isTest_listing {cap : Option Nat} {negated : Bool} {column : Text}
    {values : List Literal} {p : Predicate} (h : listing cap negated column values = .ok p) :
    p.isTest = true := by
  simp only [listing, bind_eq_ok, pure_eq_ok] at h
  obtain ⟨_, -, _, -, _, -, rfl⟩ := h
  rfl

theorem Predicate.isTest_measuring {column operator : Text} {value : Literal} {p : Predicate}
    (h : measuring column operator value = .ok p) : p.isTest = true := by
  simp only [measuring, bind_eq_ok] at h
  obtain ⟨_, -, _, -, h⟩ := h
  split at h
  · rw [← pure_eq_ok.mp h]
    rfl
  · simp at h

/-- A property of the conditions of all entries of a mapping, one by one. -/
theorem Request.forall_mem_each {α : Type} {check : Text → α → Checked Predicate}
    {P : Predicate → Prop} (hcheck : ∀ column value p, check column value = .ok p → P p)
    {pairs : List (Text × α)} {predicates : List Predicate}
    (h : each check pairs = .ok predicates) : ∀ p ∈ predicates, P p := by
  simp only [each, bind_eq_ok] at h
  obtain ⟨checked, hchecked, h⟩ := h
  split at h
  · simp at h
  · rw [← pure_eq_ok.mp h]
    exact forall_mem_of_mapM (fun pair p hp => hcheck _ _ p hp) hchecked

/-- A property of the one condition of a request. -/
theorem Request.forall_mem_single {x : Checked Predicate} {P : Predicate → Prop}
    (hx : ∀ p, x = .ok p → P p) {predicates : List Predicate}
    (h : (do return [← x] : Checked (List Predicate)) = .ok predicates) :
    ∀ p ∈ predicates, P p := by
  simp only [bind_eq_ok, pure_eq_ok] at h
  obtain ⟨p, hp, rfl⟩ := h
  simpa using hx p hp

/-- A property that each of the six checks gives its condition is one of all conditions of a
    request. -/
theorem Request.forall_mem_check {P : Predicate → Prop} {cap : Option Nat} {request : Request}
    (comparing : ∀ {column operator value p},
      Predicate.comparing column operator value = .ok p → P p)
    (comparingRaw : request.isRaw = true → ∀ {expression operator value p},
      Predicate.comparingRaw expression operator value = .ok p → P p)
    (matching : ∀ {w negated column value p},
      Predicate.matching w negated column value = .ok p → P p)
    (testingNull : ∀ {negated column p}, Predicate.testingNull negated column = .ok p → P p)
    (listing : ∀ {negated column values p},
      Predicate.listing cap negated column values = .ok p → P p)
    (measuring : ∀ {column operator value p},
      Predicate.measuring column operator value = .ok p → P p)
    {predicates : List Predicate} (h : request.check cap = .ok predicates) :
    ∀ p ∈ predicates, P p := by
  cases request with
  | raw expression operator value => exact forall_mem_single (fun _ => comparingRaw rfl) h
  | equal column value => exact forall_mem_single (fun _ => comparing) h
  | compare column operator value => exact forall_mem_single (fun _ => comparing) h
  | equalEach pairs =>
    rw [check] at h
    exact forall_mem_each (fun _ _ _ => comparing) h
  | null negated columns =>
    simp only [check, bind_eq_ok] at h
    obtain ⟨names, -, h⟩ := h
    exact forall_mem_of_mapM (fun _ _ => testingNull) h
  | pattern w negated column value => exact forall_mem_single (fun _ => matching) h
  | patternEach w negated pairs =>
    rw [check] at h
    exact forall_mem_each (fun _ _ _ => matching) h
  | inList negated column values => exact forall_mem_single (fun _ => listing) h
  | inListEach negated pairs =>
    rw [check] at h
    exact forall_mem_each (fun _ _ _ => listing) h
  | length column value => exact forall_mem_single (fun _ => measuring) h
  | compareLength column operator value => exact forall_mem_single (fun _ => measuring) h
  | lengthEach pairs =>
    rw [check] at h
    exact forall_mem_each (fun _ _ _ => measuring) h

/-- A request that is not verbatim yields tests of columns. -/
theorem Request.isTest_of_check (cap : Option Nat) (request : Request)
    (predicates : List Predicate) (hraw : request.isRaw = false)
    (h : request.check cap = .ok predicates) : ∀ p ∈ predicates, p.isTest = true := by
  refine forall_mem_check Predicate.isTest_comparing ?_ Predicate.isTest_matching
    Predicate.isTest_testingNull Predicate.isTest_listing Predicate.isTest_measuring h
  intro hverbatim
  rw [hraw] at hverbatim
  contradiction

/-! ### Parts that calls add -/

theorem Output.isRaw_ofColumn {column : Text} {o : Output} (h : ofColumn column = .ok o) :
    o.isRaw = false := by
  simp only [ofColumn, bind_eq_ok, pure_eq_ok] at h
  obtain ⟨_, -, rfl⟩ := h
  rfl

theorem Output.isRaw_ofAliased {column aliasName : Text} {o : Output}
    (h : ofAliased column aliasName = .ok o) : o.isRaw = false := by
  simp only [ofAliased, bind_eq_ok, pure_eq_ok] at h
  obtain ⟨_, -, _, -, rfl⟩ := h
  rfl

/-- The columns that an argument names are no verbatim expressions. -/
theorem Outputs.isRaw_read {columns : Names Text} {items : List Output}
    (h : read columns = .ok items) : ∀ o ∈ items, o.isRaw = false := by
  cases columns with
  | one column =>
    simp only [read, bind_eq_ok, pure_eq_ok] at h
    obtain ⟨o, ho, rfl⟩ := h
    simpa using Output.isRaw_ofColumn ho
  | many columns =>
    rw [read] at h
    split at h
    · simp at h
    · exact forall_mem_of_mapM (fun _ _ => Output.isRaw_ofColumn) h
  | pairs entries =>
    rw [read] at h
    split at h
    · simp at h
    · exact forall_mem_of_mapM (fun _ _ => Output.isRaw_ofAliased) h

theorem Source.isRaw_ofName {name : Text} {t : Source} (h : ofName name = .ok t) :
    t.isRaw = false := by
  simp only [ofName, bind_eq_ok, pure_eq_ok] at h
  obtain ⟨_, -, rfl⟩ := h
  rfl

theorem Source.isRaw_ofAliased {name aliasName : Text} {t : Source}
    (h : ofAliased name aliasName = .ok t) : t.isRaw = false := by
  simp only [ofAliased, bind_eq_ok, pure_eq_ok] at h
  obtain ⟨_, -, _, -, rfl⟩ := h
  rfl

/-- The tables that an argument names are no verbatim expressions. -/
theorem Sources.isRaw_read {tables : Names Text} {items : List Source}
    (h : read tables = .ok items) : ∀ t ∈ items, t.isRaw = false := by
  cases tables with
  | one table =>
    simp only [read, bind_eq_ok, pure_eq_ok] at h
    obtain ⟨t, ht, rfl⟩ := h
    simpa using Source.isRaw_ofName ht
  | many tables =>
    rw [read] at h
    split at h
    · simp at h
    · exact forall_mem_of_mapM (fun _ _ => Source.isRaw_ofName) h
  | pairs entries =>
    rw [read] at h
    split at h
    · simp at h
    · exact forall_mem_of_mapM (fun _ _ => Source.isRaw_ofAliased) h

theorem JoinTarget.isRaw_read {target : JoinTarget} (hraw : target.isRaw = false) {t : Source}
    (h : target.read = .ok t) : t.isRaw = false := by
  cases target with
  | table name => exact Source.isRaw_ofName h
  | aliased name aliasName => exact Source.isRaw_ofAliased h
  | raw expression aliasName => simp [isRaw] at hraw

/-- The conditions of a join are comparisons of fields. -/
theorem JoinFields.isJoined_build {fields : JoinFields} {target near : Segment} {on : Tree}
    (h : fields.build target near = .ok on) : on.IsJoined := by
  obtain ⟨pairs, operator, hne, -, -, rfl⟩ := build_eq_ok.mp h
  refine ⟨fields.combinator, _, ?_, ?_, rfl⟩
  · simpa using hne
  · intro p hp
    obtain ⟨pair, -, rfl⟩ := List.mem_map.mp hp
    rfl

theorem SortKey.isRaw_ofColumn {direction : Direction} {column : Text} {key : SortKey}
    (h : ofColumn direction column = .ok key) : key.isRaw = false := by
  simp only [ofColumn, bind_eq_ok, pure_eq_ok] at h
  obtain ⟨_, -, rfl⟩ := h
  rfl

/-- The columns that an argument of a sort names are no verbatim expressions. -/
theorem SortKey.isRaw_readAll {columns : Names Text} {direction : Option Text}
    {keys : List SortKey} (h : readAll ofColumn columns direction = .ok keys) :
    ∀ key ∈ keys, key.isRaw = false := by
  simp only [readAll, bind_eq_ok] at h
  obtain ⟨common, -, h⟩ := h
  cases columns with
  | one column =>
    simp only [bind_eq_ok, pure_eq_ok] at h
    obtain ⟨key, hkey, rfl⟩ := h
    simpa using isRaw_ofColumn hkey
  | many columns =>
    simp only at h
    split at h
    · simp at h
    · exact forall_mem_of_mapM (fun _ _ => isRaw_ofColumn) h
  | pairs entries =>
    simp only at h
    split at h
    · simp at h
    · refine forall_mem_of_mapM ?_ h
      intro entry key hkey
      obtain ⟨_, -, hkey⟩ := bind_eq_ok.mp hkey
      exact isRaw_ofColumn hkey

/-! ### Statements -/

namespace Statement

variable {s : Statement}

theorem isPlain_withDialect (d : Dialect) : (withDialect d).IsPlain where
  outputs := by simp [withDialect]
  tables := by simp [withDialect]
  joins := by simp [withDialect]
  conditions := Tree.Regular.empty
  ordering := by simp [withDialect]

theorem IsPlain.putOutputs (hs : s.IsPlain) {o : Outputs} {items new : List Output}
    (hitems : ∀ i ∈ items, i.isRaw = false) (hnew : ∀ i ∈ new, i.isRaw = false)
    (h : Outputs.append ⟨items⟩ new = .ok o) : (s.putOutputs o).IsPlain := by
  obtain ⟨-, rfl⟩ := Outputs.append_eq_ok.mp h
  exact { hs with outputs := List.forall_mem_append.mpr ⟨hitems, hnew⟩ }

theorem IsPlain.addTables (hs : s.IsPlain) {sources : Sources} {new : List Source}
    (hnew : ∀ t ∈ new, t.isRaw = false) (h : s.sources.addTables new = .ok sources) :
    (s.putSources sources).IsPlain := by
  obtain ⟨-, rfl⟩ := Sources.addTables_eq_ok.mp h
  exact { hs with tables := List.forall_mem_append.mpr ⟨hs.tables, hnew⟩ }

theorem IsPlain.addJoin (hs : s.IsPlain) {sources : Sources} {kind : JoinKind} {target : Source}
    {localTable : Text} {fields : JoinFields} (htarget : target.isRaw = false)
    (h : s.sources.addJoin kind target localTable fields = .ok sources) :
    (s.putSources sources).IsPlain := by
  obtain ⟨near, on, -, -, hon, rfl⟩ := Sources.addJoin_eq_ok.mp h
  refine { hs with joins := List.forall_mem_append.mpr ⟨hs.joins, ?_⟩ }
  intro j hj
  rw [List.mem_singleton.mp hj]
  exact ⟨htarget, JoinFields.isJoined_build hon⟩

/-- A call without verbatim SQL leaves a plain statement plain. -/
theorem IsPlain.perform (hs : s.IsPlain) {call : Call} (hc : call.IsPlain) :
    (s.perform call).state.IsPlain := by
  cases call with
  | addRawSelect expression aliasName => exact hc.elim
  | fromRaw expression aliasName => exact hc.elim
  | orderByRaw expressions direction => exact hc.elim
  | select columns =>
    refine settle_state hs fun o h => ?_
    obtain ⟨new, hnew, h⟩ := bind_eq_ok.mp h
    exact hs.putOutputs (by simp) (Outputs.isRaw_read hnew) h
  | addSelect columns =>
    refine settle_state hs fun o h => ?_
    obtain ⟨new, hnew, h⟩ := bind_eq_ok.mp h
    exact hs.putOutputs hs.outputs (Outputs.isRaw_read hnew) h
  | fromTables tables =>
    refine settle_state hs fun o h => ?_
    obtain ⟨new, hnew, h⟩ := bind_eq_ok.mp h
    exact hs.addTables (Sources.isRaw_read hnew) h
  | fromAliased table aliasName =>
    refine settle_state hs fun o h => ?_
    obtain ⟨t, ht, h⟩ := bind_eq_ok.mp h
    exact hs.addTables (by simpa using Source.isRaw_ofAliased ht) h
  | join kind target localTable fields =>
    exact settle_state hs fun o h => hs.addJoin hc h
  | joinTarget kind target localTable fields =>
    refine settle_state hs fun o h => ?_
    obtain ⟨t, ht, h⟩ := bind_eq_ok.mp h
    exact hs.addJoin (JoinTarget.isRaw_read hc ht) h
  | condition call =>
    exact { hs with
      conditions := ConditionCall.run_regular Request.isTest_of_check hc hs.conditions }
  | orderBy columns direction =>
    refine settle_state hs fun keys h => ?_
    have hkeys := SortKey.isRaw_readAll h
    exact { hs with ordering := List.forall_mem_append.mpr ⟨hs.ordering, hkeys⟩ }
  | limit count offset => exact settle_state hs fun window _ => { hs with }
  | setDialect d => exact { hs with }
  | configure settings => exact { hs with }

/-- A run of calls without verbatim SQL leaves a plain statement plain. -/
theorem IsPlain.run (hs : s.IsPlain) {calls : List Call} (hc : ∀ call ∈ calls, call.IsPlain) :
    (s.run calls).IsPlain := by
  induction calls generalizing s with
  | nil => exact hs
  | cons call calls ih =>
    exact ih (hs.perform (hc call (by simp))) fun c h => hc c (List.mem_cons_of_mem _ h)

end Statement

end SqlSelect
