import Mathlib.Data.List.Nodup
import Mathlib.Data.Set.List
import SqlSelect.Proofs.Effects
import SqlSelect.Proofs.Grammar

/-!
Effective names stay distinct, and nothing but a repeated name is refused. Outputs have one space of
names and tables with joins another one. A batch of well-formed items is checked against the names
in use and against itself; it is added whole and in order if no name repeats, and otherwise the first
name that is taken is reported.
-/

namespace SqlSelect

/-! ### Taken names -/

/-- The first name of a batch that is taken: it is in use or repeats an earlier name of the batch,
    and up to there nothing repeats. -/
def IsFirstTaken (used new : List Text) (name : Text) : Prop :=
  ∃ before after, new = before ++ name :: after ∧ (name ∈ used ∨ name ∈ before) ∧
    (used ++ before).Nodup

/-- No name is taken just if the names in use and the new ones have no repeats. -/
theorem firstTaken_eq_none {used new : List Text} (hused : used.Nodup) :
    firstTaken used new = none ↔ (used ++ new).Nodup := by
  induction new generalizing used with
  | nil => simpa [firstTaken] using hused
  | cons name rest ih =>
    rw [firstTaken, List.perm_middle.nodup_iff]
    split
    · next hmem => simp [hmem]
    · next hmem => exact ih (List.nodup_cons.mpr ⟨hmem, hused⟩)

/-- The name that is reported is the first one that is taken. -/
theorem isFirstTaken_of_eq_some {used new : List Text} {name : Text} (hused : used.Nodup)
    (h : firstTaken used new = some name) : IsFirstTaken used new name := by
  induction new generalizing used with
  | nil => simp [firstTaken] at h
  | cons first rest ih =>
    rw [firstTaken] at h
    split at h
    · next hmem =>
      obtain rfl := Option.some.inj h
      exact ⟨[], rest, rfl, .inl hmem, by simpa using hused⟩
    · next hmem =>
      obtain ⟨before, after, rfl, htaken, hnodup⟩ := ih (List.nodup_cons.mpr ⟨hmem, hused⟩) h
      refine ⟨first :: before, after, rfl, ?_, List.perm_middle.nodup_iff.mpr hnodup⟩
      rcases htaken with htaken | htaken
      · rcases List.mem_cons.mp htaken with rfl | htaken
        · exact .inr List.mem_cons_self
        · exact .inl htaken
      · exact .inr (List.mem_cons_of_mem _ htaken)

/-! ### Items as they are written -/

/-- An output column or a source as callers write it: a name, which may have an alias, or verbatim
    SQL under an alias. -/
inductive Item where
  | named (name : Text) (aliasName : Option Text)
  | raw (expression aliasName : Text)

namespace Item

/-- The alias if there is one, and otherwise the name as it is written. -/
def effectiveName : Item → Text
  | named name aliasName => aliasName.getD name
  | raw _ aliasName => aliasName

/-- Items that can be read, where names of the kind of the item are those that satisfy `IsName`. -/
def WellFormed (IsName : Text → Prop) : Item → Prop
  | named name aliasName => IsName name ∧ ∀ shown ∈ aliasName, Text.IsSegment shown
  | raw expression aliasName => Text.allBlank expression = false ∧ aliasName.IsSegment

instance {IsName : Text → Prop} [DecidablePred IsName] : DecidablePred (WellFormed IsName)
  | named name aliasName =>
    inferInstanceAs (Decidable (IsName name ∧ ∀ shown ∈ aliasName, Text.IsSegment shown))
  | raw expression aliasName =>
    inferInstanceAs (Decidable (Text.allBlank expression = false ∧ aliasName.IsSegment))

end Item

/-- The items that an argument names; the names of a mapping are aliases. -/
def Names.items : Names Text → List Item
  | one name => [.named name none]
  | many names => names.map fun name => .named name none
  | pairs entries => entries.map fun (aliasName, name) => .named name (some aliasName)

/-- The output column as callers write it. -/
def Output.item : Output → Item
  | column name aliasName => .named name.text (aliasName.map Segment.text)
  | raw expression aliasName => .raw expression aliasName.text

/-- The source as callers write it. -/
def Source.item : Source → Item
  | table name aliasName => .named name.text (aliasName.map Segment.text)
  | raw expression aliasName => .raw expression aliasName.text

theorem Output.effectiveName_item (o : Output) : o.item.effectiveName = o.effectiveName := by
  rcases o with ⟨name, _ | aliasName⟩ | ⟨expression, aliasName⟩ <;> rfl

theorem Source.effectiveName_item (t : Source) : t.item.effectiveName = t.effectiveName.text := by
  rcases t with ⟨name, _ | aliasName⟩ | ⟨expression, aliasName⟩ <;> rfl

/-! ### Reading items -/

open Checked

/-- An alias that is well-formed, if there is one, is the text of a segment. -/
theorem exists_alias {aliasName : Option Text} (h : ∀ shown ∈ aliasName, Text.IsSegment shown) :
    ∃ shown : Option Segment, shown.map Segment.text = aliasName := by
  cases aliasName with
  | none => exact ⟨none, rfl⟩
  | some text =>
    obtain ⟨shown, rfl⟩ := (h text rfl).exists_segment
    exact ⟨some shown, rfl⟩

/-- A list of names is read as the items that are written so, if each name is. -/
theorem mapM_of_items {α β : Type} {read : α → Checked β} {item : β → Item} {entry : α → Item}
    (hread : ∀ a b, item b = entry a → read a = .ok b) {written : List α} {new : List β}
    (h : new.map item = written.map entry) : written.mapM read = .ok new := by
  have hall : List.Forall₂ Eq (written.map entry) (new.map item) := by
    rw [List.forall₂_eq_eq_eq, h]
  rw [List.forall₂_map_left_iff, List.forall₂_map_right_iff] at hall
  exact mapM_eq_ok.mpr (hall.imp fun a b hab => hread a b hab.symm)

namespace Output

theorem exists_item {item : Item} (h : item.WellFormed Text.IsIdentifier) :
    ∃ o : Output, o.item = item := by
  cases item with
  | named name aliasName =>
    obtain ⟨name, rfl⟩ := h.1.exists_identifier
    obtain ⟨shown, rfl⟩ := exists_alias h.2
    exact ⟨.column name shown, rfl⟩
  | raw expression aliasName =>
    obtain ⟨shown, rfl⟩ := h.2.exists_segment
    exact ⟨.raw expression shown, rfl⟩

variable {o : Output} {column aliasName expression : Text}

theorem ofColumn_of_item (h : o.item = .named column none) : ofColumn column = .ok o := by
  cases o with
  | column name shown =>
    simp only [item, Item.named.injEq, Option.map_eq_none_iff] at h
    obtain ⟨rfl, rfl⟩ := h
    exact bind_eq_ok.mpr ⟨name, Identifier.ofText_eq_ok.mpr rfl, rfl⟩
  | raw expression shown => simp [item] at h

theorem ofAliased_of_item (h : o.item = .named column (some aliasName)) :
    ofAliased column aliasName = .ok o := by
  cases o with
  | column name shown =>
    simp only [item, Item.named.injEq, Option.map_eq_some_iff] at h
    obtain ⟨rfl, shown, rfl, rfl⟩ := h
    exact bind_eq_ok.mpr ⟨name, Identifier.ofText_eq_ok.mpr rfl,
      bind_eq_ok.mpr ⟨shown, Segment.parse_eq_ok.mpr rfl, rfl⟩⟩
  | raw expression shown => simp [item] at h

theorem ofRaw_of_item (hblank : Text.allBlank expression = false)
    (h : o.item = .raw expression aliasName) : ofRaw expression aliasName = .ok o := by
  cases o with
  | column name shown => simp [item] at h
  | raw sql shown =>
    simp only [item, Item.raw.injEq] at h
    obtain ⟨rfl, rfl⟩ := h
    have hempty : shown.text.isEmpty = false := by simpa using shown.text_ne_nil
    rw [ofRaw, hempty]
    exact bind_eq_ok.mpr ⟨shown, Segment.parse_eq_ok.mpr rfl, by simp [hblank, pure_eq_ok]⟩

end Output

/-- An argument is read as the outputs that it names. -/
theorem Outputs.read_of_items {columns : Names Text} {new : List Output} (hne : columns.items ≠ [])
    (h : new.map Output.item = columns.items) : Outputs.read columns = .ok new := by
  cases columns with
  | one column =>
    obtain ⟨o, rfl, ho⟩ := List.map_eq_singleton_iff.mp h
    exact bind_eq_ok.mpr ⟨o, Output.ofColumn_of_item ho, rfl⟩
  | many columns =>
    rw [read, if_neg (by simpa [Names.items] using hne)]
    exact mapM_of_items (fun _ _ => Output.ofColumn_of_item) h
  | pairs entries =>
    rw [read, if_neg (by simpa [Names.items] using hne)]
    exact mapM_of_items (fun _ _ => Output.ofAliased_of_item) h

namespace Source

theorem exists_item {item : Item} (h : item.WellFormed Text.IsSegment) :
    ∃ t : Source, t.item = item := by
  cases item with
  | named name aliasName =>
    obtain ⟨name, rfl⟩ := h.1.exists_segment
    obtain ⟨shown, rfl⟩ := exists_alias h.2
    exact ⟨.table name shown, rfl⟩
  | raw expression aliasName =>
    obtain ⟨shown, rfl⟩ := h.2.exists_segment
    exact ⟨.raw expression shown, rfl⟩

variable {t : Source} {table aliasName expression : Text}

theorem ofName_of_item (h : t.item = .named table none) : ofName table = .ok t := by
  cases t with
  | table name shown =>
    simp only [item, Item.named.injEq, Option.map_eq_none_iff] at h
    obtain ⟨rfl, rfl⟩ := h
    exact bind_eq_ok.mpr ⟨name, Segment.parse_eq_ok.mpr rfl, rfl⟩
  | raw expression shown => simp [item] at h

theorem ofAliased_of_item (h : t.item = .named table (some aliasName)) :
    ofAliased table aliasName = .ok t := by
  cases t with
  | table name shown =>
    simp only [item, Item.named.injEq, Option.map_eq_some_iff] at h
    obtain ⟨rfl, shown, rfl, rfl⟩ := h
    exact bind_eq_ok.mpr ⟨name, Segment.parse_eq_ok.mpr rfl,
      bind_eq_ok.mpr ⟨shown, Segment.parse_eq_ok.mpr rfl, rfl⟩⟩
  | raw expression shown => simp [item] at h

theorem ofRaw_of_item (hblank : Text.allBlank expression = false)
    (h : t.item = .raw expression aliasName) : ofRaw expression aliasName = .ok t := by
  cases t with
  | table name shown => simp [item] at h
  | raw sql shown =>
    simp only [item, Item.raw.injEq] at h
    obtain ⟨rfl, rfl⟩ := h
    rw [ofRaw, hblank]
    exact bind_eq_ok.mpr ⟨shown, Segment.parse_eq_ok.mpr rfl, rfl⟩

end Source

/-- An argument is read as the tables that it names. -/
theorem Sources.read_of_items {tables : Names Text} {new : List Source} (hne : tables.items ≠ [])
    (h : new.map Source.item = tables.items) : Sources.read tables = .ok new := by
  cases tables with
  | one table =>
    obtain ⟨t, rfl, ht⟩ := List.map_eq_singleton_iff.mp h
    exact bind_eq_ok.mpr ⟨t, Source.ofName_of_item ht, rfl⟩
  | many tables =>
    rw [read, if_neg (by simpa [Names.items] using hne)]
    exact mapM_of_items (fun _ _ => Source.ofName_of_item) h
  | pairs entries =>
    rw [read, if_neg (by simpa [Names.items] using hne)]
    exact mapM_of_items (fun _ _ => Source.ofAliased_of_item) h

/-! ### Names in use are distinct -/

/-- Outputs that are added keep all names distinct. -/
theorem Outputs.nodup_append {o o' : Outputs} {new : List Output} (h : o.names.Nodup)
    (hadd : o.append new = .ok o') : o'.names.Nodup := by
  obtain ⟨hfree, rfl⟩ := append_eq_ok.mp hadd
  rw [names, List.map_append]
  exact (firstTaken_eq_none h).mp hfree

namespace Sources

theorem nodup_texts {s : Sources} (h : s.names.Nodup) : (s.names.map Segment.text).Nodup :=
  List.Nodup.map (fun _ _ => Segment.text_injective) h

/-- Tables that are added keep all names distinct, though they come before the joins. -/
theorem nodup_addTables {s s' : Sources} {new : List Source} (h : s.names.Nodup)
    (hadd : s.addTables new = .ok s') : s'.names.Nodup := by
  obtain ⟨hfree, rfl⟩ := addTables_eq_ok.mp hadd
  have htexts : ((s.names ++ new.map Source.effectiveName).map Segment.text).Nodup := by
    rw [List.map_append, List.map_map]
    exact (firstTaken_eq_none (nodup_texts h)).mp hfree
  have hperm : ({ s with tables := s.tables ++ new } : Sources).names.Perm
      (s.names ++ new.map Source.effectiveName) := by
    simp only [names, List.map_append, List.append_assoc]
    exact List.perm_append_comm.append_left _
  exact hperm.nodup_iff.mpr (List.Nodup.of_map _ htexts)

/-- A join that is added keeps all names distinct. -/
theorem nodup_addJoin {s s' : Sources} {kind : JoinKind} {target : Source} {localTable : Text}
    {fields : JoinFields} (h : s.names.Nodup)
    (hadd : s.addJoin kind target localTable fields = .ok s') : s'.names.Nodup := by
  obtain ⟨near, on, -, hnew, -, rfl⟩ := addJoin_eq_ok.mp hadd
  have hnames : ({ s with joins := s.joins ++ [⟨kind, target, on⟩] } : Sources).names =
      s.names.concat target.effectiveName := by
    simp [names]
  rw [hnames]
  exact List.Nodup.concat hnew h

end Sources

namespace Statement

variable {s : Statement}

theorem nodup_selectedNames (d : Dialect) (calls : List Call) :
    ((withDialect d).run calls).selectedNames.Nodup :=
  outputs_run (s := withDialect d) (I := fun o => o.names.Nodup) List.nodup_nil
    Outputs.nodup_append List.nodup_nil calls

theorem nodup_tableNames (d : Dialect) (calls : List Call) :
    ((withDialect d).run calls).tableNames.Nodup :=
  Sources.nodup_texts <| sources_run (s := withDialect d) (I := fun t => t.names.Nodup)
    Sources.nodup_addTables Sources.nodup_addJoin List.nodup_nil calls

end Statement

/-! ### Batches -/

/-- Calls that add outputs to those that they keep: the items of the batch as they are written. -/
inductive Call.AddsOutputs (s : Statement) : Call → Outputs → List Item → Prop
  | select (columns : Names Text) : AddsOutputs s (.select columns) {} columns.items
  | addSelect (columns : Names Text) : AddsOutputs s (.addSelect columns) s.outputs columns.items
  | addRawSelect (expression aliasName : Text) :
    AddsOutputs s (.addRawSelect expression aliasName) s.outputs [.raw expression aliasName]

/-- Calls that add tables: the items of the batch as they are written. -/
inductive Call.AddsTables : Call → List Item → Prop
  | fromTables (tables : Names Text) : AddsTables (.fromTables tables) tables.items
  | fromAliased (table aliasName : Text) :
    AddsTables (.fromAliased table aliasName) [.named table (some aliasName)]
  | fromRaw (expression aliasName : Text) :
    AddsTables (.fromRaw expression aliasName) [.raw expression aliasName]

namespace Statement

/-- What becomes of a call that adds new names to those in use: it is accepted just if no name
    repeats, and then the statement is as `Added` says; otherwise the first name that is taken is
    the clash reported, and the statement is as before. -/
structure Admits (s : Statement) (used new : List Text) (clash : Text → NameClash)
    (Added : Statement → Prop) (outcome : Outcome Statement) : Prop where
  accepted_iff : outcome.verdict = .ok () ↔ (used ++ new).Nodup
  added : outcome.verdict = .ok () → Added outcome.state
  rejected : ∀ reason, outcome.verdict = .error reason →
    (∃ name, IsFirstTaken used new name ∧ reason = .duplicateIdentifier (clash name)) ∧
      outcome.state = s

variable {s : Statement}

/-- A part that is there unless a name is taken is put into the statement in that case only. -/
theorem admits_settle {α : Type} {used new : List Text} {clash : Text → NameClash}
    {Added : Statement → Prop} {call : Call} {put : α → Statement} {part : α}
    (hused : used.Nodup) (hput : Added (put part)) :
    s.Admits used new clash Added (s.settle call put
      (match firstTaken used new with
        | some name => .error (.duplicateIdentifier (clash name))
        | none => .ok part)) := by
  have hnone : firstTaken used new = none ↔ (used ++ new).Nodup := firstTaken_eq_none hused
  cases h : firstTaken used new with
  | none =>
    rw [h] at hnone
    exact ⟨by simpa [settle, Outcome.unchanged] using hnone, fun _ => hput, fun _ hv => nomatch hv⟩
  | some name =>
    rw [h] at hnone
    refine ⟨by simpa [settle] using hnone, (nomatch ·), fun reason hv => ⟨?_, rfl⟩⟩
    obtain rfl := Except.error.inj hv
    exact ⟨name, isFirstTaken_of_eq_some hused h, rfl⟩

/-- A call with a well-formed batch of outputs reads all of it and adds it to the outputs it keeps. -/
theorem perform_addsOutputs {call : Call} {kept : Outputs} {batch : List Item}
    (hcall : call.AddsOutputs s kept batch) (hne : batch ≠ [])
    (hbatch : ∀ item ∈ batch, item.WellFormed Text.IsIdentifier) :
    ∃ new, new.map Output.item = batch ∧
      s.perform call = s.settle call s.putOutputs (kept.append new) := by
  obtain ⟨new, hnew⟩ : batch ∈ Set.range (List.map Output.item) :=
    (Set.range_list_map Output.item).ge fun item hi => Output.exists_item (hbatch item hi)
  refine ⟨new, hnew, ?_⟩
  cases hcall with
  | select columns =>
    rw [perform, Outputs.read_of_items hne hnew]
    rfl
  | addSelect columns =>
    rw [perform, Outputs.read_of_items hne hnew]
    rfl
  | addRawSelect expression aliasName =>
    obtain ⟨o, rfl, ho⟩ := List.map_eq_singleton_iff.mp hnew
    rw [perform, Output.ofRaw_of_item (hbatch _ List.mem_cons_self).1 ho]
    rfl

/-- A call with a well-formed batch of tables reads all of it and adds it to the sources. -/
theorem perform_addsTables {call : Call} {batch : List Item} (hcall : call.AddsTables batch)
    (hne : batch ≠ []) (hbatch : ∀ item ∈ batch, item.WellFormed Text.IsSegment) :
    ∃ new, new.map Source.item = batch ∧
      s.perform call = s.settle call s.putSources (s.sources.addTables new) := by
  obtain ⟨new, hnew⟩ : batch ∈ Set.range (List.map Source.item) :=
    (Set.range_list_map Source.item).ge fun item hi => Source.exists_item (hbatch item hi)
  refine ⟨new, hnew, ?_⟩
  cases hcall with
  | fromTables tables =>
    rw [perform, Sources.read_of_items hne hnew]
    rfl
  | fromAliased table aliasName =>
    obtain ⟨t, rfl, ht⟩ := List.map_eq_singleton_iff.mp hnew
    rw [perform, Source.ofAliased_of_item ht]
    rfl
  | fromRaw expression aliasName =>
    obtain ⟨t, rfl, ht⟩ := List.map_eq_singleton_iff.mp hnew
    rw [perform, Source.ofRaw_of_item (hbatch _ List.mem_cons_self).1 ht]
    rfl

/-- A statement that has a batch of outputs, whole and in order, behind those that were kept of
    another statement, and is the same otherwise. -/
def HasAddedOutputs (s : Statement) (kept : Outputs) (batch : List Item) (t : Statement) : Prop :=
  ∃ new, new.map Output.item = batch ∧ t = s.putOutputs ⟨kept.items ++ new⟩

/-- A statement that has a batch of tables, whole and in order, behind the tables of another
    statement, and is the same otherwise. -/
def HasAddedTables (s : Statement) (batch : List Item) (t : Statement) : Prop :=
  ∃ new, new.map Source.item = batch ∧
    t = s.putSources { s.sources with tables := s.sources.tables ++ new }

theorem admits_outputs (hs : s.selectedNames.Nodup) {call : Call} {kept : Outputs}
    {batch : List Item} (hcall : call.AddsOutputs s kept batch) (hne : batch ≠ [])
    (hbatch : ∀ item ∈ batch, item.WellFormed Text.IsIdentifier) :
    s.Admits kept.names (batch.map Item.effectiveName) NameClash.output
      (s.HasAddedOutputs kept batch) (s.perform call) := by
  have hkept : kept.names.Nodup := by
    cases hcall with
    | select columns => exact List.nodup_nil
    | addSelect columns => exact hs
    | addRawSelect expression aliasName => exact hs
  obtain ⟨new, hnew, hperform⟩ := perform_addsOutputs hcall hne hbatch
  have hnames : batch.map Item.effectiveName = new.map Output.effectiveName := by
    rw [← hnew, List.map_map]
    exact List.map_congr_left fun o _ => o.effectiveName_item
  rw [hperform, hnames]
  exact admits_settle hkept ⟨new, hnew, rfl⟩

theorem admits_tables (hs : s.tableNames.Nodup) {call : Call} {batch : List Item}
    (hcall : call.AddsTables batch) (hne : batch ≠ [])
    (hbatch : ∀ item ∈ batch, item.WellFormed Text.IsSegment) :
    s.Admits s.tableNames (batch.map Item.effectiveName) NameClash.source
      (s.HasAddedTables batch) (s.perform call) := by
  obtain ⟨new, hnew, hperform⟩ := perform_addsTables hcall hne hbatch
  have hnames : batch.map Item.effectiveName = new.map fun t => t.effectiveName.text := by
    rw [← hnew, List.map_map]
    exact List.map_congr_left fun t _ => t.effectiveName_item
  rw [hperform, hnames]
  exact admits_settle hs ⟨new, hnew, rfl⟩

/-- The names of outputs are those by which callers know them, in order. -/
theorem selectedNames_eq (s : Statement) :
    s.selectedNames = (s.outputs.items.map Output.item).map Item.effectiveName := by
  rw [List.map_map]
  exact List.map_congr_left fun o _ => o.effectiveName_item.symm

/-- The names of tables are those by which callers know the tables, and after them the targets of
    joins. -/
theorem tableNames_eq (s : Statement) :
    s.tableNames =
      ((s.sources.tables ++ s.sources.joins.map Join.target).map Source.item).map
        Item.effectiveName := by
  rw [tableNames, Sources.names_eq, List.map_map, List.map_map]
  exact List.map_congr_left fun t _ => t.effectiveName_item.symm

/-- In every statement that calls can make, the names of outputs are distinct, the names of tables
    and then of the targets of joins are distinct, and the latter are unqualified names. A call that
    adds a well-formed batch to it is refused only for the first name of the batch that is taken;
    otherwise the batch is added whole and in order. -/
theorem names_distinct (d : Dialect) (calls : List Call) :
    let s := (withDialect d).run calls
    (s.selectedNames = (s.outputs.items.map Output.item).map Item.effectiveName ∧
      s.tableNames =
        ((s.sources.tables ++ s.sources.joins.map Join.target).map Source.item).map
          Item.effectiveName) ∧
      s.selectedNames.Nodup ∧ s.tableNames.Nodup ∧ (∀ name ∈ s.tableNames, Text.IsSegment name) ∧
      (∀ call kept batch, call.AddsOutputs s kept batch → batch ≠ [] →
        (∀ item ∈ batch, item.WellFormed Text.IsIdentifier) →
        s.Admits kept.names (batch.map Item.effectiveName) NameClash.output
          (s.HasAddedOutputs kept batch) (s.perform call)) ∧
      ∀ call batch, call.AddsTables batch → batch ≠ [] →
        (∀ item ∈ batch, item.WellFormed Text.IsSegment) →
        s.Admits s.tableNames (batch.map Item.effectiveName) NameClash.source
          (s.HasAddedTables batch) (s.perform call) := by
  intro s
  have houtputs : s.selectedNames.Nodup := nodup_selectedNames d calls
  have hsources : s.tableNames.Nodup := nodup_tableNames d calls
  refine ⟨⟨s.selectedNames_eq, s.tableNames_eq⟩, houtputs, hsources, ?_, ?_, ?_⟩
  · intro name hname
    obtain ⟨known, -, rfl⟩ := List.mem_map.mp hname
    exact known.isSegment_text
  · intro call kept batch hcall hne hbatch
    exact admits_outputs houtputs hcall hne hbatch
  · intro call batch hcall hne hbatch
    exact admits_tables hsources hcall hne hbatch

/-- Calls that join a table under its own name onto the same table under an alias, and put out two
    columns under aliases. -/
def callsWithAliases : List Call :=
  [.fromAliased "users".toList "u".toList,
   .joinTarget .left (.table "users".toList) "u".toList (.pair "manager".toList none "id".toList),
   .select (.pairs [("id".toList, "u.id".toList), ("boss".toList, "users.name".toList)])]

/-- After these calls a column that is written as an alias of another one is refused, and a table
    that is named as an output is accepted. -/
theorem names_distinct_callsWithAliases :
    let s := (withDialect default).run callsWithAliases
    (s.perform (.addSelect (.many ["u.id".toList, "boss".toList]))).verdict ≠ .ok () ∧
      (s.perform (.fromTables (.pairs [("boss".toList, "users".toList)]))).verdict = .ok () := by
  intro s
  obtain ⟨-, -, -, -, houtputs, hsources⟩ := names_distinct default callsWithAliases
  constructor
  · intro hv
    have hadmits := houtputs _ _ _ (.addSelect (.many ["u.id".toList, "boss".toList]))
      (by decide) (by decide)
    exact absurd (hadmits.accepted_iff.mp hv) (by decide)
  · have hadmits := hsources _ _ (.fromTables (.pairs [("boss".toList, "users".toList)]))
      (by decide) (by decide)
    exact hadmits.accepted_iff.mpr (by decide)

end Statement

end SqlSelect
