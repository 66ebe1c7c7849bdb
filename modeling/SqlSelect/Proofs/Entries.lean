import SqlSelect.Proofs.InTurn
import SqlSelect.Proofs.Uniqueness

/-!
Arguments entry by entry. An argument that names several things is read as the list of its entries,
each a name with its value if it has one: a column or table under an alias, or a sort key with a
direction. Outputs and tables are added entry by entry, too, for only which names are in use matters
for the next; and what is wrong with a name is found before any names are compared.

        {x: a, y: t.b}     ──▶     (x, a),  (y, t.b)
        [a, t.b]           ──▶     (a, -),  (t.b, -)
-/

namespace SqlSelect

open Checked

/-! ### Arguments -/

namespace Names

variable {α : Type}

/-- The names with their values; those without one have the common value, if there is any. -/
def listed (common : Option α) : Names α → List (Text × Option α)
  | one name => [(name, common)]
  | many names => names.map fun name => (name, common)
  | pairs entries => entries.map fun (name, value) => (name, some value)

/-- The argument that names one thing, with a value if it has one. -/
def single : Text × Option α → Names α
  | (name, none) => one name
  | (name, some value) => pairs [(name, value)]

end Names

/-! ### Sort keys -/

namespace SortKey

variable (make : Direction → Text → Checked SortKey)

/-- A sort key under a direction of its own. -/
def ofEntry (entry : Text × Option Text) : Checked SortKey := do
  make (← Direction.ofText? entry.2) entry.1

theorem readAll_one (entry : Text × Option Text) :
    readAll make (.one entry.1) entry.2 = do return [← ofEntry make entry] := by
  rw [readAll, ofEntry, bind_assoc]

/-- Sort keys are read one by one. The direction of the call has to be right if there are others. -/
theorem readAll_eq {keys : Names Text} {direction : Option Text}
    (hne : keys.listed direction ≠ [])
    (hdirection : ∀ entries, keys = .pairs entries → ∃ d, Direction.ofText? direction = .ok d) :
    readAll make keys direction = (keys.listed direction).mapM (ofEntry make) := by
  cases keys with
  | one key =>
    rw [readAll_one make (key, direction), Names.listed, List.mapM_cons]
    rfl
  | many keys =>
    have hkeys : ¬keys.isEmpty = true := by simpa [Names.listed] using hne
    simp only [readAll, if_neg hkeys, Names.listed, List.mapM_map]
    cases hread : Direction.ofText? direction with
    | ok d =>
      have hmake : ofEntry make ∘ (fun key => (key, direction)) = make d := by
        funext key
        change (Direction.ofText? direction >>= _) = _
        rw [hread]
        rfl
      rw [hmake]
      rfl
    | error reason =>
      cases keys with
      | nil => exact absurd rfl hkeys
      | cons key keys =>
        rw [List.mapM_cons]
        change _ = (Direction.ofText? direction >>= _) >>= _
        rw [hread]
        rfl
  | pairs entries =>
    have hentries : ¬entries.isEmpty = true := by simpa [Names.listed] using hne
    obtain ⟨d, hread⟩ := hdirection entries rfl
    simp only [readAll, if_neg hentries, hread, Names.listed, List.mapM_map]
    rfl

/-- An argument without any names is rejected. -/
theorem readAll_of_none {keys : Names Text} {direction : Option Text}
    (h : keys.listed direction = []) : ∃ reason, readAll make keys direction = .error reason := by
  cases keys with
  | one key => contradiction
  | many keys =>
    obtain rfl : keys = [] := by simpa [Names.listed] using h
    rw [readAll]
    cases Direction.ofText? direction with
    | ok d => exact ⟨_, rfl⟩
    | error reason => exact ⟨_, rfl⟩
  | pairs entries =>
    obtain rfl : entries = [] := by simpa [Names.listed] using h
    rw [readAll]
    cases Direction.ofText? direction with
    | ok d => exact ⟨_, rfl⟩
    | error reason => exact ⟨_, rfl⟩

end SortKey

/-! ### Names -/

/-- Only which names are in use matters. -/
theorem firstTaken_congr {used used' : List Text} (h : ∀ name, name ∈ used ↔ name ∈ used')
    (new : List Text) : firstTaken used new = firstTaken used' new := by
  induction new generalizing used used' with
  | nil => rfl
  | cons first rest ih =>
    have hrest : firstTaken (first :: used) rest = firstTaken (first :: used') rest :=
      ih fun name => by rw [List.mem_cons, List.mem_cons, h name]
    rw [firstTaken, firstTaken, hrest]
    exact if_congr (h first) rfl rfl

/-- A name that is free joins those in use. -/
theorem firstTaken_cons_of_free {used used' : List Text} {name : Text} (hfree : name ∉ used)
    (hused : ∀ other, other ∈ used' ↔ other ∈ used ∨ other = name) (new : List Text) :
    firstTaken used (name :: new) = firstTaken used' new := by
  rw [firstTaken, if_neg hfree]
  exact firstTaken_congr (fun other => by rw [hused, List.mem_cons, or_comm]) new

/-- Outputs are added one by one: each name joins those in use. -/
theorem Outputs.addsOneByOne_append : AddsOneByOne Outputs.append where
  nil o := append_eq_ok.mpr ⟨rfl, by rw [List.append_nil]⟩
  cons o first rest := by
    by_cases htaken : first.effectiveName ∈ o.names
    · have hrejected : ∀ rest, o.append (first :: rest) =
          .error (.duplicateIdentifier (.output first.effectiveName)) := by
        intro rest
        simp [append, firstTaken, htaken]
      rw [hrejected rest, hrejected []]
      rfl
    · have hnames : ∀ new, firstTaken o.names (first.effectiveName :: new) =
          firstTaken (names ⟨o.items ++ [first]⟩) new :=
        firstTaken_cons_of_free htaken fun name => by simp [names]
      have hfirst : o.append [first] = .ok ⟨o.items ++ [first]⟩ :=
        append_eq_ok.mpr ⟨hnames [], rfl⟩
      rw [hfirst]
      change o.append (first :: rest) = Outputs.append ⟨o.items ++ [first]⟩ rest
      rw [append, append, List.map_cons, hnames, List.append_assoc]
      rfl

/-- So are tables, whose names are in use beside those of joins. -/
theorem Sources.addsOneByOne_addTables : AddsOneByOne Sources.addTables where
  nil s := addTables_eq_ok.mpr ⟨rfl, by rw [List.append_nil]⟩
  cons s first rest := by
    by_cases htaken : first.effectiveName.text ∈ s.names.map Segment.text
    · have hrejected : ∀ rest, s.addTables (first :: rest) =
          .error (.duplicateIdentifier (.source first.effectiveName.text)) := by
        intro rest
        rw [addTables, List.map_cons, firstTaken, if_pos htaken]
      rw [hrejected rest, hrejected []]
      rfl
    · have hnames : ∀ new,
          firstTaken (s.names.map Segment.text) (first.effectiveName.text :: new) =
            firstTaken (({ s with tables := s.tables ++ [first] } : Sources).names.map Segment.text)
              new := by
        refine firstTaken_cons_of_free htaken fun name => ?_
        simp only [names, List.map_append, List.mem_append, List.map_cons, List.map_nil,
          List.mem_singleton]
        tauto
      have hfirst : s.addTables [first] = .ok { s with tables := s.tables ++ [first] } :=
        addTables_eq_ok.mpr ⟨hnames [], rfl⟩
      rw [hfirst]
      change s.addTables (first :: rest) =
        Sources.addTables { s with tables := s.tables ++ [first] } rest
      rw [addTables, addTables, List.map_cons, hnames, List.append_assoc]
      rfl

/-- The item that a name with its value stands for; the value of an alias is the name. -/
def Item.ofEntry : Text × Option Text → Item
  | (name, none) => .named name none
  | (aliasName, some name) => .named name (some aliasName)

theorem Names.items_eq (names : Names Text) :
    names.items = (names.listed none).map Item.ofEntry := by
  cases names with
  | one name => rfl
  | many names => simp [items, listed, Item.ofEntry, Function.comp_def]
  | pairs entries => simp [items, listed, Item.ofEntry, Function.comp_def]

/-- Reads a name, or the name that an alias stands for and then the alias. -/
def Names.readEntry {Name β : Type} (readName : Text → Checked Name)
    (make : Name → Option Segment → β) : Text × Option Text → Checked β
  | (name, none) => do
    return make (← readName name) none
  | (aliasName, some name) => do
    let name ← readName name
    let shown ← Segment.parse aliasName
    return make name (some shown)

namespace Names

variable {Name β : Type} {readName : Text → Checked Name} {make : Name → Option Segment → β}

/-- Entries can be read exactly if their items are well-formed. -/
theorem wellFormed_iff_readEntry {IsName : Text → Prop}
    (hname : ∀ s, IsName s ↔ ∃ name, readName s = .ok name) (entry : Text × Option Text) :
    (Item.ofEntry entry).WellFormed IsName ↔ ∃ b, readEntry readName make entry = .ok b := by
  obtain ⟨name, value⟩ := entry
  cases value with
  | none =>
    simp only [Item.ofEntry, Item.WellFormed, hname, readEntry, bind_eq_ok, pure_eq_ok]
    constructor
    · rintro ⟨⟨n, hn⟩, -⟩
      exact ⟨_, n, hn, rfl⟩
    · rintro ⟨_, n, hn, -⟩
      exact ⟨⟨n, hn⟩, nofun⟩
  | some column =>
    simp only [Item.ofEntry, Item.WellFormed, hname, Text.isSegment_iff, readEntry, bind_eq_ok,
      pure_eq_ok, Option.mem_some_iff, forall_eq']
    constructor
    · rintro ⟨⟨n, hn⟩, shown, hshown⟩
      exact ⟨_, n, hn, shown, hshown, rfl⟩
    · rintro ⟨_, n, hn, shown, hshown, -⟩
      exact ⟨⟨n, hn⟩, shown, hshown⟩

theorem exists_fault_of_readEntry
    (hname : ∀ s reason, readName s = .error reason → ∃ fault, reason = .invalidIdentifier fault)
    (entry : Text × Option Text) (reason : Rejection)
    (h : readEntry readName make entry = .error reason) :
    ∃ fault, reason = .invalidIdentifier fault := by
  obtain ⟨name, value⟩ := entry
  cases value with
  | none =>
    rcases bind_eq_error.mp h with hread | ⟨_, -, h⟩
    · exact hname name reason hread
    · contradiction
  | some column =>
    rcases bind_eq_error.mp h with hread | ⟨_, -, h⟩
    · exact hname column reason hread
    · rcases bind_eq_error.mp h with hshown | ⟨_, -, h⟩
      · exact Segment.exists_fault_of_parse hshown
      · contradiction

end Names

/-- A list cannot be read for a fault of a name exactly if an item of it is not well-formed, where
    such items have a fault of a name and all others can be read. -/
theorem Checked.exists_fault_mapM {α β : Type} {f : α → Checked β} {WellFormed : α → Prop}
    (hok : ∀ a, WellFormed a ↔ ∃ b, f a = .ok b)
    (hfault : ∀ a reason, f a = .error reason → ∃ fault, reason = .invalidIdentifier fault)
    (items : List α) :
    (∃ a ∈ items, ¬WellFormed a) ↔ ∃ fault, items.mapM f = .error (.invalidIdentifier fault) := by
  induction items with
  | nil => exact ⟨fun ⟨_, hmem, _⟩ => (nomatch hmem), fun ⟨_, herror⟩ => nomatch herror⟩
  | cons a items ih =>
    rw [List.exists_mem_cons_iff, ih, hok, List.mapM_cons]
    cases ha : f a with
    | error reason =>
      obtain ⟨fault, rfl⟩ := hfault a reason ha
      exact ⟨fun _ => ⟨fault, rfl⟩, fun _ => .inl fun ⟨_, hb⟩ => nomatch hb⟩
    | ok b =>
      have hread : ¬(¬∃ b', (Except.ok b : Checked β) = .ok b') := not_not_intro ⟨b, rfl⟩
      rw [or_iff_right hread]
      cases items.mapM f with
      | error reason => exact Iff.rfl
      | ok bs => exact exists_congr fun _ => ⟨(nomatch ·), (nomatch ·)⟩

/-- Readers of arguments that read each of the things named, of which there must be some. -/
structure Names.ReadBy {β : Type} (ofEntry : Text × Option Text → Checked β)
    (read : Names Text → Checked (List β)) : Prop where
  each : ∀ names : Names Text, names.listed none ≠ [] →
    read names = (names.listed none).mapM ofEntry
  empty : ∀ names : Names Text, names.listed none = [] →
    ∃ listing, read names = .error (.invalidArgument (.emptyListing listing))

namespace Names.ReadBy

variable {β : Type} {ofEntry : Text × Option Text → Checked β}
  {read : Names Text → Checked (List β)}

/-- A reader that has a case for each form of arguments. -/
theorem of_cases {lists mappings : Listing}
    (hone : ∀ name, read (.one name) = do return [← ofEntry (name, none)])
    (hmany : ∀ names, read (.many names) =
      if names.isEmpty then .error (.invalidArgument (.emptyListing lists))
      else names.mapM fun name => ofEntry (name, none))
    (hpairs : ∀ entries, read (.pairs entries) =
      if entries.isEmpty then .error (.invalidArgument (.emptyListing mappings))
      else entries.mapM fun (name, value) => ofEntry (name, some value)) : ReadBy ofEntry read where
  each names hne := by
    cases names with
    | one name =>
      rw [hone, listed, List.mapM_cons]
      rfl
    | many names =>
      rw [hmany, if_neg (by simpa [listed] using hne), listed, List.mapM_map]
      rfl
    | pairs entries =>
      rw [hpairs, if_neg (by simpa [listed] using hne), listed, List.mapM_map]
      rfl
  empty names hnil := by
    cases names with
    | one name => contradiction
    | many names =>
      obtain rfl : names = [] := by simpa [listed] using hnil
      exact ⟨_, hmany []⟩
    | pairs entries =>
      obtain rfl : entries = [] := by simpa [listed] using hnil
      exact ⟨_, hpairs []⟩

/-- Reading a single entry and adding it. -/
theorem bind_single {Part : Type} (h : ReadBy ofEntry read) (add : List β → Checked Part)
    (entry : Text × Option Text) :
    (do add (← read (.single entry))) = (do add [← ofEntry entry]) := by
  have hlisted : (Names.single entry).listed none = [entry] := by
    obtain ⟨name, value⟩ := entry
    cases value <;> rfl
  rw [h.each _ (by simp [hlisted]), hlisted]
  simp only [List.mapM_cons, List.mapM_nil, bind_assoc, pure_bind]

/-- An argument cannot be read for a fault of a name exactly if an item of it is not well-formed. -/
theorem exists_fault_iff (h : ReadBy ofEntry read) {IsName : Text → Prop}
    (hok : ∀ entry, (Item.ofEntry entry).WellFormed IsName ↔ ∃ b, ofEntry entry = .ok b)
    (hfault : ∀ entry reason, ofEntry entry = .error reason →
      ∃ fault, reason = .invalidIdentifier fault) (names : Names Text) :
    (∃ item ∈ names.items, ¬item.WellFormed IsName) ↔
      ∃ fault, read names = .error (.invalidIdentifier fault) := by
  have hitems : (∃ item ∈ names.items, ¬item.WellFormed IsName) ↔
      ∃ entry ∈ names.listed none, ¬(Item.ofEntry entry).WellFormed IsName := by
    simp only [names.items_eq, List.mem_map, exists_exists_and_eq_and]
  rw [hitems]
  by_cases hnil : names.listed none = []
  · obtain ⟨listing, hread⟩ := h.empty names hnil
    rw [hnil, hread]
    exact ⟨fun ⟨_, hmem, _⟩ => (nomatch hmem), fun ⟨_, herror⟩ => nomatch herror⟩
  · rw [h.each names hnil]
    exact exists_fault_mapM hok hfault _

end Names.ReadBy

theorem Outputs.readBy_readEntry :
    Names.ReadBy (Names.readEntry Identifier.ofText Output.column) read :=
  .of_cases (fun _ => rfl) (fun _ => rfl) (fun _ => rfl)

theorem Sources.readBy_readEntry : Names.ReadBy (Names.readEntry Segment.parse Source.table) read :=
  .of_cases (fun _ => rfl) (fun _ => rfl) (fun _ => rfl)

/-- No fault of a name is found in adding outputs that have been read. -/
theorem Outputs.append_ne_fault (o : Outputs) (new : List Output) (fault : IdentifierFault) :
    o.append new ≠ .error (.invalidIdentifier fault) := by
  unfold append
  split <;> simp

theorem Sources.addTables_ne_fault (s : Sources) (new : List Source) (fault : IdentifierFault) :
    s.addTables new ≠ .error (.invalidIdentifier fault) := by
  unfold addTables
  split <;> simp

end SqlSelect
