import Mathlib.Data.List.Forall2
import SqlSelect.Rejection

/-!
Checks made one after the other. A chain of checks yields a value exactly if every check in it does,
and a list of checks yields a list of values exactly if each item yields the value in its place.
Of several faults the one that is found first decides.
-/

namespace SqlSelect.Checked

variable {α β : Type}

/-- A check followed by another one is accepted if both are. -/
theorem bind_eq_ok {x : Checked α} {f : α → Checked β} {b : β} :
    x >>= f = .ok b ↔ ∃ a, x = .ok a ∧ f a = .ok b := by
  cases x with
  | error r => exact ⟨fun h => by simp [bind, Except.bind] at h, fun ⟨_, h, _⟩ => by simp at h⟩
  | ok a => exact ⟨fun h => ⟨a, rfl, h⟩, fun ⟨a', ha, h⟩ => Except.ok.inj ha ▸ h⟩

/-- It is rejected for the reason of the first of them that is. -/
theorem bind_eq_error {x : Checked α} {f : α → Checked β} {reason : Rejection} :
    x >>= f = .error reason ↔ x = .error reason ∨ ∃ a, x = .ok a ∧ f a = .error reason := by
  cases x with
  | error r =>
    constructor
    · intro h
      exact .inl (congrArg Except.error (Except.error.inj h))
    · rintro (h | ⟨a, h, -⟩)
      · exact congrArg Except.error (Except.error.inj h)
      · contradiction
  | ok a =>
    constructor
    · intro h
      exact .inr ⟨a, rfl, h⟩
    · rintro (h | ⟨a', ha, h⟩)
      · contradiction
      · exact Except.ok.inj ha ▸ h

/-- A value is returned as it is. -/
theorem pure_eq_ok {a b : α} : (pure a : Checked α) = .ok b ↔ a = b :=
  ⟨Except.ok.inj, congrArg Except.ok⟩

/-- A single test yields its value if it is passed. -/
theorem if_eq_ok {c : Prop} [Decidable c] {a b : α} {reason : Rejection} :
    (if c then .ok a else .error reason : Checked α) = .ok b ↔ c ∧ a = b := by
  split <;> simp [*]

/-- All items of a list pass if each of them does, with their values in order. -/
theorem mapM_eq_ok {f : α → Checked β} {items : List α} {values : List β} :
    items.mapM f = .ok values ↔ List.Forall₂ (fun a b => f a = .ok b) items values := by
  induction items generalizing values with
  | nil =>
    rw [List.mapM_nil, pure_eq_ok]
    exact ⟨fun h => h ▸ .nil, fun h => (List.forall₂_nil_left_iff.mp h).symm⟩
  | cons a items ih =>
    simp only [List.mapM_cons, bind_eq_ok, pure_eq_ok]
    constructor
    · rintro ⟨b, hb, rest, hrest, rfl⟩
      exact .cons hb (ih.mp hrest)
    · rintro (_ | ⟨hb, hrest⟩)
      exact ⟨_, hb, _, ih.mpr hrest, rfl⟩

/-- A list passes exactly if each of its items does. -/
theorem exists_mapM_eq_ok {f : α → Checked β} {items : List α} :
    (∃ values, items.mapM f = .ok values) ↔ ∀ a ∈ items, ∃ b, f a = .ok b := by
  induction items with
  | nil => simp [pure_eq_ok]
  | cons a items ih =>
    simp only [List.mapM_cons, bind_eq_ok, pure_eq_ok, List.forall_mem_cons, ← ih]
    constructor
    · rintro ⟨_, b, hb, rest, hrest, -⟩
      exact ⟨⟨b, hb⟩, rest, hrest⟩
    · rintro ⟨⟨b, hb⟩, rest, hrest⟩
      exact ⟨_, b, hb, rest, hrest, rfl⟩

/-- Tests on a list are passed if they are passed by each item. -/
theorem forM_eq_ok {f : α → Checked Unit} {items : List α} :
    items.forM f = .ok () ↔ ∀ a ∈ items, f a = .ok () := by
  induction items with
  | nil => exact ⟨fun _ _ => (nomatch ·), fun _ => rfl⟩
  | cons a items ih =>
    change (do f a; items.forM f) = .ok () ↔ _
    rw [bind_eq_ok, List.forall_mem_cons, ← ih]
    constructor
    · rintro ⟨⟨⟩, ha, hrest⟩
      exact ⟨ha, hrest⟩
    · rintro ⟨ha, hrest⟩
      exact ⟨(), ha, hrest⟩

/-- A property that each value has by its own check holds of all values of a list. -/
theorem forall_mem_of_mapM {f : α → Checked β} {P : β → Prop} (hf : ∀ a b, f a = .ok b → P b)
    {items : List α} {values : List β} (h : items.mapM f = .ok values) : ∀ b ∈ values, P b := by
  have hall := mapM_eq_ok.mp h
  clear h
  induction hall with
  | nil => simp
  | cons hb _ ih =>
    intro b hmem
    rcases List.mem_cons.mp hmem with rfl | hmem
    · exact hf _ _ hb
    · exact ih b hmem

/-! ### The first fault decides -/

/-- A check that comes upon these faults in this order: it is rejected for the first of them, and
    yields a value with the property if there are none. -/
structure Finds (check : Checked α) (faults : List Rejection) (P : α → Prop) : Prop where
  rejected : ∀ reason rest, faults = reason :: rest → check = .error reason
  accepted : faults = [] → ∃ a, check = .ok a ∧ P a

namespace Finds

variable {P : α → Prop} {Q : β → Prop} {faults more : List Rejection}

theorem ok {a : α} (h : P a) : Finds (.ok a) [] P where
  rejected _ _ h := nomatch h
  accepted _ := ⟨a, rfl, h⟩

theorem error (reason : Rejection) (rest : List Rejection) :
    Finds (.error reason) (reason :: rest) P where
  rejected _ _ h := congrArg Except.error (List.cons.inj h).1
  accepted h := nomatch h

/-- What is known of the value may be restated. -/
theorem imp {P' : α → Prop} {check : Checked α} (h : check.Finds faults P)
    (himp : ∀ a, P a → P' a) : check.Finds faults P' where
  rejected := h.rejected
  accepted hnone := by
    obtain ⟨a, hok, ha⟩ := h.accepted hnone
    exact ⟨a, hok, himp a ha⟩

/-- A check that goes on where another one has found nothing comes upon the faults of both. -/
theorem bind {x : Checked α} {f : α → Checked β} (hx : x.Finds faults P)
    (hf : ∀ a, P a → (f a).Finds more Q) : (x >>= f).Finds (faults ++ more) Q := by
  cases faults with
  | nil =>
    obtain ⟨a, rfl, ha⟩ := hx.accepted rfl
    exact hf a ha
  | cons reason rest =>
    rw [hx.rejected reason rest rfl]
    exact .error reason (rest ++ more)

/-- Where nothing can go wrong any more, the faults are those of the check before. -/
theorem last {x : Checked α} {f : α → Checked β} (hx : x.Finds faults P)
    (hf : ∀ a, P a → (f a).Finds [] Q) : (x >>= f).Finds faults Q := by
  rw [← List.append_nil faults]
  exact hx.bind hf

/-- A condition is tested before the rest is checked. -/
theorem guarded {c : Prop} [Decidable c] {x : Checked α} (reason : Rejection)
    (hx : ¬c → x.Finds more P) :
    Finds (if c then .error reason else x) ((if c then [reason] else []) ++ more) P := by
  by_cases h : c
  · rw [if_pos h, if_pos h]
    exact .error reason more
  · rw [if_neg h, if_neg h]
    exact hx h

/-- A list comes upon the faults of its items, item by item. -/
theorem mapM {f : α → Checked β} {faults : α → List Rejection} {R : α → β → Prop}
    (h : ∀ a, (f a).Finds (faults a) (R a)) (items : List α) :
    (items.mapM f).Finds (items.flatMap faults) (List.Forall₂ R items) := by
  induction items with
  | nil =>
    rw [List.mapM_nil]
    exact .ok .nil
  | cons a items ih =>
    rw [List.mapM_cons, List.flatMap_cons]
    exact (h a).bind fun b hb => ih.last fun rest hrest => .ok (.cons hb hrest)

end Finds

end SqlSelect.Checked
