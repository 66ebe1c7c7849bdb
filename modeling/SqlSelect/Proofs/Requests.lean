import SqlSelect.Condition.Request
import SqlSelect.Proofs.Checked

/-!
What the parts of a request come to. A request for several conditions, a mapping or a list of
columns, stands for requests for one condition each. It yields exactly one condition for each of
them, in order, and is rejected if there are none or if one of them is.

        where_map {a: 1, b: 2}     ──▶   where_eq a 1,  where_eq b 2
-/

namespace SqlSelect

open Checked

namespace Request

/-- The requests for one condition each that a request stands for. -/
def singles : Request → List Request
  | equalEach pairs => pairs.map fun (column, value) => equal column value
  | null negated (.many columns) => columns.map fun column => null negated (.one column)
  | patternEach wildcards negated pairs =>
    pairs.map fun (column, value) => pattern wildcards negated column value
  | inListEach negated pairs => pairs.map fun (column, values) => inList negated column values
  | lengthEach pairs => pairs.map fun (column, value) => length column value
  | request => [request]

/-- Requests that yield the condition of one item each yield those of all of them. -/
theorem mapM_check {α : Type} {cap : Option Nat} {single : α → Request}
    {read : α → Checked Predicate} (h : ∀ a, (single a).check cap = do return [← read a])
    (items : List α) :
    List.flatten <$> (items.map single).mapM (check cap) = items.mapM read := by
  induction items with
  | nil => rfl
  | cons a items ih =>
    rw [List.map_cons, List.mapM_cons, List.mapM_cons, h, ← ih]
    simp only [bind_assoc, pure_bind, map_bind, map_pure, bind_map_left, List.flatten_cons,
      List.cons_append, List.nil_append]

theorem mapM_check_self (cap : Option Nat) (request : Request) :
    List.flatten <$> [request].mapM (check cap) = request.check cap := by
  simp only [List.mapM_cons, List.mapM_nil, pure_bind, map_bind, map_pure, List.flatten_cons,
    List.flatten_nil, List.append_nil, bind_pure]

theorem each_eq {α : Type} {check : Text → α → Checked Predicate} {pairs : List (Text × α)}
    (h : pairs ≠ []) : each check pairs = pairs.mapM fun (column, value) => check column value := by
  rw [each]
  cases hchecked : pairs.mapM fun (column, value) => check column value with
  | error reason => rfl
  | ok predicates =>
    have hlength := (mapM_eq_ok.mp hchecked).length_eq
    have hne : ¬predicates.isEmpty = true := by
      intro hempty
      rw [List.isEmpty_iff.mp hempty] at hlength
      exact h (List.length_eq_zero_iff.mp hlength)
    exact if_neg hne

theorem nullColumns_many {columns : List Text} (h : columns ≠ []) :
    nullColumns (.many columns) = .ok columns := by
  rw [nullColumns, if_neg (by simpa using h)]

/-- A request stands for the conditions of its single requests, if there are any. -/
theorem check_eq_singles (cap : Option Nat) {request : Request} (h : request.singles ≠ []) :
    request.check cap = List.flatten <$> request.singles.mapM (check cap) := by
  cases request with
  | equalEach pairs | patternEach _ _ pairs | inListEach _ pairs | lengthEach pairs =>
    have hne : pairs ≠ [] := by simpa [singles] using h
    rw [check, each_eq hne, singles]
    exact (mapM_check (fun _ => rfl) pairs).symm
  | null negated columns =>
    cases columns with
    | many columns =>
      have hne : columns ≠ [] := by simpa [singles] using h
      rw [singles, mapM_check (fun _ => rfl), check, nullColumns_many hne]
      rfl
    | _ => exact (mapM_check_self cap _).symm
  | _ => exact (mapM_check_self cap _).symm

/-- Otherwise it is rejected. -/
theorem check_of_no_singles (cap : Option Nat) {request : Request} (h : request.singles = []) :
    ∃ reason, request.check cap = .error reason := by
  cases request with
  | equalEach pairs | patternEach _ _ pairs | inListEach _ pairs | lengthEach pairs =>
    obtain rfl : pairs = [] := by simpa [singles] using h
    exact ⟨_, rfl⟩
  | null negated columns =>
    cases columns with
    | many columns =>
      obtain rfl : columns = [] := by simpa [singles] using h
      exact ⟨_, rfl⟩
    | _ => contradiction
  | _ => contradiction

/-! ### One condition for each -/

section Yields

variable {cap : Option Nat} {predicates : List Predicate} {request : Request}

/-- What a request for one condition yields. -/
theorem check_eq_ok_of_read {read : Checked Predicate}
    (h : request.check cap = do return [← read]) :
    request.check cap = .ok predicates ↔ ∃ p, read = .ok p ∧ [p] = predicates := by
  rw [h, bind_eq_ok]
  simp only [pure_eq_ok]

/-- A request for one condition yields this condition alone. -/
theorem check_single (read : Checked Predicate) (h : request.check cap = do return [← read]) :
    request.check cap = .ok predicates ↔
      List.Forall₂ (fun single p => single.check cap = .ok [p]) [request] predicates := by
  constructor
  · intro hcheck
    obtain ⟨p, -, rfl⟩ := (check_eq_ok_of_read h).mp hcheck
    exact .cons hcheck .nil
  · rintro (_ | ⟨hcheck, _ | _⟩)
    exact hcheck

/-- Requests for one condition each yield what is read for each of them. -/
theorem check_singles {α : Type} {single : α → Request} {read : α → Checked Predicate}
    (h : ∀ a, (single a).check cap = do return [← read a]) (items : List α) :
    items.mapM read = .ok predicates ↔
      List.Forall₂ (fun single p => single.check cap = .ok [p]) (items.map single) predicates := by
  have hsingle : ∀ a p, (single a).check cap = .ok [p] ↔ read a = .ok p := by
    intro a p
    rw [check_eq_ok_of_read (h a)]
    simp
  simp only [mapM_eq_ok, List.forall₂_map_left_iff, hsingle]

/-- A request yields one condition for each of its single requests, in order, and there has to be
    at least one. -/
theorem check_eq_ok :
    request.check cap = .ok predicates ↔ request.singles ≠ [] ∧
      List.Forall₂ (fun single p => single.check cap = .ok [p]) request.singles predicates := by
  by_cases hnil : request.singles = []
  · obtain ⟨reason, hcheck⟩ := check_of_no_singles cap hnil
    simp [hcheck, hnil]
  · rw [and_iff_right hnil]
    cases request with
    | equalEach pairs | patternEach _ _ pairs | inListEach _ pairs | lengthEach pairs =>
      have hne : pairs ≠ [] := by simpa [singles] using hnil
      rw [check, each_eq hne, singles]
      exact check_singles (fun _ => rfl) pairs
    | null negated columns =>
      cases columns with
      | one column => exact check_single (Predicate.testingNull negated column) rfl
      | many columns =>
        have hne : columns ≠ [] := by simpa [singles] using hnil
        rw [check, nullColumns_many hne, singles]
        exact check_singles (fun _ => rfl) columns
      | pairs entries => exact check_single (.error _) rfl
    | _ => exact check_single _ rfl

end Yields

end Request

end SqlSelect
