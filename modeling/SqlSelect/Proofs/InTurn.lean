import SqlSelect.Proofs.Calls
import SqlSelect.Proofs.Checked

/-!
Single calls in turn. A batch reads all its items and then adds them; single calls read and add one
item after the other, each to what the calls before have left. If additions of lists are additions
of their items one by one, the batch is accepted exactly if there are any items and all single calls
are accepted, and both leave the same state. They can differ in the fault that is reported, unless
nothing but reading an item can fail.
-/

namespace SqlSelect

/-! ### Adding one by one -/

namespace Checked

variable {α β Part : Type}

/-- Reads each item and adds it before the next one is read. -/
def addEach (add : Part → List β → Checked Part) (read : α → Checked β) :
    Part → List α → Checked Part
  | part, [] => .ok part
  | part, a :: items => do
    let next ← add part [← read a]
    addEach add read next items

/-- Additions of lists that do the same as the additions of their items one by one. -/
structure AddsOneByOne (add : Part → List β → Checked Part) : Prop where
  nil : ∀ part, add part [] = .ok part
  cons : ∀ part b rest, add part (b :: rest) = do add (← add part [b]) rest

variable {add : Part → List β → Checked Part} {read : α → Checked β}

theorem addEach_cons (part : Part) (a : α) (items : List α) :
    addEach add read part (a :: items) =
      (do add part [← read a]) >>= fun next => addEach add read next items := by
  rw [addEach, bind_assoc]

/-- Items can be read and added one by one just if all of them can be read and then added. -/
theorem addEach_eq_ok (hadd : AddsOneByOne add) {items : List α} {part part' : Part} :
    addEach add read part items = .ok part' ↔
      (do add part (← items.mapM read)) = .ok part' := by
  induction items generalizing part with
  | nil => rw [addEach, List.mapM_nil, pure_bind, hadd.nil]
  | cons a items ih =>
    simp only [addEach, List.mapM_cons, bind_assoc, pure_bind, bind_eq_ok, ih]
    constructor
    · rintro ⟨b, hb, next, hnext, rest, hrest, h⟩
      exact ⟨b, hb, rest, hrest, (hadd.cons part b rest).trans (bind_eq_ok.mpr ⟨next, hnext, h⟩)⟩
    · rintro ⟨b, hb, rest, hrest, h⟩
      obtain ⟨next, hnext, h⟩ := bind_eq_ok.mp ((hadd.cons part b rest).symm.trans h)
      exact ⟨b, hb, next, hnext, rest, hrest, h⟩

/-- If single items can always be added, the first fault is the same too. -/
theorem addEach_eq (hadd : AddsOneByOne add) (htotal : ∀ part b, ∃ next, add part [b] = .ok next)
    (part : Part) (items : List α) :
    addEach add read part items = (do add part (← items.mapM read)) := by
  induction items generalizing part with
  | nil => rw [addEach, List.mapM_nil, pure_bind, hadd.nil]
  | cons a items ih =>
    simp only [addEach, List.mapM_cons, bind_assoc, pure_bind, ih]
    refine bind_congr fun b => ?_
    obtain ⟨next, hnext⟩ := htotal part b
    have hcons : ∀ rest, add part (b :: rest) = add next rest := by
      intro rest
      rw [hadd.cons, hnext]
      rfl
    rw [hnext]
    simp only [hcons]
    rfl

end Checked

open Checked

/-! ### Calls in turn -/

namespace Outcome

variable {State Call Part α β : Type}

/-- Calls made one after the other, up to the first that is rejected. -/
def inTurn (perform : State → Call → Outcome State) : State → List Call → Outcome State
  | s, [] => .unchanged s
  | s, call :: calls => (perform s call).andThen false fun t => inTurn perform t calls

/-- A batch that does what some single calls in turn do. It is accepted if there are any and all of
    them are, and has no effect otherwise. -/
structure BatchOf (perform : State → Call → Outcome State) (s : State) (batch : Call)
    (singles : List Call) : Prop where
  accepted_iff : (perform s batch).verdict = .ok () ↔
    singles ≠ [] ∧ (inTurn perform s singles).verdict = .ok ()
  state_of_accepted : (perform s batch).verdict = .ok () →
    (perform s batch).state = (inTurn perform s singles).state
  state_of_rejected : ∀ reason, (perform s batch).verdict = .error reason →
    (perform s batch).state = s

/-- Outcomes that come of a check: they have its verdict, and the part that it yields is in the
    state. -/
structure Yields (embed : Part → State) (x : Checked Part) (o : Outcome State) : Prop where
  verdict : o.verdict = (fun _ => ()) <$> x
  state : ∀ part, x = .ok part → o.state = embed part

variable {perform : State → Call → Outcome State} {embed : Part → State}

theorem Yields.verdict_eq_ok {x : Checked Part} {o : Outcome State} (h : Yields embed x o) :
    o.verdict = .ok () ↔ ∃ part, x = .ok part := by
  rw [h.verdict]
  cases x with
  | error reason => exact ⟨(nomatch ·), fun ⟨_, hx⟩ => nomatch hx⟩
  | ok part => exact ⟨fun _ => ⟨part, rfl⟩, fun _ => rfl⟩

/-- A call and those after it come of their checks one after the other. -/
theorem Yields.andThen {x : Checked Part} {f : Part → Checked Part} {o : Outcome State}
    {rest : State → Outcome State} (h : Yields embed x o)
    (hrest : ∀ part, Yields embed (f part) (rest (embed part))) :
    Yields embed (x >>= f) (o.andThen false rest) := by
  cases x with
  | error reason =>
    have hv : o.verdict = .error reason := h.verdict
    rw [andThen_error hv]
    exact ⟨hv, nofun⟩
  | ok part =>
    have hv : o.verdict = .ok () := h.verdict
    rw [andThen_ok false hv, h.state part rfl]
    exact ⟨(hrest part).verdict, (hrest part).state⟩

theorem inTurn_singleton (s : State) (call : Call) :
    inTurn perform s [call] = perform s call := by
  rw [inTurn]
  cases hv : (perform s call).verdict with
  | error reason => exact andThen_error hv
  | ok _ =>
    rw [andThen_ok false hv, inTurn, unchanged, ← hv, List.append_nil]

/-- A call is the batch of itself. -/
theorem BatchOf.self {s : State} {call : Call}
    (hrejected : ∀ reason, (perform s call).verdict = .error reason → (perform s call).state = s) :
    BatchOf perform s call [call] where
  accepted_iff := by simp [inTurn_singleton]
  state_of_accepted _ := by rw [inTurn_singleton]
  state_of_rejected := hrejected

/-- A rejected call is the batch of no calls. -/
theorem BatchOf.none {s : State} {batch : Call}
    (hempty : ∃ reason, (perform s batch).verdict = .error reason)
    (hrejected : ∀ reason, (perform s batch).verdict = .error reason →
      (perform s batch).state = s) :
    BatchOf perform s batch [] := by
  obtain ⟨reason, hv⟩ := hempty
  refine ⟨?_, ?_, hrejected⟩
  · simp [hv]
  · intro hok
    rw [hv] at hok
    contradiction

variable {add : Part → List β → Checked Part} {read : α → Checked β} {single : α → Call}

/-- Single calls that read and add one item each, made in turn. -/
theorem yields_inTurn
    (hsingle : ∀ part a, Yields embed (do add part [← read a]) (perform (embed part) (single a)))
    (part : Part) (items : List α) :
    Yields embed (addEach add read part items)
      (inTurn perform (embed part) (items.map single)) := by
  induction items generalizing part with
  | nil => exact ⟨rfl, fun _ h => congrArg embed (Except.ok.inj h)⟩
  | cons a items ih =>
    rw [addEach_cons]
    exact (hsingle part a).andThen ih

/-- A call that reads all items and adds them is the batch of calls that do so one by one. -/
theorem BatchOf.of_yields {s : State} {batch : Call} {singles : List Call} {part : Part}
    {items : List α} (hadd : AddsOneByOne add) (hne : singles ≠ [])
    (hbatch : Yields embed (do add part (← items.mapM read)) (perform s batch))
    (hturn : Yields embed (addEach add read part items) (inTurn perform s singles))
    (hrejected : ∀ reason, (perform s batch).verdict = .error reason →
      (perform s batch).state = s) :
    BatchOf perform s batch singles where
  accepted_iff := by
    rw [hbatch.verdict_eq_ok, hturn.verdict_eq_ok]
    simp only [addEach_eq_ok hadd, hne, ne_eq, not_false_eq_true, true_and]
  state_of_accepted hok := by
    obtain ⟨part', hpart⟩ := hbatch.verdict_eq_ok.mp hok
    rw [hbatch.state part' hpart, hturn.state part' ((addEach_eq_ok hadd).mpr hpart)]
  state_of_rejected := hrejected

/-- A call that reads some items and adds them all, beside calls that read and add one each. -/
theorem BatchOf.of_items (hadd : AddsOneByOne add)
    (hsingle : ∀ part a, Yields embed (do add part [← read a]) (perform (embed part) (single a)))
    {batch : Call} {items : List α} {part : Part}
    (hbatch : items ≠ [] →
      Yields embed (do add part (← items.mapM read)) (perform (embed part) batch))
    (hempty : items = [] → ∃ reason, (perform (embed part) batch).verdict = .error reason)
    (hrejected : ∀ reason, (perform (embed part) batch).verdict = .error reason →
      (perform (embed part) batch).state = embed part) :
    BatchOf perform (embed part) batch (items.map single) := by
  by_cases hnil : items = []
  · rw [hnil]
    exact .none (hempty hnil) hrejected
  · have hne : items.map single ≠ [] := by simpa using hnil
    exact .of_yields hadd hne (hbatch hnil) (yields_inTurn hsingle part items) hrejected

/-- If single items can always be added, both come to the same verdict. -/
theorem verdict_eq_inTurn (hadd : AddsOneByOne add)
    (htotal : ∀ part b, ∃ next, add part [b] = .ok next)
    (hsingle : ∀ part a, Yields embed (do add part [← read a]) (perform (embed part) (single a)))
    {batch : Call} {items : List α} {part : Part}
    (hbatch : Yields embed (do add part (← items.mapM read)) (perform (embed part) batch)) :
    (perform (embed part) batch).verdict =
      (inTurn perform (embed part) (items.map single)).verdict := by
  rw [hbatch.verdict, (yields_inTurn hsingle part items).verdict, addEach_eq hadd htotal]

/-- An outcome on a part of a state. -/
theorem Yields.map {State' : Type} {x : Checked Part} {o : Outcome State} (h : Yields embed x o)
    (outer : State → State') : Yields (fun part => outer (embed part)) x (o.map outer) where
  verdict := h.verdict
  state part hx := congrArg outer (h.state part hx)

end Outcome

end SqlSelect
