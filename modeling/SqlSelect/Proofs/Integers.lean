import SqlSelect.Literal.Source
import SqlSelect.Payload.Reading
import SqlSelect.Proofs.Numerals
import SqlSelect.Proofs.Placement
import SqlSelect.Proofs.Quoting

/-!
Whole numbers stay exact. A machine integer of any width, signed or not, and a JSON number that fits
a word with or without a sign all become the one literal that is left to their number: a signed word
up to `2 ^ 63 - 1`, and an unsigned word from there on. The literal is written as the numeral of the
number, in patterns too. So inputs of different types are the same literal, and leave the same SQL
wherever they stand, exactly if they are the same number.

        int64   -9223372036854775808  ──▶  int    ──▶  -9223372036854775808
        json     9223372036854775807  ──▶  int    ──▶   9223372036854775807
        uint64   9223372036854775808  ──▶  uint   ──▶   9223372036854775808
-/

namespace SqlSelect

/-- A whole number as it is handed over: a machine integer, or a JSON number within the range of the
    signed and unsigned words together. -/
inductive WholeInput where
  | int8 (n : Int8)
  | int16 (n : Int16)
  | int32 (n : Int32)
  | int64 (n : Int64)
  | uint8 (n : UInt8)
  | uint16 (n : UInt16)
  | uint32 (n : UInt32)
  | uint64 (n : UInt64)
  | usize (n : USize)
  | json (n : Int) (lower : Int64.minValue.toInt ≤ n) (upper : n < UInt64.size)

namespace WholeInput

/-- The number that is meant. -/
def value : WholeInput → Int
  | int8 n => n.toInt
  | int16 n => n.toInt
  | int32 n => n.toInt
  | int64 n => n.toInt
  | uint8 n => n.toNat
  | uint16 n => n.toNat
  | uint32 n => n.toNat
  | uint64 n => n.toNat
  | usize n => n.toNat
  | json n _ _ => n

/-- The literal that conditions get. -/
def literal : WholeInput → Checked Literal
  | int8 n => .ok (toLiteral n)
  | int16 n => .ok (toLiteral n)
  | int32 n => .ok (toLiteral n)
  | int64 n => .ok (toLiteral n)
  | uint8 n => .ok (toLiteral n)
  | uint16 n => .ok (toLiteral n)
  | uint32 n => .ok (toLiteral n)
  | uint64 n => .ok (toLiteral n)
  | usize n => .ok (toLiteral n)
  | json n _ _ => Literal.ofPayload (.whole n)

end WholeInput

/-- The literal of a number without loss: a signed word if one can hold it, else an unsigned one. -/
structure Literal.IsExact (l : Literal) (n : Int) : Prop where
  signed : n ≤ Int64.maxValue.toInt → ∃ word, l = .int word ∧ word.toInt = n
  unsigned : Int64.maxValue.toInt < n → ∃ word, l = .uint word ∧ word.toNat = n

/-! ### Literals -/

namespace Literal

theorem isExact_int {word : Int64} {n : Int} (h : word.toInt = n) : (int word).IsExact n where
  signed _ := ⟨word, rfl, h⟩
  unsigned hhigh := by
    have hword := word.toInt_le
    omega

theorem isExact_uint {word : UInt64} {n : Int} (h : word.toNat = n)
    (hhigh : Int64.maxValue.toInt < n) : (uint word).IsExact n where
  signed hlow := by omega
  unsigned _ := ⟨word, rfl, h⟩

theorem isExact_ofNat {n : Nat} (h : n ≤ Int64.maxValue.toInt.toNat) :
    (int (Int64.ofNat n)).IsExact n := by
  have hmax := Int64.toInt_maxValue
  exact isExact_int (Int64.toInt_ofNat_of_lt (by omega))

theorem isExact_ofUInt64 {word : UInt64} {n : Nat} (h : word.toNat = n) :
    (ofUInt64 word).IsExact n := by
  rw [ofUInt64, h]
  split
  · next hlow => exact isExact_ofNat hlow
  · next hhigh => exact isExact_uint (congrArg Int.ofNat h) (by omega)

theorem isExact_ofWhole {n : Int} (lower : Int64.minValue.toInt ≤ n) (upper : n < UInt64.size) :
    (ofWhole n).IsExact n := by
  have hmin := Int64.toInt_minValue
  have hmax := Int64.toInt_maxValue
  rw [ofWhole]
  rcases Int.lt_or_le Int64.maxValue.toInt n with hhigh | hlow
  · rw [if_neg (by omega), if_pos (by omega)]
    have hword : (UInt64.ofNat n.toNat).toNat = n.toNat := UInt64.toNat_ofNat_of_lt' (by omega)
    exact isExact_uint (by omega) hhigh
  · rw [if_pos ⟨lower, hlow⟩]
    exact isExact_int (Int64.toInt_ofInt_of_le (by omega) (by omega))

variable {l m : Literal} {n k : Int}

/-- An exact literal still tells its number. -/
theorem IsExact.whole? (h : l.IsExact n) : l.whole? = some n := by
  rcases Int.lt_or_le Int64.maxValue.toInt n with hhigh | hlow
  · obtain ⟨word, rfl, rfl⟩ := h.unsigned hhigh
    rfl
  · obtain ⟨word, rfl, rfl⟩ := h.signed hlow
    rfl

/-- There is only one exact literal of a number. -/
theorem IsExact.unique (h : l.IsExact n) (h' : m.IsExact n) : l = m := by
  rcases Int.lt_or_le Int64.maxValue.toInt n with hhigh | hlow
  · obtain ⟨word, rfl, hword⟩ := h.unsigned hhigh
    obtain ⟨word', rfl, hword'⟩ := h'.unsigned hhigh
    rw [UInt64.toNat_inj.mp (Int.ofNat.inj (hword.trans hword'.symm))]
  · obtain ⟨word, rfl, hword⟩ := h.signed hlow
    obtain ⟨word', rfl, hword'⟩ := h'.signed hlow
    rw [Int64.toInt_inj.mp (hword.trans hword'.symm)]

theorem IsExact.eq_iff (h : l.IsExact n) (h' : m.IsExact k) : l = m ↔ n = k := by
  constructor
  · rintro rfl
    exact Option.some.inj (h.whole?.symm.trans h'.whole?)
  · rintro rfl
    exact h.unique h'

theorem render_of_whole? (h : l.whole? = some n) (d : Dialect) : l.render d = Numeral.ofInt n := by
  cases l with
  | int word => rw [← Option.some.inj h, render]
  | uint word => rw [← Option.some.inj h]; rfl
  | _ => contradiction

end Literal

/-- Every input is accepted as a value, and none loses its number. -/
theorem WholeInput.exists_literal (a : WholeInput) :
    ∃ l, a.literal = .ok l ∧ l.IsExact a.value := by
  cases a with
  | int8 n => exact ⟨_, rfl, Literal.isExact_int n.toInt_toInt64⟩
  | int16 n => exact ⟨_, rfl, Literal.isExact_int n.toInt_toInt64⟩
  | int32 n => exact ⟨_, rfl, Literal.isExact_int n.toInt_toInt64⟩
  | int64 n => exact ⟨_, rfl, Literal.isExact_int rfl⟩
  | uint8 n => exact ⟨_, rfl, Literal.isExact_ofNat (n.toNat_lt.le.trans (by decide))⟩
  | uint16 n => exact ⟨_, rfl, Literal.isExact_ofNat (n.toNat_lt.le.trans (by decide))⟩
  | uint32 n => exact ⟨_, rfl, Literal.isExact_ofNat (n.toNat_lt.le.trans (by decide))⟩
  | uint64 n => exact ⟨_, rfl, Literal.isExact_ofUInt64 rfl⟩
  | usize n => exact ⟨_, rfl, Literal.isExact_ofUInt64 n.toNat_toUInt64⟩
  | json n lower upper => exact ⟨_, rfl, Literal.isExact_ofWhole lower upper⟩

/-! ### Places -/

theorem Wildcards.wrap_injective (wildcards : Wildcards) :
    Function.Injective fun text => wildcards.wrap text := by
  intro a b h
  cases wildcards <;> simpa [wrap] using h

/-- At any one place, different numbers are written differently, if it does not take quoting that
    makes different texts alike. -/
theorem Slot.written_eq_iff {slot : Slot} {d : Dialect}
    (hquote : slot.quotes = true → Function.Injective d.quote) {l m : Literal} {n k : Int}
    (hl : l.whole? = some n) (hm : m.whole? = some k) :
    slot.written d l = slot.written d m ↔ n = k := by
  have hrender : l.render d = m.render d ↔ n = k := by
    rw [Literal.render_of_whole? hl, Literal.render_of_whole? hm]
    exact Numeral.ofInt_injective.eq_iff
  cases slot with
  | pattern wildcards negated column =>
    rw [written, written, (hquote rfl).eq_iff, wildcards.wrap_injective.eq_iff, hrender]
  | _ => exact hrender

/-- Whole numbers stay exact from every type of input to the SQL. Each input is the literal of its
    number without loss; the text of the literal is the one numeral of the number, and stands in
    patterns too. Two inputs are the same literal exactly if they are the same number. A call that
    has a whole number in any place is accepted by statements and contexts if nothing else is
    wrong with it, whatever the number; and then two numbers leave the same text exactly if they are
    the same. For patterns it takes a dialect that quotes different texts differently, as those that
    are built in do. -/
theorem integers_exact :
    (∀ a : WholeInput, ∃ l, a.literal = .ok l ∧ l.IsExact a.value ∧
      (∀ d w, Numeral.IsNumeralOf w a.value ↔ w = l.render d) ∧
      ∀ d wildcards negated column name, Identifier.ofText column = .ok name →
        Predicate.matching wildcards negated column l =
          .ok (.compare (.column name) (if negated then .notLike else .like)
            (.text (wildcards.wrap (l.render d))))) ∧
    (∀ (a b : WholeInput) (l m : Literal), a.literal = .ok l → b.literal = .ok m →
      (l = m ↔ a.value = b.value) ∧
      (∀ (s : Statement) (c : Combinator) (place : Place),
        let sql v := (s.perform (.condition (.add c (place.fill v)))).state.sql
        ((s.perform (.condition (.add c (place.fill l)))).verdict = .ok () ↔
          place.Ready s.settings.maxInList) ∧
        (place.Ready s.settings.maxInList →
          (place.slot.quotes = true → Function.Injective s.dialect.quote) →
          (sql l = sql m ↔ a.value = b.value))) ∧
      ∀ (ctx : Context) (c : Combinator) (place : Place),
        let text d v := (ctx.add c (place.fill v)).state.tree.render d
        ((ctx.add c (place.fill l)).verdict = .ok () ↔ place.Ready ctx.cap) ∧
        (place.Ready ctx.cap → ∀ d : Dialect,
          (place.slot.quotes = true → Function.Injective d.quote) →
          (text d l = text d m ↔ a.value = b.value))) ∧
    ∀ rule : StringRule, Function.Injective rule.dialect.quote := by
  refine ⟨fun a => ?_, fun a b l m ha hb => ?_, StringRule.quote_injective⟩
  · obtain ⟨l, hl, hexact⟩ := a.exists_literal
    have hwhole : l.whole?.isSome = true := by rw [hexact.whole?]; rfl
    refine ⟨l, hl, hexact, fun d w => ?_, fun d wildcards negated column name hname => ?_⟩
    · rw [Literal.render_of_whole? hexact.whole?]
      exact Numeral.isNumeralOf_iff
    · exact (Predicate.matching_eq_ok hwhole d).mpr ⟨name, hname, rfl⟩
  · obtain ⟨l', hl, hexact⟩ := a.exists_literal
    obtain rfl := Except.ok.inj (hl.symm.trans ha)
    obtain ⟨m', hm, hexact'⟩ := b.exists_literal
    obtain rfl := Except.ok.inj (hm.symm.trans hb)
    have hwhole : l'.whole?.isSome = true := by rw [hexact.whole?]; rfl
    have hwhole' : m'.whole?.isSome = true := by rw [hexact'.whole?]; rfl
    refine ⟨hexact.eq_iff hexact', fun s c place => ⟨s.context.accepts_fill hwhole c, ?_⟩,
      fun ctx c place => ⟨ctx.accepts_fill hwhole c, ?_⟩⟩
    · intro hready hquote
      rw [s.sql_fill_eq_iff hwhole hwhole' c hready]
      exact Slot.written_eq_iff hquote hexact.whole? hexact'.whole?
    · intro hready d hquote
      rw [ctx.render_fill_eq_iff hwhole hwhole' c hready d]
      exact Slot.written_eq_iff hquote hexact.whole? hexact'.whole?

/-- A place in the second of three patterns. -/
def placeInPatterns : Place :=
  .patternEach .around true [("a".toList, .text "x".toList)] "t.code".toList [("b".toList, .int 3)]

/-- The least and the greatest of all inputs are told apart within patterns. -/
theorem integers_exact_extremes :
    let low := WholeInput.json (-9223372036854775808) (by decide) (by decide)
    let high := WholeInput.uint64 18446744073709551615
    let column : Identifier := { name := ⟨'n', [], by decide, by decide⟩ }
    let sql v := ((Statement.withDialect .mysql).perform
      (.condition (.add .or (placeInPatterns.fill v)))).state.sql
    let text v := (Context.standalone.add .or (placeInPatterns.fill v)).state.tree.render .ansi
    low.literal = .ok (.int Int64.minValue) ∧ high.literal = .ok (.uint 18446744073709551615) ∧
      Identifier.ofText ['n'] = .ok column ∧
      Predicate.matching .after false ['n'] (.uint 18446744073709551615) =
        .ok (.compare (.column column) .like (.text "18446744073709551615%".toList)) ∧
      placeInPatterns.Ready none ∧
      ((Statement.withDialect .mysql).perform (.condition (.add .or
        (placeInPatterns.fill (.int Int64.minValue))))).verdict = .ok () ∧
      Function.Injective Dialect.mysql.quote ∧
      sql (.int Int64.minValue) ≠ sql (.uint 18446744073709551615) ∧
      text (.int Int64.minValue) ≠ text (.uint 18446744073709551615) := by
  intro low high column sql text
  obtain ⟨hread, hpairs, hquote⟩ := integers_exact
  have hname : Identifier.ofText ['n'] = .ok column := rfl
  have hready : placeInPatterns.Ready none := by
    refine ⟨Text.isIdentifier_iff.mpr ⟨_, rfl⟩, ?_⟩
    exact List.forall_mem_cons.mpr ⟨⟨_, rfl⟩, List.forall_mem_singleton.mpr ⟨_, rfl⟩⟩
  obtain ⟨l, hl, -, -, hmatching⟩ := hread high
  obtain rfl : .uint 18446744073709551615 = l := Except.ok.inj hl
  obtain ⟨-, hstatements, hcontexts⟩ := hpairs low high _ _ rfl rfl
  obtain ⟨haccepted, hsql⟩ := hstatements (.withDialect .mysql) .or placeInPatterns
  have htext := (hcontexts .standalone .or placeInPatterns).2
  have hne : low.value ≠ high.value := by decide
  refine ⟨rfl, rfl, hname, ?_, hready, haccepted.mpr hready, hquote .backslash, ?_, ?_⟩
  · exact (hmatching .ansi .after false _ _ hname).trans (by decide)
  · intro h
    exact hne ((hsql hready fun _ => hquote .backslash).mp h)
  · intro h
    exact hne ((htext hready .ansi fun _ => hquote .standard).mp h)

end SqlSelect
