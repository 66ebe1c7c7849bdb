import SqlSelect.Literal.Basic

/-!
The types whose values can stand in a condition, each with the literal of its values: machine
integers of every width, floating-point numbers, truth values, texts, dates and moments, and the
absent value, which is `NULL`.
-/

namespace SqlSelect

/-- Types with a literal for each of their values. -/
class ToLiteral (α : Type) where
  toLiteral : α → Literal

export ToLiteral (toLiteral)

/-! ### Whole numbers -/

instance : ToLiteral Int8 := ⟨fun n => .int n.toInt64⟩

instance : ToLiteral Int16 := ⟨fun n => .int n.toInt64⟩

instance : ToLiteral Int32 := ⟨fun n => .int n.toInt64⟩

instance : ToLiteral Int64 := ⟨.int⟩

instance : ToLiteral UInt8 := ⟨fun n => .int (Int64.ofNat n.toNat)⟩

instance : ToLiteral UInt16 := ⟨fun n => .int (Int64.ofNat n.toNat)⟩

instance : ToLiteral UInt32 := ⟨fun n => .int (Int64.ofNat n.toNat)⟩

instance : ToLiteral UInt64 := ⟨.ofUInt64⟩

instance : ToLiteral USize := ⟨fun n => .ofUInt64 n.toUInt64⟩

/-! ### Other values -/

instance : ToLiteral Literal := ⟨id⟩

instance : ToLiteral Binary64 := ⟨.float⟩

instance : ToLiteral Bool := ⟨.bool⟩

instance : ToLiteral Text := ⟨.text⟩

instance : ToLiteral String := ⟨fun s => .text s.toList⟩

instance : ToLiteral Timestamp := ⟨.timestamp⟩

/-- A date stands for its first moment. -/
instance : ToLiteral Date := ⟨fun d => .timestamp { date := d }⟩

instance : ToLiteral Unit := ⟨fun _ => .null⟩

instance {α : Type} [ToLiteral α] : ToLiteral (Option α) :=
  ⟨fun value => value.elim .null toLiteral⟩

end SqlSelect
