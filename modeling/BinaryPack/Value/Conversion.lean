import BinaryPack.Value.Basic

/-! # Values of plain data

  Booleans, numbers, texts, bytes, lists of values and maps each have a value
  of their own type; an optional datum without content is the absent value.
-/

namespace BinaryPack

universe u

/-- Data that is a value as it stands. -/
class ToValue (α : Type u) where
  /-- The value of the datum. -/
  toValue : α → Value

export ToValue (toValue)

instance : ToValue Bool := ⟨fun value => .scalar (.bool value)⟩
instance : ToValue Int8 := ⟨fun value => .scalar (.int8 value)⟩
instance : ToValue Int16 := ⟨fun value => .scalar (.int16 value)⟩
instance : ToValue Int32 := ⟨fun value => .scalar (.int32 value)⟩
instance : ToValue Int64 := ⟨fun value => .scalar (.int64 value)⟩
instance : ToValue UInt8 := ⟨fun value => .scalar (.uint8 value)⟩
instance : ToValue UInt16 := ⟨fun value => .scalar (.uint16 value)⟩
instance : ToValue UInt32 := ⟨fun value => .scalar (.uint32 value)⟩
instance : ToValue UInt64 := ⟨fun value => .scalar (.uint64 value)⟩
instance : ToValue Single := ⟨fun value => .scalar (.float32 value)⟩
instance : ToValue Double := ⟨fun value => .scalar (.float64 value)⟩
instance : ToValue String := ⟨fun text => .scalar (.string text)⟩
instance : ToValue Bytes := ⟨fun bytes => .scalar (.raw bytes)⟩
instance : ToValue (List Value) := ⟨.array⟩
instance : ToValue (Members Value) := ⟨.map⟩
instance {α : Type u} [ToValue α] : ToValue (Option α) :=
  ⟨fun datum => datum.elim .null toValue⟩

end BinaryPack
