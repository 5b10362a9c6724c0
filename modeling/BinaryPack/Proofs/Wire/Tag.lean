import BinaryPack.Wire.Tag

/-! # Tag bytes of a type

  A tag byte that names a type is the tag of that type, with or without the bit
  for short payloads. So whatever the other bits tell (whether the item is a
  tombstone, how wide its payload is) is settled by the type alone.
-/

namespace BinaryPack

namespace ItemType

/-! ### The type that a tag names -/

theorem tag_eq_of_ofTag? {tag : UInt8} {type : ItemType} (h : ofTag? tag = some type) :
    type.tag = tag &&& 0x7F := by
  simpa using List.find?_some h

/-- A tag byte agrees with the tag of its type in all bits but the one for short
    payloads. -/
theorem and_eq_of_ofTag? {tag mask : UInt8} {type : ItemType} (h : ofTag? tag = some type)
    (hmask : 0x7F &&& mask = mask) : tag &&& mask = type.tag &&& mask := by
  rw [tag_eq_of_ofTag? h, UInt8.and_assoc, hmask]

/-- No tag that names a type marks a tombstone. -/
theorem isDeleted_of_ofTag? {tag : UInt8} {type : ItemType} (h : ofTag? tag = some type) :
    Tag.isDeleted tag = false := by
  have hlive : ∀ type : ItemType, Tag.isDeleted type.tag = false := by
    intro type
    rcases type with _ | _ | ⟨_ | _⟩ <;> decide
  rw [← hlive type, Tag.isDeleted, Tag.isDeleted, and_eq_of_ofTag? h (by decide)]

theorem width_of_ofTag? {tag : UInt8} {type : ItemType} (h : ofTag? tag = some type) :
    Tag.width tag = Tag.width type.tag := by
  rw [Tag.width, Tag.width, and_eq_of_ofTag? h (by decide)]

/-! ### The tags that name a type -/

@[simp] theorem ofTag?_tag (type : ItemType) : ofTag? type.tag = some type := by
  rcases type with _ | _ | ⟨_ | _⟩ <;> decide

@[simp] theorem ofTag?_tag_short (type : ItemType) :
    ofTag? (type.tag ||| Tag.shortBit) = some type := by
  rcases type with _ | _ | ⟨_ | _⟩ <;> decide

end ItemType

/-! ### Widths -/

/-- The width of the payload of a scalar, zero if it may have any. -/
def ScalarType.width : ScalarType → Nat
  | .string | .raw => 0
  | .null | .bool | .int8 | .uint8 => 1
  | .int16 | .uint16 => 2
  | .int32 | .uint32 | .float32 => 4
  | .int64 | .uint64 | .float64 => 8

@[simp] theorem ScalarType.width_tag (type : ScalarType) : Tag.width type.tag = type.width := by
  cases type <;> decide

/-! ### Size classes -/

namespace SizeClass

theorem lengthWidth_le (c : SizeClass) : c.lengthWidth ≤ 4 := by
  cases c <;> decide

/-- The size class of a bare tag. -/
theorem ofTag_tag (type : ItemType) :
    ofTag type.tag = if Tag.width type.tag = 0 then .long else .fixed := by
  rcases type with _ | _ | ⟨_ | _⟩ <;> decide

/-- The size class of a tag with the bit for short payloads, which a tag that carries
    its width does not mind. -/
theorem ofTag_tag_short (type : ItemType) :
    ofTag (type.tag ||| Tag.shortBit) = if Tag.width type.tag = 0 then .short else .fixed := by
  rcases type with _ | _ | ⟨_ | _⟩ <;> decide

theorem ofTag_eq_fixed_iff (tag : UInt8) : ofTag tag = .fixed ↔ Tag.width tag ≠ 0 := by
  by_cases hwidth : Tag.width tag = 0
  · simp only [ofTag, hwidth, ne_eq, not_true_eq_false, if_false, iff_false]
    split <;> simp
  · simp [ofTag, hwidth]

end SizeClass

end BinaryPack
