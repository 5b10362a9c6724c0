import BinaryPack.Wire.Payload

/-! # Items

  An item is a tag, a name, a payload and, for objects and arrays, the items
  read from the payload. On the wire the name may end in a NUL, which does not
  belong to the key it stands for.
-/

namespace BinaryPack

/-- One tagged item. -/
structure Item where
  /-- The tag byte as it stands on the wire. -/
  tag : UInt8
  /-- The name as it stands on the wire. -/
  name : Bytes
  /-- The payload; of a container the whole of it, count included. -/
  data : Bytes
  /-- The items in a container, in wire order. -/
  children : List Item

namespace Item

/-- The type of an item, if its tag names one. -/
def itemType? (item : Item) : Option ItemType :=
  ItemType.ofTag? item.tag

/-- The size class of an item. -/
def sizeClass (item : Item) : SizeClass :=
  SizeClass.ofTag item.tag

/-- The name without its terminator. -/
def key (item : Item) : Bytes :=
  unterminated item.name

/-- The bytes an item takes on the wire: header, name and payload. -/
def wireSize (item : Item) : Nat :=
  item.sizeClass.headerLength + item.name.length + item.data.length

end Item

end BinaryPack
