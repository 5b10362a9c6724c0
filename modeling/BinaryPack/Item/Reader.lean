import BinaryPack.Item.Basic

/-! # Reading items

  An item is read at an offset of a buffer. Every step takes a known number of
  bytes or fails, and the children of a container are read from its payload
  alone, so no child reaches past its parent. A container is read only while
  the nesting limit lasts, and must hold exactly as many elements as it
  declares.
-/

namespace BinaryPack

/-! ### Cursors -/

/-- A place in a run of bytes. -/
structure Cursor where
  /-- The number of bytes before the place. -/
  offset : Nat
  /-- The bytes after it. -/
  rest : Bytes

namespace Cursor

/-- The place at an offset of a buffer; past its end nothing is left. -/
def ofBuffer (buffer : Bytes) (offset : Nat) : Cursor :=
  ⟨offset, buffer.drop offset⟩

/-- Takes a number of bytes. -/
def take (c : Cursor) (count : Nat) : Except ReadError (Bytes × Cursor) :=
  let taken := c.rest.take count
  if taken.length = count then .ok (taken, ⟨c.offset + count, c.rest.drop count⟩)
  else .error (.truncated count c.offset c.rest.length)

/-- Takes one byte. -/
def byte (c : Cursor) : Except ReadError (UInt8 × Cursor) :=
  match c.rest with
  | b :: rest => .ok (b, ⟨c.offset + 1, rest⟩)
  | [] => .error (.truncated 1 c.offset 0)

/-- Takes a number of the given width. -/
def number (c : Cursor) (width : Nat) : Except ReadError (Nat × Cursor) := do
  let (bytes, next) ← c.take width
  return (LittleEndian.decode bytes, next)

end Cursor

namespace Item

/-! ### One item -/

/-- Takes the length of the payload that belongs to a tag, which the tag carries
    itself or a length field gives. -/
def readLength (tag : UInt8) (c : Cursor) : Except ReadError (Nat × Cursor) :=
  match SizeClass.ofTag tag with
  | .fixed => .ok (Tag.width tag, c)
  | sizeClass => c.number sizeClass.lengthWidth

/-- The children that belong to a payload under a tag, given how those of a container
    are read: a scalar has none. -/
def childrenOf (readChildren : Bytes → Except ReadError (List Item)) (tag : UInt8)
    (offset : Nat) (data : Bytes) : Except ReadError (List Item) :=
  match ItemType.ofTag? tag with
  | none => .error (.unknownType tag offset)
  | some type => if type.isContainer then readChildren data else .ok []

/-- Reads one item, given how the children of a container are read from its
    payload. -/
def readWith (readChildren : Bytes → Except ReadError (List Item)) (start : Cursor) :
    Except ReadError (Item × Cursor) := do
  let (tag, c) ← start.byte
  let (nameLength, c) ← c.byte
  if Tag.isDeleted tag then
    throw (.deleted tag start.offset)
  let (length, c) ← readLength tag c
  let (name, c) ← c.take nameLength.toNat
  let (data, c) ← c.take length
  let children ← childrenOf readChildren tag start.offset data
  return (⟨tag, name, data, children⟩, c)

/-! ### The elements of a container -/

/-- The bytes of the smallest item. -/
def leastWireSize : Nat := 3

/-- The bytes of the count that opens a container's payload. -/
def countWidth : Nat := 4

/-- Takes the declared number of elements, which must have room in the payload
    before anything is set aside for them. -/
def readCount (payload : Bytes) : Except ReadError (Nat × Cursor) := do
  let (declared, c) ← (Cursor.ofBuffer payload 0).number countWidth
  let room := (payload.length - countWidth) / leastWireSize
  if room < declared then
    throw (.noRoom declared room)
  return (declared, c)

/-- Reads elements to the end of a payload, of which `left` are still expected
    out of those declared. -/
def readElements (readOne : Cursor → Except ReadError (Item × Cursor)) (declared : Nat) :
    (left : Nat) → Cursor → Except ReadError (List Item)
  | 0, c => if c.rest.isEmpty then .ok [] else .error (.surplus declared)
  | left + 1, c =>
    if c.rest.isEmpty then .error (.missing declared (declared - (left + 1)))
    else do
      let (item, next) ← readOne c
      let items ← readElements readOne declared left next
      return item :: items

/-- Reads the elements of a container's payload, with a limit on the nesting of
    containers from this one on. -/
def readChildren : (depth : Nat) → (payload : Bytes) → Except ReadError (List Item)
  | 0, _ => .error .tooDeep
  | depth + 1, payload => do
    let (declared, c) ← readCount payload
    readElements (readWith (readChildren depth)) declared declared c

/-! ### Buffers -/

/-- Reads the item at an offset of a buffer, with a limit on the nesting of
    containers, and the offset after it. -/
def read (depth : Nat) (buffer : Bytes) (offset : Nat) : Except ReadError (Item × Nat) := do
  let (item, c) ← readWith (readChildren depth) (Cursor.ofBuffer buffer offset)
  return (item, c.offset)

end Item

end BinaryPack
