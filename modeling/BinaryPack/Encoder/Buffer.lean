import BinaryPack.Wire.Payload

/-! # Writing into a buffer

  Packs are written into one growing buffer. An item of known length is written
  header first. A container's length is not known until its elements are
  written, so it is opened with a long header whose length is left blank, and
  closed by filling the length in; if the payload turns out to fit one byte, the
  header becomes a short one and the name and payload slide down over the bytes
  it no longer needs.

  A write may fail half-way. What it wrote until then stays in the buffer.
-/

namespace BinaryPack

/-- The bytes written so far. -/
abbrev Buffer := Array UInt8

/-- A write to a buffer, which may fail and then still leaves bytes behind. -/
abbrev Write (α : Type) := ExceptT MarshalError (StateM Buffer) α

/-! ### Names -/

/-- The name an item is written under. -/
inductive ItemName where
  /-- No name: the root and the elements of arrays. -/
  | unnamed
  /-- The key of a member. -/
  | key (text : String)
  deriving DecidableEq

namespace ItemName

/-- The greatest length of a name. -/
def maxLength : Nat := 255

/-- The bytes of a name. A key is followed by a NUL as long as there is room for
    one; a key of the greatest length stands alone, and must then not end in a
    NUL, which a reader would take for the terminator. -/
def bytes : ItemName → Except MarshalError Bytes
  | .unnamed => .ok []
  | .key text =>
    let bare := Utf8.encode text
    let length := bare.length
    if length < maxLength then .ok (bare ++ [0])
    else if length = maxLength then
      if bare.getLast? = some 0 then .error (.keyEndsInNul length) else .ok bare
    else .error (.keyTooLong length maxLength)

end ItemName

/-- The greatest payload length that one byte tells. -/
def maxShortLength : Nat := 255

/-- The greatest number that four bytes tell. -/
def maxLongLength : Nat := 4294967295

namespace Buffer

/-! ### Editing -/

/-- The buffer with some bytes at its end. -/
def append (buffer : Buffer) (bytes : Bytes) : Buffer :=
  buffer ++ bytes.toArray

/-- The buffer cut down to a length. -/
def truncate (buffer : Buffer) (length : Nat) : Buffer :=
  buffer.extract 0 length

/-- The buffer with the bytes from `source` to its end copied to `target`, over
    what stands there. -/
def copyDown (buffer : Buffer) (source target : Nat) : Buffer :=
  buffer.extract 0 target ++ buffer.extract source buffer.size
    ++ buffer.extract (target + (buffer.size - source)) buffer.size

/-- The buffer with bytes from `start` on replaced by others. -/
def patch (buffer : Buffer) (start : Nat) : Bytes → Buffer
  | [] => buffer
  | b :: rest => patch (buffer.setIfInBounds start b) (start + 1) rest

/-! ### Containers -/

/-- The buffer with the header of a container, its name and its count, the
    length of the payload left blank. -/
def openContainer (buffer : Buffer) (tag : UInt8) (name : Bytes) (count : Nat) : Buffer :=
  buffer.append ([tag, UInt8.ofNat name.length] ++ LittleEndian.encode 4 0 ++ name
    ++ LittleEndian.encode 4 count)

/-- The bytes of the payload of the container opened at `start`. -/
def payloadLength (buffer : Buffer) (start : Nat) : Nat :=
  buffer.size - (start + SizeClass.long.headerLength + (buffer.getD (start + 1) 0).toNat)

/-- The buffer with the container opened at `start` closed, its payload being of
    the given length. -/
def closeContainer (buffer : Buffer) (start length : Nat) : Buffer :=
  let long := SizeClass.long.headerLength
  let short := SizeClass.short.headerLength
  if length ≤ maxShortLength then
    let tag := buffer.getD start 0 ||| Tag.shortBit
    let headed := patch (patch buffer start [tag]) (start + 2) [UInt8.ofNat length]
    let slid := headed.copyDown (start + long) (start + short)
    slid.truncate (slid.size - (long - short))
  else
    buffer.patch (start + 2) (LittleEndian.encode 4 length)

end Buffer

namespace Write

/-- Puts bytes at the end. -/
def put (bytes : Bytes) : Write Unit :=
  modify fun (buffer : Buffer) => buffer.append bytes

/-- Opens a container and gives the place of its header. The nesting limit, the
    count and the name are checked in this order, before anything is written. -/
def openContainer (type : ItemType) (name : ItemName) (count depth : Nat) : Write Nat := do
  if depth = 0 then
    throw .tooDeep
  if maxLongLength < count then
    throw (.tooManyElements count)
  let name ← name.bytes
  let buffer ← get
  set (buffer.openContainer type.tag name count)
  return buffer.size

/-- Closes the container whose header is at `start`. -/
def closeContainer (start : Nat) : Write Unit := do
  let buffer ← get
  let length := buffer.payloadLength start
  if maxLongLength < length then
    throw (.payloadTooLong length)
  set (buffer.closeContainer start length)

/-- Writes an item with a payload of the fixed width of its type. -/
def fixedItem (type : ScalarType) (name : ItemName) (payload : Bytes) : Write Unit := do
  let name ← name.bytes
  put ([type.tag, UInt8.ofNat name.length] ++ name ++ payload)

/-- Writes an item whose payload may have any length. The short class is taken
    whenever the length fits one byte. -/
def variableItem (type : ScalarType) (name : ItemName) (payload : Bytes) : Write Unit := do
  let name ← name.bytes
  let length := payload.length
  if length ≤ maxShortLength then
    put ([type.tag ||| Tag.shortBit, UInt8.ofNat name.length, UInt8.ofNat length] ++ name)
  else if maxLongLength < length then
    throw (.payloadTooLong length)
  else
    put ([type.tag, UInt8.ofNat name.length] ++ LittleEndian.encode 4 length ++ name)
  put payload

/-- Writes a scalar. -/
def scalar (name : ItemName) (s : Scalar) : Write Unit :=
  if Tag.width s.type.tag = 0 then variableItem s.type name s.payload
  else fixedItem s.type name s.payload

end Write

end BinaryPack
