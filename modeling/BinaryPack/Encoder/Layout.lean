import BinaryPack.Wire.Payload

/-! # The layout of a value

  The bytes of a value, written down from the inside out: the payload of each
  item first, its header afterwards, when its length is known. No buffer is
  involved, and no limit on nesting, keys or lengths.
-/

namespace BinaryPack

namespace Layout

/-- The name that a key is written under: followed by a NUL while there is room
    for one. -/
def keyName (key : String) : Bytes :=
  let bare := Utf8.encode key
  if bare.length < 255 then bare ++ [0] else bare

/-- An item whose payload may have any length. The short class is taken exactly
    when the length fits one byte. -/
def sized (type : ItemType) (name payload : Bytes) : Bytes :=
  if payload.length ≤ 255 then
    [type.tag ||| Tag.shortBit, UInt8.ofNat name.length, UInt8.ofNat payload.length]
      ++ name ++ payload
  else
    [type.tag, UInt8.ofNat name.length] ++ LittleEndian.encode 4 payload.length
      ++ name ++ payload

/-- The item of a scalar. -/
def scalar (name : Bytes) (s : Scalar) : Bytes :=
  match s with
  | .string _ | .raw _ => sized (.scalar s.type) name s.payload
  | _ => [s.type.tag, UInt8.ofNat name.length] ++ name ++ s.payload

mutual

/-- The item of a value under a name. -/
def item (name : Bytes) : Value → Bytes
  | .scalar s => scalar name s
  | .array items =>
    sized .array name (LittleEndian.encode 4 items.length ++ elements items)
  | .map members =>
    sized .object name (LittleEndian.encode 4 members.length ++ namedElements members)

/-- The items of the elements of an array. -/
def elements : List Value → Bytes
  | [] => []
  | value :: rest => item [] value ++ elements rest

/-- The items of the members of a map. -/
def namedElements : List (String × Value) → Bytes
  | [] => []
  | (key, value) :: rest => item (keyName key) value ++ namedElements rest

end

end Layout

/-- The pack of a map, laid out without a buffer. -/
def Members.layout (members : Members Value) : Bytes :=
  Layout.item [] (.map members)

end BinaryPack
