import BinaryPack.Value.Basic

/-! # Tags

  Every item on the wire starts with a tag byte. Its low seven bits name the
  type of the item; the low four of them, when not all zero, are the width of a
  payload of fixed size. Bit 0x80 marks a payload whose length takes one byte
  instead of four. An item is a tombstone when none of the bits 0x70 is set.
-/

namespace BinaryPack

/-! ### Types -/

/-- The type of a scalar. -/
inductive ScalarType where
  | null
  | bool
  | int8
  | int16
  | int32
  | int64
  | uint8
  | uint16
  | uint32
  | uint64
  | float32
  | float64
  | string
  | raw
  deriving DecidableEq

/-- The type of an item. -/
inductive ItemType where
  | object
  | array
  | scalar (type : ScalarType)
  deriving DecidableEq

/-- The type of a scalar. -/
def Scalar.type : Scalar → ScalarType
  | .null => .null
  | .bool _ => .bool
  | .int8 _ => .int8
  | .int16 _ => .int16
  | .int32 _ => .int32
  | .int64 _ => .int64
  | .uint8 _ => .uint8
  | .uint16 _ => .uint16
  | .uint32 _ => .uint32
  | .uint64 _ => .uint64
  | .float32 _ => .float32
  | .float64 _ => .float64
  | .string _ => .string
  | .raw _ => .raw

/-- The type of the item that carries a value. -/
def Value.type : Value → ItemType
  | .scalar s => .scalar s.type
  | .array _ => .array
  | .map _ => .object

namespace ScalarType

/-- All types. -/
def all : List ScalarType :=
  [.null, .bool, .int8, .int16, .int32, .int64, .uint8, .uint16, .uint32, .uint64,
   .float32, .float64, .string, .raw]

/-- The tag of a type, without the bit for short payloads. -/
def tag : ScalarType → UInt8
  | .null => 0x61
  | .bool => 0x31
  | .int8 => 0x11
  | .int16 => 0x12
  | .int32 => 0x14
  | .int64 => 0x18
  | .uint8 => 0x21
  | .uint16 => 0x22
  | .uint32 => 0x24
  | .uint64 => 0x28
  | .float32 => 0x44
  | .float64 => 0x48
  | .string => 0x50
  | .raw => 0x60

/-- The name of a type, as messages give it. -/
def name : ScalarType → String
  | .null => "Null"
  | .bool => "Bool"
  | .int8 => "Int8"
  | .int16 => "Int16"
  | .int32 => "Int32"
  | .int64 => "Int64"
  | .uint8 => "UInt8"
  | .uint16 => "UInt16"
  | .uint32 => "UInt32"
  | .uint64 => "UInt64"
  | .float32 => "Float32"
  | .float64 => "Float64"
  | .string => "String"
  | .raw => "Raw"

end ScalarType

namespace ItemType

/-- All types. -/
def all : List ItemType :=
  .object :: .array :: ScalarType.all.map .scalar

/-- The tag of a type, without the bit for short payloads. -/
def tag : ItemType → UInt8
  | .object => 0x10
  | .array => 0x20
  | .scalar type => type.tag

/-- The name of a type, as messages give it. -/
def name : ItemType → String
  | .object => "Object"
  | .array => "Array"
  | .scalar type => type.name

/-- The name of what a tag byte names, be it a type or nothing. -/
def nameOf : Option ItemType → String
  | some type => type.name
  | none => "Invalid"

/-- The type that a tag byte names, if it names one. Bit 0x80 does not matter. -/
def ofTag? (tag : UInt8) : Option ItemType :=
  all.find? fun type => type.tag = tag &&& 0x7F

/-- Whether items of the type hold other items. -/
def isContainer : ItemType → Bool
  | .object | .array => true
  | .scalar _ => false

end ItemType

/-! ### Tag bytes -/

namespace Tag

/-- The bit for a payload whose length takes one byte. -/
def shortBit : UInt8 := 0x80

/-- Whether a tag byte marks a tombstone. -/
def isDeleted (tag : UInt8) : Bool :=
  tag &&& 0x70 = 0

/-- The payload width that a tag byte carries itself, zero if it carries none. -/
def width (tag : UInt8) : Nat :=
  (tag &&& 0x0F).toNat

end Tag

/-- The width of payloads of fixed size. -/
def ItemType.fixedWidth? (type : ItemType) : Option Nat :=
  if Tag.width type.tag = 0 then none else some (Tag.width type.tag)

/-! ### Size classes -/

/-- How the length of a payload is written. -/
inductive SizeClass where
  /-- In the tag itself. -/
  | fixed
  /-- In one byte. -/
  | short
  /-- In four bytes, least significant first. -/
  | long
  deriving DecidableEq

namespace SizeClass

/-- The size class of a tag byte. A width in the low four bits decides before
    the bit for short payloads. -/
def ofTag (tag : UInt8) : SizeClass :=
  if Tag.width tag ≠ 0 then .fixed
  else if tag &&& Tag.shortBit ≠ 0 then .short
  else .long

/-- Bytes of the length field. -/
def lengthWidth : SizeClass → Nat
  | .fixed => 0
  | .short => 1
  | .long => 4

/-- Bytes of the tag, the name length and the length field. -/
def headerLength (c : SizeClass) : Nat :=
  2 + c.lengthWidth

/-- The name of a size class. -/
def name : SizeClass → String
  | .fixed => "Fixed"
  | .short => "Short"
  | .long => "Long"

end SizeClass

end BinaryPack
