import BinaryPack.Datum.Basic

/-! # Schemas

  A schema is a type of host data that a value can be read as. Structures with
  named fields and enumerations are declared by name, so they may refer to each
  other and to themselves; a set of declarations gives every name `ν` its
  declaration.
-/

namespace BinaryPack

/-- The types of integers. -/
inductive IntegerType where
  | int8
  | int16
  | int32
  | int64
  | int128
  | uint8
  | uint16
  | uint32
  | uint64
  | uint128
  deriving DecidableEq

namespace IntegerType

/-- The name of a type, as messages give it. -/
def name : IntegerType → String
  | .int8 => "i8"
  | .int16 => "i16"
  | .int32 => "i32"
  | .int64 => "i64"
  | .int128 => "i128"
  | .uint8 => "u8"
  | .uint16 => "u16"
  | .uint32 => "u32"
  | .uint64 => "u64"
  | .uint128 => "u128"

/-- The bits of a type. -/
def width : IntegerType → Nat
  | .int8 | .uint8 => 8
  | .int16 | .uint16 => 16
  | .int32 | .uint32 => 32
  | .int64 | .uint64 => 64
  | .int128 | .uint128 => 128

/-- Whether a type has negative numbers. -/
def isSigned : IntegerType → Bool
  | .int8 | .int16 | .int32 | .int64 | .int128 => true
  | .uint8 | .uint16 | .uint32 | .uint64 | .uint128 => false

/-- Whether a number is one of a type. -/
def holds (type : IntegerType) (n : Int) : Bool :=
  if type.isSigned then -Int.pow 2 (type.width - 1) ≤ n && n < Int.pow 2 (type.width - 1)
  else 0 ≤ n && n < Int.pow 2 type.width

/-- A number of a type as host data. -/
def datum (type : IntegerType) (n : Int) : Datum :=
  match type with
  | .int8 => .primitive (.int8 (Int8.ofInt n))
  | .int16 => .primitive (.int16 (Int16.ofInt n))
  | .int32 => .primitive (.int32 (Int32.ofInt n))
  | .int64 => .primitive (.int64 (Int64.ofInt n))
  | .int128 => .int128 n
  | .uint8 => .primitive (.uint8 (UInt8.ofNat n.toNat))
  | .uint16 => .primitive (.uint16 (UInt16.ofNat n.toNat))
  | .uint32 => .primitive (.uint32 (UInt32.ofNat n.toNat))
  | .uint64 => .primitive (.uint64 (UInt64.ofNat n.toNat))
  | .uint128 => .uint128 n.toNat

end IntegerType

/-- The types that keys of a map can be read as. -/
inductive KeySchema (ν : Type) where
  | string
  | char
  | integer (type : IntegerType)
  | declared (name : ν)

/-- The types that values can be read as. -/
inductive Schema (ν : Type) where
  | bool
  | integer (type : IntegerType)
  | float32
  | float64
  | char
  | string
  | unit
  /-- Bytes without further meaning. -/
  | blob
  /-- Any value, as it is. -/
  | value
  /-- Any value, which is not looked at. -/
  | ignored
  | option (content : Schema ν)
  /-- A sequence of any length. -/
  | sequence (item : Schema ν)
  /-- A sequence of fixed length. -/
  | array (length : Nat) (item : Schema ν)
  | tuple (items : List (Schema ν))
  | map (key : KeySchema ν) (value : Schema ν)
  | unitStruct (type : String)
  | newtypeStruct (type : String) (content : Schema ν)
  | tupleStruct (type : String) (items : List (Schema ν))
  /-- A declared structure or enumeration. -/
  | declared (name : ν)

/-- A named field. -/
structure Field (ν : Type) where
  name : String
  schema : Schema ν
  /-- What stands in for the field when it is absent. -/
  default : Option Datum := none

/-- What a variant holds. -/
inductive Content (ν : Type) where
  | unit
  | newtype (content : Schema ν)
  | tuple (items : List (Schema ν))
  | struct (fields : List (Field ν))

/-- The declaration of a named type. -/
inductive Declaration (ν : Type) where
  /-- A structure, which may be closed to fields it does not name. -/
  | struct (type : String) (closed : Bool) (fields : List (Field ν))
  /-- An enumeration. -/
  | enumeration (type : String) (variants : List (String × Content ν))

/-- What a value is asked to be read as: a whole datum, or the content of a
    variant. -/
inductive Request (ν : Type) where
  | whole (schema : Schema ν)
  | content (type variant : String) (content : Content ν)

end BinaryPack
