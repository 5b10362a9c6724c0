import BinaryPack.Error
import BinaryPack.Value.Basic

/-! # Primitives

  What has no parts is handed over in one call, and shown to whoever reads it in
  one call. There is a call for each primitive type; for texts and for runs of
  bytes there are two, one for those lent and one for those given away. Other
  than a scalar, a primitive is nothing that a pack holds.
-/

namespace BinaryPack

/-- A piece of data that is handed over in one call. -/
inductive Primitive where
  | unit
  | bool (value : Bool)
  | int8 (value : Int8)
  | int16 (value : Int16)
  | int32 (value : Int32)
  | int64 (value : Int64)
  | uint8 (value : UInt8)
  | uint16 (value : UInt16)
  | uint32 (value : UInt32)
  | uint64 (value : UInt64)
  | float32 (value : Single)
  | float64 (value : Double)
  /-- A text that is lent. -/
  | str (text : String)
  /-- A text that is given away. -/
  | string (text : String)
  /-- Bytes that are lent. -/
  | bytes (bytes : Bytes)
  /-- Bytes that are given away. -/
  | byteBuffer (bytes : Bytes)
  deriving DecidableEq

namespace Primitive

/-- What a primitive is called where something else was expected. -/
def unexpected : Primitive → Unexpected
  | .unit => .unit
  | .bool value => .bool value
  | .int8 value => .integer value.toInt
  | .int16 value => .integer value.toInt
  | .int32 value => .integer value.toInt
  | .int64 value => .integer value.toInt
  | .uint8 value => .integer value.toNat
  | .uint16 value => .integer value.toNat
  | .uint32 value => .integer value.toNat
  | .uint64 value => .integer value.toNat
  | .float32 value => .float value.toDouble
  | .float64 value => .float value
  | .str text | .string text => .string text
  | .bytes _ | .byteBuffer _ => .bytes

end Primitive

end BinaryPack
