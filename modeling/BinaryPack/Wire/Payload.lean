import BinaryPack.Error
import BinaryPack.Text.Utf8

/-! # Payloads of scalars

  Numbers travel as the bytes of their bits, least significant first; a signed
  number by its two's complement, a floating-point number by its IEEE bits. A
  text travels as UTF-8 with one NUL at the end, which a reader takes off if it
  is there. Any byte that is not zero makes a true boolean, and the payload of
  the absent value does not matter.
-/

namespace BinaryPack

/-- Bytes without one NUL at the end, if there is one. -/
def unterminated (bytes : Bytes) : Bytes :=
  if bytes.getLast? = some 0 then bytes.dropLast else bytes

namespace Scalar

/-- The payload that a scalar is written with. -/
def payload : Scalar → Bytes
  | .null => [0]
  | .bool value => [if value then 1 else 0]
  | .int8 value => LittleEndian.encode 1 value.toUInt8.toNat
  | .int16 value => LittleEndian.encode 2 value.toUInt16.toNat
  | .int32 value => LittleEndian.encode 4 value.toUInt32.toNat
  | .int64 value => LittleEndian.encode 8 value.toUInt64.toNat
  | .uint8 value => LittleEndian.encode 1 value.toNat
  | .uint16 value => LittleEndian.encode 2 value.toNat
  | .uint32 value => LittleEndian.encode 4 value.toNat
  | .uint64 value => LittleEndian.encode 8 value.toNat
  | .float32 value => LittleEndian.encode 4 value.bits.toNat
  | .float64 value => LittleEndian.encode 8 value.bits.toNat
  | .string text => Utf8.encode text ++ [0]
  | .raw bytes => bytes

/-- The number in a payload that must have the given width. -/
def number (type : ScalarType) (width : Nat) (data : Bytes) : Except BindError Nat :=
  if data.length = width then .ok (LittleEndian.decode data)
  else .error (.width type width data.length)

/-- The scalar that a payload of a given type holds. -/
def ofPayload (type : ScalarType) (data : Bytes) : Except BindError Scalar :=
  match type with
  | .null => .ok .null
  | .bool => .ok (.bool (data.any (· ≠ 0)))
  | .int8 => (number .int8 1 data).map fun n => .int8 (UInt8.ofNat n).toInt8
  | .int16 => (number .int16 2 data).map fun n => .int16 (UInt16.ofNat n).toInt16
  | .int32 => (number .int32 4 data).map fun n => .int32 (UInt32.ofNat n).toInt32
  | .int64 => (number .int64 8 data).map fun n => .int64 (UInt64.ofNat n).toInt64
  | .uint8 => (number .uint8 1 data).map fun n => .uint8 (UInt8.ofNat n)
  | .uint16 => (number .uint16 2 data).map fun n => .uint16 (UInt16.ofNat n)
  | .uint32 => (number .uint32 4 data).map fun n => .uint32 (UInt32.ofNat n)
  | .uint64 => (number .uint64 8 data).map fun n => .uint64 (UInt64.ofNat n)
  | .float32 => (number .float32 4 data).map fun n => .float32 ⟨UInt32.ofNat n⟩
  | .float64 => (number .float64 8 data).map fun n => .float64 ⟨UInt64.ofNat n⟩
  | .string => .ok (.string (Utf8.lossy (unterminated data)))
  | .raw => .ok (.raw data)

end Scalar

end BinaryPack
