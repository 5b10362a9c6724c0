import BinaryPack.Datum.Reading
import BinaryPack.Schema.Basic

/-! # Reading primitives as a schema

  Integers are read as any integer type they fit, and as floating-point numbers
  with rounding to the nearest. Nothing else changes its kind: a character is
  read from a text of one character, a text from a text or from bytes that are
  well-formed UTF-8.
-/

namespace BinaryPack

/-- The number of an integer of any type. -/
def Primitive.integer? : Primitive → Option Int
  | .int8 n => some n.toInt
  | .int16 n => some n.toInt
  | .int32 n => some n.toInt
  | .int64 n => some n.toInt
  | .uint8 n => some n.toNat
  | .uint16 n => some n.toNat
  | .uint32 n => some n.toNat
  | .uint64 n => some n.toNat
  | _ => none

/-- A text of one character read as that character. -/
def Datum.readCharOf (text : String) : Except Mismatch Datum :=
  match text.toList with
  | [c] => .ok (.char c)
  | _ => .error (.invalidValue (.string text) "a character")

namespace Visit

variable {ρ : Type}

/-- A boolean. -/
def readBool : Visit ρ → Except Mismatch Datum
  | .primitive (.bool value) => .ok (.primitive (.bool value))
  | other => other.mismatch "a boolean"

/-- The number of an integer of any type, if one is shown. -/
def integer? : Visit ρ → Option Int
  | .primitive p => p.integer?
  | _ => none

/-- A number of an integer type, which must hold the number that is shown. -/
def readInteger (visit : Visit ρ) (type : IntegerType) : Except Mismatch Datum :=
  match visit.integer? with
  | some n =>
    if type.holds n then .ok (type.datum n)
    else .error (.invalidValue (.integer n) type.name)
  | none => visit.mismatch type.name

/-- A 32-bit number. -/
def readFloat32 : Visit ρ → Except Mismatch Datum
  | .primitive (.float32 x) => .ok (.primitive (.float32 x))
  | .primitive (.float64 x) => .ok (.primitive (.float32 x.toSingle))
  | other =>
    match other.integer? with
    | some n => .ok (.primitive (.float32 (Single.ofInt n)))
    | none => other.mismatch "f32"

/-- A 64-bit number. -/
def readFloat64 : Visit ρ → Except Mismatch Datum
  | .primitive (.float32 x) => .ok (.primitive (.float64 x.toDouble))
  | .primitive (.float64 x) => .ok (.primitive (.float64 x))
  | other =>
    match other.integer? with
    | some n => .ok (.primitive (.float64 (Double.ofInt n)))
    | none => other.mismatch "f64"

/-- A character. -/
def readChar : Visit ρ → Except Mismatch Datum
  | .primitive (.str text) | .primitive (.string text) => Datum.readCharOf text
  | other => other.mismatch "a character"

/-- A text. -/
def readString : Visit ρ → Except Mismatch Datum
  | .primitive p => p.readText.map fun text => .primitive (.string text)
  | other => other.mismatch "a string"

/-- The unit, or a structure without fields in its place. -/
def readUnit (visit : Visit ρ) (datum : Datum) (expected : String) : Except Mismatch Datum :=
  match visit with
  | .primitive .unit => .ok datum
  | other => other.mismatch expected

/-- Bytes without further meaning. -/
def readBlob : Visit ρ → Except Mismatch Datum
  | .primitive (.bytes data) | .primitive (.byteBuffer data) => .ok (.primitive (.byteBuffer data))
  | other => other.mismatch "a blob"

end Visit

end BinaryPack
