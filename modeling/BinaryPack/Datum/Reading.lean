import BinaryPack.Datum.Basic
import BinaryPack.Text.Utf8
import BinaryPack.Value.Visit

/-! # Reading host data as a value

  A value can be read from any data that describes itself. Primitives, options,
  units, sequences and maps with text keys have a value; 128-bit integers,
  structures around one datum and enumerations do not. Reading goes from left to
  right, and the first mismatch ends it.

  The reader is the one that reads any value from a value.
-/

namespace BinaryPack

/-- The text of a primitive: a text, or bytes that are well-formed UTF-8. -/
def Primitive.readText : Primitive → Except Mismatch String
  | .str text | .string text => .ok text
  | .bytes data | .byteBuffer data =>
    match Utf8.strict? data with
    | some text => .ok text
    | none => .error (.invalidValue .bytes "a string")
  | other => .error (.invalidType other.unexpected "a string")

namespace Datum

/-- How a wide integer is refused. -/
def wideInteger (value : Int) (type expected : String) : Mismatch :=
  .invalidType (.wideInteger value type) expected

/-- The text of a piece of data. -/
def readText : Datum → Except Mismatch String
  | .primitive p => p.readText
  | .char c => (Primitive.str c.toString).readText
  | .int128 value => .error (wideInteger value "i128" "a string")
  | .uint128 value => .error (wideInteger value "u128" "a string")
  | .absent | .present _ => .error (.invalidType .option "a string")
  | .unitStruct _ => .error (.invalidType .unit "a string")
  | .newtypeStruct .. => .error (.invalidType .newtypeStruct "a string")
  | .unitVariant .. | .newtypeVariant .. | .tupleVariant .. | .structVariant .. =>
    .error (.invalidType .enumeration "a string")
  | .seq .. | .tuple _ | .tupleStruct .. => .error (.invalidType .sequence "a string")
  | .map .. | .struct .. => .error (.invalidType .map "a string")
  | .failure reason => .error (.other reason)

/-- An array of elements that have been read, with what is told of its length. -/
def readArray (hint : Nat → Option Nat) (items : List (Except Mismatch Value)) :
    Except Mismatch Value :=
  ((Value.ofElements id items.length).run hint items rfl).1

/-- A map of entries that have been read, with what is told of its length. -/
def readMap (hint : Nat → Option Nat)
    (entries : List (Except Mismatch String × Except Mismatch Value)) : Except Mismatch Value :=
  ((Value.ofEntries id id entries.length).run hint entries rfl none).1

mutual

/-- The value that a piece of data describes. -/
def readValue : Datum → Except Mismatch Value
  | .primitive p => .ok (.scalar p.taken)
  | .char c => .ok (.scalar (Primitive.str c.toString).taken)
  | .int128 value => .error (wideInteger value "i128" "any pack value")
  | .uint128 value => .error (wideInteger value "u128" "any pack value")
  | .absent => .ok .null
  | .unitStruct _ => .ok (.scalar Primitive.unit.taken)
  | .present content => readValue content
  | .newtypeStruct .. => .error (.invalidType .newtypeStruct "any pack value")
  | .unitVariant .. | .newtypeVariant .. | .tupleVariant .. | .structVariant .. =>
    .error (.invalidType .enumeration "any pack value")
  | .seq announced items => readArray (told announced) (readItems items)
  | .tuple items | .tupleStruct _ items => readArray some (readItems items)
  | .map announced steps => readMap (told announced) (readSteps steps)
  | .struct _ fields => readMap some (readFields fields)
  | .failure reason => .error (.other reason)

/-- What becomes of each of some data. -/
def readItems : List Datum → List (Except Mismatch Value)
  | [] => []
  | item :: rest => readValue item :: readItems rest

/-- What becomes of each entry that some steps make up. A key makes an entry with
    the value right after it; steps that make none are not to be read. -/
def readSteps : List (Step Datum) → List (Except Mismatch String × Except Mismatch Value)
  | [] => []
  | .entry key value :: rest => (readText key, readValue value) :: readSteps rest
  | .key key :: .value value :: rest => (readText key, readValue value) :: readSteps rest
  | .key _ :: rest | .value _ :: rest => readSteps rest

/-- What becomes of each of some named fields. -/
def readFields : List (String × Datum) → List (Except Mismatch String × Except Mismatch Value)
  | [] => []
  | (name, field) :: rest => (.ok name, readValue field) :: readFields rest

end

end Datum

end BinaryPack
