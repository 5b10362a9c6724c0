import BinaryPack.Access
import BinaryPack.Primitive

/-! # Values that are visited

  To be read as anything, a value shows what it is: one primitive, or parts, each
  of which waits to be read. A reader that wants any value takes what it is shown.
  It goes along the parts until none is left, reads each as any value, and keeps
  of two entries with one key the last.

  Both a value and data of another kind can be shown so, and both ways the same
  reader takes it.
-/

namespace BinaryPack

/-! ### What is shown -/

/-- What is shown to a reader: one primitive, or parts, each as `ρ`. -/
inductive Visit (ρ : Type) where
  | primitive (primitive : Primitive)
  | items (items : List ρ)
  | members (members : Members ρ)

namespace Visit

variable {ρ α : Type}

/-- What is called where something else was expected. -/
def unexpected : Visit ρ → Unexpected
  | .primitive p => p.unexpected
  | .items _ => .sequence
  | .members _ => .map

/-- How a value of the wrong type is refused. -/
def mismatch (visit : Visit ρ) (expected : String) : Except Mismatch α :=
  .error (.invalidType visit.unexpected expected)

end Visit

/-- The primitive that a scalar is shown as. Texts and bytes are given away. -/
def Scalar.shown : Scalar → Primitive
  | .null => .unit
  | .bool value => .bool value
  | .int8 value => .int8 value
  | .int16 value => .int16 value
  | .int32 value => .int32 value
  | .int64 value => .int64 value
  | .uint8 value => .uint8 value
  | .uint16 value => .uint16 value
  | .uint32 value => .uint32 value
  | .uint64 value => .uint64 value
  | .float32 value => .float32 value
  | .float64 value => .float64 value
  | .string text => .string text
  | .raw bytes => .byteBuffer bytes

/-- What a value is shown as. -/
def Value.visit : Value → Visit Value
  | .scalar s => .primitive s.shown
  | .array items => .items items
  | .map members => .members members

/-! ### Reading any value -/

/-- The scalar that a reader of any value takes a primitive for. -/
def Primitive.taken : Primitive → Scalar
  | .unit => .null
  | .bool value => .bool value
  | .int8 value => .int8 value
  | .int16 value => .int16 value
  | .int32 value => .int32 value
  | .int64 value => .int64 value
  | .uint8 value => .uint8 value
  | .uint16 value => .uint16 value
  | .uint32 value => .uint32 value
  | .uint64 value => .uint64 value
  | .float32 value => .float32 value
  | .float64 value => .float64 value
  | .str text => .string text
  | .string text => .string text
  | .bytes data => .raw data
  | .byteBuffer data => .raw data

namespace Value

variable {κ ι : Type}

/-- A consumer that reads any array: each element as any value. -/
def ofElements (read : ι → Except Mismatch Value) (n : Nat) : ArrayPull ι Value n :=
  .collect read .array n

/-- Reads a value as any value and puts it to the members read before. -/
def putMember (read : ι → Except Mismatch Value) (members : Members Value) (key : String)
    (held : ι) : Except Mismatch (Members Value) :=
  (read held).map (members.insert key)

/-- A consumer that reads any map: each key as a text and each value as any
    value. It makes room for as many members as it is told of. -/
def ofEntries (readKey : κ → Except Mismatch String) (read : ι → Except Mismatch Value) (n : Nat) :
    MapPull κ ι Value n :=
  .left fun told => .each readKey (putMember read) (fun members => .ok (.map members))
    (Members.emptyWithCapacity (told.getD 0)) n

end Value

/-- What is shown read as any value, with a way to read its parts so. -/
def Visit.readAny {ρ : Type} (read : ρ → Except Mismatch Value) : Visit ρ → Except Mismatch Value
  | .primitive p => .ok (.scalar p.taken)
  | .items elements => visitArray elements (Value.ofElements read _)
  | .members entries => visitMap entries (Value.ofEntries .ok read _)

end BinaryPack
