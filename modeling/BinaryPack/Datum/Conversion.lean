import BinaryPack.Datum.Basic
import BinaryPack.Encoder

/-! # Values of host data

  Primitives keep their exact type. Options and structures around one datum are
  seen through, an empty option and units are the absent value, sequences and
  tuples are arrays, maps and structures with named fields are maps. A variant
  without content is its name; any other variant is a map of one member, its
  content under its name.

  Conversion goes from left to right, and the first error ends it. Every error
  is a marshal error. Room is made beforehand for as many parts as are announced.
-/

namespace BinaryPack

/-! ### Handing over a map -/

/-- A map in the making: the members so far, and a key that waits for its
    value. -/
structure MapBuilder where
  members : Members Value
  pending : Option String

namespace MapBuilder

/-- A map without members, with room for as many as are told of. -/
def start (told : Option Nat) : MapBuilder :=
  ⟨.emptyWithCapacity (told.getD 0), none⟩

/-- Takes a key, which must be a text. It replaces a key that still waits. -/
def key (b : MapBuilder) (key : Value) : Except MarshalError MapBuilder :=
  match key with
  | .scalar (.string text) => .ok { b with pending := some text }
  | other => .error (.keyType other.typeName)

/-- Takes a value for the key that waits. Without one the value's own error does
    not come to light. -/
def value (b : MapBuilder) (value : Except MarshalError Value) :
    Except MarshalError MapBuilder :=
  match b.pending with
  | none => .error .valueBeforeKey
  | some text => value.map fun held => ⟨b.members.insert text held, none⟩

/-- Takes one step, whose parts are given as the results of their conversion. -/
def step (b : MapBuilder) :
    Step (Except MarshalError Value) → Except MarshalError MapBuilder
  | .key key => key.bind b.key
  | .value value => b.value value
  | .entry key value => (key.bind b.key).bind fun b => b.value value

/-- The map that a run of steps hands over, with what is told of its length. A key
    still waiting at the end adds nothing. -/
def run (told : Option Nat) (steps : List (Step (Except MarshalError Value))) :
    Except MarshalError (Members Value) :=
  (steps.foldlM step (start told)).map (·.members)

end MapBuilder

/-! ### Conversion -/

/-- The scalar that a primitive is converted to. -/
def Primitive.converted : Primitive → Scalar
  | .unit => .null
  | .bool value => .bool value
  | .int8 value => .int8 value
  | .int16 value => .int16 value
  | .int32 value => .int32 value
  | .int64 value => .int64 value
  | .uint8 value => .uint8 value
  | .uint16 value => .uint16 value
  | .uint32 value => .uint32 value
  | .uint64 value => .uint64 value
  | .float32 value => .float32 value
  | .float64 value => .float64 value
  | .str text | .string text => .string text
  | .bytes data | .byteBuffer data => .raw data

namespace Datum

/-- An array without items, with room for as many as are told of. -/
def startArray (told : Option Nat) : Array Value :=
  .emptyWithCapacity (told.getD 0)

/-- The map of one member that stands for a variant with content. -/
def variantValue (variant : String) (content : Value) : Value :=
  .map [(variant, content)]

mutual

/-- The value of a piece of host data. -/
def toValue : Datum → Except MarshalError Value
  | .primitive p => .ok (.scalar p.converted)
  | .int128 _ | .uint128 _ => .error .wideInteger
  | .char c => .ok (.scalar (.string c.toString))
  | .absent | .unitStruct _ => .ok .null
  | .present content | .newtypeStruct _ content => toValue content
  | .unitVariant _ variant => .ok (.scalar (.string variant))
  | .newtypeVariant _ variant content => (toValue content).map (variantValue variant)
  | .seq announced items =>
    (itemValues items (startArray (told announced items.length))).map fun values =>
      .array values.toList
  | .tuple items | .tupleStruct _ items =>
    (itemValues items (startArray (some items.length))).map fun values => .array values.toList
  | .tupleVariant _ variant items =>
    (itemValues items (startArray (some items.length))).map fun values =>
      variantValue variant (.array values.toList)
  | .map announced steps =>
    (MapBuilder.run (told announced (Step.count steps)) (stepValues steps)).map .map
  | .struct _ fields =>
    (fieldValues fields (Members.emptyWithCapacity fields.length)).map .map
  | .structVariant _ variant fields =>
    (fieldValues fields (Members.emptyWithCapacity fields.length)).map fun members =>
      variantValue variant (.map members)
  | .failure reason => .error (.other reason)

/-- The values of a run of data, behind those already converted. -/
def itemValues : List Datum → Array Value → Except MarshalError (Array Value)
  | [], values => .ok values
  | item :: rest, values => do
    let value ← toValue item
    itemValues rest (values.push value)

/-- The results of converting the parts of each step. -/
def stepValues : List (Step Datum) → List (Step (Except MarshalError Value))
  | [] => []
  | .key key :: rest => .key (toValue key) :: stepValues rest
  | .value value :: rest => .value (toValue value) :: stepValues rest
  | .entry key value :: rest => .entry (toValue key) (toValue value) :: stepValues rest

/-- The members of named fields, on top of those already converted. -/
def fieldValues : List (String × Datum) → Members Value → Except MarshalError (Members Value)
  | [], held => .ok held
  | (name, field) :: rest, held => do
    let value ← toValue field
    fieldValues rest (held.insert name value)

end

/-- The pack of a piece of host data, whose value must be a map. -/
def toPack (datum : Datum) : Logged Error Buffer :=
  match datum.toValue with
  | .ok value => marshal value
  | .error cause => .ofExcept (.error (.marshal cause))

end Datum

end BinaryPack
