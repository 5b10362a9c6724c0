import BinaryPack.Encoder.Buffer
import BinaryPack.Event

/-! # Encoding values

  A map is written as the root object of a pack, its members in the order in
  which the map lists them. A limit bounds the nesting of containers. Writing
  appends to a buffer: a write that fails takes back whatever it had written.
-/

namespace BinaryPack

namespace Write

mutual

/-- Writes the item of a value. -/
def item (name : ItemName) : Value → (depth : Nat) → Write Unit
  | .scalar s, _ => scalar name s
  | .array items, depth => do
    let start ← openContainer .array name items.length depth
    elements items (depth - 1)
    closeContainer start
  | .map members, depth => do
    let start ← openContainer .object name members.length depth
    namedElements members (depth - 1)
    closeContainer start

/-- Writes the elements of an array, which have no names. -/
def elements : List Value → (depth : Nat) → Write Unit
  | [], _ => pure ()
  | value :: rest, depth => do
    item .unnamed value depth
    elements rest depth

/-- Writes the members of a map under their keys. -/
def namedElements : List (String × Value) → (depth : Nat) → Write Unit
  | [], _ => pure ()
  | (key, value) :: rest, depth => do
    item (.key key) value depth
    namedElements rest depth

end

end Write

/-- What an encoder allows. -/
structure Encoder where
  /-- How deeply containers may be nested, the root included. -/
  maxDepth : Nat := Value.defaultDepth
  deriving DecidableEq

namespace Encoder

/-- Appends a map as the root object, or leaves the buffer as it was. -/
def appendRoot (e : Encoder) (buffer : Buffer) (members : Members Value) :
    Logged Error Unit × Buffer :=
  match (Write.item .unnamed (.map members) e.maxDepth).run.run buffer with
  | (.ok _, written) => (⟨.ok (), [.marshalled (written.size - buffer.size)]⟩, written)
  | (.error cause, written) =>
    (⟨.error (.marshal cause), [.marshalFailed (.marshal cause)]⟩, written.truncate buffer.size)

/-- Appends a value, which must be a map, to a buffer. -/
def marshalInto (e : Encoder) (buffer : Buffer) : Value → Logged Error Unit × Buffer
  | .map members => e.appendRoot buffer members
  | other => (.ofExcept (.error (.marshal (.rootType other.typeName))), buffer)

/-- The pack of a value, which must be a map. -/
def marshal (e : Encoder) (value : Value) : Logged Error Buffer :=
  let (run, buffer) := e.marshalInto #[] value
  ⟨run.result.map fun _ => buffer, run.events⟩

/-- The pack of a map. -/
def marshalMap (e : Encoder) (members : Members Value) : Logged Error Buffer :=
  let (run, buffer) := e.appendRoot #[] members
  ⟨run.result.map fun _ => buffer, run.events⟩

end Encoder

/-- The pack of a value with the usual limit. -/
def marshal (value : Value) : Logged Error Buffer :=
  Encoder.marshal {} value

end BinaryPack
