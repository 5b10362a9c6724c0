import BinaryPack.Schema.Consumer
import BinaryPack.Schema.Reading

/-! # A catalogue of declarations

  A set of declared types in which each kind of declaration occurs: structures
  that are open or closed, with options and defaults, structures and
  enumerations that refer to themselves, and enumerations with every kind of
  content. Beside them stand consumers that leave parts of a container unread.
-/

namespace BinaryPack

namespace Catalogue

/-- The declared types of the catalogue. -/
inductive Entry where
  | point
  | course
  | strict
  | tree
  | bag
  | kind
  | event
  | solo
  | level
  deriving DecidableEq

/-- A field without a default. -/
def field (name : String) (schema : Schema Entry) : Field Entry :=
  { name, schema }

/-- The declaration of each type. -/
def declarations : Entry → Declaration Entry
  | .point => .struct "Point" false
      [field "x" (.integer .int32), field "y" (.integer .int32)]
  | .course => .struct "Course" false
      [field "id" (.integer .uint64), field "title" .string, field "price" .float32,
       field "tags" (.sequence .string), field "lecturer" (.option .string),
       field "kind" (.declared .kind)]
  | .strict => .struct "Strict" true
      [field "a" (.integer .uint8),
       { name := "b", schema := .integer .uint16, default := some (.primitive (.uint16 0)) },
       field "see" (.option .bool)]
  | .tree => .struct "Tree" false
      [field "v" (.integer .int64), field "kids" (.sequence (.declared .tree))]
  | .bag => .struct "Bag" false
      [field "any" .value, field "blob" .blob, field "map" (.map .string (.integer .uint8))]
  | .kind => .enumeration "Kind"
      [("Live", .unit), ("Recorded", .struct [field "minutes" (.integer .uint16)])]
  | .event => .enumeration "Event"
      [("Ping", .unit), ("Move", .tuple [.integer .int8, .integer .int8]),
       ("Rename", .struct [field "to" .string]), ("Wrap", .newtype (.option (.integer .int32))),
       ("Nest", .newtype (.declared .event))]
  | .solo => .enumeration "Solo" [("Only", .unit)]
  | .level => .enumeration "Level" [("Low", .unit), ("Mid", .unit), ("High", .unit)]

/-! ### Consumers that stop early -/

/-- What a container told of the parts it had left, before and after a visit. -/
structure Remains where
  before : Option Nat
  after : Option Nat

/-- Asks an array for a number of elements, without regard to their value. -/
def pullMany {ι β : Type} (next : (n : Nat) → ArrayPull ι β n) :
    (count n : Nat) → ArrayPull ι β n
  | 0, n => next n
  | count + 1, 0 => .pullPast (pullMany next count 0)
  | count + 1, n + 1 => .pull fun _ => pullMany next count n

/-- A visit of an array that asks for a number of elements. -/
def arrayVisit (count n : Nat) : ArrayPull Value Remains n :=
  .left fun before =>
    pullMany (fun _ => .left fun after => .answer (.ok ⟨before, after⟩)) count n

/-- Ends the visit of a map with another look at what is left. -/
def mapReport (before : Option Nat) (n : Nat) : MapPull String Value Remains n :=
  .left fun after => .answer (.ok ⟨before, after⟩)

/-- Reads nothing. -/
def idle : Consumer Remains where
  expected := "a container"
  ofArray := arrayVisit 0
  ofMap n := .left fun before => mapReport before n

/-- Reads the first element or entry, if there is one. -/
def firstOnly : Consumer Remains where
  expected := "a container"
  ofArray := arrayVisit 1
  ofMap
    | 0 => .left fun before => .pullPast (mapReport before 0)
    | n + 1 => .left fun before => .pullKey fun _ => .pullValue fun _ => mapReport before n

/-- Reads two elements, and asks a map for a value before any key. -/
def impatient : Consumer Remains where
  expected := "a container"
  ofArray := arrayVisit 2
  ofMap n := .left fun before => .pullValue fun
    | .ok _ => mapReport before n
    | .error mismatch => .answer (.error mismatch)

end Catalogue

end BinaryPack
