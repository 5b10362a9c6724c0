import BinaryPack.Primitive

/-! # Data of the host program

  The data a host program hands over or takes back is a tree: primitives, options,
  structures, enumerations, sequences and maps. It says more than a value does,
  such as the names of types and variants. A map is a run of steps, which need
  not pair keys with values.

  A sequence or a map may announce its length, for which room is made then. What
  is announced is the true length, so the room is no more than is filled.
-/

namespace BinaryPack

/-- A step of handing over a map. -/
inductive Step (α : Type) where
  /-- A key alone. -/
  | key (key : α)
  /-- A value alone, for the key before it. -/
  | value (value : α)
  /-- A key and its value. -/
  | entry (key value : α)

/-- The number of entries that some steps hand over: one with each value. -/
def Step.count {α : Type} : List (Step α) → Nat
  | [] => 0
  | .key _ :: rest => count rest
  | .value _ :: rest | .entry _ _ :: rest => count rest + 1

/-- A piece of host data. -/
inductive Datum where
  /-- A boolean, number, text, run of bytes, or the unit. -/
  | primitive (primitive : Primitive)
  /-- A signed 128-bit integer. -/
  | int128 (value : Int)
  /-- An unsigned 128-bit integer. -/
  | uint128 (value : Nat)
  | char (char : Char)
  /-- An option without content. -/
  | absent
  /-- An option with content. -/
  | present (content : Datum)
  /-- A structure without fields. -/
  | unitStruct (type : String)
  /-- A structure around one datum. -/
  | newtypeStruct (type : String) (content : Datum)
  /-- A structure of unnamed fields. -/
  | tupleStruct (type : String) (items : List Datum)
  /-- A structure of named fields. -/
  | struct (type : String) (fields : List (String × Datum))
  /-- A variant without content. -/
  | unitVariant (type variant : String)
  /-- A variant around one datum. -/
  | newtypeVariant (type variant : String) (content : Datum)
  /-- A variant of unnamed fields. -/
  | tupleVariant (type variant : String) (items : List Datum)
  /-- A variant of named fields. -/
  | structVariant (type variant : String) (fields : List (String × Datum))
  /-- A sequence, whose length is announced or not. -/
  | seq (announced : Bool) (items : List Datum)
  /-- A sequence of a length fixed by its type. -/
  | tuple (items : List Datum)
  /-- A map, whose length is announced or not. -/
  | map (announced : Bool) (steps : List (Step Datum))
  /-- Data that cannot be handed over, with the reason it gives itself. -/
  | failure (reason : String)

/-- What is told of a length that is announced or not. -/
def Datum.told (announced : Bool) (length : Nat) : Option Nat :=
  if announced then some length else none

/-! ### Values as host data -/

/-- The primitive that a scalar is handed over as. Texts and bytes are lent. -/
def Scalar.handed : Scalar → Primitive
  | .null => .unit
  | .bool value => .bool value
  | .int8 value => .int8 value
  | .int16 value => .int16 value
  | .int32 value => .int32 value
  | .int64 value => .int64 value
  | .uint8 value => .uint8 value
  | .uint16 value => .uint16 value
  | .uint32 value => .uint32 value
  | .uint64 value => .uint64 value
  | .float32 value => .float32 value
  | .float64 value => .float64 value
  | .string text => .str text
  | .raw bytes => .bytes bytes

namespace Value

mutual

/-- A value as host data. -/
def toDatum : Value → Datum
  | .scalar s => .primitive s.handed
  | .array items => .seq true (itemsToData items)
  | .map members => .map true (membersToSteps members)

/-- The items of an array as host data. -/
def itemsToData : List Value → List Datum
  | [] => []
  | item :: rest => toDatum item :: itemsToData rest

/-- The members of a map as the steps that hand them over. -/
def membersToSteps : List (String × Value) → List (Step Datum)
  | [] => []
  | (key, held) :: rest => .entry (.primitive (.str key)) (toDatum held) :: membersToSteps rest

end

end Value

end BinaryPack
