import BinaryPack.Bytes.LittleEndian
import BinaryPack.Number.Ieee
import BinaryPack.Value.Members

/-! # Values

  What a pack holds: scalars of an exact type and width, arrays, and maps with
  text keys. Numbers of different types are different values even if they are
  numerically equal. Floating-point numbers are kept bit for bit.
-/

namespace BinaryPack

/-- A value without parts. -/
inductive Scalar where
  /-- No value. -/
  | null
  | bool (value : Bool)
  | int8 (value : Int8)
  | int16 (value : Int16)
  | int32 (value : Int32)
  | int64 (value : Int64)
  | uint8 (value : UInt8)
  | uint16 (value : UInt16)
  | uint32 (value : UInt32)
  | uint64 (value : UInt64)
  | float32 (value : Single)
  | float64 (value : Double)
  /-- Text. -/
  | string (text : String)
  /-- Bytes without further meaning. -/
  | raw (bytes : Bytes)
  deriving DecidableEq

/-- A value: a scalar, an array, or a map. -/
inductive Value where
  | scalar (scalar : Scalar)
  | array (items : List Value)
  | map (members : List (String × Value))

instance : Inhabited Value := ⟨.scalar .null⟩

/-- The absent value, which lookups without a hit answer. -/
abbrev Value.null : Value := .scalar .null

/-! ### Names of types -/

/-- The short name of a scalar's type, as messages give it. -/
def Scalar.typeName : Scalar → String
  | .null => "null"
  | .bool _ => "bool"
  | .int8 _ => "int8"
  | .int16 _ => "int16"
  | .int32 _ => "int32"
  | .int64 _ => "int64"
  | .uint8 _ => "uint8"
  | .uint16 _ => "uint16"
  | .uint32 _ => "uint32"
  | .uint64 _ => "uint64"
  | .float32 _ => "float32"
  | .float64 _ => "float64"
  | .string _ => "string"
  | .raw _ => "raw"

namespace Value

/-- The short name of a value's type, as messages give it. -/
def typeName : Value → String
  | .scalar s => s.typeName
  | .array _ => "array"
  | .map _ => "map"

/-- Whether a value is the absent one. -/
def isNull : Value → Bool
  | .scalar .null => true
  | _ => false

/-! ### Exact access

  Each accessor answers only for its own type: no width or sign is converted. -/

def bool? : Value → Option Bool
  | .scalar (.bool value) => some value
  | _ => none

def int8? : Value → Option Int8
  | .scalar (.int8 value) => some value
  | _ => none

def int16? : Value → Option Int16
  | .scalar (.int16 value) => some value
  | _ => none

def int32? : Value → Option Int32
  | .scalar (.int32 value) => some value
  | _ => none

def int64? : Value → Option Int64
  | .scalar (.int64 value) => some value
  | _ => none

def uint8? : Value → Option UInt8
  | .scalar (.uint8 value) => some value
  | _ => none

def uint16? : Value → Option UInt16
  | .scalar (.uint16 value) => some value
  | _ => none

def uint32? : Value → Option UInt32
  | .scalar (.uint32 value) => some value
  | _ => none

def uint64? : Value → Option UInt64
  | .scalar (.uint64 value) => some value
  | _ => none

def float32? : Value → Option Single
  | .scalar (.float32 value) => some value
  | _ => none

def float64? : Value → Option Double
  | .scalar (.float64 value) => some value
  | _ => none

def string? : Value → Option String
  | .scalar (.string text) => some text
  | _ => none

def raw? : Value → Option Bytes
  | .scalar (.raw bytes) => some bytes
  | _ => none

def array? : Value → Option (List Value)
  | .array items => some items
  | _ => none

def map? : Value → Option (Members Value)
  | .map members => some members
  | _ => none

/-! ### Nesting -/

/-- The limit on nesting that is used unless another is asked for. -/
def defaultDepth : Nat := 128

mutual

/-- How deeply arrays and maps are nested; a scalar has no nesting. -/
def nesting : Value → Nat
  | .scalar _ => 0
  | .array items => nestingOfItems items + 1
  | .map members => nestingOfMembers members + 1

/-- The deepest nesting among the items of an array. -/
def nestingOfItems : List Value → Nat
  | [] => 0
  | item :: rest => max (nesting item) (nestingOfItems rest)

/-- The deepest nesting among the members of a map. -/
def nestingOfMembers : List (String × Value) → Nat
  | [] => 0
  | (_, held) :: rest => max (nesting held) (nestingOfMembers rest)

end

/-! ### Well-formed values -/

mutual

/-- No map anywhere in the value holds a key twice. -/
def Distinct : Value → Prop
  | .scalar _ => True
  | .array items => DistinctItems items
  | .map members => Members.Distinct members ∧ DistinctMembers members

/-- All items of an array are well formed. -/
def DistinctItems : List Value → Prop
  | [] => True
  | item :: rest => Distinct item ∧ DistinctItems rest

/-- All values held in a map are well formed. -/
def DistinctMembers : List (String × Value) → Prop
  | [] => True
  | (_, held) :: rest => Distinct held ∧ DistinctMembers rest

end

/-! ### One order for all maps -/

mutual

/-- The same value with the members of every map in ascending order of their
    keys. -/
def canonical : Value → Value
  | .scalar s => .scalar s
  | .array items => .array (canonicalItems items)
  | .map members => .map (Members.sorted (canonicalMembers members))

/-- Each item with its maps in ascending order. -/
def canonicalItems : List Value → List Value
  | [] => []
  | item :: rest => canonical item :: canonicalItems rest

/-- Each held value with its maps in ascending order. -/
def canonicalMembers : List (String × Value) → List (String × Value)
  | [] => []
  | (key, held) :: rest => (key, canonical held) :: canonicalMembers rest

end

end Value

end BinaryPack
