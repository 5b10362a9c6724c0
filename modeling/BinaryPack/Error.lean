import BinaryPack.Number.Shortest
import BinaryPack.Text.Quoted
import BinaryPack.Wire.Tag

/-! # Errors

  Bytes or values that cannot be read are an invalid pack; values that have no
  place in a pack cannot be marshalled. Each error names its cause, and one
  function per kind words it.
-/

namespace BinaryPack

/-! ### Reading items -/

/-- Why no item can be read. Offsets count from the start of the bytes that the
    item is read from, which for a child is the payload of its container. -/
inductive ReadError where
  /-- The bytes end before a field does. -/
  | truncated (needed offset available : Nat)
  /-- The item is a tombstone. -/
  | deleted (tag : UInt8) (offset : Nat)
  /-- The tag names no type. -/
  | unknownType (tag : UInt8) (offset : Nat)
  /-- Containers are nested more deeply than allowed. -/
  | tooDeep
  /-- The payload is too small for the declared number of elements. -/
  | noRoom (declared room : Nat)
  /-- The payload goes on after the declared number of elements. -/
  | surplus (declared : Nat)
  /-- The payload ends before the declared number of elements. -/
  | missing (declared found : Nat)
  deriving DecidableEq

/-- A byte as two upper-case hexadecimal digits. -/
def hexByte (b : UInt8) : String :=
  let digit (n : Nat) : Char := (Nat.digitChar n).toUpper
  String.ofList [digit (b.toNat / 16), digit (b.toNat % 16)]

/-- The wording of a read error. -/
def ReadError.message : ReadError → String
  | .truncated needed offset available =>
    s!"need {needed} bytes at offset {offset} but only {available} available"
  | .deleted tag offset => s!"deleted item 0x{hexByte tag} at offset {offset}"
  | .unknownType tag offset => s!"unknown type tag 0x{hexByte tag} at offset {offset}"
  | .tooDeep => "container nesting exceeds depth limit"
  | .noRoom declared room =>
    s!"declared {declared} elements but payload only has room for {room}"
  | .surplus declared => s!"container holds more than its declared {declared} elements"
  | .missing declared found => s!"declared {declared} elements but found {found}"

/-! ### Binding items to values -/

/-- Why an item has no value. -/
inductive BindError where
  /-- The tag names no type. -/
  | invalidType (tag : UInt8)
  /-- A number's payload does not have the width of its type. -/
  | width (type : ScalarType) (expected length : Nat)
  deriving DecidableEq

/-- The wording of a bind error. -/
def BindError.message : BindError → String
  | .invalidType tag => s!"invalid pack type 0x{hexByte tag}"
  | .width type expected length =>
    s!"{type.name} payload must be {expected} bytes, got {length}"

/-! ### Reading values as declared types -/

/-- What was met where something else was expected. -/
inductive Unexpected where
  | unit
  | bool (value : Bool)
  | integer (value : Int)
  /-- A 128-bit integer, by the name of its type. -/
  | wideInteger (value : Int) (type : String)
  | float (value : Double)
  | string (text : String)
  | bytes
  | sequence
  | map
  | option
  | newtypeStruct
  | enumeration
  | unitVariant
  deriving DecidableEq

/-- Why a value is not of the type it is read as. -/
inductive Mismatch where
  /-- The kind of the value is wrong. -/
  | invalidType (found : Unexpected) (expected : String)
  /-- The kind is right, the value is not. -/
  | invalidValue (found : Unexpected) (expected : String)
  /-- A sequence or map has the wrong number of entries. -/
  | invalidLength (length : Nat) (expected : String)
  /-- A closed structure has no such field. -/
  | unknownField (name : String) (fields : List String)
  /-- A field is absent. -/
  | missingField (name : String)
  /-- An enumeration has no such variant. -/
  | unknownVariant (name : String) (variants : List String)
  /-- An enumeration is written neither as a text nor as a map of one entry. -/
  | notVariant (type : String)
  /-- The content of a variant is of the wrong kind. -/
  | variantContent (expected type : String)
  /-- A map's value was asked for before its key. -/
  | valueBeforeKey
  /-- A cause given by the data itself. -/
  | other (text : String)
  deriving DecidableEq

/-- A number with a point, which whole numbers get. -/
def Double.textWithPoint (x : Double) : String :=
  let text := x.text
  match FloatFormat.binary64.classify x.bits.toNat with
  | .finite .. => if text.toList.contains '.' then text else text ++ ".0"
  | _ => text

/-- The wording of what was met. -/
def Unexpected.message : Unexpected → String
  | .unit => "unit value"
  | .bool true => "boolean `true`"
  | .bool false => "boolean `false`"
  | .integer value => s!"integer `{value}`"
  | .wideInteger value type => s!"integer `{value}` as {type}"
  | .float value => s!"floating point `{value.textWithPoint}`"
  | .string text => s!"string {Quoted.encode text}"
  | .bytes => "byte array"
  | .sequence => "sequence"
  | .map => "map"
  | .option => "Option value"
  | .newtypeStruct => "newtype struct"
  | .enumeration => "enum"
  | .unitVariant => "unit variant"

/-- The wording of a choice between names: one, two, or a list. -/
def oneOf (absent : String) (names : List String) : String :=
  match names.map fun name => s!"`{name}`" with
  | [] => absent
  | [only] => s!"expected {only}"
  | [first, second] => s!"expected {first} or {second}"
  | all => "expected one of " ++ ", ".intercalate all

/-- The wording of a mismatch. -/
def Mismatch.message : Mismatch → String
  | .invalidType found expected => s!"invalid type: {found.message}, expected {expected}"
  | .invalidValue found expected => s!"invalid value: {found.message}, expected {expected}"
  | .invalidLength length expected => s!"invalid length {length}, expected {expected}"
  | .unknownField name fields =>
    s!"unknown field `{name}`, " ++ oneOf "there are no fields" fields
  | .missingField name => s!"missing field `{name}`"
  | .unknownVariant name variants =>
    s!"unknown variant `{name}`, " ++ oneOf "there are no variants" variants
  | .notVariant type => s!"expected a string or single-entry map for an enum, got {type}"
  | .variantContent expected type => s!"expected {expected}, got {type}"
  | .valueBeforeKey => "map value requested before its key"
  | .other text => text

/-! ### Decoding packs -/

/-- Why bytes or values are refused. -/
inductive InvalidPack where
  | read (cause : ReadError)
  | bind (cause : BindError)
  /-- The pack is too short to hold a root. -/
  | tooShort (length : Nat)
  /-- The pack is longer than allowed. -/
  | overLimit (length limit : Nat)
  /-- The pack is of the first version of the format. -/
  | firstVersion
  /-- Bytes follow the root item. -/
  | trailing (count : Nat)
  /-- The root is not an object. Its tag may name no type at all. -/
  | rootType (type : Option ItemType)
  | mismatch (cause : Mismatch)
  | other (text : String)
  deriving DecidableEq

/-- The wording of why bytes or values are refused. -/
def InvalidPack.message : InvalidPack → String
  | .read cause => cause.message
  | .bind cause => cause.message
  | .tooShort length => s!"buffer of {length} bytes is too short"
  | .overLimit length limit => s!"buffer of {length} bytes exceeds the {limit}-byte limit"
  | .firstVersion => "v1 packs are not supported"
  | .trailing count => s!"{count} trailing bytes after root item"
  | .rootType type => s!"root must be an object, got {ItemType.nameOf type}"
  | .mismatch cause => cause.message
  | .other text => text

/-! ### Marshalling values -/

/-- Why a value has no place in a pack. -/
inductive MarshalError where
  /-- The root is not a map. -/
  | rootType (type : String)
  /-- Containers are nested more deeply than allowed. -/
  | tooDeep
  /-- A container has more elements than its count can tell. -/
  | tooManyElements (count : Nat)
  /-- A payload is longer than its length field can tell. -/
  | payloadTooLong (length : Nat)
  /-- A key of the greatest length would lose its last byte. -/
  | keyEndsInNul (length : Nat)
  /-- A key does not fit its length field. -/
  | keyTooLong (length limit : Nat)
  /-- A 128-bit integer. -/
  | wideInteger
  /-- A map key that is not a text. -/
  | keyType (type : String)
  /-- A map's value without a key before it. -/
  | valueBeforeKey
  | other (text : String)
  deriving DecidableEq

/-- The wording of a marshal error. -/
def MarshalError.message : MarshalError → String
  | .rootType type => s!"root must be a map, got {type}"
  | .tooDeep => "container nesting exceeds depth limit"
  | .tooManyElements count => s!"{count} elements exceed the u32 count field"
  | .payloadTooLong length => s!"payload of {length} bytes exceeds u32 length"
  | .keyEndsInNul length => s!"key of {length} bytes cannot end in NUL"
  | .keyTooLong length limit => s!"key of {length} bytes exceeds the {limit}-byte limit"
  | .wideInteger => "128-bit integers have no pack type"
  | .keyType type => s!"map key must be a string, got {type}"
  | .valueBeforeKey => "map value serialized before its key"
  | .other text => text

/-! ### All errors -/

/-- An error of the library: the kind and the cause. -/
inductive Error where
  /-- Bytes or values that cannot be read. -/
  | invalidPack (cause : InvalidPack)
  /-- Values that have no place in a pack. -/
  | marshal (cause : MarshalError)
  deriving DecidableEq

namespace Error

/-- The wording of the cause. -/
def reason : Error → String
  | .invalidPack cause => cause.message
  | .marshal cause => cause.message

/-- The wording of an error: its kind and its cause. -/
def message : Error → String
  | .invalidPack cause => "invalid pack: " ++ cause.message
  | .marshal cause => "marshal error: " ++ cause.message

/-- Whether an error says that a pack is invalid. -/
def isInvalidPack : Error → Bool
  | .invalidPack _ => true
  | .marshal _ => false

/-- Whether an error says that a value cannot be marshalled. -/
def isMarshal : Error → Bool
  | .invalidPack _ => false
  | .marshal _ => true

/-- Whether two errors tell the same: the kind and the wording count, not how
    the cause came about. -/
def tellsSame (a b : Error) : Bool :=
  a.isMarshal == b.isMarshal && a.reason == b.reason

end Error

end BinaryPack
