import BinaryPack.Decoder
import BinaryPack.Schema.Parts

/-! # Reading values as a schema

  A value is read as a schema by what it is shown as. A variant is written as its
  bare name or as a map of one entry. Structures are read from a map by field
  name or from an array by position.

  Every value becomes a reader, which answers requests. A container hands the
  readers of its parts to a consumer, and the consumer asks each for the type it
  wants, so a declaration that refers to itself is unfolded only along the value.
-/

namespace BinaryPack

namespace Schema

variable {ν : Type}

/-! ### Answering requests -/

/-- A value, as it is shown, read as a declared type. -/
def answerDeclared (value : Value) (visit : Visit (Reader ν)) :
    Declaration ν → Except Mismatch Datum
  | .struct type closed fields =>
    match visit with
    | .items items =>
      let expected := s!"struct {type} with {countText fields.length}"
      visitArray items (positionalFields expected (.struct type) fields [] _)
    | .members members => visitMap members (keyedFields closed fields (.struct type) _)
    | other => other.mismatch s!"struct {type}"
  | .enumeration type variants =>
    match value, visit with
    | .scalar (.string variant), _ => bareVariant type variants variant
    | _, .members [(variant, reader)] => do
      let content ← findVariant variants variant
      reader.read (.content type variant content)
    | other, _ => .error (.notVariant other.typeName)

/-- A value, as it is shown, read as a schema. -/
def answer (declarations : ν → Declaration ν) (value : Value) (visit : Visit (Reader ν)) :
    Schema ν → Except Mismatch Datum
  | .bool => visit.readBool
  | .integer type => visit.readInteger type
  | .float32 => visit.readFloat32
  | .float64 => visit.readFloat64
  | .char => visit.readChar
  | .string => visit.readString
  | .unit => visit.readUnit (.primitive .unit) "unit"
  | .blob => visit.readBlob
  | .value => (visit.readAny Reader.any).map Value.toDatum
  | .ignored =>
    match visit with
    | .primitive _ => .ok (.primitive .unit)
    | .items items => visitArray items (skipElements _)
    | .members members => visitMap members (skipEntries _)
  | .option content =>
    if value.isNull then .ok .absent
    else (answer declarations value visit content).map .present
  | .sequence item =>
    match visit with
    | .items items =>
      visitArray items (.collect (fun reader => reader.read (.whole item)) (.seq true) _)
    | other => other.mismatch "a sequence"
  | .array length item =>
    let expected := s!"an array of length {length}"
    match visit with
    | .items items => visitArray items (positional expected .tuple (.replicate length item) [] _)
    | other => other.mismatch expected
  | .tuple schemas =>
    let expected := s!"a tuple of size {schemas.length}"
    match visit with
    | .items items => visitArray items (positional expected .tuple schemas [] _)
    | other => other.mismatch expected
  | .map key held =>
    match visit with
    | .members members => visitMap members (entries declarations key held _)
    | other => other.mismatch "a map"
  | .unitStruct type => visit.readUnit (.unitStruct type) s!"unit struct {type}"
  | .newtypeStruct type content =>
    (answer declarations value visit content).map (.newtypeStruct type)
  | .tupleStruct type schemas =>
    match visit with
    | .items items =>
      let expected := s!"tuple struct {type} with {countText schemas.length}"
      visitArray items (positional expected (.tupleStruct type) schemas [] _)
    | other => other.mismatch s!"tuple struct {type}"
  | .declared name => answerDeclared value visit (declarations name)

/-- A value, as it is shown, read as the content of a variant. -/
def answerContent (declarations : ν → Declaration ν) (value : Value)
    (visit : Visit (Reader ν)) (type variant : String) :
    Content ν → Except Mismatch Datum
  | .unit =>
    if value.isNull then .ok (.unitVariant type variant)
    else .error (.variantContent "unit variant" value.typeName)
  | .newtype content =>
    (answer declarations value visit content).map (.newtypeVariant type variant)
  | .tuple schemas =>
    match visit with
    | .items items =>
      let expected := s!"tuple variant {type}::{variant} with {countText schemas.length}"
      visitArray items (positional expected (.tupleVariant type variant) schemas [] _)
    | _ => .error (.variantContent "tuple variant" value.typeName)
  | .struct fields =>
    match visit with
    | .members members =>
      visitMap members (keyedFields false fields (.structVariant type variant) _)
    | _ => .error (.variantContent "struct variant" value.typeName)

/-- A value, as it is shown, as a reader. -/
def respond (declarations : ν → Declaration ν) (value : Value) (visit : Visit (Reader ν)) :
    Reader ν where
  any := visit.readAny Reader.any
  read
    | .whole schema => answer declarations value visit schema
    | .content type variant content => answerContent declarations value visit type variant content

mutual

/-- The reader of a value. -/
def reader (declarations : ν → Declaration ν) : Value → Reader ν
  | .scalar s => respond declarations (.scalar s) (.primitive s.shown)
  | .array items => respond declarations (.array items) (.items (itemReaders declarations items))
  | .map members =>
    respond declarations (.map members) (.members (memberReaders declarations members))

/-- The readers of the items of an array. -/
def itemReaders (declarations : ν → Declaration ν) : List Value → List (Reader ν)
  | [] => []
  | item :: rest => reader declarations item :: itemReaders declarations rest

/-- The readers of what a map holds, under their keys. -/
def memberReaders (declarations : ν → Declaration ν) :
    List (String × Value) → Members (Reader ν)
  | [] => []
  | (key, held) :: rest => (key, reader declarations held) :: memberReaders declarations rest

end

/-- A value read as a schema. -/
def read (declarations : ν → Declaration ν) (schema : Schema ν) (value : Value) :
    Except Mismatch Datum :=
  (reader declarations value).read (.whole schema)

/-! ### Top level -/

/-- Host data of a schema, from a value. -/
def fromValue (declarations : ν → Declaration ν) (schema : Schema ν) (value : Value) :
    Except Error Datum :=
  (schema.read declarations value).mapError fun mismatch => .invalidPack (.mismatch mismatch)

/-- Host data of a schema, from the root of a pack. -/
def fromPack (declarations : ν → Declaration ν) (schema : Schema ν) (buffer : Bytes) :
    Logged Error Datum := do
  let members ← decode buffer
  .ofExcept (schema.fromValue declarations (.map members))

end Schema

end BinaryPack
