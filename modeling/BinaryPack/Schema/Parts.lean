import BinaryPack.Schema.Primitives

/-! # Reading parts of containers

  The parts of a container are read by consumers. Elements of fixed sequences
  are read by position, fields of structures by position or by key, entries of
  maps key before value. A variant is found by its name.
-/

namespace BinaryPack

/-! ### Readers -/

/-- A value that waits to be told what to read itself as. -/
structure Reader (ν : Type) where
  /-- Itself read as any value. -/
  any : Except Mismatch Value
  /-- Itself read as host data of what is requested. -/
  read : Request ν → Except Mismatch Datum

/-- A count of elements in words. -/
def countText (n : Nat) : String :=
  if n = 1 then "1 element" else s!"{n} elements"

namespace Schema

variable {ν : Type}

/-! ### Elements by position -/

/-- A consumer that reads one element for each schema, on top of those read
    already; `expected` says what is incomplete when one is missing. -/
def positional (expected : String) (finish : List Datum → Datum) :
    (schemas : List (Schema ν)) → (done : List Datum) → (n : Nat) → ArrayPull (Reader ν) Datum n
  | [], done, _ => .answer (.ok (finish done.reverse))
  | _ :: _, done, 0 => .pullPast (.answer (.error (.invalidLength done.length expected)))
  | schema :: rest, done, n + 1 => .pull fun reader =>
    .proceed (reader.read (.whole schema)) fun datum =>
      positional expected finish rest (datum :: done) n

/-- A consumer that reads one element for each field, on top of those read
    already. Only a default stands in for a missing element. -/
def positionalFields (expected : String) (finish : List (String × Datum) → Datum) :
    (fields : List (Field ν)) → (done : List (String × Datum)) → (n : Nat) →
      ArrayPull (Reader ν) Datum n
  | [], done, _ => .answer (.ok (finish done.reverse))
  | field :: rest, done, 0 => .pullPast
    (match field.default with
    | some datum => positionalFields expected finish rest ((field.name, datum) :: done) 0
    | none => .answer (.error (.invalidLength done.length expected)))
  | field :: rest, done, n + 1 => .pull fun reader =>
    .proceed (reader.read (.whole field.schema)) fun datum =>
      positionalFields expected finish rest ((field.name, datum) :: done) n

/-! ### Entries by key -/

/-- The field that a key names. A key that names none is passed over, or refused
    by a closed structure. -/
def findField (closed : Bool) (fields : List (Field ν)) (key : String) :
    Except Mismatch (Option (Field ν)) :=
  match fields.find? fun field => field.name = key with
  | some field => .ok (some field)
  | none => if closed then .error (.unknownField key (fields.map (·.name))) else .ok none

/-- Puts what is read for a field to what was found before. What no field is named
    for is read all the same, and let go. -/
def putField (found : Members Datum) (field? : Option (Field ν)) (reader : Reader ν) :
    Except Mismatch (Members Datum) :=
  match field? with
  | some field => (reader.read (.whole field.schema)).map (found.insert field.name)
  | none => (reader.read (.whole .ignored)).map fun _ => found

/-- What an absent field is read as: its default, or an empty option. -/
def Field.absent? (field : Field ν) : Option Datum :=
  match field.default, field.schema with
  | some datum, _ => some datum
  | none, .option _ => some .absent
  | none, _ => none

/-- All fields in the order of their declaration, the absent ones filled in. -/
def completeFields (fields : List (Field ν)) (found : Members Datum) :
    Except Mismatch (List (String × Datum)) :=
  fields.mapM fun field =>
    match (found.find? field.name).orElse fun _ => Field.absent? field with
    | some datum => .ok (field.name, datum)
    | none => .error (.missingField field.name)

/-- A consumer that reads a structure from a map. A mismatch in a field that is
    there comes before one about a field that is not. -/
def keyedFields (closed : Bool) (fields : List (Field ν))
    (finish : List (String × Datum) → Datum) (n : Nat) : MapPull String (Reader ν) Datum n :=
  .each (findField closed fields) putField
    (fun found => (completeFields fields found).map finish) [] n

/-! ### Variants -/

/-- The content that an enumeration declares for a variant. -/
def findVariant (variants : List (String × Content ν)) (variant : String) :
    Except Mismatch (Content ν) :=
  match Members.find? variants variant with
  | some content => .ok content
  | none => .error (.unknownVariant variant (Members.keys variants))

/-- A variant written as its bare name, which must have no content. -/
def bareVariant (type : String) (variants : List (String × Content ν)) (variant : String) :
    Except Mismatch Datum := do
  match ← findVariant variants variant with
  | .unit => .ok (.unitVariant type variant)
  | .newtype _ => .error (.invalidType .unitVariant "newtype variant")
  | .tuple _ => .error (.invalidType .unitVariant "tuple variant")
  | .struct _ => .error (.invalidType .unitVariant "struct variant")

/-! ### Maps -/

/-- A key read as its schema. -/
def readKey (declarations : ν → Declaration ν) (keySchema : KeySchema ν) (key : String) :
    Except Mismatch Datum :=
  match keySchema with
  | .string => .ok (.primitive (.string key))
  | .char => Datum.readCharOf key
  | .integer type => .error (.invalidType (.string key) type.name)
  | .declared name =>
    match declarations name with
    | .struct type _ _ => .error (.invalidType (.string key) s!"struct {type}")
    | .enumeration type variants => bareVariant type variants key

/-- Reads what stands under a key and puts the entry behind those read before. -/
def pushEntry (heldSchema : Schema ν) (steps : Array (Step Datum)) (key : Datum)
    (reader : Reader ν) : Except Mismatch (Array (Step Datum)) :=
  (reader.read (.whole heldSchema)).map fun held => steps.push (.entry key held)

/-- A consumer that reads every entry of a map, its key before its value. It makes
    room for as many as it is told of. -/
def entries (declarations : ν → Declaration ν) (keySchema : KeySchema ν)
    (heldSchema : Schema ν) (n : Nat) : MapPull String (Reader ν) Datum n :=
  .left fun told => .each (readKey declarations keySchema) (pushEntry heldSchema)
    (fun steps => .ok (.map true steps.toList)) (.emptyWithCapacity (told.getD 0)) n

/-! ### What is not looked at -/

/-- A consumer that reads every element and keeps none. -/
def skipElements (n : Nat) : ArrayPull (Reader ν) Datum n :=
  .each (fun reader => reader.read (.whole .ignored)) (fun _ => .primitive .unit) #[] n

/-- Reads what stands under a key, and lets it go. -/
def skipHeld (_ : Unit) (_ : String) (reader : Reader ν) : Except Mismatch Unit :=
  (reader.read (.whole .ignored)).map fun _ => ()

/-- A consumer that reads every entry and keeps none. -/
def skipEntries (n : Nat) : MapPull String (Reader ν) Datum n :=
  .each .ok skipHeld (fun _ => .ok (.primitive .unit)) () n

end Schema

end BinaryPack
