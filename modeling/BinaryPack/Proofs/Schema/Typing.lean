import BinaryPack.Datum.Conversion
import BinaryPack.Schema.Reading

/-! # Types of host data

  A schema is a type, and some data are of that type (`Schema.HasType`): each primitive under
  its own type, texts and bytes as those given away, sequences and maps that announce their
  length, fields in the order of their declaration. No map of the host program has a key
  twice.

  Not every type can be stored in a pack. Integers of 128 bits cannot, keys must be texts
  or characters, and an option must be told from its content: where content can be
  converted to the absent value, it reads as no content at all. The types without such
  parts are `Storable`.
-/

namespace BinaryPack

variable {ν : Type}

/-- The data that keys of a map are read as, and the text of each. -/
inductive KeySchema.Names : KeySchema ν → String → Datum → Prop where
  | string (text : String) : Names .string text (.primitive (.string text))
  | char (c : Char) : Names .char c.toString (.char c)

namespace Schema

variable (declarations : ν → Declaration ν)

mutual

/-- Data of a type. -/
inductive HasType : Schema ν → Datum → Prop where
  | bool (b : Bool) : HasType .bool (.primitive (.bool b))
  | integer {type : IntegerType} {n : Int} (h : type.holds n) :
    HasType (.integer type) (type.datum n)
  | float32 (x : Single) : HasType .float32 (.primitive (.float32 x))
  | float64 (x : Double) : HasType .float64 (.primitive (.float64 x))
  | char (c : Char) : HasType .char (.char c)
  | string (text : String) : HasType .string (.primitive (.string text))
  | unit : HasType .unit (.primitive .unit)
  | blob (data : Bytes) : HasType .blob (.primitive (.byteBuffer data))
  | value {v : Value} (h : v.Distinct) : HasType .value v.toDatum
  | absent {content : Schema ν} : HasType (.option content) .absent
  | present {content : Schema ν} {x : Datum} (h : HasType content x) :
    HasType (.option content) (.present x)
  | sequence {item : Schema ν} {items : List Datum}
    (h : HaveTypes (.replicate items.length item) items) :
    HasType (.sequence item) (.seq true items)
  | array {length : Nat} {item : Schema ν} {items : List Datum}
    (h : HaveTypes (.replicate length item) items) : HasType (.array length item) (.tuple items)
  | tuple {schemas : List (Schema ν)} {items : List Datum} (h : HaveTypes schemas items) :
    HasType (.tuple schemas) (.tuple items)
  | map {key : KeySchema ν} {held : Schema ν} {texts : List String} {steps : List (Step Datum)}
    (h : EntriesHaveType key held texts steps) :
    HasType (.map key held) (.map true steps)
  | unitStruct (type : String) : HasType (.unitStruct type) (.unitStruct type)
  | newtypeStruct {type : String} {content : Schema ν} {x : Datum} (h : HasType content x) :
    HasType (.newtypeStruct type content) (.newtypeStruct type x)
  | tupleStruct {type : String} {schemas : List (Schema ν)} {items : List Datum}
    (h : HaveTypes schemas items) : HasType (.tupleStruct type schemas) (.tupleStruct type items)
  | struct {name : ν} {type : String} {closed : Bool} {fields : List (Field ν)}
    {data : List (String × Datum)} (hdeclared : declarations name = .struct type closed fields)
    (h : FieldsHaveTypes fields data) : HasType (.declared name) (.struct type data)
  | unitVariant {name : ν} {type variant : String} {variants : List (String × Content ν)}
    (hdeclared : declarations name = .enumeration type variants)
    (hvariant : (variant, .unit) ∈ variants) : HasType (.declared name) (.unitVariant type variant)
  | newtypeVariant {name : ν} {type variant : String} {variants : List (String × Content ν)}
    {content : Schema ν} {x : Datum} (hdeclared : declarations name = .enumeration type variants)
    (hvariant : (variant, .newtype content) ∈ variants) (h : HasType content x) :
    HasType (.declared name) (.newtypeVariant type variant x)
  | tupleVariant {name : ν} {type variant : String} {variants : List (String × Content ν)}
    {schemas : List (Schema ν)} {items : List Datum}
    (hdeclared : declarations name = .enumeration type variants)
    (hvariant : (variant, .tuple schemas) ∈ variants) (h : HaveTypes schemas items) :
    HasType (.declared name) (.tupleVariant type variant items)
  | structVariant {name : ν} {type variant : String} {variants : List (String × Content ν)}
    {fields : List (Field ν)} {data : List (String × Datum)}
    (hdeclared : declarations name = .enumeration type variants)
    (hvariant : (variant, .struct fields) ∈ variants) (h : FieldsHaveTypes fields data) :
    HasType (.declared name) (.structVariant type variant data)

/-- Data of a list of types, one by one. -/
inductive HaveTypes : List (Schema ν) → List Datum → Prop where
  | nil : HaveTypes [] []
  | cons {schema : Schema ν} {schemas : List (Schema ν)} {x : Datum} {items : List Datum}
    (h : HasType schema x) (hrest : HaveTypes schemas items) :
    HaveTypes (schema :: schemas) (x :: items)

/-- Data of the types of fields, under their names and in their order. -/
inductive FieldsHaveTypes : List (Field ν) → List (String × Datum) → Prop where
  | nil : FieldsHaveTypes [] []
  | cons {field : Field ν} {fields : List (Field ν)} {x : Datum} {data : List (String × Datum)}
    (h : HasType field.schema x) (hrest : FieldsHaveTypes fields data) :
    FieldsHaveTypes (field :: fields) ((field.name, x) :: data)

/-- Entries of one type for keys and one for what they hold, with the texts of the keys. -/
inductive EntriesHaveType : KeySchema ν → Schema ν → List String → List (Step Datum) → Prop where
  | nil {key : KeySchema ν} {held : Schema ν} : EntriesHaveType key held [] []
  | cons {key : KeySchema ν} {held : Schema ν} {text : String} {texts : List String}
    {k x : Datum} {steps : List (Step Datum)} (hkey : key.Names text k) (hfresh : text ∉ texts)
    (h : HasType held x) (hrest : EntriesHaveType key held texts steps) :
    EntriesHaveType key held (text :: texts) (.entry k x :: steps)

end

/-! ### Types that can be stored -/

/-- No data of the type is converted to the absent value. -/
def NeverNull (schema : Schema ν) : Prop :=
  ∀ x, HasType declarations schema x → x.toValue ≠ .ok .null

theorem neverNull_bool : NeverNull declarations .bool := by
  intro x hx hnull
  cases hx
  cases hnull

theorem neverNull_integer (type : IntegerType) : NeverNull declarations (.integer type) := by
  intro x hx hnull
  cases hx
  cases type <;> cases hnull

theorem neverNull_string : NeverNull declarations .string := by
  intro x hx hnull
  cases hx
  cases hnull

/-- Types whose data can be told apart by the value they are converted to. What a declared
    type holds is up to its declaration. -/
inductive Storable : Schema ν → Prop where
  | bool : Storable .bool
  | integer {type : IntegerType} (h : type.width ≤ 64) : Storable (.integer type)
  | float32 : Storable .float32
  | float64 : Storable .float64
  | char : Storable .char
  | string : Storable .string
  | unit : Storable .unit
  | blob : Storable .blob
  | value : Storable .value
  | option {content : Schema ν} (h : Storable content) (hnull : NeverNull declarations content) :
    Storable (.option content)
  | sequence {item : Schema ν} (h : Storable item) : Storable (.sequence item)
  | array {length : Nat} {item : Schema ν} (h : Storable item) : Storable (.array length item)
  | tuple {schemas : List (Schema ν)} (h : ∀ schema ∈ schemas, Storable schema) :
    Storable (.tuple schemas)
  | map {key : KeySchema ν} {held : Schema ν} (hkey : key = .string ∨ key = .char)
    (h : Storable held) : Storable (.map key held)
  | unitStruct (type : String) : Storable (.unitStruct type)
  | newtypeStruct {type : String} {content : Schema ν} (h : Storable content) :
    Storable (.newtypeStruct type content)
  | tupleStruct {type : String} {schemas : List (Schema ν)}
    (h : ∀ schema ∈ schemas, Storable schema) : Storable (.tupleStruct type schemas)
  | declared (name : ν) : Storable (.declared name)

variable {declarations} in
theorem Storable.replicate {item : Schema ν} (h : Storable declarations item) (length : Nat) :
    ∀ schema ∈ List.replicate length item, schema.Storable declarations :=
  List.forall_mem_replicate.mpr (.inr h)

/-- Fields with names of their own, each of a type that can be stored. -/
structure FieldsStorable (fields : List (Field ν)) : Prop where
  distinct : (fields.map (·.name)).Nodup
  schemas : ∀ field ∈ fields, field.schema.Storable declarations

end Schema

variable (declarations : ν → Declaration ν)

/-- Contents that can be stored. -/
def Content.Storable : Content ν → Prop
  | .unit => True
  | .newtype content => content.Storable declarations
  | .tuple schemas => ∀ schema ∈ schemas, schema.Storable declarations
  | .struct fields => Schema.FieldsStorable declarations fields

/-- Declarations that can be stored: fields and variants have names of their own. -/
def Declaration.Storable : Declaration ν → Prop
  | .struct _ _ fields => Schema.FieldsStorable declarations fields
  | .enumeration _ variants =>
    Members.Distinct variants ∧ ∀ variant ∈ variants, variant.2.Storable declarations

end BinaryPack
