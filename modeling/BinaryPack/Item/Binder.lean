import BinaryPack.Event
import BinaryPack.Item.Basic

/-! # Binding items to values

  An item with its children has a value. An array binds its children in order,
  whatever their names; an object binds them by their keys, and of children
  with one key the last is kept, which is reported. Containers do not look at
  their payload and scalars not at their children, so an item need not come
  from a reader.
-/

namespace BinaryPack

namespace Item

/-- The text of an item's key. -/
def keyText (item : Item) : String :=
  Utf8.lossy item.key

/-- Puts a bound child into the members of an object, and reports the loss of an
    earlier member of the same key. -/
def addMember (held : Members Value) (key : String) (value : Value) :
    Logged BindError (Members Value) :=
  match held.find? key with
  | some previous => ⟨.ok (held.insert key value), [.duplicateKey key previous.typeName]⟩
  | none => ⟨.ok (held.insert key value), []⟩

mutual

/-- The value of an item. -/
def bind : Item → Logged BindError Value
  | ⟨tag, _, data, children⟩ =>
    match ItemType.ofTag? tag with
    | none => .ofExcept (.error (.invalidType tag))
    | some .object => do return .map (← bindMembers children [])
    | some .array => do return .array (← bindItems children)
    | some (.scalar type) => .ofExcept ((Scalar.ofPayload type data).map .scalar)

/-- The values of the elements of an array. -/
def bindItems : List Item → Logged BindError (List Value)
  | [] => pure []
  | item :: rest => do
    let value ← bind item
    let values ← bindItems rest
    return value :: values

/-- The members of an object, on top of those already bound. -/
def bindMembers : List Item → Members Value → Logged BindError (Members Value)
  | [], held => pure held
  | item :: rest, held => do
    let value ← bind item
    let held ← addMember held item.keyText value
    bindMembers rest held

end

/-- The members of an item's children, whatever the type of the item itself. -/
def bindObject (item : Item) : Logged BindError (Members Value) :=
  bindMembers item.children []

end Item

end BinaryPack
