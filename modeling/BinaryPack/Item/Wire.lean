import BinaryPack.Item.Basic

/-! # Items on the wire

  What bytes an item stands for, and which items stand for bytes at all. An item
  is valid if its tag names a type, its name and payload fit the fields that tell
  their lengths, and the payload of a container is the count of its children
  followed by their own bytes. Nothing here depends on how items are read.
-/

namespace BinaryPack

namespace Item

/-! ### Wire form -/

/-- The length field that belongs to a tag. -/
def lengthField (tag : UInt8) (length : Nat) : Bytes :=
  LittleEndian.encode (SizeClass.ofTag tag).lengthWidth length

/-- The bytes of an item: tag, name length, length field, name and payload. -/
def wire (item : Item) : Bytes :=
  [item.tag, UInt8.ofNat item.name.length] ++ lengthField item.tag item.data.length
    ++ item.name ++ item.data

@[simp] theorem length_lengthField (tag : UInt8) (length : Nat) :
    (lengthField tag length).length = (SizeClass.ofTag tag).lengthWidth :=
  LittleEndian.length_encode _ _

/-- The wire form has the size that the item tells. -/
theorem length_wire (item : Item) : item.wire.length = item.wireSize := by
  simp [wire, wireSize, sizeClass, SizeClass.headerLength]
  omega

/-! ### Validity -/

/-- Whether a payload length can be told along with a tag. -/
def lengthFits (tag : UInt8) (length : Nat) : Prop :=
  match SizeClass.ofTag tag with
  | .fixed => length = Tag.width tag
  | sizeClass => length < Nat.pow 256 sizeClass.lengthWidth

mutual

/-- Whether an item stands for bytes. -/
def Valid : Item → Prop
  | ⟨tag, name, data, children⟩ =>
    name.length < 256 ∧ lengthFits tag data.length ∧
      match ItemType.ofTag? tag with
      | none => False
      | some (.scalar _) => children = []
      | some _ =>
        data = LittleEndian.encode 4 children.length ++ children.flatMap wire ∧
          ValidAll children

/-- Whether all children of a container stand for bytes. -/
def ValidAll : List Item → Prop
  | [] => True
  | item :: rest => Valid item ∧ ValidAll rest

end

/-! ### Nesting -/

mutual

/-- How deeply containers are nested in an item; a scalar has no nesting. -/
def nesting : Item → Nat
  | ⟨tag, _, _, children⟩ =>
    match ItemType.ofTag? tag with
    | some .object | some .array => nestingOfChildren children + 1
    | _ => 0

/-- The deepest nesting among the children of a container. -/
def nestingOfChildren : List Item → Nat
  | [] => 0
  | item :: rest => max (nesting item) (nestingOfChildren rest)

end

/-! ### Items of a tree -/

mutual

/-- An item and all items below it, each before those that it holds. -/
def subitems : Item → List Item
  | ⟨tag, name, data, children⟩ => ⟨tag, name, data, children⟩ :: subitemsOfChildren children

/-- The children of a container and all items below them. -/
def subitemsOfChildren : List Item → List Item
  | [] => []
  | item :: rest => subitems item ++ subitemsOfChildren rest

end

end Item

end BinaryPack
