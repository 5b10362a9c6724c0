import BinaryPack.Proofs.Encoder.Writing
import BinaryPack.Proofs.Item.Binding
import BinaryPack.Proofs.Item.Grammar

/-! # The items that an encoder writes

  The layout of a value is the wire form of a tree of items that follows the value:
  one item for the value itself, and below it one for each element or member
  (`Item.ofValue`). The tree is valid and nested as deeply as the value, so it is
  what a reader finds in the pack of a map (`Encoder.read_marshalMap`).

  Nothing about an item is left to choose but how the length of its payload is
  written, and that is settled by the length: every item of the tree is in the
  narrowest size class that its type and its payload allow (`Item.IsNarrow`).
-/

namespace BinaryPack

/-! ### Tags over a payload -/

namespace ItemType

theorem fixedWidth?_eq_none_iff (type : ItemType) :
    type.fixedWidth? = none ↔ Tag.width type.tag = 0 := by
  unfold fixedWidth?
  split
  · next hwidth => simp [hwidth]
  · next hwidth => simp [hwidth]

/-- The tag of a type over a payload of some length: marked as short if the length is
    told by a field at all, and fits one byte. -/
def tagOver (type : ItemType) (length : Nat) : UInt8 :=
  if Tag.width type.tag = 0 ∧ length ≤ 255 then type.tag ||| Tag.shortBit else type.tag

@[simp] theorem ofTag?_tagOver (type : ItemType) (length : Nat) :
    ofTag? (type.tagOver length) = some type := by
  unfold tagOver
  split
  · exact ofTag?_tag_short type
  · exact ofTag?_tag type

end ItemType

namespace SizeClass

/-- The size class that takes the fewest bytes for a payload of some length. -/
def narrowest (type : ItemType) (length : Nat) : SizeClass :=
  if Tag.width type.tag ≠ 0 then .fixed
  else if length ≤ 255 then .short
  else .long

theorem ofTag_tagOver (type : ItemType) (length : Nat) :
    ofTag (type.tagOver length) = narrowest type length := by
  unfold ItemType.tagOver narrowest
  by_cases hwidth : Tag.width type.tag = 0
  · by_cases hshort : length ≤ 255
    · rw [if_pos ⟨hwidth, hshort⟩, ofTag_tag_short, if_pos hwidth, if_neg (not_not_intro hwidth),
        if_pos hshort]
    · rw [if_neg fun h => hshort h.2, ofTag_tag, if_pos hwidth, if_neg (not_not_intro hwidth),
        if_neg hshort]
  · rw [if_neg fun h => hwidth h.1, ofTag_tag, if_neg hwidth, if_pos hwidth]

end SizeClass

/-- A length that fits its field can be told along with the tag that is written. -/
theorem Item.lengthFits_tagOver {type : ItemType} {length : Nat} (hwidth : type.WidthFits length)
    (h : length ≤ maxLongLength) : lengthFits (type.tagOver length) length := by
  have hclass := SizeClass.ofTag_tagOver type length
  unfold SizeClass.narrowest at hclass
  unfold lengthFits
  split at hclass
  · next hfixed =>
    rw [hclass]
    dsimp only
    rw [ItemType.width_of_ofTag? (type.ofTag?_tagOver length)]
    exact hwidth _ (if_neg hfixed)
  · split at hclass
    · next hshort =>
      rw [hclass]
      exact Nat.lt_succ_of_le hshort
    · rw [hclass]
      exact Nat.lt_of_le_of_lt h (by decide)

/-! ### The tree of a value -/

/-- The payload that a value is laid out with. -/
def Layout.payload : Value → Bytes
  | .scalar s => s.payload
  | .array items => LittleEndian.encode 4 items.length ++ elements items
  | .map members => LittleEndian.encode 4 members.length ++ namedElements members

theorem Layout.length_payload_le {v : Value} (h : v.LengthsFit) :
    (payload v).length ≤ maxLongLength := by
  cases v with
  | scalar s => exact h
  | array items => exact h.2.2
  | map members => exact h.2.2

/-- The payload of a scalar of fixed width has that width, and nothing else has one. -/
theorem Layout.widthFits_payload (v : Value) : v.type.WidthFits (payload v).length := by
  intro width hwidth
  cases v with
  | scalar s =>
    have htag : Tag.width (ItemType.scalar s.type).tag = s.type.width := s.type.width_tag
    unfold Value.type ItemType.fixedWidth? at hwidth
    rw [htag] at hwidth
    split at hwidth
    · cases hwidth
    · next hne =>
      cases hwidth
      exact Scalar.length_of_form (.own s) hne
  | array items =>
    have hnone : ItemType.fixedWidth? .array = none := by decide
    cases hnone.symm.trans hwidth
  | map members =>
    have hnone : ItemType.fixedWidth? .object = none := by decide
    cases hnone.symm.trans hwidth

namespace Item

/-- The item of a value, given the items of what the value holds. -/
def enclosing (name : Bytes) (v : Value) (children : List Item) : Item :=
  ⟨v.type.tagOver (Layout.payload v).length, name, Layout.payload v, children⟩

mutual

/-- The items of a value under a name. -/
def ofValue (name : Bytes) : Value → Item
  | .scalar s => enclosing name (.scalar s) []
  | .array items => enclosing name (.array items) (ofElements items)
  | .map members => enclosing name (.map members) (ofMembers members)

/-- The items of the elements of an array, which have no names. -/
def ofElements : List Value → List Item
  | [] => []
  | v :: rest => ofValue [] v :: ofElements rest

/-- The items of the members of a map, which are named by their keys. -/
def ofMembers : List (String × Value) → List Item
  | [] => []
  | (key, v) :: rest => ofValue (Layout.keyName key) v :: ofMembers rest

end

/-! ### The bytes of the tree -/

theorem wire_tagOver_sized {type : ItemType} (hwidth : Tag.width type.tag = 0)
    (name payload : Bytes) (children : List Item) :
    wire ⟨type.tagOver payload.length, name, payload, children⟩
      = Layout.sized type name payload := by
  have hclass := SizeClass.ofTag_tagOver type payload.length
  unfold SizeClass.narrowest at hclass
  rw [if_neg (not_not_intro hwidth)] at hclass
  unfold wire lengthField Layout.sized
  dsimp only
  by_cases hshort : payload.length ≤ 255
  · rw [if_pos hshort] at hclass
    rw [if_pos hshort, hclass, ItemType.tagOver, if_pos ⟨hwidth, hshort⟩]
    rfl
  · rw [if_neg hshort] at hclass
    rw [if_neg hshort, hclass, ItemType.tagOver, if_neg fun h => hshort h.2]
    rfl

theorem wire_tagOver_fixed {type : ItemType} (hwidth : Tag.width type.tag ≠ 0)
    (name payload : Bytes) (children : List Item) :
    wire ⟨type.tagOver payload.length, name, payload, children⟩
      = [type.tag, UInt8.ofNat name.length] ++ name ++ payload := by
  have hclass := SizeClass.ofTag_tagOver type payload.length
  unfold SizeClass.narrowest at hclass
  rw [if_pos hwidth] at hclass
  unfold wire lengthField
  dsimp only
  rw [hclass, ItemType.tagOver, if_neg fun h => hwidth h.1]
  rfl

/-- Whatever its children, the item of a value has the bytes of the layout. -/
theorem wire_enclosing (name : Bytes) (v : Value) (children : List Item) :
    (enclosing name v children).wire = Layout.item name v := by
  unfold enclosing
  cases v with
  | scalar s =>
    have htag : Tag.width (ItemType.scalar s.type).tag = s.type.width := s.type.width_tag
    by_cases hwidth : s.type.width = 0
    · rw [Layout.item, Layout.scalar_of_width_eq_zero name hwidth]
      exact wire_tagOver_sized (htag.trans hwidth) name s.payload children
    · rw [Layout.item, Layout.scalar_of_width_ne_zero name hwidth]
      exact wire_tagOver_fixed (fun h => hwidth (htag.symm.trans h)) name s.payload children
  | array items =>
    have hwidth : Tag.width (ItemType.tag .array) = 0 := by decide
    exact wire_tagOver_sized hwidth name _ children
  | map members =>
    have hwidth : Tag.width (ItemType.tag .object) = 0 := by decide
    exact wire_tagOver_sized hwidth name _ children

theorem wire_ofValue (name : Bytes) (v : Value) : (ofValue name v).wire = Layout.item name v := by
  cases v with
  | scalar s => exact wire_enclosing name (.scalar s) []
  | array items => exact wire_enclosing name (.array items) (ofElements items)
  | map members => exact wire_enclosing name (.map members) (ofMembers members)

theorem flatMap_wire_ofElements (items : List Value) :
    (ofElements items).flatMap wire = Layout.elements items := by
  induction items with
  | nil => rfl
  | cons v rest ih => rw [ofElements, List.flatMap_cons, wire_ofValue, ih, Layout.elements]

theorem flatMap_wire_ofMembers (members : List (String × Value)) :
    (ofMembers members).flatMap wire = Layout.namedElements members := by
  induction members with
  | nil => rfl
  | cons member rest ih =>
    obtain ⟨key, v⟩ := member
    rw [ofMembers, List.flatMap_cons, wire_ofValue, ih, Layout.namedElements]

@[simp] theorem length_ofElements (items : List Value) :
    (ofElements items).length = items.length := by
  induction items with
  | nil => rfl
  | cons v rest ih => rw [ofElements, List.length_cons, ih, List.length_cons]

@[simp] theorem length_ofMembers (members : List (String × Value)) :
    (ofMembers members).length = members.length := by
  induction members with
  | nil => rfl
  | cons member rest ih => rw [ofMembers, List.length_cons, ih, List.length_cons]

/-! ### Validity and nesting -/

theorem valid_enclosing {name : Bytes} {v : Value} {children : List Item}
    (hname : name.length < 256) (hlengths : v.LengthsFit)
    (hchildren : match v with
      | .scalar _ => children = []
      | _ => Layout.payload v = LittleEndian.encode 4 children.length ++ children.flatMap wire ∧
          ValidAll children) : (enclosing name v children).Valid := by
  refine ⟨hname, ?_, ?_⟩
  · exact lengthFits_tagOver (Layout.widthFits_payload v) (Layout.length_payload_le hlengths)
  · -- Validity asks by the type of the tag what `hchildren` tells by the value.
    rw [ItemType.ofTag?_tagOver]
    cases v with
    | scalar s => exact hchildren
    | array items => exact hchildren
    | map members => exact hchildren

open Value in
mutual

/-- The items of a value that can be written are valid. -/
theorem valid_ofValue {name : Bytes} (hname : name.length < 256) : ∀ {v : Value},
    v.KeysFit → v.LengthsFit → (ofValue name v).Valid
  | .scalar _, _, hlengths => valid_enclosing hname hlengths rfl
  | .array items, hkeys, hlengths => by
    refine valid_enclosing hname hlengths ⟨?_, validAll_ofElements hkeys hlengths.2.1⟩
    rw [length_ofElements, flatMap_wire_ofElements]
    rfl
  | .map members, hkeys, hlengths => by
    refine valid_enclosing hname hlengths ⟨?_, validAll_ofMembers hkeys hlengths.2.1⟩
    rw [length_ofMembers, flatMap_wire_ofMembers]
    rfl

theorem validAll_ofElements : ∀ {items : List Value},
    KeysFitItems items → LengthsFitItems items → ValidAll (ofElements items)
  | [], _, _ => trivial
  | _ :: _, hkeys, hlengths =>
    ⟨valid_ofValue (by decide) hkeys.1 hlengths.1, validAll_ofElements hkeys.2 hlengths.2⟩

theorem validAll_ofMembers : ∀ {members : List (String × Value)},
    KeysFitMembers members → LengthsFitMembers members → ValidAll (ofMembers members)
  | [], _, _ => trivial
  | (key, _) :: _, hkeys, hlengths =>
    ⟨valid_ofValue (ItemName.length_layout_lt (show (ItemName.key key).Fits from hkeys.1))
        hkeys.2.1 hlengths.1,
      validAll_ofMembers hkeys.2.2 hlengths.2⟩

end

theorem nesting_enclosing (name : Bytes) (v : Value) (children : List Item) :
    (enclosing name v children).nesting = match v with
      | .scalar _ => 0
      | _ => nestingOfChildren children + 1 := by
  rw [enclosing, nesting, ItemType.ofTag?_tagOver]
  cases v <;> rfl

mutual

theorem nesting_ofValue (name : Bytes) : ∀ v : Value, (ofValue name v).nesting = v.nesting
  | .scalar s => nesting_enclosing name (.scalar s) []
  | .array items => by
    rw [ofValue, nesting_enclosing, Value.nesting, nestingOfChildren_ofElements items]
  | .map members => by
    rw [ofValue, nesting_enclosing, Value.nesting, nestingOfChildren_ofMembers members]

theorem nestingOfChildren_ofElements : ∀ items : List Value,
    nestingOfChildren (ofElements items) = Value.nestingOfItems items
  | [] => rfl
  | v :: rest => by
    rw [ofElements, nestingOfChildren, nesting_ofValue [] v, nestingOfChildren_ofElements rest,
      Value.nestingOfItems]

theorem nestingOfChildren_ofMembers : ∀ members : List (String × Value),
    nestingOfChildren (ofMembers members) = Value.nestingOfMembers members
  | [] => rfl
  | (key, v) :: rest => by
    rw [ofMembers, nestingOfChildren, nesting_ofValue (Layout.keyName key) v,
      nestingOfChildren_ofMembers rest, Value.nestingOfMembers]

end

/-! ### Size classes -/

/-- An item whose size class is the narrowest that its type and its payload allow. -/
def IsNarrow (item : Item) : Prop :=
  ∀ type, item.itemType? = some type → item.sizeClass = .narrowest type item.data.length

theorem isNarrow_enclosing (name : Bytes) (v : Value) (children : List Item) :
    (enclosing name v children).IsNarrow := by
  intro type htype
  have hown : (enclosing name v children).itemType? = some v.type := ItemType.ofTag?_tagOver _ _
  rw [hown] at htype
  cases htype
  exact SizeClass.ofTag_tagOver _ _

mutual

/-- Every item in the tree of a value is narrow. -/
theorem isNarrow_of_mem_ofValue {item : Item} : ∀ {name : Bytes} {v : Value},
    item ∈ (ofValue name v).subitems → item.IsNarrow
  | name, .scalar s, h => by
    have hitem : item = enclosing name (.scalar s) [] := List.mem_singleton.mp h
    rw [hitem]
    exact isNarrow_enclosing _ _ _
  | name, .array items, h => by
    rcases List.mem_cons.mp h with hitem | hitem
    · rw [hitem]
      exact isNarrow_enclosing name (.array items) (ofElements items)
    · exact isNarrow_of_mem_ofElements hitem
  | name, .map members, h => by
    rcases List.mem_cons.mp h with hitem | hitem
    · rw [hitem]
      exact isNarrow_enclosing name (.map members) (ofMembers members)
    · exact isNarrow_of_mem_ofMembers hitem

theorem isNarrow_of_mem_ofElements {item : Item} : ∀ {items : List Value},
    item ∈ subitemsOfChildren (ofElements items) → item.IsNarrow
  | [], h => nomatch h
  | _ :: _, h => by
    rcases List.mem_append.mp h with hitem | hitem
    · exact isNarrow_of_mem_ofValue hitem
    · exact isNarrow_of_mem_ofElements hitem

theorem isNarrow_of_mem_ofMembers {item : Item} : ∀ {members : List (String × Value)},
    item ∈ subitemsOfChildren (ofMembers members) → item.IsNarrow
  | [], h => nomatch h
  | (_, _) :: _, h => by
    rcases List.mem_append.mp h with hitem | hitem
    · exact isNarrow_of_mem_ofValue hitem
    · exact isNarrow_of_mem_ofMembers hitem

end

end Item

/-! ### Packs -/

namespace Encoder

/-- What a reader finds in the pack of a map are the items of the map, up to the end. -/
theorem read_marshalMap {e : Encoder} {members : Members Value} {pack : Buffer} {depth : Nat}
    (h : (e.marshalMap members).result = .ok pack)
    (hdepth : Value.nesting (.map members) ≤ depth) :
    Item.read depth pack.toList 0 = .ok (.ofValue [] (.map members), pack.size) := by
  obtain ⟨⟨hkeys, hlengths, -⟩, hpack⟩ := (marshalMap_eq_ok_iff e members pack).mp h
  have hwire : (Item.ofValue [] (.map members)).wire = pack.toList := by
    rw [Item.wire_ofValue, hpack, Members.layout]
  have hstands := Item.standsIn_wire (.ofValue [] (.map members))
  rw [hwire, Array.length_toList] at hstands
  refine (Item.read_eq_ok_iff depth pack.toList 0 _ _).mpr ⟨?_, ?_, hstands⟩
  · exact Item.valid_ofValue (by decide) hkeys hlengths
  · rw [Item.nesting_ofValue]
    exact hdepth

/-- **A pack is the layout of its map.** Whatever an encoder has patched and slid while
    writing, the bytes are those that are written down from the inside out, the length of
    each payload before its header, in the order in which every map lists its members.
    They do not depend on the limit. Every item that a reader then finds in them, at any
    depth, whose payload may have any length is in the short class exactly when the
    payload has at most 255 bytes. -/
theorem marshalMap_eq_layout {e : Encoder} {members : Members Value} {pack : Buffer}
    (h : (e.marshalMap members).result = .ok pack) :
    pack.toList = members.layout ∧
    (∀ (e' : Encoder) (pack' : Buffer),
      (e'.marshalMap members).result = .ok pack' → pack' = pack) ∧
    ∃ root : Item, Item.read e.maxDepth pack.toList 0 = .ok (root, pack.size) ∧
      ∀ item ∈ root.subitems, ∀ type, item.itemType? = some type → type.fixedWidth? = none →
        (item.sizeClass = .short ↔ item.data.length ≤ 255) := by
  obtain ⟨hcan, hpack⟩ := (marshalMap_eq_ok_iff e members pack).mp h
  refine ⟨hpack, ?_, .ofValue [] (.map members), read_marshalMap h hcan.2.2, ?_⟩
  · intro e' pack' h'
    obtain ⟨-, hpack'⟩ := (marshalMap_eq_ok_iff e' members pack').mp h'
    exact Array.ext' (hpack'.trans hpack.symm)
  · intro item hitem type htype hfree
    have hnarrow := Item.isNarrow_of_mem_ofValue hitem type htype
    have hwidth := (ItemType.fixedWidth?_eq_none_iff type).mp hfree
    rw [hnarrow, SizeClass.narrowest, if_neg (not_not_intro hwidth)]
    by_cases hshort : item.data.length ≤ 255
    · simp [hshort]
    · simp [hshort]

/-- Two arrays on either side of the boundary: a payload of 255 bytes takes the short class,
    one of 256 bytes does not. -/
theorem marshalMap_eq_layout_boundary :
    let members : Members Value := [("a", .array [.scalar (.raw (List.replicate 248 7))]),
      ("b", .array [.scalar (.raw (List.replicate 249 7))])]
    let bytes : Bytes := [0x10, 0, 0x10, 2, 0, 0, 2, 0, 0, 0]
      ++ [0xA0, 2, 255, 0x61, 0, 1, 0, 0, 0, 0xE0, 0, 248] ++ List.replicate 248 7
      ++ [0x20, 2, 0, 1, 0, 0, 0x62, 0, 1, 0, 0, 0, 0xE0, 0, 249] ++ List.replicate 249 7
    let pack : Buffer := bytes.toArray
    (Encoder.marshalMap ⟨2⟩ members).result = .ok pack ∧
      pack.toList = members.layout ∧
      (∀ (e' : Encoder) (pack' : Buffer),
        (e'.marshalMap members).result = .ok pack' → pack' = pack) ∧
      ∃ root : Item, Item.read 2 pack.toList 0 = .ok (root, pack.size) ∧
        ∀ item ∈ root.subitems, ∀ type, item.itemType? = some type → type.fixedWidth? = none →
          (item.sizeClass = .short ↔ item.data.length ≤ 255) := by
  intro members bytes pack
  have hmarshal : (Encoder.marshalMap ⟨2⟩ members).result = .ok pack :=
    (marshalMap_eq_ok_iff ⟨2⟩ members pack).mpr (by decide +kernel)
  exact ⟨hmarshal, marshalMap_eq_layout hmarshal⟩

end Encoder

end BinaryPack
