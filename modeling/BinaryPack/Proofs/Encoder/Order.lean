import BinaryPack.Proofs.Encoder.Admission
import BinaryPack.Proofs.Encoder.Tree
import BinaryPack.Proofs.Item.Inversion
import BinaryPack.Proofs.Item.Sorted

/-! # Packs of a map in different orders

  An encoder writes the members of a map in the order in which the map lists them, so one
  map has many packs. They differ in nothing else. A payload in another order is as long,
  because the items in it are, each of them in another order of its own; so the length
  takes the same size class, and an item at any place of one pack is as long as the item at
  the same place of another. With their members put in order, all packs of a map are the
  same (`Encoder.marshalMap_reordered`).
-/

namespace BinaryPack

/-! ### Lengths in another order -/

/-- The size of an item is told by the type of its value and the length of its payload. -/
theorem Layout.length_item (name : Bytes) (v : Value) :
    (item name v).length = (SizeClass.narrowest v.type (payload v).length).headerLength
      + name.length + (payload v).length := by
  have hclass : (Item.enclosing name v []).sizeClass = .narrowest v.type (payload v).length :=
    SizeClass.ofTag_tagOver _ _
  rw [← Item.wire_enclosing name v [], Item.length_wire, Item.wireSize, hclass]
  rfl

/-- So values with equally long payloads have equally long items. -/
theorem Layout.length_item_eq {v v' : Value} (htype : v.type = v'.type)
    (h : (payload v).length = (payload v').length) (name : Bytes) :
    (item name v).length = (item name v').length := by
  rw [length_item, length_item, htype, h]

namespace Value

theorem Reordered.type_eq {v v' : Value} (h : Reordered v v') : v.type = v'.type := by
  cases h with
  | scalar s => rfl
  | array h => rfl
  | map h => rfl

mutual

/-- The payload of a value is equally long in any order. -/
theorem Reordered.length_payload : ∀ {v v' : Value}, Reordered v v' →
    (Layout.payload v).length = (Layout.payload v').length
  | _, _, .scalar _ => rfl
  | _, _, .array h => by
    -- The count takes four bytes, whatever it counts.
    rw [Layout.payload, Layout.payload, List.length_append, List.length_append,
      LittleEndian.length_encode, LittleEndian.length_encode, h.length_elements]
  | _, _, .map h => by
    rw [Layout.payload, Layout.payload, List.length_append, List.length_append,
      LittleEndian.length_encode, LittleEndian.length_encode, h.length_namedElements]

theorem ReorderedItems.length_elements : ∀ {items items' : List Value},
    ReorderedItems items items' →
      (Layout.elements items).length = (Layout.elements items').length
  | _, _, .nil => rfl
  | _, _, .cons h hrest => by
    have hitem := Layout.length_item_eq h.type_eq h.length_payload []
    rw [Layout.elements, Layout.elements, List.length_append, List.length_append, hitem,
      hrest.length_elements]

theorem ReorderedMembers.length_namedElements : ∀ {members members' : List (String × Value)},
    ReorderedMembers members members' →
      (Layout.namedElements members).length = (Layout.namedElements members').length
  | _, _, .nil => rfl
  | _, _, @ReorderedMembers.cons key _ _ _ _ h hrest => by
    have hitem := Layout.length_item_eq h.type_eq h.length_payload (Layout.keyName key)
    rw [Layout.namedElements, Layout.namedElements, List.length_append, List.length_append, hitem,
      hrest.length_namedElements]
  | _, _, .swap _ _ _ => by
    simp only [Layout.namedElements, List.length_append]
    exact Nat.add_left_comm _ _ _
  | _, _, .trans h h' => h.length_namedElements.trans h'.length_namedElements

end

mutual

/-- Where lengths and counts fit in one order, they fit in any. -/
theorem Reordered.lengthsFit : ∀ {v v' : Value}, Reordered v v' → v.LengthsFit → v'.LengthsFit
  | _, _, .scalar _, hfit => hfit
  | _, _, .array h, hfit => by
    obtain ⟨hcount, hitems, hlength⟩ := hfit
    have hpayload := (Reordered.array h).length_payload
    exact ⟨h.length_eq ▸ hcount, h.lengthsFit hitems, hpayload ▸ hlength⟩
  | _, _, .map h, hfit => by
    obtain ⟨hcount, hmembers, hlength⟩ := hfit
    have hpayload := (Reordered.map h).length_payload
    exact ⟨h.length_eq ▸ hcount, h.lengthsFit hmembers, hpayload ▸ hlength⟩

theorem ReorderedItems.lengthsFit : ∀ {items items' : List Value}, ReorderedItems items items' →
    LengthsFitItems items → LengthsFitItems items'
  | _, _, .nil, _ => trivial
  | _, _, .cons h hrest, hfit => ⟨h.lengthsFit hfit.1, hrest.lengthsFit hfit.2⟩

theorem ReorderedMembers.lengthsFit : ∀ {members members' : List (String × Value)},
    ReorderedMembers members members' → LengthsFitMembers members → LengthsFitMembers members'
  | _, _, .nil, _ => trivial
  | _, _, .cons h hrest, hfit => ⟨h.lengthsFit hfit.1, hrest.lengthsFit hfit.2⟩
  | _, _, .swap _ _ _, hfit => ⟨hfit.2.1, hfit.1, hfit.2.2⟩
  | _, _, .trans h h', hfit => h'.lengthsFit (h.lengthsFit hfit)

end

/-- Keys that fit in a value fit wherever else they are all the keys. -/
theorem KeysFit.of_subset {v w : Value} (hfit : v.KeysFit) (h : w.allKeys ⊆ v.allKeys) :
    w.KeysFit := by
  rw [keysFit_iff] at hfit ⊢
  intro key hkey
  exact hfit key (h hkey)

theorem Reordered.keysFit {v v' : Value} (h : Reordered v v') (hfit : v.KeysFit) :
    v'.KeysFit :=
  hfit.of_subset h.allKeys_perm.symm.subset

end Value

open Value

/-- A map that can be written can be written in any order. -/
theorem Encoder.CanWrite.reordered {e : Encoder} {members order : Members Value}
    (h : Reordered (.map members) (.map order)) (hcan : e.CanWrite members) :
    e.CanWrite order := by
  obtain ⟨hkeys, hlengths, hnesting⟩ := hcan
  exact ⟨h.keysFit hkeys, h.lengthsFit hlengths, h.nesting_eq ▸ hnesting⟩

namespace Item

/-! ### Items of a value -/

theorem data_ofValue (name : Bytes) (v : Value) : (ofValue name v).data = Layout.payload v := by
  cases v with
  | scalar s => rfl
  | array items => rfl
  | map members => rfl

theorem name_ofValue (name : Bytes) (v : Value) : (ofValue name v).name = name := by
  cases v with
  | scalar s => rfl
  | array items => rfl
  | map members => rfl

theorem tag_ofValue (name : Bytes) (v : Value) :
    (ofValue name v).tag = v.type.tagOver (Layout.payload v).length := by
  cases v with
  | scalar s => rfl
  | array items => rfl
  | map members => rfl

theorem itemType?_ofValue (name : Bytes) (v : Value) :
    (ofValue name v).itemType? = some v.type := by
  rw [itemType?, tag_ofValue, ItemType.ofTag?_tagOver]

theorem tag_ofValue_eq {v v' : Value} (h : Reordered v v') (name : Bytes) :
    (ofValue name v).tag = (ofValue name v').tag := by
  rw [tag_ofValue, tag_ofValue, h.type_eq, h.length_payload]

/-- The item of a value has the same size in any order. -/
theorem sameSize_ofValue {v v' : Value} (h : Reordered v v') (name : Bytes) :
    SameSize (ofValue name v) (ofValue name v') where
  sizeClass_eq := by
    rw [sizeClass, sizeClass, tag_ofValue_eq h]
  length_data_eq := by
    rw [data_ofValue, data_ofValue, h.length_payload]
  length_wire_eq := by
    rw [wire_ofValue, wire_ofValue, Layout.length_item_eq h.type_eq h.length_payload]

theorem keyText_ofValue {key : String} (h : KeyFits key) (v : Value) :
    (ofValue (Layout.keyName key) v).keyText = key := by
  rw [keyText, Item.key, name_ofValue, (Layout.nameForm_keyName h).lossy_unterminated]

/-- The member with a key is the item of what the map holds under it. -/
theorem find?_ofMembers {members : Members Value} (hfit : KeysFitMembers members)
    (key : String) :
    (ofMembers members).find? (fun child => child.keyText = key)
      = (members.find? key).map (ofValue (Layout.keyName key)) := by
  induction members with
  | nil => rfl
  | cons member rest ih =>
    obtain ⟨k, v⟩ := member
    obtain ⟨hkey, -, hrest⟩ := hfit
    rw [ofMembers, List.find?_cons, keyText_ofValue hkey, Members.find?]
    by_cases hsame : k = key
    · rw [if_pos hsame, decide_eq_true hsame, hsame]
      rfl
    · rw [if_neg hsame, decide_eq_false hsame]
      exact ih hrest

theorem getElem?_ofElements (items : List Value) (i : Nat) :
    (ofElements items)[i]? = items[i]?.map (ofValue []) := by
  induction items generalizing i with
  | nil => rfl
  | cons v rest ih =>
    cases i with
    | zero => rfl
    | succ i => exact ih i

/-- A step down from the item of a value leads to the item of a part of the value. -/
theorem child?_ofValue {name : Bytes} {v : Value} (hfit : v.KeysFit) (s : Segment) :
    (ofValue name v).child? s = match v, s with
      | .map members, .key key => (Members.find? members key).map (ofValue (Layout.keyName key))
      | .array items, .index i => items[i]?.map (ofValue [])
      | _, _ => none := by
  unfold child?
  rw [itemType?_ofValue]
  cases v with
  | scalar s => rfl
  | array items =>
    cases s with
    | key text => rfl
    | index i => exact getElem?_ofElements items i
  | map members =>
    cases s with
    | key text => exact find?_ofMembers hfit text
    | index i => rfl

/-! ### Places in two packs -/

/-- Items that stand for one value in two orders, under one name. -/
def Corresponds (item item' : Item) : Prop :=
  ∃ name v v', Reordered v v' ∧ v.Distinct ∧ v.KeysFit ∧
    item = ofValue name v ∧ item' = ofValue name v'

/-- What is found in two orders of a value corresponds. -/
theorem corresponds_map {found found' : Option Value} (h : Option.Rel Reordered found found')
    (hsound : ∀ v, found = some v → v.Distinct ∧ v.KeysFit) (name : Bytes) :
    Option.Rel Corresponds (found.map (ofValue name)) (found'.map (ofValue name)) := by
  cases h with
  | none => exact .none
  | @some v v' hreordered =>
    obtain ⟨hdistinct, hfit⟩ := hsound v rfl
    exact .some ⟨name, v, v', hreordered, hdistinct, hfit, rfl, rfl⟩

/-- A step leads from items that correspond to items that correspond, or nowhere from both. -/
theorem Corresponds.child? {item item' : Item} (h : Corresponds item item') (s : Segment) :
    Option.Rel Corresponds (item.child? s) (item'.child? s) := by
  obtain ⟨name, v, v', hreordered, hdistinct, hfit, rfl, rfl⟩ := h
  rw [child?_ofValue hfit, child?_ofValue (hreordered.keysFit hfit)]
  cases hreordered with
  | scalar scalar => exact .none
  | @array items items' h =>
    cases s with
    | key text => exact .none
    | index i =>
      apply corresponds_map (h.getElem?_rel i)
      intro v hv
      have hmem : v ∈ items := List.mem_of_getElem? hv
      refine ⟨distinctItems_iff.mp hdistinct v hmem, hfit.of_subset ?_⟩
      intro key hkey
      exact mem_allKeysOfItems_iff.mpr ⟨v, hmem, hkey⟩
  | @map members members' h =>
    cases s with
    | key text =>
      apply corresponds_map (h.find?_rel hdistinct.1 text)
      intro v hv
      have hmem : (text, v) ∈ members := Members.mem_of_find?_eq_some hv
      refine ⟨distinctMembers_iff.mp hdistinct.2 (text, v) hmem, hfit.of_subset ?_⟩
      intro key hkey
      exact mem_allKeysOfMembers_iff.mpr ⟨(text, v), hmem, .inr hkey⟩
    | index i => exact .none

/-- A path leads from items that correspond to items that correspond, or nowhere from both. -/
theorem Corresponds.at? {item item' : Item} (h : Corresponds item item') (path : List Segment) :
    Option.Rel Corresponds (item.at? path) (item'.at? path) := by
  -- The items to start from are general: after a step they are those that it leads to.
  induction path generalizing item item' with
  | nil => exact .some h
  | cons s rest ih =>
    unfold Item.at?
    rw [List.foldlM_cons, List.foldlM_cons]
    exact rel_bind (h.child? s) fun _ _ hchild => ih hchild

theorem Corresponds.sameSize {item item' : Item} (h : Corresponds item item') :
    SameSize item item' := by
  obtain ⟨name, v, v', hreordered, -, -, rfl, rfl⟩ := h
  exact sameSize_ofValue hreordered name

/-! ### Packs with their members in order -/

theorem map_keyText_ofMembers {members : Members Value} (hfit : KeysFitMembers members) :
    (ofMembers members).map keyText = members.keys := by
  induction members with
  | nil => rfl
  | cons member rest ih =>
    obtain ⟨key, v⟩ := member
    obtain ⟨hkey, -, hrest⟩ := hfit
    rw [ofMembers, List.map_cons, keyText_ofValue hkey, ih hrest]
    rfl

/-- Where no key occurs twice, no two items of members have one key. -/
theorem nodup_key_ofMembers {members : Members Value} (hdistinct : members.Distinct)
    (hfit : KeysFitMembers members) : ((ofMembers members).map key).Nodup := by
  have htexts : ((ofMembers members).map keyText).Nodup := by
    rw [map_keyText_ofMembers hfit]
    exact hdistinct
  have hlossy : (ofMembers members).map keyText = ((ofMembers members).map key).map Utf8.lossy := by
    rw [List.map_map]
    rfl
  rw [hlossy] at htexts
  exact htexts.of_map _

mutual

/-- With the members in order, the items of a value are the same in any order. -/
theorem sorted_ofValue_eq (name : Bytes) : ∀ {v v' : Value}, Reordered v v' → v.Distinct →
    v.KeysFit → (ofValue name v).sorted = (ofValue name v').sorted
  | _, _, .scalar _, _, _ => rfl
  | _, _, @Reordered.array items items' h, hdistinct, hfit => by
    have hchildren := sortedAll_ofElements_eq h hdistinct hfit
    rw [sorted_of_array (itemType?_ofValue name (.array items)),
      sorted_of_array (itemType?_ofValue name (.array items'))]
    show withChildren _ (sortedAll (ofElements items)) = withChildren _ (sortedAll _)
    rw [hchildren]
    exact withChildren_eq (tag_ofValue_eq (.array h) name) rfl _
  | _, _, @Reordered.map members members' h, hdistinct, hfit => by
    -- The members come in two orders, but are sorted alike, since no key occurs twice.
    have hkeys : ((sortedAll (ofMembers members)).map key).Nodup := by
      rw [map_key_sortedAll]
      exact nodup_key_ofMembers hdistinct.1 hfit
    have hchildren := sortByKey_eq_of_perm (sortedAll_ofMembers_perm h hdistinct.2 hfit) hkeys
    rw [sorted_of_object (itemType?_ofValue name (.map members)),
      sorted_of_object (itemType?_ofValue name (.map members'))]
    show withChildren _ (sortByKey (sortedAll (ofMembers members))) = withChildren _ _
    rw [hchildren]
    exact withChildren_eq (tag_ofValue_eq (.map h) name) rfl _

theorem sortedAll_ofElements_eq : ∀ {items items' : List Value}, ReorderedItems items items' →
    DistinctItems items → KeysFitItems items →
      sortedAll (ofElements items) = sortedAll (ofElements items')
  | _, _, .nil, _, _ => rfl
  | _, _, .cons h hrest, hdistinct, hfit => by
    rw [ofElements, sortedAll, sorted_ofValue_eq [] h hdistinct.1 hfit.1,
      sortedAll_ofElements_eq hrest hdistinct.2 hfit.2]
    rfl

theorem sortedAll_ofMembers_perm : ∀ {members members' : List (String × Value)},
    ReorderedMembers members members' → DistinctMembers members → KeysFitMembers members →
      (sortedAll (ofMembers members)).Perm (sortedAll (ofMembers members'))
  | _, _, .nil, _, _ => .nil
  | _, _, .cons h hrest, hdistinct, hfit => by
    rw [ofMembers, sortedAll, sorted_ofValue_eq _ h hdistinct.1 hfit.2.1]
    exact (sortedAll_ofMembers_perm hrest hdistinct.2 hfit.2.2).cons _
  | _, _, .swap _ _ _, _, _ => .swap _ _ _
  | _, _, .trans h h', hdistinct, hfit => by
    have hfit' := Reordered.keysFit (.map h) hfit
    exact (sortedAll_ofMembers_perm h hdistinct hfit).trans
      (sortedAll_ofMembers_perm h' (h.distinct hdistinct) hfit')

end

end Item

namespace Encoder

/-- **The order of members never changes the size of a pack.** If a map can be written in one
    order, it can be written in any other, of all maps in it at every depth, and the packs are
    equally long. Items at the same place of two packs, by the keys of members and the
    positions of elements, have their lengths in the same size class and are equally long; a
    path that leads nowhere in one pack leads nowhere in the other. With the members of all
    objects put in the order of their keys, both packs are the same bytes, which are again a
    pack of that size. -/
theorem marshalMap_reordered {e : Encoder} {members order : Members Value} {pack : Buffer}
    (hpack : (e.marshalMap members).result = .ok pack)
    (hdistinct : Value.Distinct (.map members))
    (horder : Reordered (.map members) (.map order)) :
    ∃ (pack' : Buffer) (root root' : Item),
      (e.marshalMap order).result = .ok pack' ∧ pack'.size = pack.size ∧
      Item.read e.maxDepth pack.toList 0 = .ok (root, pack.size) ∧
      Item.read e.maxDepth pack'.toList 0 = .ok (root', pack'.size) ∧
      (∀ path, Option.Rel Item.SameSize (root.at? path) (root'.at? path)) ∧
      root.sorted.wire = root'.sorted.wire ∧
      Item.read e.maxDepth root.sorted.wire 0 = .ok (root.sorted, pack.size) := by
  obtain ⟨hcan, hlayout⟩ := (marshalMap_eq_ok_iff e members pack).mp hpack
  have hcan' : e.CanWrite order := hcan.reordered horder
  have hpack' : (e.marshalMap order).result = .ok order.layout.toArray :=
    (marshalMap_eq_ok_iff e order _).mpr ⟨hcan', rfl⟩
  have hsize : order.layout.toArray.size = pack.size := by
    have hroots := (Item.sameSize_ofValue horder []).length_wire_eq
    rw [Item.wire_ofValue, Item.wire_ofValue] at hroots
    have hlength : pack.toList.length = pack.size := Array.length_toList
    rw [← hlength, hlayout]
    exact hroots.symm
  -- The limit is that of the encoder, so both packs are read to the end.
  have hread := read_marshalMap hpack hcan.2.2
  have hroots : Item.Corresponds (.ofValue [] (.map members)) (.ofValue [] (.map order)) :=
    ⟨[], .map members, .map order, horder, hdistinct, hcan.1, rfl, rfl⟩
  refine ⟨order.layout.toArray, .ofValue [] (.map members), .ofValue [] (.map order), hpack',
    hsize, hread, read_marshalMap hpack' hcan'.2.2, ?_, ?_, Item.read_sorted hread⟩
  · intro path
    exact rel_imp (hroots.at? path) fun _ _ => Item.Corresponds.sameSize
  · rw [Item.sorted_ofValue_eq [] horder hdistinct hcan.1]

/-- A map in a map, the members of both in two orders. -/
theorem marshalMap_reordered_nested :
    let inner : Members Value := [("y", .scalar (.bool true)), ("x", .scalar (.uint8 5))]
    let members : Members Value := [("m", .map inner), ("a", .array [.null])]
    let order : Members Value := [("a", .array [.null]), ("m", .map inner.reverse)]
    let pack : Buffer := #[0x90, 0, 35, 2, 0, 0, 0,
      0x90, 2, 14, 0x6D, 0, 2, 0, 0, 0, 0x31, 2, 0x79, 0, 1, 0x21, 2, 0x78, 0, 5,
      0xA0, 2, 7, 0x61, 0, 1, 0, 0, 0, 0x61, 0, 0]
    let pack' : Buffer := #[0x90, 0, 35, 2, 0, 0, 0,
      0xA0, 2, 7, 0x61, 0, 1, 0, 0, 0, 0x61, 0, 0,
      0x90, 2, 14, 0x6D, 0, 2, 0, 0, 0, 0x21, 2, 0x78, 0, 5, 0x31, 2, 0x79, 0, 1]
    (Encoder.marshalMap ⟨2⟩ members).result = .ok pack ∧
      (Encoder.marshalMap ⟨2⟩ order).result = .ok pack' ∧
      ∃ root root' : Item, Item.read 2 pack.toList 0 = .ok (root, 38) ∧
        Item.read 2 pack'.toList 0 = .ok (root', 38) ∧
        (∀ path, Option.Rel Item.SameSize (root.at? path) (root'.at? path)) ∧
        root.sorted.wire = root'.sorted.wire := by
  intro inner members order pack pack'
  have hpack : (Encoder.marshalMap ⟨2⟩ members).result = .ok pack :=
    (marshalMap_eq_ok_iff ⟨2⟩ members pack).mpr (by decide)
  have hpack' : (Encoder.marshalMap ⟨2⟩ order).result = .ok pack' :=
    (marshalMap_eq_ok_iff ⟨2⟩ order pack').mpr (by decide)
  have hdistinct : Value.Distinct (.map members) := by
    simp [members, inner, Value.Distinct, Value.DistinctMembers, Value.DistinctItems, Value.null,
      Members.Distinct, Members.keys]
  have hinner : Reordered (.map inner) (.map inner.reverse) := .map (.swap _ _ [])
  have horder : Reordered (.map members) (.map order) :=
    .map (.trans (.cons hinner (.refl _)) (.swap _ _ []))
  obtain ⟨written, root, root', hwritten, -, hread, hread', hplaces, hsorted, -⟩ :=
    marshalMap_reordered hpack hdistinct horder
  -- There is only one pack of a map in one order.
  cases hwritten.symm.trans hpack'
  exact ⟨hpack, hpack', root, root', hread, hread', hplaces, hsorted⟩

end Encoder

end BinaryPack
