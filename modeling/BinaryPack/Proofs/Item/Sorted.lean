import BinaryPack.Item.Binder
import BinaryPack.Proofs.Item.Place
import Mathlib.Data.List.Nodup

/-! # Items with their members in order

  The members of an object may stand in any order. To compare packs, they are put in the
  order of their keys, in objects at every depth, and the payloads of containers are made
  anew of what they hold (`Item.sorted`). Where no two members of an object have one key,
  nothing is left to choose: members that are there in two orders are put into the same
  order (`Item.sortByKey_eq_of_perm`).

  Places in two trees correspond if one path leads to both, by the keys of members and the
  positions of elements (`Item.at?`).
-/

namespace BinaryPack

namespace Item

/-! ### Paths -/

/-- A step from a container to an item in it. -/
inductive Segment where
  /-- To the member of an object with a key. -/
  | key (text : String)
  /-- To the element of an array at a position. -/
  | index (i : Nat)
  deriving DecidableEq

/-- The item in a container that a step leads to. -/
def child? (item : Item) (segment : Segment) : Option Item :=
  match item.itemType?, segment with
  | some .object, .key text => item.children.find? fun child => child.keyText = text
  | some .array, .index i => item.children[i]?
  | _, _ => none

/-- The item in a tree that a path leads to. -/
def at? (item : Item) (path : List Segment) : Option Item :=
  path.foldlM child? item

/-- Items of one size, and with their lengths written in the same way. -/
structure SameSize (item item' : Item) : Prop where
  /-- The size class is the same. -/
  sizeClass_eq : item.sizeClass = item'.sizeClass
  /-- The payloads are equally long. -/
  length_data_eq : item.data.length = item'.data.length
  /-- The items as a whole, with header and name, are equally long. -/
  length_wire_eq : item.wire.length = item'.wire.length

/-! ### The order of keys -/

/-- Whether the key of one item comes before that of another, byte by byte, or is the same. -/
def keyLe (item item' : Item) : Bool :=
  item.key ≤ item'.key

/-- Items in the order of their keys. -/
def sortByKey (items : List Item) : List Item :=
  items.mergeSort keyLe

theorem sortByKey_perm (items : List Item) : (sortByKey items).Perm items :=
  List.mergeSort_perm items keyLe

theorem pairwise_sortByKey (items : List Item) :
    (sortByKey items).Pairwise fun item item' => keyLe item item' = true := by
  have htrans (a b c : Item) (hab : keyLe a b = true) (hbc : keyLe b c = true) :
      keyLe a c = true := by
    simp only [keyLe, decide_eq_true_eq] at hab hbc ⊢
    exact List.le_trans hab hbc
  have htotal (a b : Item) : (keyLe a b || keyLe b a) = true := by
    simp only [keyLe, Bool.or_eq_true, decide_eq_true_eq]
    exact List.le_total a.key b.key
  exact List.pairwise_mergeSort htrans htotal items

/-- Items with distinct keys have only one order. -/
theorem sortByKey_eq_of_perm {items items' : List Item} (h : items.Perm items')
    (hkeys : (items.map key).Nodup) : sortByKey items = sortByKey items' := by
  have hperm : (sortByKey items).Perm (sortByKey items') :=
    ((sortByKey_perm items).trans h).trans (sortByKey_perm items').symm
  -- Items that could stand in either order have one key, and so are one item.
  apply List.Perm.eq_of_pairwise _ (pairwise_sortByKey items) (pairwise_sortByKey items') hperm
  intro a b ha hb hab hba
  simp only [keyLe, decide_eq_true_eq] at hab hba
  have hmem : a ∈ items := (sortByKey_perm items).mem_iff.mp ha
  have hmem' : b ∈ items := h.mem_iff.mpr ((sortByKey_perm items').mem_iff.mp hb)
  exact List.inj_on_of_nodup_map hkeys hmem hmem' (List.le_antisymm hab hba)

/-! ### Sorted trees -/

/-- A container with other items in it, and the payload that belongs to them. -/
def withChildren (item : Item) (children : List Item) : Item :=
  { item with
    data := LittleEndian.encode countWidth children.length ++ children.flatMap wire
    children := children }

/-- A container keeps its tag and its name, and nothing else. -/
theorem withChildren_eq {item item' : Item} (htag : item.tag = item'.tag)
    (hname : item.name = item'.name) (children : List Item) :
    item.withChildren children = item'.withChildren children := by
  unfold withChildren
  rw [htag, hname]

mutual

/-- An item with the members of all objects in it in the order of their keys. -/
def sorted : Item → Item
  | ⟨tag, name, data, children⟩ =>
    match ItemType.ofTag? tag with
    | some .object => withChildren ⟨tag, name, data, children⟩ (sortByKey (sortedAll children))
    | some .array => withChildren ⟨tag, name, data, children⟩ (sortedAll children)
    | some (.scalar _) | none => ⟨tag, name, data, children⟩

/-- Items with the members of all objects in each of them in order. -/
def sortedAll : List Item → List Item
  | [] => []
  | item :: rest => sorted item :: sortedAll rest

end

theorem sorted_of_object {item : Item} (h : item.itemType? = some .object) :
    item.sorted = item.withChildren (sortByKey (sortedAll item.children)) := by
  obtain ⟨tag, name, data, children⟩ := item
  change ItemType.ofTag? tag = _ at h
  rw [sorted, h]

theorem sorted_of_array {item : Item} (h : item.itemType? = some .array) :
    item.sorted = item.withChildren (sortedAll item.children) := by
  obtain ⟨tag, name, data, children⟩ := item
  change ItemType.ofTag? tag = _ at h
  rw [sorted, h]

theorem sortedAll_eq_map (items : List Item) : sortedAll items = items.map sorted := by
  induction items with
  | nil => rfl
  | cons item rest ih => rw [sortedAll, ih, List.map_cons]

/-- The name of an item stays, whatever happens below. -/
@[simp] theorem key_sorted (item : Item) : item.sorted.key = item.key := by
  obtain ⟨tag, name, data, children⟩ := item
  rw [sorted]
  split
  · rfl
  · rfl
  · rfl
  · rfl

theorem map_key_sortedAll (items : List Item) : (sortedAll items).map key = items.map key := by
  rw [sortedAll_eq_map, List.map_map]
  exact List.map_congr_left fun item _ => key_sorted item

/-! ### What sorting does not change -/

/-- Items are valid and can be put into a container in place of others, so that the container
    stays as long and as deep. -/
structure Replaces (items' items : List Item) : Prop where
  validAll : ValidAll items'
  length_eq : items'.length = items.length
  length_wire_eq : (items'.flatMap wire).length = (items.flatMap wire).length
  nesting_eq : nestingOfChildren items' = nestingOfChildren items

theorem Replaces.trans {items items' items'' : List Item} (h : Replaces items'' items')
    (h' : Replaces items' items) : Replaces items'' items where
  validAll := h.validAll
  length_eq := h.length_eq.trans h'.length_eq
  length_wire_eq := h.length_wire_eq.trans h'.length_wire_eq
  nesting_eq := h.nesting_eq.trans h'.nesting_eq

theorem nestingOfChildren_le_of_subset {items items' : List Item} (h : items ⊆ items') :
    nestingOfChildren items ≤ nestingOfChildren items' := by
  rw [nestingOfChildren_le_iff]
  intro item hitem
  exact nestingOfChildren_le_iff.mp (Nat.le_refl _) item (h hitem)

theorem Replaces.of_perm {items items' : List Item} (hvalid : ValidAll items)
    (h : items'.Perm items) : Replaces items' items where
  validAll := by
    rw [validAll_iff] at hvalid ⊢
    intro item hitem
    exact hvalid item (h.mem_iff.mp hitem)
  length_eq := h.length_eq
  length_wire_eq := (h.flatMap_right wire).length_eq
  nesting_eq := Nat.le_antisymm (nestingOfChildren_le_of_subset h.subset)
    (nestingOfChildren_le_of_subset h.symm.subset)

/-- A valid container stays valid, as long and as deep when what it holds is replaced. -/
theorem withChildren_keeps {item : Item} {children : List Item} (hvalid : item.Valid)
    (hcontainer : item.IsContainer) (h : Replaces children item.children) :
    (item.withChildren children).Valid ∧
      (item.withChildren children).wire.length = item.wire.length ∧
      (item.withChildren children).nesting = item.nesting := by
  obtain ⟨hdata, -⟩ := hvalid.body hcontainer
  -- Only the payload is another one, and it is as long.
  have hlength : (item.withChildren children).data.length = item.data.length := by
    rw [hdata, List.length_append, LittleEndian.length_encode, ← h.length_wire_eq]
    exact List.length_append.trans (congrArg (· + _) (LittleEndian.length_encode _ _))
  have hcontainer' : (item.withChildren children).IsContainer := hcontainer.of_tag_eq rfl
  refine ⟨?_, ?_, ?_⟩
  · refine valid_of_isContainer hcontainer' hvalid.length_name_lt ?_ rfl h.validAll
    rw [hlength]
    exact hvalid.lengthFits
  · rw [length_wire, length_wire, wireSize, wireSize, hlength]
    rfl
  · rw [nesting_of_isContainer hcontainer', nesting_of_isContainer hcontainer]
    exact congrArg (· + 1) h.nesting_eq

mutual

/-- A valid item stays valid, as long and as deep when the members of the objects in it are
    put in order. -/
theorem sorted_keeps : ∀ {item : Item}, item.Valid →
    item.sorted.Valid ∧ item.sorted.wire.length = item.wire.length ∧
      item.sorted.nesting = item.nesting
  | ⟨tag, name, data, children⟩, h => by
    rw [sorted]
    split
    · next htype =>
      have hcontainer : IsContainer ⟨tag, name, data, children⟩ := ⟨.object, htype, rfl⟩
      have hbelow := sortedAll_replaces (h.body hcontainer).2
      exact withChildren_keeps h hcontainer
        ((Replaces.of_perm hbelow.validAll (sortByKey_perm _)).trans hbelow)
    · next htype =>
      have hcontainer : IsContainer ⟨tag, name, data, children⟩ := ⟨.array, htype, rfl⟩
      exact withChildren_keeps h hcontainer (sortedAll_replaces (h.body hcontainer).2)
    · exact ⟨h, rfl, rfl⟩
    · exact ⟨h, rfl, rfl⟩

theorem sortedAll_replaces : ∀ {items : List Item}, ValidAll items →
    Replaces (sortedAll items) items
  | [], _ => ⟨trivial, rfl, rfl, rfl⟩
  | item :: rest, h => by
    obtain ⟨hvalid, hlength, hnesting⟩ := sorted_keeps h.1
    have hrest := sortedAll_replaces h.2
    refine ⟨⟨hvalid, hrest.validAll⟩, ?_, ?_, ?_⟩
    · rw [sortedAll, List.length_cons, hrest.length_eq, List.length_cons]
    · rw [sortedAll, List.flatMap_cons, List.flatMap_cons, List.length_append, List.length_append,
        hlength, hrest.length_wire_eq]
    · rw [sortedAll, nestingOfChildren, nestingOfChildren, hnesting, hrest.nesting_eq]

end

/-- What is read from a pack is read again from the pack with its members in order. -/
theorem read_sorted {depth size : Nat} {buffer : Bytes} {root : Item}
    (h : read depth buffer 0 = .ok (root, size)) :
    read depth root.sorted.wire 0 = .ok (root.sorted, size) := by
  obtain ⟨hvalid, hnesting, hsize, -⟩ := (read_eq_ok_iff depth buffer 0 root size).mp h
  obtain ⟨hvalid', hlength, hnesting'⟩ := sorted_keeps hvalid
  refine (read_eq_ok_iff depth root.sorted.wire 0 root.sorted size).mpr ⟨hvalid', ?_, ?_⟩
  · rw [hnesting']
    exact hnesting
  · rw [hsize, Nat.zero_add, ← hlength]
    exact standsIn_wire root.sorted

end Item

end BinaryPack
