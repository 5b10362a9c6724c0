import BinaryPack.Proofs.Item.Inversion
import Mathlib.Data.Finset.Card

/-! # Members that are lost

  Of the children of an object that have one key, only the last becomes a member of the map.
  Each time a child takes the place of an earlier one, binding reports the type of the child
  that is lost. `Item.lost` lists these events for a whole tree without binding anything: it
  goes by keys and tags alone. Where an item has a value, binding reports just this
  (`Item.events_bind`).

  The number of events at one object is the number of its children less the number of
  their keys, and the events of a tree are those of all objects in it
  (`Item.length_lost`).
-/

namespace BinaryPack

/-! ### Types of values -/

/-- The short name of the type of a value, told from the type of its item. -/
def ItemType.valueName : ItemType → String
  | .object => "map"
  | .array => "array"
  | .scalar .null => "null"
  | .scalar .bool => "bool"
  | .scalar .int8 => "int8"
  | .scalar .int16 => "int16"
  | .scalar .int32 => "int32"
  | .scalar .int64 => "int64"
  | .scalar .uint8 => "uint8"
  | .scalar .uint16 => "uint16"
  | .scalar .uint32 => "uint32"
  | .scalar .uint64 => "uint64"
  | .scalar .float32 => "float32"
  | .scalar .float64 => "float64"
  | .scalar .string => "string"
  | .scalar .raw => "raw"

theorem Value.typeName_eq (v : Value) : v.typeName = v.type.valueName := by
  cases v with
  | scalar s => cases s <;> rfl
  | array items => rfl
  | map members => rfl

/-- A payload is read as a scalar of the type that is asked for. -/
theorem Scalar.type_of_ofPayload {type : ScalarType} {data : Bytes} {s : Scalar}
    (h : ofPayload type data = .ok s) : s.type = type := by
  unfold ofPayload at h
  cases type with
  | null | bool | string | raw =>
    cases h
    rfl
  | int8 | int16 | int32 | int64 | uint8 | uint16 | uint32 | uint64 | float32 | float64 =>
    obtain ⟨n, -, rfl⟩ := map_eq_ok_iff.mp h
    rfl

namespace Item

/-- A value is of the type that the tag of its item names. -/
theorem itemType?_of_bind {item : Item} {v : Value} (h : item.bind.result = .ok v) :
    item.itemType? = some v.type := by
  obtain ⟨tag, name, data, children⟩ := item
  unfold bind at h
  show ItemType.ofTag? tag = _
  split at h
  · cases h
  · next htype =>
    obtain ⟨members, -, hpure⟩ := Logged.result_bind_eq_ok_iff.mp h
    cases hpure
    exact htype
  · next htype =>
    obtain ⟨values, -, hpure⟩ := Logged.result_bind_eq_ok_iff.mp h
    cases hpure
    exact htype
  · next type htype =>
    rw [Logged.result_ofExcept] at h
    cases hs : Scalar.ofPayload type data with
    | error cause =>
      rw [hs] at h
      cases h
    | ok s =>
      rw [hs] at h
      cases h
      rw [htype, Value.type, Scalar.type_of_ofPayload hs]

/-! ### The events of a tree -/

/-- The nearest of the earlier siblings with a key; they stand with the nearest first. -/
def sibling? (earlier : List Item) (key : String) : Option Item :=
  earlier.find? fun other => other.keyText = key

/-- The loss of an earlier sibling with the key of an item, if there is one. -/
def loss (earlier : List Item) (item : Item) : List Event :=
  match (sibling? earlier item.keyText).bind itemType? with
  | some type => [.duplicateKey item.keyText type.valueName]
  | none => []

mutual

/-- The losses in an item, at any depth. -/
def lost : Item → List Event
  | ⟨tag, _, _, children⟩ =>
    match ItemType.ofTag? tag with
    | some .object => lostAmong [] children
    | some .array => lostBelow children
    | _ => []

/-- The losses in the elements of an array. -/
def lostBelow : List Item → List Event
  | [] => []
  | item :: rest => lost item ++ lostBelow rest

/-- The losses among the children of an object after those that stand before them. What is
    lost in a child comes before the loss that the child itself brings about. -/
def lostAmong : (earlier : List Item) → List Item → List Event
  | _, [] => []
  | earlier, item :: rest => lost item ++ loss earlier item ++ lostAmong (item :: earlier) rest

end

/-! ### Losses that binding reports -/

/-- The members held so far are those of some children, each of the type of the nearest
    child with its key. -/
def HeldFrom (held : Members Value) (earlier : List Item) : Prop :=
  ∀ key, (held.find? key).map Value.type = (sibling? earlier key).bind itemType?

theorem heldFrom_nil : HeldFrom [] [] := by
  intro key
  rfl

theorem HeldFrom.insert {held : Members Value} {earlier : List Item} (h : HeldFrom held earlier)
    {item : Item} {v : Value} (hbind : item.bind.result = .ok v) :
    HeldFrom (held.insert item.keyText v) (item :: earlier) := by
  intro key
  by_cases hkey : item.keyText = key
  · have hnearest : sibling? (item :: earlier) key = some item := by
      simp [sibling?, hkey]
    rw [hnearest, ← hkey, Members.find?_insert_self]
    exact (itemType?_of_bind hbind).symm
  · have hfurther : sibling? (item :: earlier) key = sibling? earlier key := by
      simp [sibling?, hkey]
    rw [hfurther, Members.find?_insert_ne _ _ (Ne.symm hkey)]
    exact h key

/-- Putting a child into the members reports the loss of its nearest earlier sibling. -/
theorem HeldFrom.events_addMember {held : Members Value} {earlier : List Item}
    (h : HeldFrom held earlier) (item : Item) (v : Value) :
    (addMember held item.keyText v).events = loss earlier item := by
  have hkey := h item.keyText
  unfold addMember loss
  rw [← hkey]
  cases held.find? item.keyText with
  | none => rfl
  | some previous =>
    show [Event.duplicateKey item.keyText previous.typeName] = _
    rw [Value.typeName_eq]
    rfl

mutual

/-- Where an item has a value, binding reports the losses in it, and no more. -/
theorem events_bind : ∀ {item : Item} {v : Value}, item.bind.result = .ok v →
    item.bind.events = item.lost
  | ⟨tag, name, data, children⟩, v, h => by
    unfold bind at h ⊢
    unfold lost
    split at h
    · cases h
    · next htype =>
      obtain ⟨members, hmembers, -⟩ := Logged.result_bind_eq_ok_iff.mp h
      rw [htype, Logged.bind_of_ok hmembers]
      simpa using events_bindMembers hmembers heldFrom_nil
    · next htype =>
      obtain ⟨values, hvalues, -⟩ := Logged.result_bind_eq_ok_iff.mp h
      rw [htype, Logged.bind_of_ok hvalues]
      simpa using events_bindItems hvalues
    · next type htype =>
      rw [htype, Logged.events_ofExcept]

theorem events_bindItems : ∀ {items : List Item} {values : List Value},
    (bindItems items).result = .ok values → (bindItems items).events = lostBelow items
  | [], _, _ => rfl
  | item :: rest, values, h => by
    rw [bindItems] at h ⊢
    obtain ⟨v, hv, h⟩ := Logged.result_bind_eq_ok_iff.mp h
    obtain ⟨values, hvalues, -⟩ := Logged.result_bind_eq_ok_iff.mp h
    have hitem := events_bind hv
    have hrest := events_bindItems hvalues
    rw [Logged.bind_of_ok hv, Logged.bind_of_ok hvalues, lostBelow, hitem, hrest]
    simp

theorem events_bindMembers : ∀ {items earlier : List Item} {held members : Members Value},
    (bindMembers items held).result = .ok members → HeldFrom held earlier →
      (bindMembers items held).events = lostAmong earlier items
  | [], _, _, _, _, _ => rfl
  | item :: rest, earlier, held, members, h, hheld => by
    rw [bindMembers] at h ⊢
    obtain ⟨v, hv, h⟩ := Logged.result_bind_eq_ok_iff.mp h
    obtain ⟨held', hadd, h⟩ := Logged.result_bind_eq_ok_iff.mp h
    have hitem := events_bind hv
    have hloss := hheld.events_addMember item v
    have hinsert : held' = held.insert item.keyText v := by
      rw [result_addMember] at hadd
      cases hadd
      rfl
    rw [Logged.bind_of_ok hv, Logged.bind_of_ok hadd, lostAmong, hitem, hloss]
    rw [hinsert] at h ⊢
    -- The child is now the nearest one for those that follow.
    rw [events_bindMembers h (hheld.insert hv), List.append_assoc]

end

/-- The members of an object are bound with the losses in the object. -/
theorem events_bindObject {item : Item} {members : Members Value}
    (htype : item.itemType? = some .object) (h : item.bindObject.result = .ok members) :
    item.bindObject.events = item.lost := by
  obtain ⟨tag, name, data, children⟩ := item
  have hobject : ItemType.ofTag? tag = some .object := htype
  unfold lost
  rw [hobject]
  exact events_bindMembers h heldFrom_nil

/-! ### How many are lost -/

/-- The keys of some children. -/
def keyTexts (items : List Item) : Finset String :=
  (items.map keyText).toFinset

@[simp] theorem keyTexts_nil : keyTexts [] = ∅ := rfl

theorem card_keyTexts_le (items : List Item) : (keyTexts items).card ≤ items.length := by
  have hcard := List.toFinset_card_le (items.map keyText)
  rwa [List.length_map] at hcard

/-- The children of an object less their keys. -/
def surplus (object : Item) : Nat :=
  object.children.length - (keyTexts object.children).card

/-- The children of all objects among some items, less the keys of each object. -/
def surplusOf : List Item → Nat
  | [] => 0
  | item :: rest =>
    if item.itemType? = some .object then surplus item + surplusOf rest else surplusOf rest

theorem surplusOf_cons_object {item : Item} (h : item.itemType? = some .object)
    (items : List Item) : surplusOf (item :: items) = surplus item + surplusOf items :=
  if_pos h

theorem surplusOf_cons_other {item : Item} (h : item.itemType? ≠ some .object)
    (items : List Item) : surplusOf (item :: items) = surplusOf items :=
  if_neg h

theorem surplusOf_append (items items' : List Item) :
    surplusOf (items ++ items') = surplusOf items + surplusOf items' := by
  induction items with
  | nil => exact (Nat.zero_add _).symm
  | cons item rest ih =>
    rw [List.cons_append]
    by_cases hobject : item.itemType? = some .object
    · rw [surplusOf_cons_object hobject, surplusOf_cons_object hobject, ih, Nat.add_assoc]
    · rw [surplusOf_cons_other hobject, surplusOf_cons_other hobject, ih]

/-- A child brings about a loss if it has the key of an earlier one, and a new key if not. -/
theorem length_loss {earlier : List Item} (hvalid : ∀ other ∈ earlier, other.Valid)
    (item : Item) : (loss earlier item).length + (keyTexts (item :: earlier)).card
      = (keyTexts earlier).card + 1 := by
  have hkeys : keyTexts (item :: earlier) = insert item.keyText (keyTexts earlier) := by
    simp [keyTexts]
  rw [hkeys]
  unfold loss
  cases hsibling : sibling? earlier item.keyText with
  | none =>
    have hnew : item.keyText ∉ keyTexts earlier := by
      simpa [sibling?, keyTexts] using hsibling
    rw [Finset.card_insert_of_notMem hnew]
    simp
  | some other =>
    have hother : other ∈ earlier := List.mem_of_find?_eq_some hsibling
    have hsame : other.keyText = item.keyText := by
      simpa using List.find?_some hsibling
    have hold : item.keyText ∈ keyTexts earlier := by
      rw [← hsame]
      simpa [keyTexts] using ⟨other, hother, rfl⟩
    -- A sibling from a reader always has a type.
    obtain ⟨type, htype⟩ : ∃ type, other.itemType? = some type := by
      rcases (hvalid other hother).cases with ⟨⟨type, h⟩, -⟩ | ⟨⟨type, h, -⟩, -⟩
      · exact ⟨_, h⟩
      · exact ⟨_, h⟩
    rw [Finset.insert_eq_of_mem hold]
    simp [htype, Nat.add_comm]

mutual

/-- In an item that stands for bytes, as many members are lost as all objects have children
    more than keys. -/
theorem length_lost : ∀ {item : Item}, item.Valid → item.lost.length = surplusOf item.subitems
  | ⟨tag, name, data, children⟩, h => by
    have hchildren : ValidAll children :=
      validAll_iff.mpr fun child hchild => h.child hchild
    unfold lost
    rw [subitems]
    cases htype : ItemType.ofTag? tag with
    | none =>
      obtain ⟨-, -, hbody⟩ := h
      rw [htype] at hbody
      exact hbody.elim
    | some type =>
      cases type with
      | object =>
        have hroot : (⟨tag, name, data, children⟩ : Item).itemType? = some .object := htype
        have hcount := length_lostAmong [] hchildren (by simp)
        have hcard := card_keyTexts_le children
        rw [surplusOf_cons_object hroot, surplus]
        simp only [List.append_nil, keyTexts_nil, Finset.card_empty] at hcount
        show (lostAmong [] children).length
          = children.length - (keyTexts children).card + surplusOf (subitemsOfChildren children)
        omega
      | array =>
        rw [surplusOf_cons_other (by simp [itemType?, htype])]
        exact length_lostBelow hchildren
      | scalar type =>
        obtain ⟨-, -, hbody⟩ := h
        rw [htype] at hbody
        have hnone : children = [] := hbody
        rw [surplusOf_cons_other (by simp [itemType?, htype]), hnone]
        rfl

theorem length_lostBelow : ∀ {items : List Item}, ValidAll items →
    (lostBelow items).length = surplusOf (subitemsOfChildren items)
  | [], _ => rfl
  | item :: rest, h => by
    rw [lostBelow, subitemsOfChildren, List.length_append, surplusOf_append,
      length_lost h.1, length_lostBelow h.2]

theorem length_lostAmong : ∀ {items : List Item} (earlier : List Item), ValidAll items →
    (∀ other ∈ earlier, other.Valid) →
      (lostAmong earlier items).length + (keyTexts (items ++ earlier)).card
        = (keyTexts earlier).card + items.length + surplusOf (subitemsOfChildren items)
  | [], earlier, _, _ => by
    simp [lostAmong, surplusOf, subitemsOfChildren]
  | item :: rest, earlier, h, hearlier => by
    have hitem := length_lost h.1
    have hloss := length_loss hearlier item
    have hrest := length_lostAmong (item :: earlier) h.2
      (List.forall_mem_cons.mpr ⟨h.1, hearlier⟩)
    have hkeys : keyTexts (item :: rest ++ earlier) = keyTexts (rest ++ item :: earlier) :=
      List.toFinset_eq_of_perm _ _ (List.perm_middle.symm.map keyText)
    rw [lostAmong, subitemsOfChildren, surplusOf_append, hkeys]
    simp only [List.length_append, List.length_cons]
    omega

end

end Item

end BinaryPack
