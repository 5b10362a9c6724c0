import BinaryPack.Proofs.Item.Binding
import BinaryPack.Proofs.Wire.Form

/-! # Items that carry a value

  Every wire form of a value is the wire form of an item: a valid one, nested as
  deeply as the value, that is bound to the value (`Form.exists_item`). The maps in
  the value must be well formed, since members with one key would be bound to the
  last of them.

  The proof goes along the derivation of the form, from the payloads outwards. The
  elements of an array and the members of a map give lists of items, which are the
  children of the next item.
-/

namespace BinaryPack

namespace Item

/-- An item that carries a value under a name, with the given bytes. -/
structure Carries (item : Item) (name : Bytes) (v : Value) (w : Bytes) : Prop where
  /-- The name stands as it is. -/
  name_eq : item.name = name
  /-- The bytes are those of the item. -/
  wire_eq : item.wire = w
  /-- The item stands for bytes. -/
  valid : item.Valid
  /-- The tag names the type of the value. -/
  type : item.itemType? = some v.type
  /-- The item is nested as deeply as the value. -/
  nesting_eq : item.nesting = v.nesting
  /-- The item is bound to the value. -/
  value : item.bind.result = .ok v

/-- The object that carries a map has its members. -/
theorem Carries.bindObject {item : Item} {name w : Bytes} {members : Members Value}
    (h : item.Carries name (.map members) w) : item.bindObject.result = .ok members := by
  obtain ⟨tag, name', data, children⟩ := item
  have htype : ItemType.ofTag? tag = some .object := h.type
  have hvalue := h.value
  rw [Item.bind, htype, Logged.result_bind_eq_ok_iff] at hvalue
  obtain ⟨held, hheld, hmap⟩ := hvalue
  cases hmap
  exact hheld

end Item

open Item

/-! ### Items of one form -/

theorem exists_item_of_scalar {name payload w : Bytes} {s : Scalar} {tag : UInt8}
    (hname : name.length < 256) (hpayload : Scalar.PayloadForm s payload)
    (htype : ItemType.ofTag? tag = some (.scalar s.type)) (hfits : lengthFits tag payload.length)
    (hwire : ∀ children, wire ⟨tag, name, payload, children⟩ = w) :
    ∃ item : Item, item.Carries name (.scalar s) w := by
  refine ⟨⟨tag, name, payload, []⟩, rfl, hwire [], ⟨hname, hfits, ?_⟩, htype, ?_, ?_⟩
  · rw [htype]
  · rw [nesting, htype]
    rfl
  · rw [Item.bind, htype]
    dsimp only
    rw [Logged.result_ofExcept, Scalar.ofPayload_of_form hpayload]
    rfl

theorem exists_item_of_container {type : ItemType} {name payload w : Bytes} {v : Value}
    {children : List Item} (hname : name.length < 256) (h : SizedForm type name payload w)
    (hcontainer : type.isContainer) (htype : v.type = type)
    (hdata : payload = LittleEndian.encode 4 children.length ++ children.flatMap wire)
    (hvalid : ValidAll children) (hnesting : nestingOfChildren children + 1 = v.nesting)
    (hvalue : ∀ tag, ItemType.ofTag? tag = some type →
      (Item.bind ⟨tag, name, payload, children⟩).result = .ok v) :
    ∃ item : Item, item.Carries name v w := by
  cases type with
  | scalar type => cases hcontainer
  | object | array =>
    obtain ⟨tag, htag, hfits, hwire⟩ := h.exists_tag (by decide)
    refine ⟨⟨tag, name, payload, children⟩, rfl, hwire children, ⟨hname, hfits, ?_⟩,
      htag.trans (congrArg some htype.symm), ?_, hvalue tag htag⟩
    · rw [htag]
      exact ⟨hdata, hvalid⟩
    · rw [nesting, htag]
      exact hnesting

mutual

/-- A form of a value is the wire form of an item that carries it. -/
theorem Form.exists_item {name w : Bytes} : ∀ {v : Value}, Form name v w →
    name.length ≤ 255 → v.Distinct → ∃ item : Item, item.Carries name v w
  | .scalar s, .fixed hwidth hpayload h, hname, _ => by
    obtain ⟨tag, htype, hfits, hwire⟩ :=
      h.exists_tag hwidth (Scalar.length_of_form hpayload hwidth)
    exact exists_item_of_scalar (Nat.lt_succ_of_le hname) hpayload htype hfits hwire
  | .scalar s, .sized hwidth hpayload h, hname, _ => by
    obtain ⟨tag, htype, hfits, hwire⟩ := h.exists_tag (by simpa [ItemType.tag] using hwidth)
    exact exists_item_of_scalar (Nat.lt_succ_of_le hname) hpayload htype hfits hwire
  | .array items, .array hbody h, hname, hdistinct => by
    obtain ⟨children, hlen, hbytes, hvalid, hnesting, hvalues⟩ := hbody.exists_items hdistinct
    refine exists_item_of_container (Nat.lt_succ_of_le hname) h rfl rfl (by rw [hlen, hbytes])
      hvalid (congrArg (· + 1) hnesting) ?_
    intro tag htype
    rw [Item.bind, htype, Logged.result_bind_eq_ok_iff]
    exact ⟨items, hvalues, rfl⟩
  | .map members, .map hbody h, hname, hdistinct => by
    obtain ⟨children, hlen, hbytes, hvalid, hnesting, hvalues⟩ := hbody.exists_items hdistinct.2
    refine exists_item_of_container (Nat.lt_succ_of_le hname) h rfl rfl (by rw [hlen, hbytes])
      hvalid (congrArg (· + 1) hnesting) ?_
    intro tag htype
    rw [Item.bind, htype, Logged.result_bind_eq_ok_iff]
    refine ⟨members, ?_, rfl⟩
    -- Members are put in one by one, and no key overwrites another.
    rw [hvalues]
    exact congrArg Except.ok (Members.ofList_of_distinct hdistinct.1)

theorem ElementForms.exists_items {body : Bytes} : ∀ {values : List Value},
    ElementForms values body → Value.DistinctItems values →
      ∃ items : List Item, items.length = values.length ∧ items.flatMap wire = body ∧
        ValidAll items ∧ nestingOfChildren items = Value.nestingOfItems values ∧
        (bindItems items).result = .ok values
  | [], .nil, _ => ⟨[], rfl, rfl, trivial, rfl, rfl⟩
  | v :: values, .cons hname h hrest, hdistinct => by
    obtain ⟨item, hitem⟩ := h.exists_item hname hdistinct.1
    obtain ⟨items, hlen, hbytes, hvalid, hnesting, hvalues⟩ := hrest.exists_items hdistinct.2
    refine ⟨item :: items, ?_, ?_, ⟨hitem.valid, hvalid⟩, ?_, ?_⟩
    · rw [List.length_cons, hlen, List.length_cons]
    · rw [List.flatMap_cons, hitem.wire_eq, hbytes]
    · rw [nestingOfChildren, hitem.nesting_eq, hnesting, Value.nestingOfItems]
    · rw [bindItems, Logged.result_bind_eq_ok_iff]
      refine ⟨v, hitem.value, ?_⟩
      rw [Logged.result_bind_eq_ok_iff]
      exact ⟨values, hvalues, rfl⟩

theorem MemberForms.exists_items {body : Bytes} : ∀ {members : List (String × Value)},
    MemberForms members body → Value.DistinctMembers members →
      ∃ items : List Item, items.length = members.length ∧ items.flatMap wire = body ∧
        ValidAll items ∧ nestingOfChildren items = Value.nestingOfMembers members ∧
        ∀ held, (bindMembers items held).result = .ok (Members.insertAll held members)
  | [], .nil, _ => ⟨[], rfl, rfl, trivial, rfl, fun _ => rfl⟩
  | (key, v) :: members, .cons hname h hrest, hdistinct => by
    obtain ⟨item, hitem⟩ := h.exists_item hname.length_le hdistinct.1
    obtain ⟨items, hlen, hbytes, hvalid, hnesting, hvalues⟩ := hrest.exists_items hdistinct.2
    have hkey : item.keyText = key := by
      rw [keyText, Item.key, hitem.name_eq, hname.lossy_unterminated]
    refine ⟨item :: items, ?_, ?_, ⟨hitem.valid, hvalid⟩, ?_, fun held => ?_⟩
    · rw [List.length_cons, hlen, List.length_cons]
    · rw [List.flatMap_cons, hitem.wire_eq, hbytes]
    · rw [nestingOfChildren, hitem.nesting_eq, hnesting, Value.nestingOfMembers]
    · rw [bindMembers, Logged.result_bind_eq_ok_iff]
      refine ⟨v, hitem.value, ?_⟩
      rw [Logged.result_bind_eq_ok_iff]
      refine ⟨_, result_addMember held item.keyText v, ?_⟩
      rw [hkey, hvalues]
      rfl

end

end BinaryPack
