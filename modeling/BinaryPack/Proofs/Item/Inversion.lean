import BinaryPack.Proofs.Encoder.Admission
import BinaryPack.Proofs.Item.Place

/-! # What binding keeps

  A value that an item is bound to has its parts from the children of the item: the
  elements of an array from all of them, the members of a map from some, each under the
  text of its name (`Item.bind_cases`). The names of elements are lost, and of children
  with one key all but the last.

  So a value is nested no more deeply than its item, holds no key twice, and has no key
  but those that the names of members stand for. Each is one induction over the item,
  and none looks at binding again.
-/

namespace BinaryPack

/-! ### Parts of a value -/

/-- After an insertion, a member is the one put in or one that was there before. -/
theorem Members.mem_insert {α : Type} {members : Members α} {key : String} {value : α}
    {member : String × α} (h : member ∈ members.insert key value) :
    member = (key, value) ∨ member ∈ members := by
  induction members with
  | nil => exact .inl (List.mem_singleton.mp h)
  | cons first rest ih =>
    obtain ⟨k, held⟩ := first
    rw [Members.insert] at h
    by_cases hsame : k = key
    · rw [if_pos hsame] at h
      exact (List.mem_cons.mp h).imp_right (List.mem_cons_of_mem _)
    · rw [if_neg hsame] at h
      rcases List.mem_cons.mp h with hfirst | hrest
      · exact .inr (hfirst ▸ List.mem_cons_self)
      · exact (ih hrest).imp_right (List.mem_cons_of_mem _)

namespace Value

/-- What holds of a value when it holds of all its parts holds of every value. -/
@[elab_as_elim]
theorem partInduction {motive : Value → Prop} (scalar : ∀ s, motive (.scalar s))
    (array : ∀ items, (∀ v ∈ items, motive v) → motive (.array items))
    (map : ∀ members, (∀ member ∈ members, motive member.2) → motive (.map members))
    (v : Value) : motive v := by
  cases v with
  | scalar s => exact scalar s
  | array items =>
    refine array items fun item hitem => ?_
    have hsize : sizeOf item < sizeOf items := List.sizeOf_lt_of_mem hitem
    exact partInduction scalar array map item
  | map members =>
    refine map members fun member hmember => ?_
    have hsize : sizeOf member.2 < sizeOf members := by
      have hlist : sizeOf member < sizeOf members := List.sizeOf_lt_of_mem hmember
      obtain ⟨key, held⟩ := member
      simp only [Prod.mk.sizeOf_spec] at hlist ⊢
      omega
    exact partInduction scalar array map member.2
termination_by sizeOf v

theorem nestingOfItems_le_iff {items : List Value} {depth : Nat} :
    nestingOfItems items ≤ depth ↔ ∀ v ∈ items, v.nesting ≤ depth := by
  induction items with
  | nil => simp [nestingOfItems]
  | cons v rest ih => rw [nestingOfItems, Nat.max_le, List.forall_mem_cons, ih]

theorem nestingOfMembers_le_iff {members : List (String × Value)} {depth : Nat} :
    nestingOfMembers members ≤ depth ↔ ∀ member ∈ members, member.2.nesting ≤ depth := by
  induction members with
  | nil => simp [nestingOfMembers]
  | cons member rest ih => rw [nestingOfMembers, Nat.max_le, List.forall_mem_cons, ih]

theorem distinctItems_iff {items : List Value} :
    DistinctItems items ↔ ∀ v ∈ items, v.Distinct := by
  induction items with
  | nil => simp [DistinctItems]
  | cons v rest ih => rw [DistinctItems, List.forall_mem_cons, ih]

theorem distinctMembers_iff {members : List (String × Value)} :
    DistinctMembers members ↔ ∀ member ∈ members, member.2.Distinct := by
  induction members with
  | nil => simp [DistinctMembers]
  | cons member rest ih => rw [DistinctMembers, List.forall_mem_cons, ih]

theorem mem_allKeysOfItems_iff {items : List Value} {key : String} :
    key ∈ allKeysOfItems items ↔ ∃ v ∈ items, key ∈ v.allKeys := by
  induction items with
  | nil => simp [allKeysOfItems]
  | cons v rest ih => simp [allKeysOfItems, ih]

theorem mem_allKeysOfMembers_iff {members : List (String × Value)} {key : String} :
    key ∈ allKeysOfMembers members ↔
      ∃ member ∈ members, key = member.1 ∨ key ∈ member.2.allKeys := by
  induction members with
  | nil => simp [allKeysOfMembers]
  | cons member rest ih =>
    obtain ⟨k, v⟩ := member
    simp [allKeysOfMembers, ih, or_assoc]

end Value

namespace Item

/-! ### Parts of an item -/

/-- What holds of an item when it holds of all its children holds of every item. -/
@[elab_as_elim]
theorem childInduction {motive : Item → Prop}
    (node : ∀ item, (∀ child ∈ item.children, motive child) → motive item) (item : Item) :
    motive item :=
  node item fun child hchild =>
    have hsize : sizeOf child < sizeOf item := by
      obtain ⟨tag, name, data, children⟩ := item
      have hlist : sizeOf child < sizeOf children := List.sizeOf_lt_of_mem hchild
      simp only [mk.sizeOf_spec]
      omega
    childInduction node child
termination_by sizeOf item

theorem subitemsOfChildren_eq_flatMap (items : List Item) :
    subitemsOfChildren items = items.flatMap subitems := by
  induction items with
  | nil => rfl
  | cons item rest ih => rw [subitemsOfChildren, List.flatMap_cons, ih]

/-- The items of a tree are its root and the items below the children. -/
theorem subitems_eq (item : Item) : item.subitems = item :: item.children.flatMap subitems := by
  obtain ⟨tag, name, data, children⟩ := item
  rw [subitems, subitemsOfChildren_eq_flatMap]

theorem mem_subitems_iff {item sub : Item} :
    sub ∈ item.subitems ↔ sub = item ∨ ∃ child ∈ item.children, sub ∈ child.subitems := by
  rw [subitems_eq, List.mem_cons, List.mem_flatMap]

/-- The children of a valid item are valid: a scalar has none. -/
theorem Valid.child {item child : Item} (h : item.Valid) (hchild : child ∈ item.children) :
    child.Valid := by
  rcases h.cases with ⟨-, hnone⟩ | ⟨-, -, hall⟩
  · rw [hnone] at hchild
    cases hchild
  · exact validAll_iff.mp hall child hchild

theorem Valid.subitem {item sub : Item} (h : item.Valid) (hsub : sub ∈ item.subitems) :
    sub.Valid := by
  induction item using childInduction with
  | node item ih =>
    rcases mem_subitems_iff.mp hsub with rfl | ⟨child, hchild, hsub'⟩
    · exact h
    · exact ih child hchild (h.child hchild) hsub'

/-- A name under which an object in the item, at some depth, has a member. -/
def HasMemberName (item : Item) (name : Bytes) : Prop :=
  ∃ object ∈ item.subitems, object.itemType? = some .object ∧
    ∃ member ∈ object.children, member.name = name

theorem HasMemberName.of_child {item child : Item} {name : Bytes}
    (h : child.HasMemberName name) (hchild : child ∈ item.children) :
    item.HasMemberName name := by
  obtain ⟨object, hobject, hmember⟩ := h
  exact ⟨object, mem_subitems_iff.mpr (.inr ⟨child, hchild, hobject⟩), hmember⟩

theorem hasMemberName_of_object {item member : Item} (htype : item.itemType? = some .object)
    (hmember : member ∈ item.children) : item.HasMemberName member.name :=
  ⟨item, mem_subitems_iff.mpr (.inl rfl), htype, member, hmember, rfl⟩

/-- The names of members in a valid item are no longer than one byte tells. -/
theorem HasMemberName.length_lt {item : Item} {name : Bytes} (h : item.HasMemberName name)
    (hvalid : item.Valid) : name.length < 256 := by
  obtain ⟨object, hobject, -, member, hmember, rfl⟩ := h
  exact ((hvalid.subitem hobject).child hmember).length_name_lt

/-! ### Binding taken apart -/

/-- Every element of an array is the value of a child. -/
theorem exists_of_mem_bindItems {items : List Item} {values : List Value}
    (h : (bindItems items).result = .ok values) :
    ∀ v ∈ values, ∃ item ∈ items, item.bind.result = .ok v := by
  induction items generalizing values with
  | nil =>
    rw [bindItems, Logged.result_pure] at h
    cases h
    simp
  | cons item rest ih =>
    simp only [bindItems, Logged.result_bind_eq_ok_iff] at h
    obtain ⟨v, hv, values, hvalues, hpure⟩ := h
    cases hpure
    intro v' hv'
    rcases List.mem_cons.mp hv' with rfl | hrest
    · exact ⟨item, List.mem_cons_self, hv⟩
    · obtain ⟨item', hitem', hbind⟩ := ih hvalues v' hrest
      exact ⟨item', List.mem_cons_of_mem _ hitem', hbind⟩

/-- Members are added one by one to those that are held, which keeps the keys distinct. A
    member is one that was held, or the value of a child under the text of its name. -/
theorem bindMembers_cases {items : List Item} {held members : Members Value}
    (h : (bindMembers items held).result = .ok members) :
    (held.Distinct → members.Distinct) ∧
      ∀ member ∈ members, member ∈ held ∨
        ∃ item ∈ items, member.1 = item.keyText ∧ item.bind.result = .ok member.2 := by
  induction items generalizing held with
  | nil =>
    rw [bindMembers, Logged.result_pure] at h
    cases h
    exact ⟨id, fun _ => .inl⟩
  | cons item rest ih =>
    simp only [bindMembers, Logged.result_bind_eq_ok_iff, result_addMember] at h
    obtain ⟨v, hv, held', hheld, hrest⟩ := h
    cases hheld
    obtain ⟨hdistinct, hmembers⟩ := ih hrest
    refine ⟨fun hheld => hdistinct (hheld.insert _ _), ?_⟩
    intro member hmember
    rcases hmembers member hmember with hinsert | ⟨item', hitem', hbind⟩
    · -- The child that was bound first is now among the members that are held.
      rcases Members.mem_insert hinsert with rfl | hheld
      · exact .inr ⟨item, List.mem_cons_self, rfl, hv⟩
      · exact .inl hheld
    · exact .inr ⟨item', List.mem_cons_of_mem _ hitem', hbind⟩

/-- An item is bound to a scalar; or to an array whose elements are values of its children;
    or to a map whose members are values of its children, each under the text of its name
    and no two under one key. -/
theorem bind_cases {item : Item} {v : Value} (h : item.bind.result = .ok v) :
    (∃ s, v = .scalar s) ∨
    (item.itemType? = some .array ∧ ∃ values, v = .array values ∧
      ∀ w ∈ values, ∃ child ∈ item.children, child.bind.result = .ok w) ∨
    (item.itemType? = some .object ∧ ∃ members, v = .map members ∧ Members.Distinct members ∧
      ∀ member ∈ members, ∃ child ∈ item.children,
        member.1 = child.keyText ∧ child.bind.result = .ok member.2) := by
  obtain ⟨tag, name, data, children⟩ := item
  unfold bind at h
  split at h
  · cases h
  · next htype =>
    rw [Logged.result_bind_eq_ok_iff] at h
    obtain ⟨members, hmembers, hpure⟩ := h
    cases hpure
    obtain ⟨hdistinct, hvalues⟩ := bindMembers_cases hmembers
    right
    right
    refine ⟨htype, members, rfl, hdistinct List.nodup_nil, ?_⟩
    -- No member was held before the first child.
    intro member hmember
    exact (hvalues member hmember).resolve_left List.not_mem_nil
  · next htype =>
    rw [Logged.result_bind_eq_ok_iff] at h
    obtain ⟨values, hvalues, hpure⟩ := h
    cases hpure
    exact .inr (.inl ⟨htype, values, rfl, exists_of_mem_bindItems hvalues⟩)
  · next type htype =>
    left
    rw [Logged.result_ofExcept] at h
    cases hs : Scalar.ofPayload type data with
    | error cause =>
      rw [hs] at h
      cases h
    | ok s =>
      rw [hs] at h
      cases h
      exact ⟨s, rfl⟩

/-- The members of an object are its value. -/
theorem bind_of_bindObject {item : Item} {members : Members Value}
    (htype : item.itemType? = some .object) (h : item.bindObject.result = .ok members) :
    item.bind.result = .ok (.map members) := by
  obtain ⟨tag, name, data, children⟩ := item
  unfold itemType? at htype
  rw [bind, htype, Logged.result_bind_eq_ok_iff]
  exact ⟨members, h, rfl⟩

/-! ### What a value has from its item -/

theorem nesting_le_of_mem_children {item child : Item} (hchild : child ∈ item.children) :
    child.nesting ≤ nestingOfChildren item.children :=
  nestingOfChildren_le_iff.mp (Nat.le_refl _) child hchild

/-- A value is nested no more deeply than the item it is bound from. A child that is lost may
    have been the deepest one. -/
theorem nesting_le_of_bind {item : Item} {v : Value} (h : item.bind.result = .ok v) :
    v.nesting ≤ item.nesting := by
  induction item using childInduction generalizing v with
  | node item ih =>
    rcases bind_cases h with ⟨s, rfl⟩ | ⟨htype, values, rfl, hvalues⟩ |
      ⟨htype, members, rfl, -, hmembers⟩
    · exact Nat.zero_le _
    · rw [Value.nesting, nesting_of_isContainer ⟨.array, htype, rfl⟩]
      apply Nat.succ_le_succ
      apply Value.nestingOfItems_le_iff.mpr
      intro w hw
      obtain ⟨child, hchild, hbind⟩ := hvalues w hw
      exact Nat.le_trans (ih child hchild hbind) (nesting_le_of_mem_children hchild)
    · rw [Value.nesting, nesting_of_isContainer ⟨.object, htype, rfl⟩]
      apply Nat.succ_le_succ
      apply Value.nestingOfMembers_le_iff.mpr
      intro member hmember
      obtain ⟨child, hchild, -, hbind⟩ := hmembers member hmember
      exact Nat.le_trans (ih child hchild hbind) (nesting_le_of_mem_children hchild)

/-- No map in a value that is bound holds a key twice, whatever names the item has. -/
theorem distinct_of_bind {item : Item} {v : Value} (h : item.bind.result = .ok v) :
    v.Distinct := by
  induction item using childInduction generalizing v with
  | node item ih =>
    rcases bind_cases h with ⟨s, rfl⟩ | ⟨-, values, rfl, hvalues⟩ |
      ⟨-, members, rfl, hdistinct, hmembers⟩
    · trivial
    · apply Value.distinctItems_iff.mpr
      intro w hw
      obtain ⟨child, hchild, hbind⟩ := hvalues w hw
      exact ih child hchild hbind
    · refine ⟨hdistinct, Value.distinctMembers_iff.mpr ?_⟩
      intro member hmember
      obtain ⟨child, hchild, -, hbind⟩ := hmembers member hmember
      exact ih child hchild hbind

/-- Every key in a value that is bound is the text of the name of a member: the name without
    its terminator, with U+FFFD for whatever is malformed. -/
theorem exists_name_of_mem_allKeys {item : Item} {v : Value} {key : String}
    (h : item.bind.result = .ok v) (hkey : key ∈ v.allKeys) :
    ∃ name, item.HasMemberName name ∧ key = Utf8.lossy (unterminated name) := by
  induction item using childInduction generalizing v with
  | node item ih =>
    -- A key that is found below a child comes from a name below that child.
    have hbelow : ∀ {child w}, child ∈ item.children → child.bind.result = .ok w →
        key ∈ w.allKeys → ∃ name, item.HasMemberName name ∧
          key = Utf8.lossy (unterminated name) := by
      intro child w hchild hbind hkey'
      obtain ⟨name, hname, htext⟩ := ih child hchild hbind hkey'
      exact ⟨name, hname.of_child hchild, htext⟩
    rcases bind_cases h with ⟨s, rfl⟩ | ⟨-, values, rfl, hvalues⟩ |
      ⟨htype, members, rfl, -, hmembers⟩
    · cases hkey
    · obtain ⟨w, hw, hkey'⟩ := Value.mem_allKeysOfItems_iff.mp hkey
      obtain ⟨child, hchild, hbind⟩ := hvalues w hw
      exact hbelow hchild hbind hkey'
    · obtain ⟨member, hmember, hkey'⟩ := Value.mem_allKeysOfMembers_iff.mp hkey
      obtain ⟨child, hchild, htext, hbind⟩ := hmembers member hmember
      rcases hkey' with hown | hkey'
      · exact ⟨child.name, hasMemberName_of_object htype hchild, hown.trans htext⟩
      · exact hbelow hchild hbind hkey'

end Item

end BinaryPack
