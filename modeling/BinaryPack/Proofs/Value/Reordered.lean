import BinaryPack.Proofs.Value.Members
import BinaryPack.Value.Basic

/-! # Values up to the order of members

  A map has no order of its own, but every list of its members has one. Two values
  that differ in nothing but the order of the members, in maps at any depth, stand
  for the same value (`Value.Reordered`). Such values are nested alike, and one is
  well formed just when the other is.

  Members are reordered by steps: one key after the other with its value reordered,
  or two neighbours changing places.
-/

namespace BinaryPack

namespace Value

mutual

/-- Values that differ at most in the order of the members of maps. -/
inductive Reordered : Value → Value → Prop where
  | scalar (s : Scalar) : Reordered (.scalar s) (.scalar s)
  | array {items items' : List Value} (h : ReorderedItems items items') :
    Reordered (.array items) (.array items')
  | map {members members' : List (String × Value)} (h : ReorderedMembers members members') :
    Reordered (.map members) (.map members')

/-- Items that differ one by one in the order of members. -/
inductive ReorderedItems : List Value → List Value → Prop where
  | nil : ReorderedItems [] []
  | cons {v v' : Value} {items items' : List Value} (h : Reordered v v')
    (hrest : ReorderedItems items items') : ReorderedItems (v :: items) (v' :: items')

/-- Members in another order, and with their values reordered. -/
inductive ReorderedMembers : List (String × Value) → List (String × Value) → Prop where
  | nil : ReorderedMembers [] []
  | cons {key : String} {v v' : Value} {members members' : List (String × Value)}
    (h : Reordered v v') (hrest : ReorderedMembers members members') :
    ReorderedMembers ((key, v) :: members) ((key, v') :: members')
  | swap (member member' : String × Value) (members : List (String × Value)) :
    ReorderedMembers (member :: member' :: members) (member' :: member :: members)
  | trans {members members' members'' : List (String × Value)}
    (h : ReorderedMembers members members') (h' : ReorderedMembers members' members'') :
    ReorderedMembers members members''

end

/-! ### Other orders of a value -/

mutual

theorem Reordered.refl : ∀ v : Value, Reordered v v
  | .scalar s => .scalar s
  | .array items => .array (ReorderedItems.refl items)
  | .map members => .map (ReorderedMembers.refl members)

theorem ReorderedItems.refl : ∀ items : List Value, ReorderedItems items items
  | [] => .nil
  | v :: items => .cons (Reordered.refl v) (ReorderedItems.refl items)

theorem ReorderedMembers.refl : ∀ members : List (String × Value), ReorderedMembers members members
  | [] => .nil
  | (_, v) :: members => .cons (Reordered.refl v) (ReorderedMembers.refl members)

end

/-- Any order of the members will do. -/
theorem ReorderedMembers.of_perm {members members' : List (String × Value)}
    (h : members.Perm members') : ReorderedMembers members members' := by
  induction h with
  | nil => exact .nil
  | cons member _ ih => exact .cons (Reordered.refl member.2) ih
  | swap member member' members => exact .swap member' member members
  | trans _ _ ih ih' => exact .trans ih ih'

mutual

/-- The order by keys is one of the orders of a value. -/
theorem reordered_canonical : ∀ v : Value, Reordered v v.canonical
  | .scalar s => .scalar s
  | .array items => .array (reordered_canonicalItems items)
  | .map members =>
    .map ((reordered_canonicalMembers members).trans
      (.of_perm (Members.sorted_perm (canonicalMembers members)).symm))

theorem reordered_canonicalItems : ∀ items : List Value, ReorderedItems items (canonicalItems items)
  | [] => .nil
  | v :: items => .cons (reordered_canonical v) (reordered_canonicalItems items)

theorem reordered_canonicalMembers : ∀ members : List (String × Value),
    ReorderedMembers members (canonicalMembers members)
  | [] => .nil
  | (_, v) :: members => .cons (reordered_canonical v) (reordered_canonicalMembers members)

end

mutual

/-- An order of an order is another order. -/
theorem Reordered.trans : ∀ {v v' v'' : Value}, Reordered v v' → Reordered v' v'' →
    Reordered v v''
  | _, _, _, .scalar _, h' => h'
  | _, _, _, .array h, .array h' => .array (ReorderedItems.trans h h')
  | _, _, _, .map h, .map h' => .map (.trans h h')

theorem ReorderedItems.trans : ∀ {items items' items'' : List Value},
    ReorderedItems items items' → ReorderedItems items' items'' → ReorderedItems items items''
  | _, _, _, .nil, h' => h'
  | _, _, _, .cons h hrest, .cons h' hrest' => .cons (h.trans h') (hrest.trans hrest')

end

/-! ### What an order does not change -/

mutual

theorem Reordered.nesting_eq : ∀ {v v' : Value}, Reordered v v' → v.nesting = v'.nesting
  | _, _, .scalar _ => rfl
  | _, _, .array h => congrArg (· + 1) h.nesting_eq
  | _, _, .map h => congrArg (· + 1) h.nesting_eq

theorem ReorderedItems.nesting_eq : ∀ {items items' : List Value}, ReorderedItems items items' →
    nestingOfItems items = nestingOfItems items'
  | _, _, .nil => rfl
  | _, _, .cons h hrest => by
    rw [nestingOfItems, nestingOfItems, h.nesting_eq, hrest.nesting_eq]

theorem ReorderedMembers.nesting_eq : ∀ {members members' : List (String × Value)},
    ReorderedMembers members members' → nestingOfMembers members = nestingOfMembers members'
  | _, _, .nil => rfl
  | _, _, .cons h hrest => by
    rw [nestingOfMembers, nestingOfMembers, h.nesting_eq, hrest.nesting_eq]
  | _, _, .swap _ _ _ => by
    simp only [nestingOfMembers]
    exact Nat.max_left_comm _ _ _
  | _, _, .trans h h' => h.nesting_eq.trans h'.nesting_eq

end

theorem ReorderedItems.length_eq {items items' : List Value} (h : ReorderedItems items items') :
    items.length = items'.length := by
  induction items generalizing items' with
  | nil =>
    cases h
    rfl
  | cons item rest ih =>
    cases h with
    | cons _ hrest => exact congrArg (· + 1) (ih hrest)

theorem ReorderedMembers.keys_perm : ∀ {members members' : List (String × Value)},
    ReorderedMembers members members' → (Members.keys members).Perm (Members.keys members')
  | _, _, .nil => .nil
  | _, _, .cons _ hrest => .cons _ hrest.keys_perm
  | _, _, .swap _ _ _ => .swap _ _ _
  | _, _, .trans h h' => h.keys_perm.trans h'.keys_perm

theorem ReorderedMembers.length_eq {members members' : List (String × Value)}
    (h : ReorderedMembers members members') : members.length = members'.length := by
  have hkeys := h.keys_perm.length_eq
  rwa [Members.keys, Members.keys, List.length_map, List.length_map] at hkeys

mutual

theorem Reordered.distinct : ∀ {v v' : Value}, Reordered v v' → v.Distinct → v'.Distinct
  | _, _, .scalar _, hdistinct => hdistinct
  | _, _, .array h, hdistinct => ReorderedItems.distinct h hdistinct
  | _, _, .map h, hdistinct =>
    ⟨h.keys_perm.nodup_iff.mp hdistinct.1, ReorderedMembers.distinct h hdistinct.2⟩

theorem ReorderedItems.distinct : ∀ {items items' : List Value}, ReorderedItems items items' →
    DistinctItems items → DistinctItems items'
  | _, _, .nil, hdistinct => hdistinct
  | _, _, .cons h hrest, hdistinct => ⟨h.distinct hdistinct.1, hrest.distinct hdistinct.2⟩

theorem ReorderedMembers.distinct : ∀ {members members' : List (String × Value)},
    ReorderedMembers members members' → DistinctMembers members → DistinctMembers members'
  | _, _, .nil, hdistinct => hdistinct
  | _, _, .cons h hrest, hdistinct => ⟨h.distinct hdistinct.1, hrest.distinct hdistinct.2⟩
  | _, _, .swap _ _ _, hdistinct => ⟨hdistinct.2.1, hdistinct.1, hdistinct.2.2⟩
  | _, _, .trans h h', hdistinct => h'.distinct (h.distinct hdistinct)

end

/-! ### Parts of another order -/

theorem ReorderedItems.getElem?_rel {items items' : List Value} (h : ReorderedItems items items')
    (i : Nat) : Option.Rel Reordered items[i]? items'[i]? := by
  induction items generalizing items' i with
  | nil =>
    cases h
    exact .none
  | cons v rest ih =>
    cases h with
    | cons hfirst hrest =>
      cases i with
      | zero => exact .some hfirst
      | succ i => exact ih hrest i

theorem ReorderedMembers.alike : ∀ {members members' : List (String × Value)},
    ReorderedMembers members members' → Members.Alike Reordered members members'
  | _, _, .nil => .nil
  | _, _, .cons h hrest => .cons h hrest.alike
  | _, _, .swap member member' members => .swap member member' members
  | _, _, .trans h h' => h.alike.trans h'.alike

/-- In any order, a map has the same keys, and under each the same value in some order. -/
theorem ReorderedMembers.find?_rel {members members' : Members Value}
    (h : ReorderedMembers members members') (hdistinct : members.Distinct) (key : String) :
    Option.Rel Reordered (members.find? key) (members'.find? key) := by
  cases hfind : members.find? key with
  | none =>
    rw [h.alike.find?_eq_none hfind]
    exact .none
  | some v =>
    obtain ⟨v', hv', hreordered⟩ :=
      h.alike.find?_eq_some Reordered.refl Reordered.trans hdistinct hfind
    rw [hv']
    exact .some hreordered

end Value

end BinaryPack
