import BinaryPack.Value.Members

/-! # Members in every order

  A map is built by putting pairs in one after another, and of pairs with one key the last
  is kept. Said without an order: the map has the keys of the pairs and no other, and holds
  under each what the last pair with that key holds (`Members.KeepsLast`). Whatever puts
  pairs in gives such a map (`Members.keepsLast_insertAll`).

  Two lists of members in different orders are the same map, and so they are if what stands
  under a key is alike in some way (`Members.Alike`). What two containers hold at one
  place, a key or an index, is compared by `Option.Rel`.
-/

namespace BinaryPack

/-! ### Lookups that are related

  Relations between what two containers hold at one place, where each of them may hold
  nothing. -/

section lookups

variable {α β : Type} {R S : α → α → Prop} {o o' o'' : Option α}

theorem rel_symm (h : Option.Rel R o o') (hR : ∀ x ∈ o, ∀ x' ∈ o', R x x' → R x' x) :
    Option.Rel R o' o := by
  cases h with
  | none => exact .none
  | some hx => exact .some (hR _ rfl _ rfl hx)

theorem rel_trans (h : Option.Rel R o o') (h' : Option.Rel R o' o'')
    (hR : ∀ x ∈ o, ∀ x' ∈ o', ∀ x'' ∈ o'', R x x' → R x' x'' → R x x'') :
    Option.Rel R o o'' := by
  cases h with
  | none =>
    cases h'
    exact .none
  | some hx =>
    cases h' with
    | some hx' => exact .some (hR _ rfl _ rfl _ rfl hx hx')

theorem rel_self_iff : Option.Rel R o o ↔ ∀ x ∈ o, R x x := by
  cases o with
  | none => simp
  | some x =>
    constructor
    · intro h
      cases h with
      | some hx => simpa using hx
    · intro h
      exact .some (h x rfl)

theorem rel_eq_none_iff (h : Option.Rel R o o') : o = none ↔ o' = none := by
  cases h <;> simp

theorem exists_of_rel_some {x : α} (h : Option.Rel R (some x) o') :
    ∃ x', o' = some x' ∧ R x x' := by
  cases h with
  | some hx => exact ⟨_, rfl, hx⟩

theorem rel_imp_of_mem (h : Option.Rel R o o') (himp : ∀ x ∈ o, ∀ x', R x x' → S x x') :
    Option.Rel S o o' := by
  cases h with
  | none => exact .none
  | some hx => exact .some (himp _ rfl _ hx)

theorem rel_imp (h : Option.Rel R o o') (himp : ∀ x x', R x x' → S x x') : Option.Rel S o o' :=
  rel_imp_of_mem h fun x _ => himp x

/-- A lookup in what another one found is related to a lookup in what is related. -/
theorem rel_bind {T : β → β → Prop} {f f' : α → Option β} (h : Option.Rel R o o')
    (hf : ∀ x x', R x x' → Option.Rel T (f x) (f' x')) :
    Option.Rel T (o >>= f) (o' >>= f') := by
  cases h with
  | none => exact .none
  | some hx => exact hf _ _ hx

end lookups

namespace Members

/-! ### The last pair of a key -/

/-- A map that keeps the last of the pairs with one key. -/
structure KeepsLast {α : Type} (pairs members : Members α) : Prop where
  /-- No key occurs twice. -/
  distinct : members.Distinct
  /-- Under a key stands what the last pair with that key holds. -/
  find?_eq : ∀ key, members.find? key = find? pairs.reverse key

section

variable {α : Type}

theorem find?_append (members rest : Members α) (key : String) :
    find? (members ++ rest) key = (members.find? key).or (rest.find? key) := by
  induction members with
  | nil => rfl
  | cons member members ih =>
    rw [List.cons_append, find?, find?]
    by_cases hkey : member.1 = key
    · rw [if_pos hkey, if_pos hkey]
      rfl
    · rw [if_neg hkey, if_neg hkey]
      exact ih

theorem mem_of_find?_eq_some {members : Members α} {key : String} {value : α}
    (h : members.find? key = some value) : (key, value) ∈ members := by
  induction members with
  | nil => cases h
  | cons member rest ih =>
    rw [find?] at h
    by_cases hkey : member.1 = key
    · rw [if_pos hkey] at h
      cases h
      cases hkey
      exact List.mem_cons_self
    · rw [if_neg hkey] at h
      exact List.mem_cons_of_mem _ (ih h)

/-- Of all pairs that are put in, the last with a key decides, and only then what the map
    held before. -/
theorem find?_insertAll (members pairs : Members α) (key : String) :
    (members.insertAll pairs).find? key
      = (find? pairs.reverse key).or (members.find? key) := by
  induction pairs generalizing members with
  | nil => rfl
  | cons pair rest ih =>
    have hfirst : members.insertAll (pair :: rest)
        = (members.insert pair.1 pair.2).insertAll rest := rfl
    rw [hfirst, ih, List.reverse_cons, find?_append, Option.or_assoc]
    congr 1
    -- What is left of the pairs is the first one, put into the members.
    by_cases hkey : key = pair.1
    · rw [hkey, find?_insert_self, find?, if_pos rfl]
      rfl
    · rw [find?_insert_ne _ _ hkey, find?, if_neg (Ne.symm hkey)]
      rfl

theorem keepsLast_insertAll (pairs : Members α) : KeepsLast pairs (insertAll [] pairs) where
  distinct := distinct_ofList pairs
  find?_eq := by
    intro key
    rw [find?_insertAll, find?_nil, Option.or_none]

end

/-! ### Members that are alike -/

/-- Members in another order, each with something alike under its key. -/
inductive Alike {α : Type} (R : α → α → Prop) : Members α → Members α → Prop where
  | nil : Alike R [] []
  | cons {key : String} {x x' : α} {members members' : Members α} (h : R x x')
    (hrest : Alike R members members') : Alike R ((key, x) :: members) ((key, x') :: members')
  | swap (member member' : String × α) (members : Members α) :
    Alike R (member :: member' :: members) (member' :: member :: members)
  | trans {members members' members'' : Members α} (h : Alike R members members')
    (h' : Alike R members' members'') : Alike R members members''

variable {α : Type} {R : α → α → Prop} {members members' : Members α}

theorem Alike.refl (hrefl : ∀ x, R x x) (members : Members α) : Alike R members members := by
  induction members with
  | nil => exact .nil
  | cons member rest ih => exact .cons (hrefl member.2) ih

theorem Alike.keys_perm (h : Alike R members members') : members.keys.Perm members'.keys := by
  induction h with
  | nil => exact .nil
  | cons _ _ ih => exact ih.cons _
  | swap => exact .swap _ _ _
  | trans _ _ ih ih' => exact ih.trans ih'

theorem Alike.distinct (h : Alike R members members') (hdistinct : members.Distinct) :
    members'.Distinct :=
  h.keys_perm.nodup_iff.mp hdistinct

theorem Alike.find?_eq_none (h : Alike R members members') {key : String}
    (hfind : members.find? key = none) : members'.find? key = none := by
  rw [find?_eq_none_iff] at hfind ⊢
  rwa [← h.keys_perm.mem_iff]

/-- Where no key occurs twice, alike members hold something alike under a key. -/
theorem Alike.find?_eq_some (h : Alike R members members') (hrefl : ∀ x, R x x)
    (htrans : ∀ {x x' x''}, R x x' → R x' x'' → R x x'') (hdistinct : members.Distinct)
    {key : String} {x : α} (hfind : members.find? key = some x) :
    ∃ x', members'.find? key = some x' ∧ R x x' := by
  induction h generalizing x with
  | nil => cases hfind
  | @cons k held held' members members' hheld hrest ih =>
    rw [find?] at hfind ⊢
    by_cases hkey : k = key
    · rw [if_pos hkey] at hfind ⊢
      cases hfind
      exact ⟨held', rfl, hheld⟩
    · rw [if_neg hkey] at hfind ⊢
      exact ih (List.nodup_cons.mp hdistinct).2 hfind
  | swap member member' members =>
    -- Two neighbours have two keys, so at most one of them is looked up.
    have hne : member.1 ≠ member'.1 := by
      intro hsame
      exact (List.nodup_cons.mp hdistinct).1 (hsame ▸ List.mem_cons_self)
    refine ⟨x, ?_, hrefl x⟩
    simp only [find?] at hfind ⊢
    by_cases hkey : member'.1 = key
    · rw [if_pos hkey]
      rwa [if_neg (hkey ▸ hne), if_pos hkey] at hfind
    · rw [if_neg hkey]
      rwa [if_neg hkey] at hfind
  | trans h _ ih ih' =>
    obtain ⟨y, hy, hxy⟩ := ih hdistinct hfind
    obtain ⟨z, hz, hyz⟩ := ih' (h.distinct hdistinct) hy
    exact ⟨z, hz, htrans hxy hyz⟩

theorem Alike.eq_singleton (h : Alike R members members')
    (htrans : ∀ {x x' x''}, R x x' → R x' x'' → R x x'') {key : String} {x : α}
    (hmembers : members = [(key, x)]) : ∃ x', members' = [(key, x')] ∧ R x x' := by
  induction h generalizing x with
  | nil => cases hmembers
  | cons hheld hrest =>
    cases hmembers
    have hlength := hrest.keys_perm.length_eq
    rw [keys, keys, List.length_map, List.length_map] at hlength
    rw [List.length_eq_zero_iff.mp hlength.symm]
    exact ⟨_, rfl, hheld⟩
  | swap => cases hmembers
  | trans _ _ ih ih' =>
    obtain ⟨y, rfl, hxy⟩ := ih hmembers
    obtain ⟨z, rfl, hyz⟩ := ih' rfl
    exact ⟨z, rfl, htrans hxy hyz⟩

end Members

end BinaryPack
