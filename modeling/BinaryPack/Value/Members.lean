/-! # Members of a map

  A map is held as the list of its members, each a key and what it holds. The
  order of the list is one order in which the members may be visited; nothing
  that looks members up by key depends on it. A map never holds a key twice:
  `insert` overwrites in place and puts a new key last, so `Distinct` is kept
  by every operation.
-/

namespace BinaryPack

universe u

/-- The members of a map, in some order. -/
abbrev Members (α : Type u) := List (String × α)

namespace Members

variable {α : Type u}

/-! ### Operations -/

/-- A map without members, with room for a number of them. -/
def emptyWithCapacity (_capacity : Nat) : Members α :=
  []

/-- The keys, in the order of the members. -/
def keys (members : Members α) : List String :=
  members.map Prod.fst

/-- No key occurs twice. -/
def Distinct (members : Members α) : Prop :=
  members.keys.Nodup

/-- What the map holds under a key. -/
def find? (members : Members α) (key : String) : Option α :=
  match members with
  | [] => none
  | (k, value) :: rest => if k = key then some value else find? rest key

/-- Whether the map has a key. -/
def contains (members : Members α) (key : String) : Bool :=
  (members.find? key).isSome

/-- Puts a value under a key, over the value held there before. -/
def insert (members : Members α) (key : String) (value : α) : Members α :=
  match members with
  | [] => [(key, value)]
  | (k, held) :: rest =>
    if k = key then (key, value) :: rest else (k, held) :: insert rest key value

/-- Takes a key out. -/
def erase (members : Members α) (key : String) : Members α :=
  match members with
  | [] => []
  | (k, held) :: rest => if k = key then rest else (k, held) :: erase rest key

/-- Puts all pairs in, one after the other. -/
def insertAll (members : Members α) (pairs : List (String × α)) : Members α :=
  pairs.foldl (fun held pair => insert held pair.1 pair.2) members

/-- The map of some pairs; of pairs with one key the last is kept. -/
def ofList (pairs : List (String × α)) : Members α :=
  insertAll [] pairs

/-- The members in ascending order of their keys. Keys compare by code point,
    which is also the order of their UTF-8 bytes. -/
def sorted (members : Members α) : Members α :=
  members.mergeSort fun a b => a.1 ≤ b.1

@[simp] theorem emptyWithCapacity_eq_nil (capacity : Nat) :
    (emptyWithCapacity capacity : Members α) = [] := rfl

/-! ### Looking up after an update -/

@[simp] theorem find?_nil (key : String) : find? ([] : Members α) key = none := rfl

@[simp] theorem find?_insert_self (members : Members α) (key : String) (value : α) :
    (members.insert key value).find? key = some value := by
  induction members with
  | nil => simp [insert, find?]
  | cons member rest ih =>
    obtain ⟨k, held⟩ := member
    by_cases same : k = key
    · simp [insert, find?, same]
    · simp [insert, find?, same, ih]

@[simp] theorem find?_insert_ne (members : Members α) {key other : String} (value : α)
    (ne : other ≠ key) : (members.insert key value).find? other = members.find? other := by
  induction members with
  | nil => simp [insert, find?, ne.symm]
  | cons member rest ih =>
    obtain ⟨k, held⟩ := member
    by_cases same : k = key
    · subst same
      simp [insert, find?, ne.symm]
    · simp [insert, find?, same, ih]

/-- A map has exactly the keys of its members. -/
theorem find?_eq_none_iff (members : Members α) (key : String) :
    members.find? key = none ↔ key ∉ members.keys := by
  induction members with
  | nil => simp [keys]
  | cons member rest ih =>
    obtain ⟨k, held⟩ := member
    by_cases same : k = key
    · simp [find?, keys, same]
    · have other : ¬ key = k := fun h => same h.symm
      simpa [find?, keys, same, other] using ih

/-- Where no key occurs twice, a member is found under its key. -/
theorem find?_of_mem {members : Members α} (distinct : members.Distinct) {member : String × α}
    (h : member ∈ members) : members.find? member.1 = some member.2 := by
  induction members with
  | nil => cases h
  | cons first rest ih =>
    obtain ⟨fresh, distinctRest⟩ := List.nodup_cons.mp distinct
    rw [find?]
    rcases List.mem_cons.mp h with rfl | later
    · exact if_pos rfl
    · have ne : first.1 ≠ member.1 := fun same => fresh (same ▸ List.mem_map_of_mem later)
      rw [if_neg ne]
      exact ih distinctRest later

theorem find?_erase_ne (members : Members α) {key other : String} (ne : other ≠ key) :
    (members.erase key).find? other = members.find? other := by
  induction members with
  | nil => rfl
  | cons member rest ih =>
    obtain ⟨k, held⟩ := member
    by_cases same : k = key
    · subst same
      simp [erase, find?, ne.symm]
    · simp [erase, find?, same, ih]

theorem find?_erase_self {members : Members α} (distinct : members.Distinct) (key : String) :
    (members.erase key).find? key = none := by
  induction members with
  | nil => rfl
  | cons member rest ih =>
    obtain ⟨k, held⟩ := member
    have split : k ∉ keys rest ∧ Distinct rest := by
      simpa [Distinct, keys] using distinct
    by_cases same : k = key
    · subst same
      simpa [erase] using (find?_eq_none_iff rest k).mpr split.1
    · simp [erase, find?, same, ih split.2]

/-! ### Keys after an update -/

/-- A new key goes last. -/
theorem insert_of_find?_eq_none {members : Members α} {key : String}
    (absent : members.find? key = none) (value : α) :
    members.insert key value = members ++ [(key, value)] := by
  induction members with
  | nil => rfl
  | cons member rest ih =>
    obtain ⟨k, held⟩ := member
    by_cases same : k = key
    · simp [find?, same] at absent
    · simp only [find?, same, if_false] at absent
      simp [insert, same, ih absent]

/-- A key that is there keeps its place. -/
theorem keys_insert_of_mem {members : Members α} {key : String}
    (present : key ∈ members.keys) (value : α) :
    (members.insert key value).keys = members.keys := by
  induction members with
  | nil => simp [keys] at present
  | cons member rest ih =>
    obtain ⟨k, held⟩ := member
    by_cases same : k = key
    · simp [insert, keys, same]
    · have later : key ∈ keys rest := by
        rcases List.mem_cons.mp present with h | h
        · exact absurd h.symm same
        · exact h
      have := ih later
      simp only [keys] at this
      simp [insert, keys, same, this]

theorem distinct_singleton (key : String) (value : α) : Distinct [(key, value)] := by
  simp [Distinct, keys]

theorem Distinct.insert {members : Members α} (distinct : members.Distinct) (key : String)
    (value : α) : (members.insert key value).Distinct := by
  by_cases present : key ∈ members.keys
  · simpa only [Distinct, keys_insert_of_mem present value] using distinct
  · have absent := (find?_eq_none_iff members key).mpr present
    rw [insert_of_find?_eq_none absent]
    simp only [Distinct, keys, List.map_append, List.map_cons, List.map_nil]
    refine List.nodup_append.mpr ⟨distinct, by simp, ?_⟩
    intro a ha b hb same
    simp only [List.mem_singleton] at hb
    subst hb
    subst same
    exact present ha

/-- To take a key out leaves the rest of the members as they are. -/
theorem erase_sublist (members : Members α) (key : String) :
    (members.erase key).Sublist members := by
  induction members with
  | nil => exact List.Sublist.refl _
  | cons member rest ih =>
    rw [erase]
    by_cases same : member.1 = key
    · rw [if_pos same]
      exact List.sublist_cons_self _ _
    · rw [if_neg same]
      exact ih.cons_cons _

theorem Distinct.erase {members : Members α} (distinct : members.Distinct) (key : String) :
    (members.erase key).Distinct :=
  List.Nodup.sublist ((members.erase_sublist key).map Prod.fst) distinct

/-- Sorting reorders the members and no more. -/
theorem sorted_perm (members : Members α) : members.sorted.Perm members :=
  List.mergeSort_perm _ _

theorem Distinct.sorted {members : Members α} (distinct : members.Distinct) :
    members.sorted.Distinct :=
  ((sorted_perm members).map Prod.fst).nodup_iff.mpr distinct

theorem Distinct.insertAll {members : Members α} (distinct : members.Distinct)
    (pairs : List (String × α)) : (members.insertAll pairs).Distinct := by
  induction pairs generalizing members with
  | nil => exact distinct
  | cons pair rest ih => exact ih (distinct.insert pair.1 pair.2)

/-- A map built from pairs holds no key twice. -/
theorem distinct_ofList (pairs : List (String × α)) : (ofList pairs).Distinct := by
  have empty : Distinct ([] : Members α) := by simp [Distinct, keys]
  exact empty.insertAll pairs

/-- Pairs with distinct keys are the members themselves, in their order. -/
theorem insertAll_of_distinct {members : Members α} {pairs : List (String × α)}
    (distinct : Distinct (members ++ pairs)) : members.insertAll pairs = members ++ pairs := by
  induction pairs generalizing members with
  | nil => simp [Members.insertAll]
  | cons pair rest ih =>
    obtain ⟨key, value⟩ := pair
    have absent : members.find? key = none := by
      refine (find?_eq_none_iff members key).mpr fun present => ?_
      have apart := (List.nodup_append.mp (by simpa [Distinct, keys] using distinct)).2.2
      exact apart key (by simpa [keys] using present) key (by simp) rfl
    have step : members.insertAll ((key, value) :: rest)
        = (members.insert key value).insertAll rest := rfl
    rw [step, insert_of_find?_eq_none absent, ih (by simpa using distinct)]
    simp

theorem ofList_of_distinct {pairs : Members α} (distinct : Distinct pairs) :
    ofList pairs = pairs :=
  @insertAll_of_distinct α [] pairs distinct

end Members

end BinaryPack
