import BinaryPack.Proofs.Item.Inversion
import BinaryPack.Proofs.RoundTrip
import BinaryPack.Proofs.Value.Path

/-! # What updates change

  An update puts a value under a key or takes the key out (`Members.Update`). Lookups under
  other keys do not see it, so a path sees an update only if its first segment is the key,
  and then goes on in the value that the update leaves there. No path sees an update of a key
  with a dot; the number of keys and the pack of the map tell of it all the same.

  One update of a map that is held under a key is one update more: of the map below for the
  second segment, of the map above for the first (`Members.lookup_updateAt`). After many
  updates the last one of a key decides what is under it (`Members.find?_afterAll`).
-/

namespace BinaryPack

namespace Members

/-! ### Updates -/

/-- A change of what a map holds under one key. -/
inductive Update (α : Type) where
  /-- Puts a value under the key. -/
  | insert (key : String) (value : α)
  /-- Takes the key out. -/
  | erase (key : String)

section

variable {α : Type} {members : Members α}

namespace Update

/-- The key of an update. -/
def key : Update α → String
  | .insert key _ => key
  | .erase key => key

/-- What an update leaves under its key. -/
def outcome : Update α → Option α
  | .insert _ value => some value
  | .erase _ => none

end Update

/-- A map after an update. -/
def after (members : Members α) : Update α → Members α
  | .insert key value => members.insert key value
  | .erase key => members.erase key

/-- A map after some updates, one by one. -/
def afterAll (members : Members α) (updates : List (Update α)) : Members α :=
  updates.foldl after members

/-- The last of some updates of a key. -/
def lastOf (updates : List (Update α)) (key : String) : Option (Update α) :=
  updates.reverse.find? fun u => u.key = key

theorem Distinct.after (hdistinct : members.Distinct) (u : Update α) :
    (members.after u).Distinct := by
  cases u with
  | insert key value => exact hdistinct.insert key value
  | erase key => exact hdistinct.erase key

/-- An update leaves its outcome under its key, and all other keys alone. -/
theorem find?_after (hdistinct : members.Distinct) (u : Update α) (key : String) :
    (members.after u).find? key = if key = u.key then u.outcome else members.find? key := by
  by_cases hkey : key = u.key
  · rw [if_pos hkey, hkey]
    cases u with
    | insert k value => exact find?_insert_self members k value
    | erase k => exact find?_erase_self hdistinct k
  · rw [if_neg hkey]
    cases u with
    | insert k value => exact find?_insert_ne members value hkey
    | erase k => exact find?_erase_ne members hkey

/-- Of all updates of a key the last one decides. -/
theorem find?_afterAll (hdistinct : members.Distinct) (updates : List (Update α)) (key : String) :
    (members.afterAll updates).find? key =
      match lastOf updates key with
      | some u => u.outcome
      | none => members.find? key := by
  induction updates generalizing members with
  | nil => rfl
  | cons u rest ih =>
    have hfirst : members.afterAll (u :: rest) = (members.after u).afterAll rest := rfl
    rw [hfirst, ih (hdistinct.after u), find?_after hdistinct]
    unfold lastOf
    rw [List.reverse_cons, List.find?_append]
    cases rest.reverse.find? fun u => u.key = key with
    | some later => rfl
    | none =>
      -- No later update is one of the key, so the first one is the last one of it, or none is.
      by_cases hkey : u.key = key
      · simp [hkey]
      · simp [hkey, Ne.symm hkey]

/-! ### The number of keys -/

theorem length_insert (members : Members α) (key : String) (value : α) :
    (members.insert key value).length
      = if (members.find? key).isSome then members.length else members.length + 1 := by
  cases hfind : members.find? key with
  | none =>
    rw [insert_of_find?_eq_none hfind, List.length_append]
    rfl
  | some held =>
    have hpresent : key ∈ members.keys := List.mem_map_of_mem (mem_of_find?_eq_some hfind)
    have hkeys := congrArg List.length (keys_insert_of_mem hpresent value)
    rwa [keys, keys, List.length_map, List.length_map] at hkeys

theorem length_erase (members : Members α) (key : String) :
    (members.erase key).length
      = if (members.find? key).isSome then members.length - 1 else members.length := by
  induction members with
  | nil => rfl
  | cons member rest ih =>
    rw [erase, find?]
    by_cases hkey : member.1 = key
    · rw [if_pos hkey, if_pos hkey]
      rfl
    · rw [if_neg hkey, if_neg hkey, List.length_cons, List.length_cons, ih]
      -- A key that is further on is one of at least one.
      cases rest with
      | nil => rfl
      | cons next rest => split <;> rfl

/-- The number of keys changes just when the key comes to be there or ceases to. -/
theorem length_after_eq_iff (members : Members α) (u : Update α) :
    (members.after u).length = members.length ↔
      (members.find? u.key).isSome = u.outcome.isSome := by
  cases u with
  | insert key value =>
    show (members.insert key value).length = _ ↔ (members.find? key).isSome = true
    rw [length_insert]
    by_cases hpresent : (members.find? key).isSome
    · simp [hpresent]
    · simp [hpresent]
  | erase key =>
    show (members.erase key).length = _ ↔ (members.find? key).isSome = false
    rw [length_erase]
    by_cases hpresent : (members.find? key).isSome
    · have hpos : 0 < members.length := by
        rw [List.length_pos_iff]
        rintro rfl
        cases hpresent
      simp only [hpresent, if_true]
      constructor
      · intro h
        omega
      · intro h
        cases h
    · simp [hpresent]

end

/-! ### Paths after an update -/

open Value

variable {members : Members Value}

/-- A lookup starts with the first segment and goes on in what is held there. -/
theorem lookup_of_segments {path first : String} {rest : List String} (members : Members Value)
    (h : Path.segments path = first :: rest) :
    members.lookup path = (members.find? first).bind (walk rest) := by
  rw [lookup_eq_walk, h, walk_cons_map]

theorem lookup_after (hdistinct : members.Distinct) (u : Update Value) {path first : String}
    {rest : List String} (h : Path.segments path = first :: rest) :
    (members.after u).lookup path =
      if first = u.key then u.outcome.bind (walk rest) else members.lookup path := by
  rw [lookup_of_segments _ h, lookup_of_segments _ h, find?_after hdistinct]
  split <;> rfl

theorem lookup_afterAll (hdistinct : members.Distinct) (updates : List (Update Value))
    {path first : String} {rest : List String} (h : Path.segments path = first :: rest) :
    (members.afterAll updates).lookup path =
      match lastOf updates first with
      | some u => u.outcome.bind (walk rest)
      | none => members.lookup path := by
  rw [lookup_of_segments _ h, lookup_of_segments _ h, find?_afterAll hdistinct]
  cases lastOf updates first with
  | none => rfl
  | some u => rfl

/-- No path starts with a key that has a dot. -/
theorem lookup_after_of_dot (hdistinct : members.Distinct) {u : Update Value}
    (hdot : '.' ∈ u.key.toList) (path : String) :
    (members.after u).lookup path = members.lookup path := by
  obtain ⟨first, rest, h⟩ := Path.exists_segments_eq_cons path
  have hfirst : first ≠ u.key := by
    rintro rfl
    have hmem : u.key ∈ Path.segments path := h ▸ List.mem_cons_self
    exact Path.not_mem_of_mem_segments hmem hdot
  rw [lookup_after hdistinct u h, if_neg hfirst]

/-! ### Maps within the map -/

theorem updateAt?_eq_some {key : String} {inner : Members Value}
    (h : members.find? key = some (.map inner)) (update : Members Value → Members Value) :
    members.updateAt? key update = some (members.insert key (.map (update inner))) := by
  unfold updateAt?
  rw [h]

/-- After an update of the map that is held under a key, the first segment of a path leads to
    that map if it is the key, and the second is looked up there. -/
theorem lookup_updateAt {key : String} {inner : Members Value}
    (hinner : members.find? key = some (.map inner)) (hdistinct : inner.Distinct)
    (u : Update Value) (path : String) :
    (Path.segments path = [key] →
      (members.insert key (.map (inner.after u))).lookup path = some (.map (inner.after u))) ∧
    (∀ rest, Path.segments path = key :: u.key :: rest →
      (members.insert key (.map (inner.after u))).lookup path = u.outcome.bind (walk rest)) ∧
    (Path.segments path ≠ [key] → ¬ [key, u.key] <+: Path.segments path →
      (members.insert key (.map (inner.after u))).lookup path = members.lookup path) := by
  have hself : (members.insert key (.map (inner.after u))).find? key
      = some (.map (inner.after u)) := find?_insert_self _ _ _
  refine ⟨?_, ?_, ?_⟩
  · intro h
    rw [lookup_of_segments _ h, hself]
    rfl
  · intro rest h
    rw [lookup_of_segments _ h, hself, Option.bind_some, walk_cons_map, find?_after hdistinct,
      if_pos rfl]
  · intro hne hprefix
    obtain ⟨first, rest, h⟩ := Path.exists_segments_eq_cons path
    rw [lookup_of_segments _ h, lookup_of_segments _ h]
    by_cases hfirst : first = key
    · subst hfirst
      rw [hself, hinner, Option.bind_some, Option.bind_some]
      cases rest with
      | nil => exact absurd h hne
      | cons second rest =>
        have hsecond : second ≠ u.key := by
          rintro rfl
          rw [h] at hprefix
          exact hprefix (List.prefix_append [first, u.key] rest)
        rw [walk_cons_map, walk_cons_map, find?_after hdistinct, if_neg hsecond]
    · rw [find?_insert_ne _ _ hfirst]

/-! ### Packs after an update -/

/-- What a map holds after an update is what the update put there or was there before. -/
theorem mem_after {u : Update Value} {member : String × Value} (h : member ∈ members.after u) :
    u.outcome = some member.2 ∨ member ∈ members := by
  cases u with
  | insert key v =>
    rcases mem_insert h with rfl | hbefore
    · exact .inl rfl
    · exact .inr hbefore
  | erase key => exact .inr ((members.erase_sublist key).subset h)

theorem distinct_after (hdistinct : Value.Distinct (.map members)) {u : Update Value}
    (hu : ∀ v, u.outcome = some v → v.Distinct) : Value.Distinct (.map (members.after u)) := by
  refine ⟨hdistinct.1.after u, distinctMembers_iff.mpr ?_⟩
  intro member hmember
  rcases mem_after hmember with hput | hbefore
  · exact hu member.2 hput
  · exact distinctMembers_iff.mp hdistinct.2 member hbefore

/-- Maps with different numbers of keys have no pack in common, in whatever order. -/
theorem pack_ne_of_length_ne {members' order order' : Members Value} {e e' : Encoder}
    {buffer buffer' : Buffer} (hdistinct : Value.Distinct (.map members))
    (hdistinct' : Value.Distinct (.map members')) (horder : Reordered (.map members) (.map order))
    (horder' : Reordered (.map members') (.map order'))
    (hmarshal : (e.marshalMap order).result = .ok buffer)
    (hmarshal' : (e'.marshalMap order').result = .ok buffer')
    (hlength : members'.length ≠ members.length) : buffer' ≠ buffer := by
  rintro rfl
  have hsame : order = order' := Encoder.eq_of_marshalMap (horder.distinct hdistinct)
    (horder'.distinct hdistinct') hmarshal hmarshal'
  subst hsame
  cases horder with
  | map h =>
    cases horder' with
    | map h' => exact hlength (h'.length_eq.trans h.length_eq.symm)

/-- **What paths see of updates.** After a value has been put under a key, a path that starts
    with the key finds what its other segments lead to in that value; after the key has been
    taken out, it finds nothing; and all other paths find what they found before. So an update
    of a key with a dot is seen by no path, although it changes the number of keys if the key
    was not there or is not there any more, and then the packs of the map.

    An update of the map that is held under a key is seen by the path that is this key, which
    finds the map with the update, and by the paths that go on with the key of the update, and
    by no other path. After any updates a path finds what the last update of its first segment
    left there, and without such an update what it found in the beginning. -/
theorem lookup_updated (hdistinct : Value.Distinct (.map members)) :
    (∀ (key : String) (v : Value) (path first : String) (rest : List String),
      Path.segments path = first :: rest →
        (members.insert key v).lookup path
          = (if first = key then walk rest v else members.lookup path) ∧
        (members.erase key).lookup path
          = (if first = key then none else members.lookup path)) ∧
    (∀ u : Update Value, '.' ∈ u.key.toList →
      ∀ path, (members.after u).lookup path = members.lookup path) ∧
    (∀ u : Update Value, (members.after u).length = members.length ↔
      (members.find? u.key).isSome = u.outcome.isSome) ∧
    (∀ (u : Update Value) (e e' : Encoder) (order order' : Members Value)
      (buffer buffer' : Buffer), (∀ v, u.outcome = some v → v.Distinct) →
        Reordered (.map members) (.map order) →
        Reordered (.map (members.after u)) (.map order') →
        (e.marshalMap order).result = .ok buffer → (e'.marshalMap order').result = .ok buffer' →
        (members.after u).length ≠ members.length → buffer' ≠ buffer) ∧
    (∀ (key : String) (inner : Members Value) (u : Update Value),
      members.find? key = some (.map inner) →
        ∃ members', members.updateAt? key (fun held => held.after u) = some members' ∧
          (∀ other, (inner.after u).find? other
            = if other = u.key then u.outcome else inner.find? other) ∧
          ∀ path,
            (Path.segments path = [key] → members'.lookup path = some (.map (inner.after u))) ∧
            (∀ rest, Path.segments path = key :: u.key :: rest →
              members'.lookup path = u.outcome.bind (walk rest)) ∧
            (Path.segments path ≠ [key] → ¬ [key, u.key] <+: Path.segments path →
              members'.lookup path = members.lookup path)) ∧
    (∀ (updates : List (Update Value)) (path first : String) (rest : List String),
      Path.segments path = first :: rest →
        (members.afterAll updates).lookup path =
          match lastOf updates first with
          | some (.insert _ v) => walk rest v
          | some (.erase _) => none
          | none => members.lookup path) := by
  refine ⟨?_, fun u => lookup_after_of_dot hdistinct.1, members.length_after_eq_iff, ?_, ?_, ?_⟩
  · intro key v path first rest h
    exact ⟨lookup_after hdistinct.1 (.insert key v) h, lookup_after hdistinct.1 (.erase key) h⟩
  · intro u e e' order order' buffer buffer' hu horder horder' hmarshal hmarshal' hlength
    exact pack_ne_of_length_ne hdistinct (distinct_after hdistinct hu) horder horder' hmarshal
      hmarshal' hlength
  · intro key inner u hinner
    have hheld : Value.Distinct (.map inner) :=
      distinctMembers_iff.mp hdistinct.2 _ (mem_of_find?_eq_some hinner)
    exact ⟨_, updateAt?_eq_some hinner _, find?_after hheld.1 u,
      lookup_updateAt hinner hheld.1 u⟩
  · intro updates path first rest h
    rw [lookup_afterAll hdistinct.1 updates h]
    cases lastOf updates first with
    | none => rfl
    | some u => cases u <;> rfl

/-- A key that looks like a path to a member: no path sees it, but the pack does. -/
theorem lookup_updated_dotted :
    let members : Members Value := [("a", .map [("x", .scalar (.bool true))])]
    let buffer : Buffer := #[0x90, 0, 18, 1, 0, 0, 0, 0x90, 2, 9, 0x61, 0, 1, 0, 0, 0, 0x31, 2,
      0x78, 0, 1]
    let buffer' : Buffer := #[0x90, 0, 25, 2, 0, 0, 0, 0x90, 2, 9, 0x61, 0, 1, 0, 0, 0, 0x31, 2,
      0x78, 0, 1, 0x61, 4, 0x61, 0x2E, 0x78, 0, 0]
    Value.Distinct (.map members) ∧ (Encoder.marshalMap ⟨2⟩ members).result = .ok buffer ∧
      (Encoder.marshalMap ⟨2⟩ (members.insert "a.x" .null)).result = .ok buffer' ∧
      (∀ path, (members.insert "a.x" .null).lookup path = members.lookup path) ∧
      buffer' ≠ buffer := by
  intro members buffer buffer'
  have hdistinct : Value.Distinct (.map members) := by
    simp [members, Value.Distinct, Value.DistinctMembers, Members.Distinct, Members.keys]
  have hmarshal : (Encoder.marshalMap ⟨2⟩ members).result = .ok buffer :=
    (Encoder.marshalMap_eq_ok_iff ⟨2⟩ members buffer).mpr (by decide)
  have hmarshal' : (Encoder.marshalMap ⟨2⟩ (members.insert "a.x" .null)).result = .ok buffer' :=
    (Encoder.marshalMap_eq_ok_iff ⟨2⟩ (members.insert "a.x" .null) buffer').mpr (by decide)
  have hnull : ∀ v, Update.outcome (.insert "a.x" Value.null) = some v → v.Distinct := by
    rintro _ ⟨⟩
    trivial
  obtain ⟨-, hdot, -, hpack, -⟩ := lookup_updated hdistinct
  exact ⟨hdistinct, hmarshal, hmarshal', hdot (.insert "a.x" .null) (by decide),
    hpack (.insert "a.x" .null) ⟨2⟩ ⟨2⟩ _ _ buffer buffer' hnull (.refl _) (.refl _) hmarshal
      hmarshal' (by decide)⟩

end Members

end BinaryPack
