import BinaryPack.Proofs.RoundTrip
import BinaryPack.Proofs.Text.Utf8

/-! # Which maps an encoder writes

  An encoder checks its input piecemeal: the nesting and the count of a container when
  it is opened, a name wherever one is written, the length of a payload when it is
  known. What all these checks come to is told by two conditions on the map
  (`Encoder.Admits`). The first is about its shape, the second about the keys of all the
  maps in it, at every depth, taken one by one.

  A map that satisfies them is written, as long as lengths and counts fit their fields,
  and is not damaged by being written. Any other map is refused
  (`Encoder.marshal_admits`).
-/

namespace BinaryPack

/-! ### Keys -/

/-- A key fits if there is room for its terminator, or if it fills the field of a name and
    does not end in a NUL. -/
theorem keyFits_iff (key : String) :
    KeyFits key ↔ (Utf8.encode key).length ≤ 254 ∨
      (Utf8.encode key).length = 255 ∧ key.toList.getLast? ≠ some '\x00' := by
  unfold KeyFits
  rw [Ne, Utf8.getLast?_encode_eq_zero_iff]
  exact or_congr Nat.lt_succ_iff Iff.rfl

/-- Among the keys of 255 bytes only those that end in a NUL do not fit. -/
example :
    let key (count : Nat) (last : Char) := String.ofList (List.replicate count 'k' ++ [last])
    KeyFits (key 253 '\x00') ∧ KeyFits (key 254 'k') ∧ ¬ KeyFits (key 254 '\x00') ∧
      ¬ KeyFits (key 255 'k') := by
  simp only [keyFits_iff, Utf8.encode, String.toList_ofList]
  decide +kernel

namespace Value

mutual

/-- The keys of all the maps in a value, at every depth. -/
def allKeys : Value → List String
  | .scalar _ => []
  | .array items => allKeysOfItems items
  | .map members => allKeysOfMembers members

/-- The keys of all the maps in the items of an array. -/
def allKeysOfItems : List Value → List String
  | [] => []
  | v :: rest => allKeys v ++ allKeysOfItems rest

/-- The keys of a map, and of all the maps in what it holds. -/
def allKeysOfMembers : List (String × Value) → List String
  | [] => []
  | (key, v) :: rest => key :: (allKeys v ++ allKeysOfMembers rest)

end

mutual

/-- The keys of a value fit just when each of them fits. -/
theorem keysFit_iff : ∀ v : Value, v.KeysFit ↔ ∀ key ∈ v.allKeys, KeyFits key
  | .scalar _ => by simp [KeysFit, allKeys]
  | .array items => keysFitItems_iff items
  | .map members => keysFitMembers_iff members

theorem keysFitItems_iff : ∀ items : List Value,
    KeysFitItems items ↔ ∀ key ∈ allKeysOfItems items, KeyFits key
  | [] => by simp [KeysFitItems, allKeysOfItems]
  | v :: rest => by
    rw [KeysFitItems, allKeysOfItems, List.forall_mem_append, keysFit_iff v, keysFitItems_iff rest]

theorem keysFitMembers_iff : ∀ members : List (String × Value),
    KeysFitMembers members ↔ ∀ key ∈ allKeysOfMembers members, KeyFits key
  | [] => by simp [KeysFitMembers, allKeysOfMembers]
  | (key, v) :: rest => by
    rw [KeysFitMembers, allKeysOfMembers, List.forall_mem_cons, List.forall_mem_append,
      keysFit_iff v, keysFitMembers_iff rest]

end

mutual

/-- Another order of a value has the same keys. -/
theorem Reordered.allKeys_perm : ∀ {v v' : Value}, Reordered v v' → v.allKeys.Perm v'.allKeys
  | _, _, .scalar _ => .nil
  | _, _, .array h => ReorderedItems.allKeys_perm h
  | _, _, .map h => ReorderedMembers.allKeys_perm h

theorem ReorderedItems.allKeys_perm : ∀ {items items' : List Value}, ReorderedItems items items' →
    (allKeysOfItems items).Perm (allKeysOfItems items')
  | _, _, .nil => .nil
  | _, _, .cons h hrest => h.allKeys_perm.append hrest.allKeys_perm

theorem ReorderedMembers.allKeys_perm : ∀ {members members' : List (String × Value)},
    ReorderedMembers members members' → (allKeysOfMembers members).Perm (allKeysOfMembers members')
  | _, _, .nil => .nil
  | _, _, .cons h hrest => (h.allKeys_perm.append hrest.allKeys_perm).cons _
  | _, _, .swap (key, v) (key', v') members =>
    -- Each member stands for its own key and those below it.
    List.perm_append_comm_assoc (key :: v.allKeys) (key' :: v'.allKeys) (allKeysOfMembers members)
  | _, _, .trans h h' => h.allKeys_perm.trans h'.allKeys_perm

end

end Value

namespace Encoder

/-! ### Maps -/

/-- What an encoder asks of a map. -/
structure Admits (e : Encoder) (members : Members Value) : Prop where
  /-- Arrays and maps are nested within the limit, the map itself being counted. -/
  nesting : Value.nesting (.map members) ≤ e.maxDepth
  /-- Every key, at every depth, has at most 254 bytes, or has 255 and does not end in a
      NUL. -/
  keys : ∀ key ∈ Value.allKeys (.map members), (Utf8.encode key).length ≤ 254 ∨
    (Utf8.encode key).length = 255 ∧ key.toList.getLast? ≠ some '\x00'

/-- What an encoder asks of a map, apart from its lengths, is all that it can write. -/
theorem canWrite_iff (e : Encoder) (members : Members Value) :
    e.CanWrite members ↔ Value.LengthsFit (.map members) ∧ e.Admits members := by
  have hkeys : Value.KeysFit (.map members) ↔
      ∀ key ∈ Value.allKeys (.map members), (Utf8.encode key).length ≤ 254 ∨
        (Utf8.encode key).length = 255 ∧ key.toList.getLast? ≠ some '\x00' := by
    simp only [Value.keysFit_iff, keyFits_iff]
  constructor
  · intro h
    obtain ⟨hfit, hlengths, hnesting⟩ := h
    exact ⟨hlengths, hnesting, hkeys.mp hfit⟩
  · intro h
    obtain ⟨hlengths, hadmits⟩ := h
    exact ⟨hkeys.mpr hadmits.keys, hlengths, hadmits.nesting⟩

theorem exists_pack_iff (e : Encoder) (members : Members Value) :
    (∃ pack, (e.marshalMap members).result = .ok pack) ↔
      Value.LengthsFit (.map members) ∧ e.Admits members := by
  rw [← canWrite_iff]
  rcases e.marshalMap_cases members with ⟨hcan, pack, hpack, -⟩ | ⟨hcan, cause, herror⟩
  · exact iff_of_true ⟨pack, hpack⟩ hcan
  · refine iff_of_false ?_ hcan
    intro h
    obtain ⟨pack, hpack⟩ := h
    cases hpack.symm.trans herror

/-- A pack is decoded to the map that it was made of, at the limit of the encoder. -/
theorem decode_pack {e : Encoder} {members : Members Value} {pack : Buffer}
    (h : (e.marshalMap members).result = .ok pack) (hdistinct : Value.Distinct (.map members)) :
    ((⟨e.maxDepth, none, false⟩ : Decoder).decode pack.toList).result = .ok members := by
  -- This decoder takes input of any length.
  have hwithin : (⟨e.maxDepth, none, false⟩ : Decoder).WithinLimit pack.toList :=
    Decoder.withinLimit_of_eq_none rfl pack.toList
  have hadmits : e.Admits members := ((e.exists_pack_iff members).mp ⟨pack, h⟩).2
  exact ((form_of_marshalMap h).result_decode_eq_ok_iff (Nat.zero_le _) hdistinct hwithin
    members).mpr ⟨hadmits.nesting, rfl⟩

/-- **An encoder writes just the maps that it admits.** Let the lengths and the counts of a
    map fit their fields. The map has a pack just when it is nested within the limit and
    every key at every depth has at most 254 bytes, or has 255 and does not end in a NUL.
    A map that is not admitted never has a pack, whatever its lengths, and a map without
    a pack is refused with the error of an encoder and no other. A pack is never damaged:
    a decoder with the same limit that allows no byte after the root gives the same map
    back. A value that is no map is refused for what it is. -/
theorem marshal_admits (e : Encoder) :
    (∀ members : Members Value,
      (Value.LengthsFit (.map members) →
        ((∃ pack, (e.marshalMap members).result = .ok pack) ↔ e.Admits members)) ∧
      ((∃ pack, (e.marshalMap members).result = .ok pack) → e.Admits members) ∧
      ((¬ ∃ pack, (e.marshalMap members).result = .ok pack) →
        ∃ cause, (e.marshalMap members).result = .error (.marshal cause)) ∧
      (∀ pack, (e.marshalMap members).result = .ok pack → Value.Distinct (.map members) →
        ((⟨e.maxDepth, none, false⟩ : Decoder).decode pack.toList).result = .ok members)) ∧
    (∀ v : Value, v.map? = none →
      (e.marshal v).result = .error (.marshal (.rootType v.typeName))) := by
  constructor
  · intro members
    have hpack := e.exists_pack_iff members
    refine ⟨?_, ?_, ?_, ?_⟩
    · intro hlengths
      rw [hpack]
      exact and_iff_right hlengths
    · intro h
      exact (hpack.mp h).2
    · intro hnone
      rcases e.marshalMap_cases members with ⟨-, pack, hok, -⟩ | ⟨-, herror⟩
      · exact absurd ⟨pack, hok⟩ hnone
      · exact herror
    · intro pack hok hdistinct
      exact decode_pack hok hdistinct
  · intro v hroot
    -- The root is looked at before anything else, so the limit does not matter.
    cases v with
    | scalar s => rfl
    | array items => rfl
    | map members => cases hroot

end Encoder

end BinaryPack
