import BinaryPack.Proofs.Item.Inversion
import BinaryPack.Value.Equality
import Mathlib.Data.List.Perm.Subperm

/-! # Equality of values

  Equality of values is symmetric and transitive, but a value that holds a NaN somewhere is
  not equal to itself. So it is equal to itself just when it holds none
  (`Value.equal_self_iff`), and a map that is written and decoded is equal to what it was
  just when it holds none (`Value.equal_partial_equivalence`).

  Arrays are compared item by item, maps by their numbers of members and a lookup of each
  member of the one in the other. Both come to the same: two containers are equal if at
  each place, an index or a key, they hold equal values or both hold nothing
  (`Value.equal_array_iff`, `Value.equal_map_iff`). For maps this takes counting, since
  only the members of one side are looked up. What holds of the values at each place then
  holds of the containers.
-/

namespace BinaryPack

/-! ### Numbers -/

namespace FloatFormat

variable (f : FloatFormat) {a b c : Nat}

/-- The patterns of NaNs are those that have no value. -/
theorem isNaN_iff (bits : Nat) : f.isNaN bits ↔ f.classify bits = .nan := by
  unfold isNaN classify
  by_cases htop : f.exponentField bits = f.topExponent
  · by_cases hfraction : f.fraction bits = 0 <;> simp [htop, hfraction]
  · simp only [htop, if_false, beq_iff_eq, Bool.and_eq_true, false_and, false_iff]
    split <;> simp

theorem equal_iff : f.equal a b ↔
    ¬ f.isNaN a ∧ ¬ f.isNaN b ∧ (a = b ∨ f.isZero a ∧ f.isZero b) := by
  simp [equal, and_assoc]

theorem equal_symm (h : f.equal a b) : f.equal b a := by
  rw [equal_iff] at h ⊢
  obtain ⟨ha, hb, hsame⟩ := h
  exact ⟨hb, ha, hsame.imp Eq.symm And.symm⟩

theorem equal_trans (h : f.equal a b) (h' : f.equal b c) : f.equal a c := by
  rw [equal_iff] at h h' ⊢
  obtain ⟨ha, -, hsame⟩ := h
  obtain ⟨-, hc, hsame'⟩ := h'
  refine ⟨ha, hc, ?_⟩
  rcases hsame with rfl | hzeros
  · exact hsame'
  · rcases hsame' with rfl | hzeros'
    · exact .inr hzeros
    · exact .inr ⟨hzeros.1, hzeros'.2⟩

theorem equal_self_iff : f.equal a a ↔ f.classify a ≠ .nan := by
  rw [equal_iff, Ne, ← isNaN_iff]
  simp

end FloatFormat

/-! ### Scalars -/

namespace Scalar

/-- What kind of number a floating-point scalar is, of either width. -/
def class? : Scalar → Option FloatFormat.Class
  | .float32 x => some (FloatFormat.binary32.classify x.bits.toNat)
  | .float64 x => some (FloatFormat.binary64.classify x.bits.toNat)
  | _ => none

/-- Whether a scalar is a NaN. The zeros, the infinities and the subnormal numbers are
    numbers of other kinds. -/
def IsNaN (s : Scalar) : Prop :=
  s.class? = some .nan

instance : DecidablePred IsNaN := fun s =>
  inferInstanceAs (Decidable (s.class? = some .nan))

/-- Scalars that are equal are numbers of one width that are equal, or the same. -/
theorem equal_cases {s t : Scalar} (h : s.equal t) :
    (∃ x y, s = .float32 x ∧ t = .float32 y ∧ x.equal y) ∨
    (∃ x y, s = .float64 x ∧ t = .float64 y ∧ x.equal y) ∨ s = t := by
  unfold equal at h
  split at h
  · exact .inl ⟨_, _, rfl, rfl, h⟩
  · exact .inr (.inl ⟨_, _, rfl, rfl, h⟩)
  · exact .inr (.inr (of_decide_eq_true h))

theorem equal_symm {s t : Scalar} (h : s.equal t) : t.equal s := by
  rcases equal_cases h with ⟨x, y, rfl, rfl, hxy⟩ | ⟨x, y, rfl, rfl, hxy⟩ | rfl
  · exact FloatFormat.equal_symm _ hxy
  · exact FloatFormat.equal_symm _ hxy
  · exact h

theorem equal_trans {r s t : Scalar} (h : r.equal s) (h' : s.equal t) : r.equal t := by
  rcases equal_cases h with ⟨x, y, rfl, rfl, hxy⟩ | ⟨x, y, rfl, rfl, hxy⟩ | rfl
  · rcases equal_cases h' with ⟨y', z, hy, rfl, hyz⟩ | ⟨y', z, hy, rfl, hyz⟩ | rfl
    · cases hy
      exact FloatFormat.equal_trans _ hxy hyz
    · cases hy
    · exact h
  · rcases equal_cases h' with ⟨y', z, hy, rfl, hyz⟩ | ⟨y', z, hy, rfl, hyz⟩ | rfl
    · cases hy
    · cases hy
      exact FloatFormat.equal_trans _ hxy hyz
    · exact h
  · exact h'

theorem equal_self_iff (s : Scalar) : s.equal s ↔ ¬ s.IsNaN := by
  cases s with
  | float32 x =>
    rw [IsNaN, class?, Option.some_inj]
    exact FloatFormat.equal_self_iff _
  | float64 x =>
    rw [IsNaN, class?, Option.some_inj]
    exact FloatFormat.equal_self_iff _
  | _ => simp [equal, IsNaN, class?]

theorem type_eq_of_equal {s t : Scalar} (h : s.equal t) : s.type = t.type := by
  rcases equal_cases h with ⟨x, y, rfl, rfl, -⟩ | ⟨x, y, rfl, rfl, -⟩ | rfl <;> rfl

end Scalar

/-! ### Keys of members -/

namespace Members

variable {α : Type} {members members' : Members α}

theorem mem_keys_iff (members : Members α) (key : String) :
    key ∈ members.keys ↔ ∃ value, members.find? key = some value := by
  rw [← Option.ne_none_iff_exists', Ne, find?_eq_none_iff, not_not]

/-- A map with as many members as another one, which has all its keys, has all the keys of
    the other one. -/
theorem keys_perm_of_subset (hdistinct : members.Distinct) (hkeys : members.keys ⊆ members'.keys)
    (hlength : members.length = members'.length) : members.keys.Perm members'.keys := by
  apply (List.Nodup.subperm hdistinct hkeys).perm_of_length_le
  rw [keys, keys, List.length_map, List.length_map]
  exact Nat.le_of_eq hlength.symm

/-- Maps that have something under the same keys have the same keys. -/
theorem keys_perm_of_rel {R : α → α → Prop} (hdistinct : members.Distinct)
    (hdistinct' : members'.Distinct)
    (h : ∀ key, Option.Rel R (members.find? key) (members'.find? key)) :
    members.keys.Perm members'.keys := by
  refine (List.perm_ext_iff_of_nodup hdistinct hdistinct').mpr ?_
  intro key
  rw [← not_iff_not, ← find?_eq_none_iff, ← find?_eq_none_iff]
  exact rel_eq_none_iff (h key)

end Members

namespace Value

/-! ### Places in a value -/

mutual

/-- The scalars in a value, at every depth. -/
def scalars : Value → List Scalar
  | .scalar s => [s]
  | .array items => scalarsOfItems items
  | .map members => scalarsOfMembers members

/-- The scalars in the items of an array. -/
def scalarsOfItems : List Value → List Scalar
  | [] => []
  | v :: rest => scalars v ++ scalarsOfItems rest

/-- The scalars in what a map holds. -/
def scalarsOfMembers : List (String × Value) → List Scalar
  | [] => []
  | (_, v) :: rest => scalars v ++ scalarsOfMembers rest

end

/-- Whether a NaN stands somewhere in a value, at any depth. -/
def HasNaN (v : Value) : Prop :=
  ∃ s ∈ v.scalars, s.IsNaN

instance : DecidablePred HasNaN := fun v =>
  inferInstanceAs (Decidable (∃ s ∈ v.scalars, s.IsNaN))

theorem hasNaN_scalar_iff (s : Scalar) : HasNaN (.scalar s) ↔ s.IsNaN := by
  simp [HasNaN, scalars]

theorem hasNaN_array_iff (items : List Value) :
    HasNaN (.array items) ↔ ∃ v ∈ items, v.HasNaN := by
  induction items with
  | nil => simp [HasNaN, scalars, scalarsOfItems]
  | cons v rest ih =>
    simp only [HasNaN, scalars] at ih
    simp [HasNaN, scalars, scalarsOfItems, or_and_right, exists_or, ih]

theorem hasNaN_map_iff (members : List (String × Value)) :
    HasNaN (.map members) ↔ ∃ member ∈ members, member.2.HasNaN := by
  induction members with
  | nil => simp [HasNaN, scalars, scalarsOfMembers]
  | cons member rest ih =>
    simp only [HasNaN, scalars] at ih
    simp [HasNaN, scalars, scalarsOfMembers, or_and_right, exists_or, ih]

/-! ### Equality by places -/

/-- Arrays are equal if they hold equal values at each index. -/
theorem equal_array_iff (xs ys : List Value) :
    equal (.array xs) (.array ys) ↔ ∀ i : Nat, Option.Rel (equal · ·) xs[i]? ys[i]? := by
  rw [equal]
  induction xs generalizing ys with
  | nil =>
    cases ys with
    | nil => simp [equalItems]
    | cons y ys =>
      simp only [equalItems, Bool.false_eq_true, false_iff]
      intro h
      cases h 0
  | cons x xs ih =>
    cases ys with
    | nil =>
      simp only [equalItems, Bool.false_eq_true, false_iff]
      intro h
      cases h 0
    | cons y ys =>
      rw [equalItems, Bool.and_eq_true, ih]
      constructor
      · intro h i
        cases i with
        | zero => exact .some h.1
        | succ i => exact h.2 i
      · intro h
        refine ⟨?_, fun i => h (i + 1)⟩
        cases h 0 with
        | some hxy => exact hxy

theorem heldIn_iff (xs ys : List (String × Value)) : heldIn xs ys ↔
    ∀ member ∈ xs, ∃ held, Members.find? ys member.1 = some held ∧ member.2.equal held := by
  induction xs with
  | nil => simp [heldIn]
  | cons member rest ih =>
    rw [heldIn, Bool.and_eq_true, ih, List.forall_mem_cons]
    cases Members.find? ys member.1 <;> simp

/-- Maps are equal if they hold equal values under each key. -/
theorem equal_map_iff {xs ys : Members Value} (hxs : xs.Distinct) (hys : ys.Distinct) :
    equal (.map xs) (.map ys) ↔ ∀ key, Option.Rel (equal · ·) (xs.find? key) (ys.find? key) := by
  rw [equal, Bool.and_eq_true, beq_iff_eq, heldIn_iff]
  constructor
  · intro h key
    obtain ⟨hlength, hheld⟩ := h
    have hkeys : xs.keys.Perm ys.keys := by
      refine Members.keys_perm_of_subset hxs ?_ hlength
      intro k hk
      obtain ⟨v, hv⟩ := (xs.mem_keys_iff k).mp hk
      obtain ⟨held, hfind, -⟩ := hheld (k, v) (Members.mem_of_find?_eq_some hv)
      exact (ys.mem_keys_iff k).mpr ⟨held, hfind⟩
    cases hfind : xs.find? key with
    | none =>
      -- The other map has no further keys.
      rw [Members.find?_eq_none_iff, hkeys.mem_iff, ← Members.find?_eq_none_iff] at hfind
      rw [hfind]
      exact .none
    | some v =>
      obtain ⟨held, hfind', hequal⟩ := hheld (key, v) (Members.mem_of_find?_eq_some hfind)
      rw [hfind']
      exact .some hequal
  · intro h
    refine ⟨by simpa [Members.keys] using (Members.keys_perm_of_rel hxs hys h).length_eq, ?_⟩
    intro member hmember
    have hkey := h member.1
    rw [Members.find?_of_mem hxs hmember] at hkey
    exact exists_of_rel_some hkey

/-! ### What a value can be equal to -/

theorem exists_scalar_of_equal {s : Scalar} {b : Value} (h : equal (.scalar s) b) :
    ∃ t, b = .scalar t ∧ s.equal t := by
  cases b with
  | scalar t => exact ⟨t, rfl, h⟩
  | array ys => cases h
  | map ys => cases h

theorem exists_array_of_equal {xs : List Value} {b : Value} (h : equal (.array xs) b) :
    ∃ ys, b = .array ys := by
  cases b with
  | scalar t => cases h
  | array ys => exact ⟨ys, rfl⟩
  | map ys => cases h

theorem exists_map_of_equal {xs : List (String × Value)} {b : Value} (h : equal (.map xs) b) :
    ∃ ys, b = .map ys := by
  cases b with
  | scalar t => cases h
  | array ys => cases h
  | map ys => exact ⟨ys, rfl⟩

/-- Values of different types are never equal, whatever numbers they stand for. -/
theorem type_eq_of_equal {a b : Value} (h : a.equal b) : a.type = b.type := by
  cases a with
  | scalar s =>
    obtain ⟨t, rfl, hst⟩ := exists_scalar_of_equal h
    exact congrArg ItemType.scalar (Scalar.type_eq_of_equal hst)
  | array xs =>
    obtain ⟨ys, rfl⟩ := exists_array_of_equal h
    rfl
  | map xs =>
    obtain ⟨ys, rfl⟩ := exists_map_of_equal h
    rfl

/-! ### Laws of equality -/

theorem equal_symm {a b : Value} (ha : a.Distinct) (hb : b.Distinct) (h : a.equal b) :
    b.equal a := by
  induction a using partInduction generalizing b with
  | scalar s =>
    obtain ⟨t, rfl, hst⟩ := exists_scalar_of_equal h
    exact Scalar.equal_symm hst
  | array xs ih =>
    obtain ⟨ys, rfl⟩ := exists_array_of_equal h
    rw [equal_array_iff] at h ⊢
    intro i
    refine rel_symm (h i) ?_
    intro x hx y hy hxy
    have hx' := List.mem_of_getElem? hx
    have hy' := List.mem_of_getElem? hy
    exact ih x hx' (distinctItems_iff.mp ha x hx') (distinctItems_iff.mp hb y hy') hxy
  | map xs ih =>
    obtain ⟨ys, rfl⟩ := exists_map_of_equal h
    rw [equal_map_iff ha.1 hb.1] at h
    rw [equal_map_iff hb.1 ha.1]
    intro key
    refine rel_symm (h key) ?_
    intro x hx y hy hxy
    have hx' := Members.mem_of_find?_eq_some hx
    have hy' := Members.mem_of_find?_eq_some hy
    exact ih _ hx' (distinctMembers_iff.mp ha.2 _ hx') (distinctMembers_iff.mp hb.2 _ hy') hxy

theorem equal_trans {a b c : Value} (ha : a.Distinct) (hb : b.Distinct) (hc : c.Distinct)
    (h : a.equal b) (h' : b.equal c) : a.equal c := by
  induction a using partInduction generalizing b c with
  | scalar s =>
    obtain ⟨t, rfl, hst⟩ := exists_scalar_of_equal h
    obtain ⟨u, rfl, htu⟩ := exists_scalar_of_equal h'
    exact Scalar.equal_trans hst htu
  | array xs ih =>
    obtain ⟨ys, rfl⟩ := exists_array_of_equal h
    obtain ⟨zs, rfl⟩ := exists_array_of_equal h'
    rw [equal_array_iff] at h h' ⊢
    intro i
    refine rel_trans (h i) (h' i) ?_
    intro x hx y hy z hz hxy hyz
    have hx' := List.mem_of_getElem? hx
    exact ih x hx' (distinctItems_iff.mp ha x hx')
      (distinctItems_iff.mp hb y (List.mem_of_getElem? hy))
      (distinctItems_iff.mp hc z (List.mem_of_getElem? hz)) hxy hyz
  | map xs ih =>
    obtain ⟨ys, rfl⟩ := exists_map_of_equal h
    obtain ⟨zs, rfl⟩ := exists_map_of_equal h'
    rw [equal_map_iff ha.1 hb.1] at h
    rw [equal_map_iff hb.1 hc.1] at h'
    rw [equal_map_iff ha.1 hc.1]
    intro key
    refine rel_trans (h key) (h' key) ?_
    intro x hx y hy z hz hxy hyz
    have hx' := Members.mem_of_find?_eq_some hx
    exact ih _ hx' (distinctMembers_iff.mp ha.2 _ hx')
      (distinctMembers_iff.mp hb.2 _ (Members.mem_of_find?_eq_some hy))
      (distinctMembers_iff.mp hc.2 _ (Members.mem_of_find?_eq_some hz)) hxy hyz

/-- A value that holds no NaN is equal to itself in every order of its members. -/
theorem Reordered.equal {v v' : Value} (h : Reordered v v') (hdistinct : v.Distinct)
    (hnan : ¬ v.HasNaN) : v.equal v' := by
  induction v using partInduction generalizing v' with
  | scalar s =>
    cases h
    rw [hasNaN_scalar_iff] at hnan
    exact s.equal_self_iff.mpr hnan
  | array items ih =>
    cases h with
    | @array _ items' h =>
      rw [hasNaN_array_iff] at hnan
      rw [equal_array_iff]
      intro i
      refine rel_imp_of_mem (h.getElem?_rel i) ?_
      intro x hx x' hreordered
      have hx' := List.mem_of_getElem? hx
      exact ih x hx' hreordered (distinctItems_iff.mp hdistinct x hx') fun hx => hnan ⟨x, hx', hx⟩
  | map members ih =>
    cases h with
    | @map _ members' h =>
      have hdistinct' : Members.Distinct members' := h.keys_perm.nodup_iff.mp hdistinct.1
      rw [hasNaN_map_iff] at hnan
      rw [equal_map_iff hdistinct.1 hdistinct']
      intro key
      refine rel_imp_of_mem (h.find?_rel hdistinct.1 key) ?_
      intro x hx x' hreordered
      have hx' := Members.mem_of_find?_eq_some hx
      exact ih _ hx' hreordered (distinctMembers_iff.mp hdistinct.2 _ hx')
        fun hx => hnan ⟨_, hx', hx⟩

/-- A value that is equal to itself holds no NaN. -/
theorem not_hasNaN_of_equal {v : Value} (hdistinct : v.Distinct) (h : v.equal v) :
    ¬ v.HasNaN := by
  induction v using partInduction with
  | scalar s =>
    rw [hasNaN_scalar_iff]
    exact s.equal_self_iff.mp h
  | array items ih =>
    rw [equal_array_iff] at h
    rw [hasNaN_array_iff]
    rintro ⟨v, hv, hnan⟩
    obtain ⟨i, hi⟩ := List.mem_iff_getElem?.mp hv
    exact ih v hv (distinctItems_iff.mp hdistinct v hv) (rel_self_iff.mp (h i) v hi) hnan
  | map members ih =>
    rw [equal_map_iff hdistinct.1 hdistinct.1] at h
    rw [hasNaN_map_iff]
    rintro ⟨member, hmember, hnan⟩
    have hfind := Members.find?_of_mem hdistinct.1 hmember
    exact ih member hmember (distinctMembers_iff.mp hdistinct.2 member hmember)
      (rel_self_iff.mp (h member.1) member.2 hfind) hnan

/-- In another order a value is equal to what it was just when it holds no NaN. -/
theorem Reordered.equal_iff {v v' : Value} (h : Reordered v v') (hdistinct : v.Distinct) :
    v'.equal v ↔ ¬ v.HasNaN := by
  have hdistinct' := h.distinct hdistinct
  constructor
  · intro hequal
    have hself := equal_trans hdistinct hdistinct' hdistinct
      (equal_symm hdistinct' hdistinct hequal) hequal
    exact not_hasNaN_of_equal hdistinct hself
  · intro hnan
    exact equal_symm hdistinct hdistinct' (h.equal hdistinct hnan)

/-! ### Maps that were written -/

/-- **Equality is an equivalence but for NaNs, and so is the round trip.** Equality of values
    is symmetric and transitive. A value is equal to itself just when no NaN stands in it at
    any depth, and no values of different types are equal. Let a map be written by any
    encoder, in any order of its members. A decoder that allows as much nesting as the
    encoder takes what was written, and whatever a decoder makes of it is equal to the map
    just when no NaN stands in the map. -/
theorem equal_partial_equivalence {a b c : Value} (ha : a.Distinct) (hb : b.Distinct)
    (hc : c.Distinct) :
    (a.equal b → b.equal a) ∧ (a.equal b → b.equal c → a.equal c) ∧
    (a.equal a ↔ ¬ a.HasNaN) ∧ (a.type ≠ b.type → ¬ a.equal b) ∧
    ∀ (e : Encoder) (d : Decoder) (order : Members Value) (buffer : Buffer),
      Reordered a (.map order) → (e.marshalMap order).result = .ok buffer →
        d.WithinLimit buffer.toList →
          (e.maxDepth ≤ d.maxDepth → ∃ held, (d.decode buffer.toList).result = .ok held) ∧
          ∀ held, (d.decode buffer.toList).result = .ok held →
            ((Value.map held).equal a ↔ ¬ a.HasNaN) := by
  refine ⟨equal_symm ha hb, equal_trans ha hb hc, (Reordered.refl a).equal_iff ha, ?_, ?_⟩
  · intro htype hequal
    exact htype (type_eq_of_equal hequal)
  · intro e d order buffer horder hmarshal hlimit
    have hdecode := (Encoder.form_of_marshalMap hmarshal).result_decode_eq_ok_iff (Nat.zero_le _)
      (horder.distinct ha) hlimit
    constructor
    · intro hdepth
      obtain ⟨⟨-, -, hnesting⟩, -⟩ := (Encoder.marshalMap_eq_ok_iff e order buffer).mp hmarshal
      exact ⟨order, (hdecode order).mpr ⟨Nat.le_trans hnesting hdepth, rfl⟩⟩
    · intro held hheld
      -- What is decoded is the map as it was written, so only its order may be another one.
      obtain ⟨-, rfl⟩ := (hdecode held).mp hheld
      exact horder.equal_iff ha

/-- Zeros of either sign, an infinity and a subnormal number in equal maps, and a map with a
    NaN, which is not equal to itself. -/
theorem equal_partial_equivalence_zeros :
    let rest : List Value := [.scalar (.float64 ⟨0x7FF0000000000000⟩), .scalar (.float64 ⟨1⟩)]
    let a : Value := .map [("x", .scalar (.float32 ⟨0x80000000⟩)), ("y", .array rest)]
    let b : Value := .map [("y", .array rest), ("x", .scalar (.float32 ⟨0⟩))]
    let nan : Value := .map [("x", .array [.scalar (.float32 ⟨0x7FC00000⟩)])]
    let order : Members Value := [("y", .array rest), ("x", .scalar (.float32 ⟨0x80000000⟩))]
    let buffer : Buffer := #[0x90, 0, 41, 2, 0, 0, 0, 0xA0, 2, 24, 0x79, 0, 2, 0, 0, 0,
      0x48, 0, 0, 0, 0, 0, 0, 0, 0xF0, 0x7F, 0x48, 0, 1, 0, 0, 0, 0, 0, 0, 0,
      0x44, 2, 0x78, 0, 0, 0, 0, 0x80]
    a.equal b ∧ b.equal a ∧ a.equal a ∧ ¬ nan.equal nan ∧
      (Encoder.marshalMap ⟨2⟩ order).result = .ok buffer ∧
      ∃ held, ((⟨2, none, false⟩ : Decoder).decode buffer.toList).result = .ok held ∧
        (Value.map held).equal a := by
  intro rest a b nan order buffer
  have ha : a.Distinct := by
    simp [a, rest, Distinct, DistinctMembers, DistinctItems, Members.Distinct, Members.keys]
  have hb : b.Distinct := by
    simp [b, rest, Distinct, DistinctMembers, DistinctItems, Members.Distinct, Members.keys]
  have hnan : nan.Distinct := by
    simp [nan, Distinct, DistinctMembers, DistinctItems, Members.Distinct, Members.keys]
  have horder : Reordered a (.map order) := .map (.swap _ _ [])
  have hmarshal : (Encoder.marshalMap ⟨2⟩ order).result = .ok buffer :=
    (Encoder.marshalMap_eq_ok_iff ⟨2⟩ order buffer).mpr (by decide)
  have hlimit := Decoder.withinLimit_of_eq_none (d := ⟨2, none, false⟩) rfl buffer.toList
  have hequal : a.equal b := by decide
  obtain ⟨hsymm, -, hself, -, hround⟩ := equal_partial_equivalence ha hb ha
  obtain ⟨-, -, hself', -, -⟩ := equal_partial_equivalence hnan hnan hnan
  obtain ⟨hdecode, hheld⟩ := hround ⟨2⟩ ⟨2, none, false⟩ order buffer horder hmarshal hlimit
  obtain ⟨held, hdecoded⟩ := hdecode (Nat.le_refl 2)
  exact ⟨hequal, hsymm hequal, hself.mpr (by decide), fun h => hself'.mp h (by decide), hmarshal,
    held, hdecoded, (hheld held hdecoded).mpr (by decide)⟩

end Value

end BinaryPack
