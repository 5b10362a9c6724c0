import BinaryPack.Proofs.Datum.Conversion
import BinaryPack.Proofs.Value.Members
import Mathlib.Data.List.Induction
import Mathlib.Data.Nat.Find

/-! # Maps that are handed over step by step

  All that the builder of a map keeps between two steps is the map so far and one key. So
  the steps are told apart by their positions: a key waits before a position if no value
  since has used it up and no key has taken its place (`MapBuilder.Waits`), a value goes
  under the key that waits for it (`MapBuilder.PairsAt`), and a key or value has a fault of
  its own (`MapBuilder.FaultAt`). None of the three looks at what comes later.

  The invariant is that the builder holds just what these say of the positions so far
  (`MapBuilder.Built`). One more key or value keeps it, or is refused for its fault
  (`MapBuilder.take_eq_error_iff`), so the first fault ends the run.
-/

namespace BinaryPack

namespace MapBuilder

/-! ### Keys and values one by one -/

/-- What a builder is handed at a time. -/
inductive Part where
  | key (x : Datum)
  | value (y : Datum)

/-- The parts of some steps, one by one. An entry is a key and then a value. -/
def partsOf (steps : List (Step Datum)) : List Part :=
  steps.flatMap fun
    | .key x => [.key x]
    | .value y => [.value y]
    | .entry x y => [.key x, .value y]

@[simp] theorem partsOf_append (steps later : List (Step Datum)) :
    partsOf (steps ++ later) = partsOf steps ++ partsOf later :=
  List.flatMap_append

@[simp] theorem partsOf_key_cons (x : Datum) (later : List (Step Datum)) :
    partsOf (.key x :: later) = .key x :: partsOf later := rfl

@[simp] theorem partsOf_value_cons (y : Datum) (later : List (Step Datum)) :
    partsOf (.value y :: later) = .value y :: partsOf later := rfl

@[simp] theorem partsOf_entry_cons (x y : Datum) (later : List (Step Datum)) :
    partsOf (.entry x y :: later) = .key x :: .value y :: partsOf later := rfl

/-- Takes a part: converts a key before it looks at it, and a value only if a key waits. -/
def take (b : MapBuilder) : Part → Except MarshalError MapBuilder
  | .key x => x.toValue.bind b.key
  | .value y => b.value y.toValue

theorem foldlM_stepValues (steps : List (Step Datum)) (b : MapBuilder) :
    (Datum.stepValues steps).foldlM step b = (partsOf steps).foldlM take b := by
  induction steps generalizing b with
  | nil => rfl
  | cons first rest ih =>
    cases first with
    | key x =>
      rw [Datum.stepValues, List.foldlM_cons, partsOf_key_cons, List.foldlM_cons]
      simp only [ih]
      rfl
    | value y =>
      rw [Datum.stepValues, List.foldlM_cons, partsOf_value_cons, List.foldlM_cons]
      simp only [ih]
      rfl
    | entry x y =>
      rw [Datum.stepValues, List.foldlM_cons, partsOf_entry_cons, List.foldlM_cons]
      simp only [ih, List.foldlM_cons]
      rw [← bind_assoc]
      rfl

/-! ### Positions -/

/-- The key `x` at `k` waits before `i`: since then no value has used it up, and no key has
    taken its place. -/
structure Waits (parts : List Part) (k i : Nat) (x : Datum) : Prop where
  before : k < i
  key : parts[k]? = some (.key x)
  unused : ∀ j y, k < j → j < i → parts[j]? ≠ some (.value y)
  kept : ∀ j y, k < j → j < i → parts[j]? ≠ some (.key y)

/-- The value at `i` goes under `text`, the key that waits for it, and is converted to `v`. -/
def PairsAt (parts : List Part) (i : Nat) (text : String) (v : Value) : Prop :=
  ∃ k x y, Waits parts k i x ∧ x.toValue = .ok (.scalar (.string text)) ∧
    parts[i]? = some (.value y) ∧ y.toValue = .ok v

/-- No value after `i` goes under the same key. -/
def LastPairsAt (parts : List Part) (i : Nat) (text : String) (v : Value) : Prop :=
  PairsAt parts i text v ∧ ∀ j > i, ∀ later, ¬ PairsAt parts j text later

/-- What the part at `i` is refused for. -/
inductive FaultAt (parts : List Part) (i : Nat) : MarshalError → Prop where
  /-- A key is not converted. -/
  | key {x : Datum} {cause : MarshalError} (hpart : parts[i]? = some (.key x))
    (hx : x.toValue = .error cause) : FaultAt parts i cause
  /-- A key is converted, and to something else than a text. -/
  | keyType {x : Datum} {v : Value} (hpart : parts[i]? = some (.key x))
    (hx : x.toValue = .ok v) (hother : ∀ text, v ≠ .scalar (.string text)) :
    FaultAt parts i (.keyType v.typeName)
  /-- No key waits for a value, converted or not. -/
  | valueBeforeKey {y : Datum} (hpart : parts[i]? = some (.value y))
    (hnone : ∀ k x, ¬ Waits parts k i x) : FaultAt parts i .valueBeforeKey
  /-- A value for which a key waits is not converted. -/
  | value {y x : Datum} {k : Nat} {cause : MarshalError} (hpart : parts[i]? = some (.value y))
    (hwaits : Waits parts k i x) (hy : y.toValue = .error cause) : FaultAt parts i cause

/-- What the first part with a fault is refused for. -/
def FirstFault (parts : List Part) (cause : MarshalError) : Prop :=
  ∃ i, FaultAt parts i cause ∧ ∀ j < i, ∀ earlier, ¬ FaultAt parts j earlier

section

variable {parts parts' : List Part} {i k : Nat} {x y : Datum}

/-- As each part is a key or a value, only the last one can be a key that waits. -/
theorem waits_iff (hi : i ≤ parts.length) :
    Waits parts k i x ↔ i = k + 1 ∧ parts[k]? = some (.key x) := by
  constructor
  · intro h
    refine ⟨?_, h.key⟩
    by_contra hne
    have hbefore := h.before
    have hnext : k + 1 < i := by omega
    have hlt : k + 1 < parts.length := by omega
    -- Whatever comes in between uses the key up or takes its place.
    cases hpart : parts[k + 1] with
    | key y => exact h.kept _ y (by omega) hnext (List.getElem?_eq_some_iff.mpr ⟨hlt, hpart⟩)
    | value y => exact h.unused _ y (by omega) hnext (List.getElem?_eq_some_iff.mpr ⟨hlt, hpart⟩)
  · intro h
    obtain ⟨rfl, hkey⟩ := h
    refine ⟨by omega, hkey, ?_, ?_⟩
    · intro j y hlt hle
      omega
    · intro j y hlt hle
      omega

/-- A key is used up by one value at most. -/
theorem Waits.eq_of_value {i' : Nat} {x' y' : Datum} (h : Waits parts k i x)
    (hpart : parts[i]? = some (.value y)) (h' : Waits parts k i' x')
    (hpart' : parts[i']? = some (.value y')) : i = i' := by
  rcases Nat.lt_trichotomy i i' with hlt | heq | hgt
  · exact absurd hpart (h'.unused i y h.before hlt)
  · exact heq
  · exact absurd hpart' (h.unused i' y' h'.before hgt)

/-! ### What comes before decides -/

theorem Waits.congr (h : Waits parts k i x) (hsame : ∀ j < i, parts[j]? = parts'[j]?) :
    Waits parts' k i x := by
  refine ⟨h.before, (hsame k h.before).symm.trans h.key, ?_, ?_⟩
  · intro j y hlt hle
    rw [← hsame j hle]
    exact h.unused j y hlt hle
  · intro j y hlt hle
    rw [← hsame j hle]
    exact h.kept j y hlt hle

theorem PairsAt.congr {text : String} {v : Value} (h : PairsAt parts i text v)
    (hsame : ∀ j ≤ i, parts[j]? = parts'[j]?) : PairsAt parts' i text v := by
  obtain ⟨k, x, y, hwaits, hx, hpart, hy⟩ := h
  have hwaits' := hwaits.congr fun j hj => hsame j (Nat.le_of_lt hj)
  exact ⟨k, x, y, hwaits', hx, (hsame i (Nat.le_refl i)).symm.trans hpart, hy⟩

theorem FaultAt.congr {cause : MarshalError} (h : FaultAt parts i cause)
    (hsame : ∀ j ≤ i, parts[j]? = parts'[j]?) : FaultAt parts' i cause := by
  have hown := (hsame i (Nat.le_refl i)).symm
  have hbefore : ∀ j < i, parts[j]? = parts'[j]? := fun j hj => hsame j (Nat.le_of_lt hj)
  cases h with
  | key hpart hx => exact .key (hown.trans hpart) hx
  | keyType hpart hx hother => exact .keyType (hown.trans hpart) hx hother
  | valueBeforeKey hpart hnone =>
    refine .valueBeforeKey (hown.trans hpart) ?_
    intro k x hwaits
    exact hnone k x (hwaits.congr fun j hj => (hbefore j hj).symm)
  | value hpart hwaits hy => exact .value (hown.trans hpart) (hwaits.congr hbefore) hy

theorem FaultAt.lt_length {cause : MarshalError} (h : FaultAt parts i cause) :
    i < parts.length := by
  cases h with
  | key hpart | keyType hpart | valueBeforeKey hpart | value hpart =>
    exact (List.getElem?_eq_some_iff.mp hpart).1

theorem PairsAt.lt_length {text : String} {v : Value} (h : PairsAt parts i text v) :
    i < parts.length := by
  obtain ⟨k, x, y, -, -, hpart, -⟩ := h
  exact (List.getElem?_eq_some_iff.mp hpart).1

/-! ### Faults of keys and of values -/

theorem faultAt_iff_of_key (hpart : parts[i]? = some (.key x)) {cause : MarshalError} :
    FaultAt parts i cause ↔ x.toValue = .error cause ∨
      ∃ v, x.toValue = .ok v ∧ cause = .keyType v.typeName ∧
        ∀ text, v ≠ .scalar (.string text) := by
  constructor
  · intro h
    cases h with
    | key hpart' hx =>
      cases hpart.symm.trans hpart'
      exact .inl hx
    | keyType hpart' hx hother =>
      cases hpart.symm.trans hpart'
      exact .inr ⟨_, hx, rfl, hother⟩
    | valueBeforeKey hpart' | value hpart' => cases hpart.symm.trans hpart'
  · intro h
    rcases h with hx | ⟨v, hx, rfl, hother⟩
    · exact .key hpart hx
    · exact .keyType hpart hx hother

theorem faultAt_iff_of_value (hpart : parts[i]? = some (.value y)) {cause : MarshalError} :
    FaultAt parts i cause ↔ ((∀ k x, ¬ Waits parts k i x) ∧ cause = .valueBeforeKey) ∨
      (∃ k x, Waits parts k i x) ∧ y.toValue = .error cause := by
  constructor
  · intro h
    cases h with
    | key hpart' | keyType hpart' => cases hpart.symm.trans hpart'
    | valueBeforeKey _ hnone => exact .inl ⟨hnone, rfl⟩
    | value hpart' hwaits hy =>
      cases hpart.symm.trans hpart'
      exact .inr ⟨⟨_, _, hwaits⟩, hy⟩
  · intro h
    rcases h with ⟨hnone, rfl⟩ | ⟨⟨k, x, hwaits⟩, hy⟩
    · exact .valueBeforeKey hpart hnone
    · exact .value hpart hwaits hy

end

/-! ### One more part -/

section

variable {parts : List Part} {part : Part} {b b' : MapBuilder}

/-- What a builder holds after some parts without a fault. -/
structure Built (parts : List Part) (b : MapBuilder) : Prop where
  distinct : b.members.Distinct
  /-- The key that it keeps is the one that waits at the end. -/
  pending : ∀ text, b.pending = some text ↔
    ∃ k x, Waits parts k parts.length x ∧ x.toValue = .ok (.scalar (.string text))
  idle : b.pending = none → ∀ k x, ¬ Waits parts k parts.length x
  /-- Under a key is the last value that goes there. -/
  held : ∀ text v, b.members.find? text = some v ↔ ∃ i, LastPairsAt parts i text v

theorem built_nil : Built [] ⟨[], none⟩ where
  distinct := List.nodup_nil
  pending := by
    intro text
    constructor
    · intro h
      cases h
    · intro h
      obtain ⟨k, x, hwaits, -⟩ := h
      exact absurd hwaits.before (Nat.not_lt_zero k)
  idle := fun _ k x hwaits => Nat.not_lt_zero k hwaits.before
  held := by
    intro text v
    constructor
    · intro h
      cases h
    · intro h
      obtain ⟨i, hpair, -⟩ := h
      exact absurd hpair.lt_length (Nat.not_lt_zero i)

theorem getElem?_concat_of_le {i j : Nat} (hi : i < parts.length) (hj : j ≤ i) :
    (parts ++ [part])[j]? = parts[j]? :=
  List.getElem?_append_left (by omega)

/-- Before a position within the parts, it makes no difference what comes after them. -/
theorem waits_concat_length_iff {k : Nat} {x : Datum} :
    Waits (parts ++ [part]) k parts.length x ↔ Waits parts k parts.length x := by
  have hsame : ∀ j < parts.length, (parts ++ [part])[j]? = parts[j]? :=
    fun j hj => List.getElem?_append_left hj
  exact ⟨fun h => h.congr hsame, fun h => h.congr fun j hj => (hsame j hj).symm⟩

/-- The last part waits just if it is a key. -/
theorem waits_concat_iff {k : Nat} {x : Datum} :
    Waits (parts ++ [part]) k (parts ++ [part]).length x ↔ k = parts.length ∧ part = .key x := by
  rw [waits_iff (Nat.le_refl _), List.length_append, List.length_singleton]
  constructor
  · intro h
    obtain ⟨hk, hkey⟩ := h
    obtain rfl : k = parts.length := by omega
    rw [List.getElem?_concat_length] at hkey
    exact ⟨rfl, Option.some.inj hkey⟩
  · intro h
    obtain ⟨rfl, rfl⟩ := h
    exact ⟨rfl, List.getElem?_concat_length⟩

/-- A builder refuses a part just for the fault that the part has. -/
theorem take_eq_error_iff (h : Built parts b) {cause : MarshalError} :
    b.take part = .error cause ↔ FaultAt (parts ++ [part]) parts.length cause := by
  have hpart : (parts ++ [part])[parts.length]? = some part := List.getElem?_concat_length
  cases part with
  | key x =>
    rw [faultAt_iff_of_key hpart]
    show x.toValue.bind b.key = _ ↔ _
    cases x.toValue with
    | error own => simp [Except.bind]
    | ok v =>
      show b.key v = _ ↔ _
      rw [key_eq_error_iff]
      simp
  | value y =>
    rw [faultAt_iff_of_value hpart]
    show b.value y.toValue = _ ↔ _
    simp only [value_eq_error_iff, waits_concat_length_iff]
    cases hpending : b.pending with
    | none =>
      have hidle := h.idle hpending
      simp [hidle]
    | some text =>
      obtain ⟨k, x, hwaits, -⟩ := (h.pending text).mp hpending
      have hsome : ∃ k x, Waits parts k parts.length x := ⟨k, x, hwaits⟩
      have hnot : ¬ ∀ k x, ¬ Waits parts k parts.length x := fun hnone => hnone k x hwaits
      simp [hsome, hnot]

/-- The last part makes a pair just if it is a value for which a key waits. -/
theorem Built.pairsAt_concat_iff (h : Built parts b) {text : String} {v : Value} :
    PairsAt (parts ++ [part]) parts.length text v ↔
      ∃ y, part = .value y ∧ b.pending = some text ∧ y.toValue = .ok v := by
  have hpart : (parts ++ [part])[parts.length]? = some part := List.getElem?_concat_length
  constructor
  · intro hpair
    obtain ⟨k, x, y, hwaits, hx, hpart', hy⟩ := hpair
    refine ⟨y, Option.some.inj (hpart.symm.trans hpart'), ?_, hy⟩
    exact (h.pending text).mpr ⟨k, x, waits_concat_length_iff.mp hwaits, hx⟩
  · intro hvalue
    obtain ⟨y, rfl, hpending, hy⟩ := hvalue
    obtain ⟨k, x, hwaits, hx⟩ := (h.pending text).mp hpending
    exact ⟨k, x, y, waits_concat_length_iff.mpr hwaits, hx, hpart, hy⟩

/-- The last pair with a key is the last part, if this makes one, and else the one before. -/
theorem exists_lastPairsAt_concat_iff {text : String} {v : Value} :
    (∃ i, LastPairsAt (parts ++ [part]) i text v) ↔
      PairsAt (parts ++ [part]) parts.length text v ∨
      (∀ w, ¬ PairsAt (parts ++ [part]) parts.length text w) ∧
        ∃ i, LastPairsAt parts i text v := by
  have hlength : (parts ++ [part]).length = parts.length + 1 := List.length_append
  constructor
  · intro hsome
    obtain ⟨i, hpair, hlast⟩ := hsome
    have hi := hpair.lt_length
    by_cases hend : i = parts.length
    · exact .inl (hend ▸ hpair)
    · have hwithin : i < parts.length := by omega
      refine .inr ⟨hlast _ hwithin, i, hpair.congr fun j => getElem?_concat_of_le hwithin, ?_⟩
      intro j hj later hlater
      refine hlast j hj later (hlater.congr ?_)
      exact fun l hl => (getElem?_concat_of_le hlater.lt_length hl).symm
  · intro hsome
    rcases hsome with hpair | ⟨hnone, i, hpair, hlast⟩
    · refine ⟨parts.length, hpair, ?_⟩
      intro j hj later hlater
      have hbound := hlater.lt_length
      omega
    · refine ⟨i, hpair.congr fun j hj => (getElem?_concat_of_le hpair.lt_length hj).symm, ?_⟩
      intro j hj later hlater
      have hbound := hlater.lt_length
      by_cases hend : j = parts.length
      · exact hnone later (hend ▸ hlater)
      · have hwithin : j < parts.length := by omega
        exact hlast j hj later (hlater.congr fun l => getElem?_concat_of_le hwithin)

/-- A part that is taken keeps the invariant. -/
theorem Built.take (h : Built parts b) (htake : b.take part = .ok b') :
    Built (parts ++ [part]) b' := by
  cases part with
  | key x =>
    obtain ⟨v, hx, hkey⟩ := bind_eq_ok_iff.mp htake
    obtain ⟨waiting, rfl, rfl⟩ := key_eq_ok_iff.mp hkey
    refine ⟨h.distinct, ?_, ?_, ?_⟩
    · intro text
      simp only [waits_concat_iff]
      constructor
      · intro hsome
        cases hsome
        exact ⟨_, x, ⟨rfl, rfl⟩, hx⟩
      · intro hwaits
        obtain ⟨k, x', ⟨rfl, hsame⟩, hx'⟩ := hwaits
        cases hsame
        cases hx.symm.trans hx'
        rfl
    · intro hnone
      cases hnone
    · intro text v
      simp only [exists_lastPairsAt_concat_iff, h.pairsAt_concat_iff]
      simpa using h.held text v
  | value y =>
    obtain ⟨waiting, v, hpending, hy, rfl⟩ := value_eq_ok_iff.mp htake
    refine ⟨h.distinct.insert waiting v, ?_, ?_, ?_⟩
    · intro text
      simp only [waits_concat_iff]
      simp
    · intro _ k x hwaits
      cases (waits_concat_iff.mp hwaits).2
    · -- Only under the key that waited there is another last pair than before.
      intro text w
      simp only [exists_lastPairsAt_concat_iff, h.pairsAt_concat_iff, hpending]
      by_cases hkey : text = waiting
      · subst hkey
        simp [hy]
      · rw [Members.find?_insert_ne _ _ hkey, h.held]
        simp [Ne.symm hkey]

/-! ### All parts -/

theorem foldlM_concat (b : MapBuilder) :
    (parts ++ [part]).foldlM take b = parts.foldlM take b >>= fun b => b.take part := by
  simp only [List.foldlM_append, List.foldlM_cons, List.foldlM_nil, bind_pure]

theorem built_of_foldlM (h : parts.foldlM take ⟨[], none⟩ = .ok b) : Built parts b := by
  -- One part more is put at the end, so that the others keep their positions.
  induction parts using List.reverseRecOn generalizing b with
  | nil =>
    cases h
    exact built_nil
  | append_singleton parts part ih =>
    rw [foldlM_concat] at h
    obtain ⟨before, hbefore, hpart⟩ := bind_eq_ok_iff.mp h
    exact (ih hbefore).take hpart

theorem FaultAt.exists_firstFault {i : Nat} {cause : MarshalError} (h : FaultAt parts i cause) :
    ∃ first, FirstFault parts first := by
  classical
  have hsome : ∃ i cause, FaultAt parts i cause := ⟨i, cause, h⟩
  obtain ⟨first, hfirst⟩ := Nat.find_spec hsome
  refine ⟨first, Nat.find hsome, hfirst, ?_⟩
  intro j hj earlier hearlier
  exact Nat.find_min hsome hj ⟨earlier, hearlier⟩

theorem PairsAt.exists_lastPairsAt {i : Nat} {text : String} {v : Value}
    (h : PairsAt parts i text v) : ∃ j w, LastPairsAt parts j text w := by
  classical
  have hi := Nat.le_of_lt h.lt_length
  obtain ⟨w, hw⟩ := Nat.findGreatest_spec (P := fun j => ∃ w, PairsAt parts j text w) hi ⟨v, h⟩
  refine ⟨_, w, hw, ?_⟩
  intro j hj later hlater
  exact Nat.findGreatest_is_greatest hj (Nat.le_of_lt hlater.lt_length) ⟨later, hlater⟩

theorem faultAt_concat_iff {i : Nat} {cause : MarshalError} (hi : i < parts.length) :
    FaultAt (parts ++ [part]) i cause ↔ FaultAt parts i cause := by
  have hsame : ∀ j ≤ i, (parts ++ [part])[j]? = parts[j]? := fun j => getElem?_concat_of_le hi
  exact ⟨fun h => h.congr hsame, fun h => h.congr fun j hj => (hsame j hj).symm⟩

/-- After a fault it makes no difference what comes. -/
theorem FirstFault.concat_iff {first cause : MarshalError} (h : FirstFault parts first) :
    FirstFault (parts ++ [part]) cause ↔ FirstFault parts cause := by
  obtain ⟨i, hfault, -⟩ := h
  have hlt := hfault.lt_length
  constructor
  · intro hfirst
    obtain ⟨i', hi', hbefore⟩ := hfirst
    have hlt' : i' < parts.length := by
      by_contra hge
      exact hbefore i (by omega) first ((faultAt_concat_iff hlt).mpr hfault)
    refine ⟨i', (faultAt_concat_iff hlt').mp hi', ?_⟩
    intro j hj earlier hearlier
    exact hbefore j hj earlier ((faultAt_concat_iff (by omega)).mpr hearlier)
  · intro hfirst
    obtain ⟨i', hi', hbefore⟩ := hfirst
    have hlt' := hi'.lt_length
    refine ⟨i', (faultAt_concat_iff hlt').mpr hi', ?_⟩
    intro j hj earlier hearlier
    exact hbefore j hj earlier ((faultAt_concat_iff (by omega)).mp hearlier)

/-- Without a fault so far the first one can only be that of the last part. -/
theorem firstFault_concat_iff {cause : MarshalError}
    (hnone : ∀ i earlier, ¬ FaultAt parts i earlier) :
    FirstFault (parts ++ [part]) cause ↔ FaultAt (parts ++ [part]) parts.length cause := by
  constructor
  · intro hfirst
    obtain ⟨i, hi, -⟩ := hfirst
    have hlt := hi.lt_length
    rw [List.length_append, List.length_singleton] at hlt
    obtain hwithin | rfl := Nat.lt_succ_iff_lt_or_eq.mp hlt
    · exact absurd ((faultAt_concat_iff hwithin).mp hi) (hnone i cause)
    · exact hi
  · intro hfault
    refine ⟨parts.length, hfault, ?_⟩
    intro j hj earlier hearlier
    exact hnone j earlier ((faultAt_concat_iff hj).mp hearlier)

/-- A builder fails just with the first fault. -/
theorem foldlM_eq_error_iff {cause : MarshalError} :
    parts.foldlM take ⟨[], none⟩ = .error cause ↔ FirstFault parts cause := by
  induction parts using List.reverseRecOn generalizing cause with
  | nil =>
    constructor
    · intro h
      cases h
    · intro h
      obtain ⟨i, hfault, -⟩ := h
      exact absurd hfault.lt_length (Nat.not_lt_zero i)
  | append_singleton parts part ih =>
    rw [foldlM_concat]
    cases hrun : parts.foldlM take ⟨[], none⟩ with
    | error first =>
      -- The part comes after a fault, and is not taken any more.
      rw [(ih.mp hrun).concat_iff, ← ih, hrun]
      rfl
    | ok b =>
      -- Had there been a fault before, the run would have ended with the first one.
      have hnone : ∀ i earlier, ¬ FaultAt parts i earlier := by
        intro i earlier hearlier
        obtain ⟨first, hfirst⟩ := hearlier.exists_firstFault
        cases hrun.symm.trans (ih.mpr hfirst)
      rw [firstFault_concat_iff hnone, ← take_eq_error_iff (built_of_foldlM hrun)]
      rfl

/-- The keys that are there are those under which a value goes. -/
theorem Built.mem_keys_iff (h : Built parts b) {text : String} :
    text ∈ b.members.keys ↔ ∃ i v, PairsAt parts i text v := by
  constructor
  · intro hmem
    cases hfind : b.members.find? text with
    | none => exact absurd hmem ((Members.find?_eq_none_iff _ _).mp hfind)
    | some v =>
      obtain ⟨i, hpair, -⟩ := (h.held text v).mp hfind
      exact ⟨i, v, hpair⟩
  · intro hsome
    obtain ⟨i, v, hpair⟩ := hsome
    obtain ⟨j, w, hlast⟩ := hpair.exists_lastPairsAt
    have hfind := (h.held text w).mpr ⟨j, hlast⟩
    exact List.mem_map_of_mem (Members.mem_of_find?_eq_some hfind)

theorem take_key_of_toValue {x : Datum} {text : String}
    (hx : x.toValue = .ok (.scalar (.string text))) (b : MapBuilder) :
    b.take (.key x) = .ok ⟨b.members, some text⟩ := by
  show x.toValue.bind b.key = _
  rw [hx]
  rfl

end

end MapBuilder

namespace Datum

open MapBuilder

theorem toValue_map (announced : Bool) (steps : List (Step Datum)) :
    (Datum.map announced steps).toValue
      = ((partsOf steps).foldlM take ⟨[], none⟩).map fun b => .map b.members := by
  show (((stepValues steps).foldlM MapBuilder.step ⟨[], none⟩).map _).map Value.map = _
  rw [foldlM_stepValues]
  cases (partsOf steps).foldlM take ⟨[], none⟩ <;> rfl

/-- A key that comes right after another one takes its place. -/
theorem toValue_map_key_key (announced : Bool) (steps later : List (Step Datum))
    {x : Datum} {text : String} (hx : x.toValue = .ok (.scalar (.string text))) (x' : Datum) :
    (Datum.map announced (steps ++ .key x :: .key x' :: later)).toValue
      = (Datum.map announced (steps ++ .key x' :: later)).toValue := by
  simp only [toValue_map, partsOf_append, partsOf_key_cons, List.foldlM_append, List.foldlM_cons,
    take_key_of_toValue hx]
  rfl

/-- A key that waits at the end adds nothing. -/
theorem toValue_map_key_end (announced : Bool) (steps : List (Step Datum))
    {x : Datum} {text : String} (hx : x.toValue = .ok (.scalar (.string text))) :
    (Datum.map announced (steps ++ [.key x])).toValue = (Datum.map announced steps).toValue := by
  have hend : partsOf (steps ++ [.key x]) = partsOf steps ++ [.key x] := partsOf_append _ _
  rw [toValue_map, toValue_map, hend, foldlM_concat]
  cases (partsOf steps).foldlM take ⟨[], none⟩ with
  | error cause => rfl
  | ok b =>
    show (b.take (.key x)).map _ = _
    rw [take_key_of_toValue hx]
    rfl

/-- Steps after a failure make no difference. -/
theorem toValue_map_append_of_error {announced : Bool} {steps : List (Step Datum)}
    {cause : MarshalError} (h : (Datum.map announced steps).toValue = .error cause)
    (later : List (Step Datum)) :
    (Datum.map announced (steps ++ later)).toValue = .error cause := by
  rw [toValue_map] at h ⊢
  rw [partsOf_append, List.foldlM_append]
  cases hrun : (partsOf steps).foldlM take ⟨[], none⟩ with
  | error own =>
    rw [hrun] at h
    cases h
    rfl
  | ok b =>
    rw [hrun] at h
    cases h

/-- **What becomes of a map that is handed over step by step**, whatever the steps. An entry
    is a key and then a value. Conversion fails with the first fault: a key that is not
    converted, or not to a text, a value for which no key waits, converted or not, or a value
    that is not converted. The error is a marshal error, and later steps make no difference
    to it.

    Without a fault the result is a map. It has the keys under which some value goes, each
    with the last such value. A key is used up by one value at most; another key right after
    it takes its place, and at the end of the steps it adds nothing. -/
theorem toValue_map_outcome (announced : Bool) (steps : List (Step Datum)) :
    (∀ error, (Datum.map announced steps).toValue.mapError Error.marshal = .error error ↔
      ∃ cause, error = .marshal cause ∧ FirstFault (partsOf steps) cause) ∧
    (∀ cause, (Datum.map announced steps).toValue = .error cause →
      ∀ later, (Datum.map announced (steps ++ later)).toValue = .error cause) ∧
    ((∀ i cause, ¬ FaultAt (partsOf steps) i cause) → ∃ members : Members Value,
      (Datum.map announced steps).toValue = .ok (.map members) ∧ members.Distinct ∧
        (∀ text, text ∈ members.keys ↔ ∃ i v, PairsAt (partsOf steps) i text v) ∧
        ∀ text v, members.find? text = some v ↔ ∃ i, LastPairsAt (partsOf steps) i text v) ∧
    (∀ k i i' x x' y y', Waits (partsOf steps) k i x → (partsOf steps)[i]? = some (.value y) →
      Waits (partsOf steps) k i' x' → (partsOf steps)[i']? = some (.value y') → i = i') ∧
    (∀ x text, x.toValue = .ok (.scalar (.string text)) →
      (∀ x' later, (Datum.map announced (steps ++ .key x :: .key x' :: later)).toValue
        = (Datum.map announced (steps ++ .key x' :: later)).toValue) ∧
      (Datum.map announced (steps ++ [.key x])).toValue
        = (Datum.map announced steps).toValue) ∧
    (∀ x y later, (Datum.map announced (steps ++ .entry x y :: later)).toValue
      = (Datum.map announced (steps ++ .key x :: .value y :: later)).toValue) := by
  refine ⟨?_, fun cause => toValue_map_append_of_error, ?_, ?_, ?_, ?_⟩
  · intro error
    rw [mapError_eq_error_iff, toValue_map]
    constructor
    · intro h
      obtain ⟨cause, hcause, rfl⟩ := h
      exact ⟨cause, rfl, foldlM_eq_error_iff.mp (map_eq_error_iff.mp hcause)⟩
    · intro h
      obtain ⟨cause, rfl, hfirst⟩ := h
      exact ⟨cause, map_eq_error_iff.mpr (foldlM_eq_error_iff.mpr hfirst), rfl⟩
  · intro hnone
    rw [toValue_map]
    cases hrun : (partsOf steps).foldlM take ⟨[], none⟩ with
    | error cause =>
      obtain ⟨i, hfault, -⟩ := foldlM_eq_error_iff.mp hrun
      exact absurd hfault (hnone i cause)
    | ok b =>
      have hbuilt := built_of_foldlM hrun
      exact ⟨b.members, rfl, hbuilt.distinct, fun text => hbuilt.mem_keys_iff, hbuilt.held⟩
  · intro k i i' x x' y y' hwaits hpart hwaits' hpart'
    exact hwaits.eq_of_value hpart hwaits' hpart'
  · intro x text hx
    exact ⟨fun x' later => toValue_map_key_key announced steps later hx x',
      toValue_map_key_end announced steps hx⟩
  · intro x y later
    simp only [toValue_map, partsOf_append, partsOf_entry_cons, partsOf_key_cons,
      partsOf_value_cons]

/-- A value that cannot be converted is not looked at if no key waits for it. -/
example :
    let x : Datum := .failure "no"
    (Datum.map false [.value x]).toValue = .error .valueBeforeKey ∧
      (Datum.map false [.key (.char 'k'), .value x]).toValue = .error (.other "no") ∧
      (Datum.map false [.key x, .value x]).toValue = .error (.other "no") :=
  ⟨rfl, rfl, rfl⟩

end Datum

end BinaryPack
