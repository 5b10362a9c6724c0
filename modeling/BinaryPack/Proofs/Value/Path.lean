import BinaryPack.Value.Path

/-! # What paths reach

  A path is cut at every dot, as often as there are dots, so its segments are one or more
  keys without dots, and any such keys are the segments of a path
  (`Path.exists_segments_eq_iff`). Paths that are put together with a dot have the segments
  of both, and a lookup follows its segments one by one; so to look up the whole is to look
  up the second path in the map that the first one ends at (`Members.lookup_dot`).

  Where a value stands is told by the keys that lead to it from one map to the next
  (`Members.Holds`), and not by the value, which may stand elsewhere too. A path reaches
  what stands under its segments and nothing else. A member stands out of the reach of
  every path if its key has a dot, and then so does what is below it.

  A getter answers for one type of values. What it finds at a path is told by the lookup
  alone (`Members.lookup_outcome`).
-/

namespace BinaryPack

namespace Path

/-! ### Segments -/

/-- A path is cut as the library cuts lists. -/
theorem cut_eq_splitOn (cs : List Char) : cut cs = cs.splitOn '.' := by
  induction cs with
  | nil => rfl
  | cons c cs ih =>
    rw [List.splitOn_cons_eq_if_modifyHead, cut]
    by_cases hdot : c = '.'
    · rw [if_pos hdot, if_pos (beq_iff_eq.mpr hdot), ih]
    · rw [if_neg hdot, if_neg (mt beq_iff_eq.mp hdot), ← ih]
      cases hcut : cut cs with
      | nil => exact absurd (ih.symm.trans hcut) (List.splitOn_ne_nil _ _)
      | cons segment segments => rfl

theorem segments_eq_splitOn (path : String) :
    segments path = (path.toList.splitOn '.').map String.ofList := by
  unfold segments
  rw [cut_eq_splitOn]

theorem segments_ne_nil (path : String) : segments path ≠ [] := by
  rw [segments_eq_splitOn]
  exact mt List.map_eq_nil_iff.mp (List.splitOn_ne_nil _ _)

/-- There is a first segment. -/
theorem exists_segments_eq_cons (path : String) :
    ∃ first rest, segments path = first :: rest :=
  List.exists_cons_of_ne_nil (segments_ne_nil path)

/-- A path without dots is a key. -/
theorem segments_of_not_mem {path : String} (h : '.' ∉ path.toList) : segments path = [path] := by
  rw [segments_eq_splitOn, List.splitOn_eq_singleton h, List.map_singleton, String.ofList_toList]

/-- Paths put together with a dot have the segments of both. -/
theorem segments_dot (p q : String) : segments (p ++ "." ++ q) = segments p ++ segments q := by
  have hchars : (p ++ "." ++ q).toList = p.toList ++ '.' :: q.toList := by
    rw [String.toList_append, String.toList_append, List.append_assoc]
    rfl
  simp only [segments_eq_splitOn]
  rw [hchars, List.splitOn_append_cons_self, List.map_append]

/-- What is cut has no dots left. -/
theorem not_mem_of_mem_cut {cs segment : List Char} (h : segment ∈ cut cs) : '.' ∉ segment := by
  induction cs generalizing segment with
  | nil =>
    rw [cut, List.mem_singleton] at h
    rw [h]
    exact List.not_mem_nil
  | cons c cs ih =>
    rw [cut] at h
    by_cases hdot : c = '.'
    · rw [if_pos hdot] at h
      rcases List.mem_cons.mp h with rfl | hrest
      · exact List.not_mem_nil
      · exact ih hrest
    · rw [if_neg hdot] at h
      cases hcut : cut cs with
      | nil =>
        rw [hcut, List.mem_singleton] at h
        rw [h, List.mem_singleton]
        exact Ne.symm hdot
      | cons first rest =>
        rw [hcut] at h ih
        rcases List.mem_cons.mp h with rfl | hrest
        · -- The first segment has one more character, which is no dot.
          have hfirst : '.' ∉ first := ih List.mem_cons_self
          intro hmem
          rcases List.mem_cons.mp hmem with hsame | hlater
          · exact hdot hsame.symm
          · exact hfirst hlater
        · exact ih (List.mem_cons_of_mem _ hrest)

theorem not_mem_of_mem_segments {path key : String} (h : key ∈ segments path) :
    '.' ∉ key.toList := by
  obtain ⟨segment, hsegment, rfl⟩ := List.mem_map.mp h
  rw [String.toList_ofList]
  exact not_mem_of_mem_cut hsegment

/-- A path of given keys is put together with dots. -/
theorem segments_intercalate {keys : List String} (hkeys : ∀ key ∈ keys, '.' ∉ key.toList)
    (hne : keys ≠ []) : segments (".".intercalate keys) = keys := by
  have hpieces : ∀ piece ∈ keys.map String.toList, '.' ∉ piece := by
    intro piece hpiece
    obtain ⟨key, hkey, rfl⟩ := List.mem_map.mp hpiece
    exact hkeys key hkey
  have hchars : (".".intercalate keys).toList = ['.'].intercalate (keys.map String.toList) :=
    String.toList_intercalate
  rw [segments_eq_splitOn, hchars,
    List.splitOn_intercalate '.' hpieces (mt List.map_eq_nil_iff.mp hne), List.map_map]
  exact List.map_id'' (fun key => String.ofList_toList) keys

/-- The segments of paths are all the keys in a row that have no dots. -/
theorem exists_segments_eq_iff (keys : List String) :
    (∃ path, segments path = keys) ↔ keys ≠ [] ∧ ∀ key ∈ keys, '.' ∉ key.toList := by
  constructor
  · rintro ⟨path, rfl⟩
    exact ⟨segments_ne_nil path, fun key => not_mem_of_mem_segments⟩
  · rintro ⟨hne, hkeys⟩
    exact ⟨_, segments_intercalate hkeys hne⟩

end Path

/-! ### Walks -/

namespace Value

@[simp] theorem walk_cons_map (key : String) (keys : List String) (members : Members Value) :
    walk (key :: keys) (.map members) = (members.find? key).bind (walk keys) := by
  rw [walk]

/-- Nothing but a map is walked through. -/
theorem walk_cons (key : String) (keys : List String) (v : Value) :
    walk (key :: keys) v = v.map?.bind fun members => walk (key :: keys) (.map members) := by
  cases v with
  | scalar s => rfl
  | array items => rfl
  | map members => rfl

/-- To follow keys and then more keys is to follow them from where the first ones lead. -/
theorem walk_append (keys rest : List String) (v : Value) :
    walk (keys ++ rest) v = (walk keys v).bind (walk rest) := by
  induction keys generalizing v with
  | nil => rfl
  | cons key keys ih =>
    cases v with
    | scalar s => rfl
    | array items => rfl
    | map members =>
      rw [List.cons_append, walk_cons_map, walk_cons_map, Option.bind_assoc]
      congr 1
      funext held
      exact ih held

end Value

namespace Members

open Value

theorem lookup_eq_walk (members : Members Value) (path : String) :
    members.lookup path = walk (Path.segments path) (.map members) := rfl

/-- A path without dots is looked up as a key. -/
theorem lookup_of_not_mem (members : Members Value) {path : String} (h : '.' ∉ path.toList) :
    members.lookup path = members.find? path := by
  rw [lookup_eq_walk, Path.segments_of_not_mem h, walk_cons_map]
  show (members.find? path).bind some = members.find? path
  exact Option.bind_fun_some _

/-- A lookup past a dot goes on in the map that the lookup before it ends at. -/
theorem lookup_dot (members : Members Value) (p q : String) :
    members.lookup (p ++ "." ++ q)
      = ((members.lookup p).bind map?).bind fun inner => Members.lookup inner q := by
  obtain ⟨first, rest, hq⟩ := Path.exists_segments_eq_cons q
  simp only [lookup_eq_walk]
  rw [Path.segments_dot, walk_append, Option.bind_assoc, hq]
  congr 1
  funext held
  exact walk_cons first rest held

/-! ### Where values stand -/

/-- A value stands in a map under some keys: under the only one, or in the map that stands
    under the first one, under the others. -/
inductive Holds : Members Value → List String → Value → Prop where
  | last {members : Members Value} {key : String} {v : Value} (h : members.find? key = some v) :
    Holds members [key] v
  | through {members inner : Members Value} {key : String} {keys : List String} {v : Value}
    (h : members.find? key = some (.map inner)) (hrest : Holds inner keys v) :
    Holds members (key :: keys) v

/-- A walk along some keys ends at what stands under them. -/
theorem walk_eq_some_iff {members : Members Value} {keys : List String} {v : Value}
    (hne : keys ≠ []) : walk keys (.map members) = some v ↔ members.Holds keys v := by
  induction keys generalizing members with
  | nil => exact absurd rfl hne
  | cons key keys ih =>
    rw [walk_cons_map, Option.bind_eq_some_iff]
    constructor
    · rintro ⟨held, hheld, hwalk⟩
      cases keys with
      | nil =>
        cases hwalk
        exact .last hheld
      | cons next rest =>
        cases held with
        | scalar s => cases hwalk
        | array items => cases hwalk
        | map inner => exact .through hheld ((ih (List.cons_ne_nil _ _)).mp hwalk)
    · intro h
      cases h with
      | last h => exact ⟨v, h, rfl⟩
      | through h hrest =>
        have hkeys : keys ≠ [] := by
          rintro rfl
          cases hrest
        exact ⟨_, h, (ih hkeys).mpr hrest⟩

/-- A path reaches what stands under its segments. -/
theorem lookup_eq_some_iff (members : Members Value) (path : String) (v : Value) :
    members.lookup path = some v ↔ members.Holds (Path.segments path) v :=
  walk_eq_some_iff (Path.segments_ne_nil path)

end Members

/-! ### Getters -/

/-- The types of values that there are getters for. -/
inductive Getter where
  | bool
  | int8
  | int16
  | int32
  | int64
  | uint8
  | uint16
  | uint32
  | uint64
  | float32
  | float64
  | string
  | raw
  | array
  | map

namespace Getter

/-- What a getter gives. -/
def Found : Getter → Type
  | .bool => Bool
  | .int8 => Int8
  | .int16 => Int16
  | .int32 => Int32
  | .int64 => Int64
  | .uint8 => UInt8
  | .uint16 => UInt16
  | .uint32 => UInt32
  | .uint64 => UInt64
  | .float32 => Single
  | .float64 => Double
  | .string => String
  | .raw => Bytes
  | .array => List Value
  | .map => Members Value

/-- How a getter looks at a value. -/
def accessor : (getter : Getter) → Value → Option getter.Found
  | .bool => Value.bool?
  | .int8 => Value.int8?
  | .int16 => Value.int16?
  | .int32 => Value.int32?
  | .int64 => Value.int64?
  | .uint8 => Value.uint8?
  | .uint16 => Value.uint16?
  | .uint32 => Value.uint32?
  | .uint64 => Value.uint64?
  | .float32 => Value.float32?
  | .float64 => Value.float64?
  | .string => Value.string?
  | .raw => Value.raw?
  | .array => Value.array?
  | .map => Value.map?

/-- The value of the type of a getter. -/
def value : (getter : Getter) → getter.Found → Value
  | .bool => fun x => .scalar (.bool x)
  | .int8 => fun x => .scalar (.int8 x)
  | .int16 => fun x => .scalar (.int16 x)
  | .int32 => fun x => .scalar (.int32 x)
  | .int64 => fun x => .scalar (.int64 x)
  | .uint8 => fun x => .scalar (.uint8 x)
  | .uint16 => fun x => .scalar (.uint16 x)
  | .uint32 => fun x => .scalar (.uint32 x)
  | .uint64 => fun x => .scalar (.uint64 x)
  | .float32 => fun x => .scalar (.float32 x)
  | .float64 => fun x => .scalar (.float64 x)
  | .string => fun x => .scalar (.string x)
  | .raw => fun x => .scalar (.raw x)
  | .array => .array
  | .map => .map

theorem accessor_value (getter : Getter) (x : getter.Found) :
    getter.accessor (getter.value x) = some x := by
  cases getter <;> rfl

/-- A getter looks for values of its own type alone. -/
theorem eq_value_of_accessor {getter : Getter} {v : Value} {x : getter.Found}
    (h : getter.accessor v = some x) : v = getter.value x := by
  cases v with
  | scalar s => cases getter <;> cases s <;> cases h <;> rfl
  | array items => cases getter <;> cases h <;> rfl
  | map members => cases getter <;> cases h <;> rfl

theorem accessor_eq_some_iff (getter : Getter) (v : Value) (x : getter.Found) :
    getter.accessor v = some x ↔ v = getter.value x := by
  constructor
  · exact eq_value_of_accessor
  · rintro rfl
    exact getter.accessor_value x

/-- No getter looks for the absent value, which a lookup without a hit gives. -/
theorem null_ne_value (getter : Getter) (x : getter.Found) : .null ≠ getter.value x := by
  cases getter <;> exact nofun

end Getter

namespace Members

theorem getAs?_eq_some_iff (members : Members Value) (getter : Getter) (path : String)
    (x : getter.Found) :
    members.getAs? getter.accessor path = some x ↔
      members.lookup path = some (getter.value x) := by
  unfold getAs? get
  rw [getter.accessor_eq_some_iff]
  cases members.lookup path with
  | none =>
    constructor
    · intro h
      exact absurd h (getter.null_ne_value x)
    · exact nofun
  | some v => exact (Option.some_inj).symm

theorem getAs_of_lookup {members : Members Value} {getter : Getter} {path : String}
    {x : getter.Found} (h : members.lookup path = some (getter.value x)) (default : getter.Found) :
    members.getAs getter.accessor path default = x := by
  unfold getAs
  rw [(members.getAs?_eq_some_iff getter path x).mpr h, Option.getD_some]

theorem getAs_of_lookup_ne {members : Members Value} {getter : Getter} {path : String}
    (h : ∀ x, members.lookup path ≠ some (getter.value x)) (default : getter.Found) :
    members.getAs getter.accessor path default = default := by
  have hnone : members.getAs? getter.accessor path = none := by
    rw [Option.eq_none_iff_forall_ne_some]
    intro x hx
    exact h x ((members.getAs?_eq_some_iff getter path x).mp hx)
  unfold getAs
  rw [hnone, Option.getD_none]

/-- **What a path finds.** A path without dots finds what the map holds under that key. A
    path of two paths with a dot between them finds what the second one finds in the map that
    the first one ends at, and nothing if that is no map. So what a path finds stands under
    its segments, and everything that stands under such keys is found; segments have no dots,
    but are otherwise any keys, and no path leads to a member whose key has a dot, however
    deep it is, or through it.

    A getter gives what it looks for exactly if the lookup ends at a value of its type. In all
    other cases it gives nothing, or the default. -/
theorem lookup_outcome (members : Members Value) :
    (∀ path : String, '.' ∉ path.toList → members.lookup path = members.find? path) ∧
    (∀ p q : String, members.lookup (p ++ "." ++ q) =
      match members.lookup p with
      | some (.map inner) => Members.lookup inner q
      | _ => none) ∧
    (∀ path v, members.lookup path = some v ↔ members.Holds (Path.segments path) v) ∧
    (∀ keys, (∃ path, Path.segments path = keys) ↔
      keys ≠ [] ∧ ∀ key ∈ keys, '.' ∉ key.toList) ∧
    (∀ (getter : Getter) (path : String),
      (∀ x, members.getAs? getter.accessor path = some x ↔
        members.lookup path = some (getter.value x)) ∧
      (∀ x default, members.lookup path = some (getter.value x) →
        members.getAs getter.accessor path default = x) ∧
      ∀ default, (∀ x, members.lookup path ≠ some (getter.value x)) →
        members.getAs getter.accessor path default = default) := by
  refine ⟨fun path => members.lookup_of_not_mem, ?_, members.lookup_eq_some_iff,
    Path.exists_segments_eq_iff, ?_⟩
  · intro p q
    rw [members.lookup_dot p q]
    -- What is found first is nothing, a map, or something else.
    cases members.lookup p with
    | none => rfl
    | some held => cases held <;> rfl
  · intro getter path
    refine ⟨members.getAs?_eq_some_iff getter path, ?_, ?_⟩
    · intro x default h
      exact getAs_of_lookup h default
    · intro default h
      exact getAs_of_lookup_ne h default

/-- Dots at the ends of a path go through empty keys, and a key with a dot is not found. -/
example :
    let members : Members Value := [("a.b", .null), ("", .map [("", .scalar (.bool true))])]
    members.lookup "." = some (.scalar (.bool true)) ∧ members.lookup "a.b" = none ∧
      members.getAs Value.bool? "..c" false = false :=
  ⟨rfl, rfl, rfl⟩

end Members

end BinaryPack
