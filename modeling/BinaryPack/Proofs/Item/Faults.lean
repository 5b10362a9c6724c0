import BinaryPack.Proofs.Item.Binding
import BinaryPack.Proofs.Value.Members

/-! # Items that have a value

  Any tree of items can be bound, also one that no reader gave and whose payloads and
  children do not belong together. Binding comes by an item before its children, and goes
  down only where children count, which is below objects and arrays. It fails at the first
  item it comes by whose tag names no type or which is a number of the wrong width, and
  otherwise gives the value of the tree (`Item.bind_outcome`).

  `Item.reached` lists the items that binding comes by, and `Item.HasValue` says what the
  value of a tree is, both without binding anything.
-/

namespace BinaryPack

/-! ### Scalars -/

/-- The bytes of a number, by its type. What is not a number may have any payload. -/
def ScalarType.numberWidth? : ScalarType → Option Nat
  | .int8 | .uint8 => some 1
  | .int16 | .uint16 => some 2
  | .int32 | .uint32 | .float32 => some 4
  | .int64 | .uint64 | .float64 => some 8
  | .null | .bool | .string | .raw => none

/-- What is wrong with a payload, if it is not one of the type. -/
def ScalarType.fault? (type : ScalarType) (data : Bytes) : Option BindError :=
  type.numberWidth?.bind fun width =>
    if data.length = width then none else some (.width type width data.length)

/-- The number that bytes spell in two's complement, least significant byte first. -/
def LittleEndian.decodeSigned (bytes : Bytes) : Int :=
  (decode bytes : Int).bmod (Nat.pow 256 bytes.length)

namespace Scalar

/-- A payload spells a scalar. -/
inductive SpeltBy (data : Bytes) : Scalar → Prop where
  | null : SpeltBy data .null
  | bool {value : Bool} (h : value = true ↔ ∃ b ∈ data, b ≠ 0) : SpeltBy data (.bool value)
  | int8 {n : Int8} (h : n.toInt = LittleEndian.decodeSigned data) : SpeltBy data (.int8 n)
  | int16 {n : Int16} (h : n.toInt = LittleEndian.decodeSigned data) : SpeltBy data (.int16 n)
  | int32 {n : Int32} (h : n.toInt = LittleEndian.decodeSigned data) : SpeltBy data (.int32 n)
  | int64 {n : Int64} (h : n.toInt = LittleEndian.decodeSigned data) : SpeltBy data (.int64 n)
  | uint8 {n : UInt8} (h : n.toNat = LittleEndian.decode data) : SpeltBy data (.uint8 n)
  | uint16 {n : UInt16} (h : n.toNat = LittleEndian.decode data) : SpeltBy data (.uint16 n)
  | uint32 {n : UInt32} (h : n.toNat = LittleEndian.decode data) : SpeltBy data (.uint32 n)
  | uint64 {n : UInt64} (h : n.toNat = LittleEndian.decode data) : SpeltBy data (.uint64 n)
  | float32 {x : Single} (h : x.bits.toNat = LittleEndian.decode data) :
    SpeltBy data (.float32 x)
  | float64 {x : Double} (h : x.bits.toNat = LittleEndian.decode data) :
    SpeltBy data (.float64 x)
  | string : SpeltBy data (.string (Utf8.lossy (unterminated data)))
  | raw : SpeltBy data (.raw data)

/-- A number is refused for the width of its payload alone, and otherwise made of what the
    payload spells. -/
theorem ends_map_number {type : ScalarType} {width : Nat} {data : Bytes} {ofNat : Nat → Scalar}
    (hwidth : type.numberWidth? = some width)
    (hspelt : data.length = width → LittleEndian.decode data < Nat.pow 256 width →
      (ofNat (LittleEndian.decode data)).type = type ∧
        (ofNat (LittleEndian.decode data)).SpeltBy data) :
    Ends (type.fault? data).toList (fun s => s.type = type ∧ s.SpeltBy data)
      ((number type width data).map ofNat) := by
  unfold number ScalarType.fault?
  rw [hwidth, Option.bind_some]
  by_cases hlength : data.length = width
  · rw [if_pos hlength, if_pos hlength]
    apply ends_ok
    apply hspelt hlength
    rw [← hlength]
    exact LittleEndian.decode_lt data
  · rw [if_neg hlength, if_neg hlength]
    rfl

/-- A payload is refused for its width alone, and otherwise read as what it spells. -/
theorem ends_ofPayload (type : ScalarType) (data : Bytes) :
    Ends (type.fault? data).toList (fun s => s.type = type ∧ s.SpeltBy data)
      (ofPayload type data) := by
  cases type with
  | null => exact ends_ok ⟨rfl, .null⟩
  | bool => exact ends_ok ⟨rfl, .bool (by simp)⟩
  | string => exact ends_ok ⟨rfl, .string⟩
  | raw => exact ends_ok ⟨rfl, .raw⟩
  -- Without a sign, what the payload spells is in range because of the width.
  | uint8 => exact ends_map_number rfl fun _ hlt => ⟨rfl, .uint8 (UInt8.toNat_ofNat_of_lt' hlt)⟩
  | uint16 =>
    exact ends_map_number rfl fun _ hlt => ⟨rfl, .uint16 (UInt16.toNat_ofNat_of_lt' hlt)⟩
  | uint32 =>
    exact ends_map_number rfl fun _ hlt => ⟨rfl, .uint32 (UInt32.toNat_ofNat_of_lt' hlt)⟩
  | uint64 =>
    exact ends_map_number rfl fun _ hlt => ⟨rfl, .uint64 (UInt64.toNat_ofNat_of_lt' hlt)⟩
  | float32 =>
    exact ends_map_number rfl fun _ hlt => ⟨rfl, .float32 (UInt32.toNat_ofNat_of_lt' hlt)⟩
  | float64 =>
    exact ends_map_number rfl fun _ hlt => ⟨rfl, .float64 (UInt64.toNat_ofNat_of_lt' hlt)⟩
  -- With a sign, the width is that of the modulus.
  | int8 =>
    refine ends_map_number rfl fun hlength _ => ⟨rfl, .int8 ?_⟩
    rw [LittleEndian.decodeSigned, hlength]
    simp
  | int16 =>
    refine ends_map_number rfl fun hlength _ => ⟨rfl, .int16 ?_⟩
    rw [LittleEndian.decodeSigned, hlength]
    simp
  | int32 =>
    refine ends_map_number rfl fun hlength _ => ⟨rfl, .int32 ?_⟩
    rw [LittleEndian.decodeSigned, hlength]
    simp
  | int64 =>
    refine ends_map_number rfl fun hlength _ => ⟨rfl, .int64 ?_⟩
    rw [LittleEndian.decodeSigned, hlength]
    simp

end Scalar

namespace Item

/-! ### Items that binding comes by -/

/-- What is wrong with an item by itself, whatever its children. -/
def fault? (item : Item) : Option BindError :=
  match item.itemType? with
  | none => some (.invalidType item.tag)
  | some (.scalar type) => type.fault? item.data
  | some .object | some .array => none

mutual

/-- The items that binding comes by, in order. -/
def reached : Item → List Item
  | ⟨tag, name, data, children⟩ =>
    ⟨tag, name, data, children⟩ ::
      match ItemType.ofTag? tag with
      | some .object | some .array => reachedAmong children
      | some (.scalar _) | none => []

/-- The items that binding comes by among some items. -/
def reachedAmong : List Item → List Item
  | [] => []
  | item :: rest => reached item ++ reachedAmong rest

end

/-! ### The value of an item -/

mutual

/-- The value that an item has. -/
inductive HasValue : Item → Value → Prop where
  | scalar {item : Item} {s : Scalar} (htype : item.itemType? = some (.scalar s.type))
    (h : s.SpeltBy item.data) : HasValue item (.scalar s)
  | array {item : Item} {values : List Value} (htype : item.itemType? = some .array)
    (h : HaveValues item.children values) : HasValue item (.array values)
  | object {item : Item} {pairs members : Members Value}
    (htype : item.itemType? = some .object) (h : HaveMembers item.children pairs)
    (hlast : Members.KeepsLast pairs members) : HasValue item (.map members)

/-- The values of items, one by one. -/
inductive HaveValues : List Item → List Value → Prop where
  | nil : HaveValues [] []
  | cons {item : Item} {v : Value} {items : List Item} {values : List Value}
    (h : HasValue item v) (hrest : HaveValues items values) :
    HaveValues (item :: items) (v :: values)

/-- The values of items, each under the text of its name. -/
inductive HaveMembers : List Item → Members Value → Prop where
  | nil : HaveMembers [] []
  | cons {item : Item} {v : Value} {items : List Item} {pairs : Members Value}
    (h : HasValue item v) (hrest : HaveMembers items pairs) :
    HaveMembers (item :: items) ((item.keyText, v) :: pairs)

end

/-! ### Binding ends with the first fault -/

/-- What is wrong with some items. -/
def faults (items : List Item) : List BindError :=
  items.filterMap fault?

theorem faults_append (items items' : List Item) :
    faults (items ++ items') = faults items ++ faults items' :=
  List.filterMap_append

theorem faults_cons (item : Item) (items : List Item) :
    faults (item :: items) = item.fault?.toList ++ faults items := by
  unfold faults
  cases hfault : item.fault? with
  | none => exact List.filterMap_cons_none hfault
  | some cause => exact List.filterMap_cons_some hfault

section

variable {tag : UInt8} {name data : Bytes} {children : List Item}

/-- The only fault of an item whose tag names no type. -/
theorem faults_reached_of_none (h : ItemType.ofTag? tag = none) :
    faults (reached ⟨tag, name, data, children⟩) = [.invalidType tag] := by
  rw [reached, faults_cons, fault?, itemType?, h]
  rfl

/-- A container has no fault of its own. -/
theorem faults_reached_of_container {type : ItemType} (h : ItemType.ofTag? tag = some type)
    (hcontainer : type.isContainer = true) :
    faults (reached ⟨tag, name, data, children⟩) = faults (reachedAmong children) := by
  rw [reached, faults_cons, fault?, itemType?, h]
  cases type with
  | object => rfl
  | array => rfl
  | scalar type => cases hcontainer

/-- The faults of a scalar are those of its payload. -/
theorem faults_reached_of_scalar {type : ScalarType}
    (h : ItemType.ofTag? tag = some (.scalar type)) :
    faults (reached ⟨tag, name, data, children⟩) = (type.fault? data).toList := by
  rw [reached, faults_cons, fault?, itemType?, h]
  exact List.append_nil _

end

mutual

/-- Binding ends with the first fault it comes by, or gives the value of the item. -/
theorem ends_bind : ∀ item : Item, Ends (faults item.reached) item.HasValue item.bind.result
  | ⟨tag, name, data, children⟩ => by
    rw [bind]
    cases htype : ItemType.ofTag? tag with
    | none =>
      rw [faults_reached_of_none htype]
      rfl
    | some type =>
      cases type with
      | object =>
        -- Once the children are bound, nothing is left that could fail.
        rw [faults_reached_of_container htype rfl, ← List.append_nil (faults _)]
        apply Logged.ends_bind (ends_bindMembers children [])
        rintro members ⟨pairs, hpairs, rfl⟩
        exact ends_ok (.object htype hpairs (Members.keepsLast_insertAll pairs))
      | array =>
        rw [faults_reached_of_container htype rfl, ← List.append_nil (faults _)]
        apply Logged.ends_bind (ends_bindItems children)
        intro values hvalues
        exact ends_ok (.array htype hvalues)
      | scalar type =>
        rw [faults_reached_of_scalar htype]
        apply (Scalar.ends_ofPayload type data).map
        rintro s ⟨rfl, hspelt⟩
        exact .scalar htype hspelt

theorem ends_bindItems : ∀ items : List Item,
    Ends (faults (reachedAmong items)) (HaveValues items) (bindItems items).result
  | [] => ends_ok .nil
  | item :: rest => by
    rw [reachedAmong, faults_append]
    apply Logged.ends_bind (ends_bind item)
    intro v hv
    rw [← List.append_nil (faults _)]
    apply Logged.ends_bind (ends_bindItems rest)
    intro values hvalues
    exact ends_ok (.cons hv hvalues)

theorem ends_bindMembers : ∀ (items : List Item) (held : Members Value),
    Ends (faults (reachedAmong items))
      (fun members => ∃ pairs, HaveMembers items pairs ∧ members = held.insertAll pairs)
      (bindMembers items held).result
  | [], held => ends_ok ⟨[], .nil, rfl⟩
  | item :: rest, held => by
    rw [reachedAmong, faults_append]
    apply Logged.ends_bind (ends_bind item)
    intro v hv
    -- To put a member in reports a loss at most, and never fails.
    have hadd : Ends [] (fun held' => held' = held.insert item.keyText v)
        (addMember held item.keyText v).result := by
      rw [result_addMember]
      exact ends_ok rfl
    rw [← List.nil_append (faults _)]
    apply Logged.ends_bind hadd
    rintro _ rfl
    apply (ends_bindMembers rest (held.insert item.keyText v)).imp
    rintro members ⟨pairs, hpairs, hmembers⟩
    exact ⟨(item.keyText, v) :: pairs, .cons hv hpairs, hmembers⟩

end

/-! ### The outcome of binding -/

/-- What is wrong with an item: its tag names no type, or it is a number of another width. -/
theorem exists_fault?_iff (item : Item) :
    (∃ cause, item.fault? = some cause) ↔ item.itemType? = none ∨
      ∃ type width, item.itemType? = some (.scalar type) ∧ type.numberWidth? = some width ∧
        item.data.length ≠ width := by
  unfold fault?
  cases htype : item.itemType? with
  | none => simp
  | some type =>
    cases type with
    | object => simp
    | array => simp
    | scalar type =>
      unfold ScalarType.fault?
      cases hwidth : type.numberWidth? with
      | none => simp [hwidth]
      | some width =>
        by_cases hlength : item.data.length = width
        · simp [hwidth, hlength]
        · simp [hwidth, hlength]

/-- Binding an object is binding its children to a map. -/
theorem bind_of_object {item : Item} (h : item.itemType? = some .object) :
    item.bind = Value.map <$> item.bindObject := by
  obtain ⟨tag, name, data, children⟩ := item
  change ItemType.ofTag? tag = _ at h
  rw [bind, h]
  rfl

/-- The children of an item are bound to a map with the last value of each key, unless there
    is a fault. -/
theorem ends_bindObject (item : Item) :
    Ends (faults (reachedAmong item.children))
      (fun members => ∃ pairs, HaveMembers item.children pairs ∧
        Members.KeepsLast pairs members) item.bindObject.result := by
  apply (ends_bindMembers item.children []).imp
  rintro members ⟨pairs, hpairs, rfl⟩
  exact ⟨pairs, hpairs, Members.keepsLast_insertAll pairs⟩

/-- **What binding gives.** Binding fails just when there is, below objects and arrays alone,
    an item whose tag names no type or an integer or floating-point number whose payload has
    another width. The error is that of the first such item in order, and it says that the
    pack is not valid. Otherwise the result is the value of the item: an array has the values
    of its children in order, an object has under each key the value of the last child with
    that key and has no other keys, and a scalar is what its payload spells.

    To bind the children of an item as an object is the same whatever the tag of the item, and
    is the same as to bind the item if the tag is one of objects. -/
theorem bind_outcome (item : Item) :
    ((∃ error, item.bind.result.mapError (fun cause => Error.invalidPack (.bind cause)) =
        .error error) ↔
      ∃ node ∈ item.reached, node.itemType? = none ∨
        ∃ type width, node.itemType? = some (.scalar type) ∧ type.numberWidth? = some width ∧
          node.data.length ≠ width) ∧
    (∀ error, item.bind.result.mapError (fun cause => Error.invalidPack (.bind cause)) =
        .error error ↔
      ∃ cause, error = .invalidPack (.bind cause) ∧ item.reached.findSome? fault? = some cause) ∧
    (∀ v, item.bind.result = .ok v → item.HasValue v) ∧
    (∀ cause, item.bindObject.result = .error cause ↔
      (reachedAmong item.children).findSome? fault? = some cause) ∧
    (∀ members, item.bindObject.result = .ok members →
      ∃ pairs, HaveMembers item.children pairs ∧ Members.KeepsLast pairs members) ∧
    ∀ tag, bindObject { item with tag := tag } = item.bindObject ∧
      (ItemType.ofTag? tag = some .object →
        bind { item with tag := tag } = Value.map <$> item.bindObject) := by
  have hends := ends_bind item
  have hobject := ends_bindObject item
  refine ⟨?_, fun error => hends.mapError_eq_error_iff, fun v hv => hends.of_eq_ok hv, ?_,
    fun members hmembers => hobject.of_eq_ok hmembers, ?_⟩
  · rw [exists_mapError_eq_error_iff, hends.exists_error_iff_exists_mem]
    simp only [exists_fault?_iff]
  · intro cause
    rw [hobject.eq_error_iff, faults, List.head?_filterMap]
  · intro tag
    refine ⟨rfl, ?_⟩
    intro htag
    have hobject : itemType? { item with tag := tag } = some .object := htag
    exact bind_of_object hobject

/-- A number of the wrong width counts, although a later child would take its place: the two
    names are one key. -/
example :
    let early : Item := ⟨0x12, [0x61], [1], []⟩
    let late : Item := ⟨0x61, [0x61, 0], [], []⟩
    (bind ⟨0x10, [], [], [early, late]⟩).result = .error (.width .int16 2 1) ∧
      (bind ⟨0x10, [], [], [late, late]⟩).result = .ok (.map [("a", .null)]) :=
  ⟨rfl, rfl⟩

end Item

end BinaryPack
