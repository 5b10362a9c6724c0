import BinaryPack.Proofs.Datum.Conversion
import BinaryPack.Proofs.Item.Losses
import BinaryPack.Proofs.Value.Members

/-! # Host data that has a value

  Conversion comes by the places of a piece of data in one order: a piece before its parts,
  parts from left to right, a key before its value. Some places stop it: data that no pack
  can hold, a key that is no text, a value in a map for which no key waits. `Datum.places`
  lists the places of a tree without converting anything, and `Datum.HasValue` says what
  value a tree has, by one rule for each kind of data. Conversion ends with what the first
  such place is refused for, and if there is none, with the value of the data
  (`Datum.toValue_outcome`).

  What steps of a map hand over is said for a run of steps from any state of the map
  builder: only whether a key waits matters to the places, and only the key itself to the
  pairs.
-/

namespace BinaryPack

/-! ### Primitives -/

/-- The scalar that a primitive has, whether it is lent or given away. -/
inductive Primitive.HasScalar : Primitive → Scalar → Prop where
  | unit : HasScalar .unit .null
  | bool (value : Bool) : HasScalar (.bool value) (.bool value)
  | int8 (value : Int8) : HasScalar (.int8 value) (.int8 value)
  | int16 (value : Int16) : HasScalar (.int16 value) (.int16 value)
  | int32 (value : Int32) : HasScalar (.int32 value) (.int32 value)
  | int64 (value : Int64) : HasScalar (.int64 value) (.int64 value)
  | uint8 (value : UInt8) : HasScalar (.uint8 value) (.uint8 value)
  | uint16 (value : UInt16) : HasScalar (.uint16 value) (.uint16 value)
  | uint32 (value : UInt32) : HasScalar (.uint32 value) (.uint32 value)
  | uint64 (value : UInt64) : HasScalar (.uint64 value) (.uint64 value)
  | float32 (value : Single) : HasScalar (.float32 value) (.float32 value)
  | float64 (value : Double) : HasScalar (.float64 value) (.float64 value)
  | str (text : String) : HasScalar (.str text) (.string text)
  | string (text : String) : HasScalar (.string text) (.string text)
  | bytes (data : Bytes) : HasScalar (.bytes data) (.raw data)
  | byteBuffer (data : Bytes) : HasScalar (.byteBuffer data) (.raw data)

theorem Primitive.hasScalar_iff {p : Primitive} {s : Scalar} : p.HasScalar s ↔ p.converted = s := by
  constructor
  · intro h
    cases h <;> rfl
  · rintro rfl
    cases p <;> constructor

namespace Datum

/-! ### Places -/

/-- The type of the value that a piece of data has, if it has any. -/
def itemType? : Datum → Option ItemType
  | .primitive p => some (.scalar p.converted.type)
  | .char _ | .unitVariant .. => some (.scalar .string)
  | .absent | .unitStruct _ => some (.scalar .null)
  | .present content | .newtypeStruct _ content => itemType? content
  | .seq .. | .tuple _ | .tupleStruct .. => some .array
  | .map .. | .struct .. | .newtypeVariant .. | .tupleVariant .. | .structVariant .. =>
    some .object
  | .int128 _ | .uint128 _ | .failure _ => none

/-- A place in a piece of data that conversion comes by. -/
inductive Place where
  /-- The start of a piece of data. -/
  | datum (x : Datum)
  /-- The end of a key, which must be a text. -/
  | key (x : Datum)
  /-- The start of a value in a map, for which a key waits or not. -/
  | value (waiting : Bool)

/-- What a piece of data is refused for by itself, whatever its parts. -/
def refusal? : Datum → Option MarshalError
  | .int128 _ | .uint128 _ => some .wideInteger
  | .failure reason => some (.other reason)
  | _ => none

/-- What conversion is refused for at a place. A key that has no value at all has been
    refused before its end. -/
def Place.refusal? : Place → Option MarshalError
  | .datum x => x.refusal?
  | .key x => x.itemType?.bind fun type =>
    if type = .scalar .string then none else some (.keyType type.valueName)
  | .value waiting => if waiting then none else some .valueBeforeKey

mutual

/-- The places of a piece of data, in the order in which conversion comes by. -/
def places (x : Datum) : List Place :=
  .datum x ::
    match x with
    | .primitive _ | .int128 _ | .uint128 _ | .char _ | .absent | .unitStruct _ | .unitVariant ..
    | .failure _ => []
    | .present content | .newtypeStruct _ content | .newtypeVariant _ _ content => places content
    | .seq _ items | .tuple items | .tupleStruct _ items | .tupleVariant _ _ items =>
      placesOfItems items
    | .struct _ fields | .structVariant _ _ fields => placesOfFields fields
    | .map _ steps => placesOfSteps false steps

/-- The places of a run of data. -/
def placesOfItems : List Datum → List Place
  | [] => []
  | item :: rest => places item ++ placesOfItems rest

/-- The places of named fields. -/
def placesOfFields : List (String × Datum) → List Place
  | [] => []
  | (_, field) :: rest => places field ++ placesOfFields rest

/-- The places of the steps of a map, before which a key waits or not. -/
def placesOfSteps : (waiting : Bool) → List (Step Datum) → List Place
  | _, [] => []
  | _, .key key :: rest => places key ++ .key key :: placesOfSteps true rest
  | waiting, .value value :: rest => .value waiting :: places value ++ placesOfSteps false rest
  -- The value of an entry is one for which a key waits, whatever came before.
  | _, .entry key value :: rest =>
    places key ++ .key key :: .value true :: places value ++ placesOfSteps false rest

end

/-! ### The value of a piece of data -/

mutual

/-- The value that a piece of data has. -/
inductive HasValue : Datum → Value → Prop where
  | primitive {p : Primitive} {s : Scalar} (h : p.HasScalar s) :
    HasValue (.primitive p) (.scalar s)
  | char (c : Char) : HasValue (.char c) (.scalar (.string c.toString))
  | absent : HasValue .absent .null
  | unitStruct (type : String) : HasValue (.unitStruct type) .null
  | present {content : Datum} {v : Value} (h : HasValue content v) : HasValue (.present content) v
  | newtypeStruct {type : String} {content : Datum} {v : Value} (h : HasValue content v) :
    HasValue (.newtypeStruct type content) v
  | unitVariant (type variant : String) :
    HasValue (.unitVariant type variant) (.scalar (.string variant))
  | newtypeVariant {type variant : String} {content : Datum} {v : Value}
    (h : HasValue content v) : HasValue (.newtypeVariant type variant content) (.map [(variant, v)])
  | seq {announced : Bool} {items : List Datum} {values : List Value}
    (h : HaveValues items values) : HasValue (.seq announced items) (.array values)
  | tuple {items : List Datum} {values : List Value} (h : HaveValues items values) :
    HasValue (.tuple items) (.array values)
  | tupleStruct {type : String} {items : List Datum} {values : List Value}
    (h : HaveValues items values) : HasValue (.tupleStruct type items) (.array values)
  | tupleVariant {type variant : String} {items : List Datum} {values : List Value}
    (h : HaveValues items values) :
    HasValue (.tupleVariant type variant items) (.map [(variant, .array values)])
  | struct {type : String} {fields : List (String × Datum)} {pairs members : Members Value}
    (h : FieldsHaveValues fields pairs) (hlast : Members.KeepsLast pairs members) :
    HasValue (.struct type fields) (.map members)
  | structVariant {type variant : String} {fields : List (String × Datum)}
    {pairs members : Members Value} (h : FieldsHaveValues fields pairs)
    (hlast : Members.KeepsLast pairs members) :
    HasValue (.structVariant type variant fields) (.map [(variant, .map members)])
  | map {announced : Bool} {steps : List (Step Datum)} {pairs members : Members Value}
    (h : HandOver none steps pairs) (hlast : Members.KeepsLast pairs members) :
    HasValue (.map announced steps) (.map members)

/-- The values of a run of data, one by one. -/
inductive HaveValues : List Datum → List Value → Prop where
  | nil : HaveValues [] []
  | cons {item : Datum} {v : Value} {items : List Datum} {values : List Value}
    (h : HasValue item v) (hrest : HaveValues items values) :
    HaveValues (item :: items) (v :: values)

/-- The values of named fields, under their names. -/
inductive FieldsHaveValues : List (String × Datum) → Members Value → Prop where
  | nil : FieldsHaveValues [] []
  | cons {name : String} {field : Datum} {v : Value} {fields : List (String × Datum)}
    {pairs : Members Value} (h : HasValue field v) (hrest : FieldsHaveValues fields pairs) :
    FieldsHaveValues ((name, field) :: fields) ((name, v) :: pairs)

/-- The pairs that steps hand over, with the key that waits before them. A value goes with
    the key that waits for it, and that key is used up. A key that comes while another waits
    takes its place, and one that still waits at the end is in no pair. -/
inductive HandOver : Option String → List (Step Datum) → Members Value → Prop where
  | nil (pending : Option String) : HandOver pending [] []
  | key {pending : Option String} {key : Datum} {text : String} {steps : List (Step Datum)}
    {pairs : Members Value} (hkey : HasValue key (.scalar (.string text)))
    (hrest : HandOver (some text) steps pairs) : HandOver pending (.key key :: steps) pairs
  | value {text : String} {value : Datum} {v : Value} {steps : List (Step Datum)}
    {pairs : Members Value} (h : HasValue value v) (hrest : HandOver none steps pairs) :
    HandOver (some text) (.value value :: steps) ((text, v) :: pairs)
  | entry {pending : Option String} {key value : Datum} {text : String} {v : Value}
    {steps : List (Step Datum)} {pairs : Members Value}
    (hkey : HasValue key (.scalar (.string text))) (h : HasValue value v)
    (hrest : HandOver none steps pairs) :
    HandOver pending (.entry key value :: steps) ((text, v) :: pairs)

end

/-- A value is of the type that its data tells. -/
theorem itemType?_of_hasValue : ∀ {x : Datum} {v : Value}, x.HasValue v →
    x.itemType? = some v.type
  | _, _, .primitive h => by
    rw [itemType?, Primitive.hasScalar_iff.mp h]
    rfl
  | _, _, .char _ | _, _, .absent | _, _, .unitStruct _
  | _, _, .unitVariant _ _ | _, _, .newtypeVariant _ | _, _, .seq _ | _, _, .tuple _
  | _, _, .tupleStruct _ | _, _, .tupleVariant _ | _, _, .struct _ _ | _, _, .structVariant _ _
  | _, _, .map _ _ => rfl
  | _, _, @HasValue.present content _ h => itemType?_of_hasValue (x := content) h
  | _, _, @HasValue.newtypeStruct _ content _ h => itemType?_of_hasValue (x := content) h

/-! ### Conversion along the places -/

/-- What conversion is refused for at some places. -/
def refusals (places : List Place) : List MarshalError :=
  places.filterMap Place.refusal?

theorem refusals_append (places places' : List Place) :
    refusals (places ++ places') = refusals places ++ refusals places' :=
  List.filterMap_append

/-- A place that nothing is refused at does not stop a run. -/
theorem ends_pass {α : Type} {place : Place} {places : List Place} {P : α → Prop}
    {x : Except MarshalError α} (hpass : place.refusal? = none) (h : Ends (refusals places) P x) :
    Ends (refusals (place :: places)) P x := by
  unfold refusals at h ⊢
  rwa [List.filterMap_cons_none hpass]

/-- A place that something is refused at ends a run. -/
theorem ends_stop {α : Type} {place : Place} {cause : MarshalError} {P : α → Prop}
    (hstop : place.refusal? = some cause) (places : List Place) :
    Ends (refusals (place :: places)) P (.error cause : Except MarshalError α) := by
  unfold refusals
  rw [List.filterMap_cons_some hstop]
  rfl

/-- Two runs in a row come by the places of the first, and then by those of the second. -/
theorem ends_bind {α β : Type} {places places' : List Place} {P : α → Prop} {Q : β → Prop}
    {x : Except MarshalError α} {f : α → Except MarshalError β} (h : Ends (refusals places) P x)
    (hf : ∀ a, P a → Ends (refusals places') Q (f a)) :
    Ends (refusals (places ++ places')) Q (x >>= f) := by
  rw [refusals_append]
  exact h.bind hf

/-! ### Steps of a map -/

/-- Only texts are of the type of texts. -/
theorem eq_string_of_type {v : Value} (h : v.type = .scalar .string) :
    ∃ text, v = .scalar (.string text) := by
  cases v with
  | scalar s =>
    cases s with
    | string text => exact ⟨text, rfl⟩
    | _ => cases h
  | array items => cases h
  | map members => cases h

/-- A builder takes a key at its end, if it has turned out to be a text. -/
theorem ends_key {x : Datum} {v : Value} (h : x.HasValue v) (b : MapBuilder) :
    Ends (refusals [.key x]) (fun b' => ∃ text, x.HasValue (.scalar (.string text)) ∧
      b' = ⟨b.members, some text⟩) (b.key v) := by
  -- What type the value is of is told by the data, and so is known at the end of the key.
  have htype := itemType?_of_hasValue h
  by_cases hstring : v.type = .scalar .string
  · obtain ⟨text, rfl⟩ := eq_string_of_type hstring
    have hpass : (Place.key x).refusal? = none := by
      rw [Place.refusal?, htype]
      rfl
    exact ends_pass hpass (ends_ok ⟨text, h, rfl⟩)
  · have hstop : (Place.key x).refusal? = some (.keyType v.typeName) := by
      rw [Place.refusal?, htype, Value.typeName_eq]
      exact if_neg hstring
    have hkey : b.key v = .error (.keyType v.typeName) := by
      refine MapBuilder.key_eq_error_iff.mpr ⟨rfl, ?_⟩
      rintro text rfl
      exact hstring rfl
    rw [hkey]
    exact ends_stop hstop []

/-- A builder takes a value under the key that waits, and refuses it before its start if
    there is none. -/
theorem ends_value {x : Datum} (h : Ends (refusals x.places) x.HasValue x.toValue)
    (b : MapBuilder) :
    Ends (refusals (.value b.pending.isSome :: x.places)) (fun b' => ∃ text v,
      b.pending = some text ∧ x.HasValue v ∧ b' = ⟨b.members.insert text v, none⟩)
      (b.value x.toValue) := by
  unfold MapBuilder.value
  split
  · next hnone =>
    rw [hnone]
    exact ends_stop rfl x.places
  · next text hsome =>
    rw [hsome]
    apply ends_pass rfl
    apply h.map
    intro v hv
    exact ⟨text, v, rfl, hv, rfl⟩

/-- What a run of steps makes of a builder: it puts in the pairs that the steps hand over. -/
def Puts (b : MapBuilder) (steps : List (Step Datum)) (b' : MapBuilder) : Prop :=
  ∃ pairs, HandOver b.pending steps pairs ∧ b'.members = b.members.insertAll pairs

/-! ### Conversion ends with the first refusal -/

mutual

/-- Conversion ends with the first refusal along the places, or gives the value of the
    data. -/
theorem ends_toValue : ∀ x : Datum, Ends (refusals x.places) x.HasValue x.toValue
  | .primitive _ => ends_pass rfl (ends_ok (.primitive (Primitive.hasScalar_iff.mpr rfl)))
  | .int128 _ | .uint128 _ | .failure _ => ends_stop rfl []
  | .char c => ends_pass rfl (ends_ok (.char c))
  | .absent => ends_pass rfl (ends_ok .absent)
  | .unitStruct type => ends_pass rfl (ends_ok (.unitStruct type))
  | .unitVariant type variant => ends_pass rfl (ends_ok (.unitVariant type variant))
  | .present content => ends_pass rfl ((ends_toValue content).imp fun _ => .present)
  | .newtypeStruct _ content => ends_pass rfl ((ends_toValue content).imp fun _ => .newtypeStruct)
  | .newtypeVariant _ _ content =>
    ends_pass rfl ((ends_toValue content).map fun _ => .newtypeVariant)
  | .seq _ items => by
    rw [toValue_seq]
    exact ends_pass rfl ((ends_mapM items).map fun _ => .seq)
  | .tuple items => by
    rw [toValue_tuple]
    exact ends_pass rfl ((ends_mapM items).map fun _ => .tuple)
  | .tupleStruct _ items => by
    rw [toValue_tupleStruct]
    exact ends_pass rfl ((ends_mapM items).map fun _ => .tupleStruct)
  | .tupleVariant _ _ items => by
    rw [toValue_tupleVariant]
    exact ends_pass rfl ((ends_mapM items).map fun _ => .tupleVariant)
  | .struct _ fields => by
    apply ends_pass rfl
    apply (ends_fieldValues fields []).map
    rintro members ⟨pairs, hpairs, rfl⟩
    exact .struct hpairs (Members.keepsLast_insertAll pairs)
  | .structVariant _ _ fields => by
    apply ends_pass rfl
    apply (ends_fieldValues fields []).map
    rintro members ⟨pairs, hpairs, rfl⟩
    exact .structVariant hpairs (Members.keepsLast_insertAll pairs)
  | .map announced steps => by
    -- A map is begun without members and without a key.
    have hrun : Ends (refusals (placesOfSteps false steps))
        (fun members => ∃ pairs, HandOver none steps pairs ∧ members = Members.insertAll [] pairs)
        (MapBuilder.run (told announced (Step.count steps)) (stepValues steps)) :=
      (ends_foldlM steps ⟨[], none⟩).map fun _ => id
    apply ends_pass rfl
    apply hrun.map
    rintro members ⟨pairs, hpairs, rfl⟩
    exact .map hpairs (Members.keepsLast_insertAll pairs)

theorem ends_mapM : ∀ items : List Datum,
    Ends (refusals (placesOfItems items)) (HaveValues items) (items.mapM toValue)
  | [] => ends_ok .nil
  | item :: rest => by
    rw [List.mapM_cons]
    refine ends_bind (ends_toValue item) ?_
    intro v hv
    exact (ends_mapM rest).map fun values hvalues => .cons hv hvalues

theorem ends_fieldValues : ∀ (fields : List (String × Datum)) (held : Members Value),
    Ends (refusals (placesOfFields fields))
      (fun members => ∃ pairs, FieldsHaveValues fields pairs ∧ members = held.insertAll pairs)
      (fieldValues fields held)
  | [], held => ends_ok ⟨[], .nil, rfl⟩
  | (name, field) :: rest, held => by
    refine ends_bind (ends_toValue field) ?_
    intro v hv
    refine (ends_fieldValues rest (held.insert name v)).imp ?_
    rintro members ⟨pairs, hpairs, hmembers⟩
    exact ⟨(name, v) :: pairs, .cons hv hpairs, hmembers⟩

theorem ends_foldlM : ∀ (steps : List (Step Datum)) (b : MapBuilder),
    Ends (refusals (placesOfSteps b.pending.isSome steps)) (Puts b steps)
      ((stepValues steps).foldlM MapBuilder.step b)
  | [], b => ends_ok ⟨[], .nil _, rfl⟩
  | .key key :: rest, b => by
    have hkey : Ends (refusals (places key ++ [.key key])) _ (b.step (.key key.toValue)) :=
      ends_bind (ends_toValue key) fun v hv => ends_key hv b
    rw [stepValues, List.foldlM_cons, placesOfSteps, List.append_cons]
    refine ends_bind hkey ?_
    rintro b₁ ⟨text, htext, rfl⟩
    refine (ends_foldlM rest ⟨b.members, some text⟩).imp ?_
    rintro b₂ ⟨pairs, hpairs, hmembers⟩
    exact ⟨pairs, .key htext hpairs, hmembers⟩
  | .value value :: rest, b => by
    have hvalue := ends_value (ends_toValue value) b
    rw [stepValues, List.foldlM_cons, placesOfSteps]
    refine ends_bind hvalue ?_
    rintro b₁ ⟨text, v, hpending, hv, rfl⟩
    refine (ends_foldlM rest ⟨b.members.insert text v, none⟩).imp ?_
    rintro b₂ ⟨pairs, hpairs, hmembers⟩
    refine ⟨(text, v) :: pairs, ?_, hmembers⟩
    rw [hpending]
    exact .value hv hpairs
  | .entry key value :: rest, b => by
    have hkey : Ends (refusals (places key ++ [.key key])) _ (b.step (.key key.toValue)) :=
      ends_bind (ends_toValue key) fun v hv => ends_key hv b
    -- After its key an entry goes on like a value alone, for which a key waits.
    have hentry : Ends (refusals (places key ++ [.key key] ++ .value true :: places value))
        (fun b' => ∃ text v, key.HasValue (.scalar (.string text)) ∧ value.HasValue v ∧
          b' = ⟨b.members.insert text v, none⟩) (b.step (.entry key.toValue value.toValue)) := by
      refine ends_bind hkey ?_
      rintro b₁ ⟨text, htext, rfl⟩
      refine (ends_value (ends_toValue value) ⟨b.members, some text⟩).imp ?_
      rintro b₂ ⟨text', v, hpending, hv, rfl⟩
      cases hpending
      exact ⟨text, v, htext, hv, rfl⟩
    rw [stepValues, List.foldlM_cons, placesOfSteps, List.append_cons]
    refine ends_bind hentry ?_
    rintro b₁ ⟨text, v, htext, hv, rfl⟩
    refine (ends_foldlM rest ⟨b.members.insert text v, none⟩).imp ?_
    rintro b₂ ⟨pairs, hpairs, hmembers⟩
    exact ⟨(text, v) :: pairs, .entry htext hv hpairs, hmembers⟩

end

/-! ### Keys within their data -/

mutual

/-- Conversion comes by all places of a key before it comes to the end of the key. -/
theorem places_of_key {key : Datum} {place : Place} (hplace : place ∈ key.places) :
    ∀ {x : Datum}, .key key ∈ x.places → place ∈ x.places
  | .primitive _, h | .int128 _, h | .uint128 _, h | .char _, h | .absent, h | .unitStruct _, h
  | .unitVariant _ _, h | .failure _, h => by
    cases List.mem_singleton.mp h
  | .present content, h | .newtypeStruct _ content, h | .newtypeVariant _ _ content, h => by
    obtain hroot | hbelow := List.mem_cons.mp h
    · cases hroot
    · exact List.mem_cons_of_mem _ (places_of_key hplace (x := content) hbelow)
  | .seq _ items, h | .tuple items, h | .tupleStruct _ items, h | .tupleVariant _ _ items, h => by
    obtain hroot | hbelow := List.mem_cons.mp h
    · cases hroot
    · exact List.mem_cons_of_mem _ (placesOfItems_of_key hplace hbelow)
  | .struct _ fields, h | .structVariant _ _ fields, h => by
    obtain hroot | hbelow := List.mem_cons.mp h
    · cases hroot
    · exact List.mem_cons_of_mem _ (placesOfFields_of_key hplace hbelow)
  | .map _ steps, h => by
    obtain hroot | hbelow := List.mem_cons.mp h
    · cases hroot
    · exact List.mem_cons_of_mem _ (placesOfSteps_of_key hplace hbelow)

theorem placesOfItems_of_key {key : Datum} {place : Place} (hplace : place ∈ key.places) :
    ∀ {items : List Datum}, .key key ∈ placesOfItems items → place ∈ placesOfItems items
  | [], h => nomatch h
  | item :: rest, h => by
    rw [placesOfItems, List.mem_append] at h ⊢
    exact h.imp (places_of_key hplace) (placesOfItems_of_key hplace)

theorem placesOfFields_of_key {key : Datum} {place : Place} (hplace : place ∈ key.places) :
    ∀ {fields : List (String × Datum)}, .key key ∈ placesOfFields fields →
      place ∈ placesOfFields fields
  | [], h => nomatch h
  | (_, field) :: rest, h => by
    rw [placesOfFields, List.mem_append] at h ⊢
    exact h.imp (places_of_key hplace) (placesOfFields_of_key hplace)

theorem placesOfSteps_of_key {key : Datum} {place : Place} (hplace : place ∈ key.places) :
    ∀ {waiting : Bool} {steps : List (Step Datum)}, .key key ∈ placesOfSteps waiting steps →
      place ∈ placesOfSteps waiting steps
  | _, [], h => nomatch h
  | _, .key first :: rest, h => by
    rw [placesOfSteps, List.mem_append, List.mem_cons] at h ⊢
    obtain hkey | hown | hrest := h
    · exact .inl (places_of_key hplace hkey)
    · cases hown
      exact .inl hplace
    · exact .inr (.inr (placesOfSteps_of_key hplace hrest))
  | _, .value value :: rest, h => by
    rw [placesOfSteps, List.mem_append, List.mem_cons] at h ⊢
    obtain (hstart | hvalue) | hrest := h
    · cases hstart
    · exact .inl (.inr (places_of_key hplace hvalue))
    · exact .inr (placesOfSteps_of_key hplace hrest)
  | _, .entry first value :: rest, h => by
    simp only [placesOfSteps, List.mem_append, List.mem_cons] at h ⊢
    obtain (hkey | hown | hstart | hvalue) | hrest := h
    · exact .inl (.inl (places_of_key hplace hkey))
    · cases hown
      exact .inl (.inl hplace)
    · cases hstart
    · exact .inl (.inr (.inr (.inr (places_of_key hplace hvalue))))
    · exact .inr (placesOfSteps_of_key hplace hrest)

end

/-! ### Data without a value -/

/-- Conversion fails just when something is refused at some place. -/
theorem exists_error_iff (x : Datum) : (∃ cause, x.toValue = .error cause) ↔
    ∃ place ∈ x.places, ∃ cause, place.refusal? = some cause :=
  (ends_toValue x).exists_error_iff_exists_mem

/-- What is refused by itself. -/
theorem cases_of_refusal? {x : Datum} {cause : MarshalError} (h : x.refusal? = some cause) :
    (∃ n, x = .int128 n) ∨ (∃ n, x = .uint128 n) ∨ ∃ reason, x = .failure reason := by
  unfold refusal? at h
  split at h
  · next n => exact .inl ⟨n, rfl⟩
  · next n => exact .inr (.inl ⟨n, rfl⟩)
  · next reason => exact .inr (.inr ⟨reason, rfl⟩)
  · cases h

/-- The end of a key that is converted to something else than a text is refused. -/
theorem refusal?_key_of_toValue {key : Datum} {v : Value} (h : key.toValue = .ok v)
    (hother : ∀ text, v ≠ .scalar (.string text)) :
    (Place.key key).refusal? = some (.keyType v.typeName) := by
  have hvalue := (ends_toValue key).of_eq_ok h
  have htype : v.type ≠ .scalar .string := by
    intro hstring
    obtain ⟨text, htext⟩ := eq_string_of_type hstring
    exact hother text htext
  rw [Place.refusal?, itemType?_of_hasValue hvalue, Value.typeName_eq]
  exact if_neg htype

/-- A key that is not converted to a text is refused at its end or before. -/
theorem exists_refusal_of_key {x key : Datum} (hkey : .key key ∈ x.places)
    (h : ∀ text, key.toValue ≠ .ok (.scalar (.string text))) :
    ∃ place ∈ x.places, ∃ cause, place.refusal? = some cause := by
  cases hvalue : key.toValue with
  | ok v =>
    have hother : ∀ text, v ≠ .scalar (.string text) := by
      rintro text rfl
      exact h text hvalue
    exact ⟨.key key, hkey, _, refusal?_key_of_toValue hvalue hother⟩
  | error cause =>
    -- What is refused within the key is refused within the data that hold the key.
    obtain ⟨place, hplace, hrefusal⟩ := (exists_error_iff key).mp ⟨cause, hvalue⟩
    exact ⟨place, places_of_key hplace hkey, hrefusal⟩

/-- What is refused somewhere in the data: data that no pack can hold, a key that is not
    converted to a text, or a value for which no key waits. -/
theorem exists_refusal_iff (x : Datum) :
    (∃ place ∈ x.places, ∃ cause, place.refusal? = some cause) ↔
      (∃ n, .datum (.int128 n) ∈ x.places) ∨ (∃ n, .datum (.uint128 n) ∈ x.places) ∨
      (∃ reason, .datum (.failure reason) ∈ x.places) ∨
      (∃ key, .key key ∈ x.places ∧ ∀ text, key.toValue ≠ .ok (.scalar (.string text))) ∨
      .value false ∈ x.places := by
  constructor
  · rintro ⟨place, hplace, cause, hrefusal⟩
    cases place with
    | datum y =>
      obtain ⟨n, rfl⟩ | ⟨n, rfl⟩ | ⟨reason, rfl⟩ := cases_of_refusal? hrefusal
      · exact .inl ⟨n, hplace⟩
      · exact .inr (.inl ⟨n, hplace⟩)
      · exact .inr (.inr (.inl ⟨reason, hplace⟩))
    | key key =>
      refine .inr (.inr (.inr (.inl ⟨key, hplace, ?_⟩)))
      intro text htext
      have htype := itemType?_of_hasValue ((ends_toValue key).of_eq_ok htext)
      rw [Place.refusal?, htype] at hrefusal
      cases hrefusal
    | value waiting =>
      cases waiting with
      | false => exact .inr (.inr (.inr (.inr hplace)))
      | true => cases hrefusal
  · rintro (⟨n, hplace⟩ | ⟨n, hplace⟩ | ⟨reason, hplace⟩ | ⟨key, hplace, hkey⟩ | hplace)
    · exact ⟨_, hplace, _, rfl⟩
    · exact ⟨_, hplace, _, rfl⟩
    · exact ⟨_, hplace, _, rfl⟩
    · exact exists_refusal_of_key hplace hkey
    · exact ⟨_, hplace, _, rfl⟩

/-- **Which host data have a value.** Conversion fails just when there is, somewhere in the
    data, an integer of 128 bits or data that fails by itself, a key of a map that is not
    converted to a text, or a value in a map for which no key waits. It makes no difference
    how deep that is, whether it is within a key, and whether a later entry would take its
    place. The error is that of the first such place that conversion comes by, and it is a
    marshal error. Otherwise the result is the value that the data have: options and
    structures around one datum are seen through, a variant without content is its name,
    any other is under its name, and of entries or fields with one key the last is kept. -/
theorem toValue_outcome (x : Datum) :
    ((∃ error, x.toValue.mapError Error.marshal = .error error) ↔
      (∃ n, .datum (.int128 n) ∈ x.places) ∨ (∃ n, .datum (.uint128 n) ∈ x.places) ∨
      (∃ reason, .datum (.failure reason) ∈ x.places) ∨
      (∃ key, .key key ∈ x.places ∧ ∀ text, key.toValue ≠ .ok (.scalar (.string text))) ∨
      .value false ∈ x.places) ∧
    (∀ error, x.toValue.mapError Error.marshal = .error error ↔
      ∃ cause, error = .marshal cause ∧ x.places.findSome? Place.refusal? = some cause) ∧
    (∀ v, x.toValue = .ok v → x.HasValue v) := by
  have hends := ends_toValue x
  refine ⟨?_, fun error => hends.mapError_eq_error_iff, fun v hv => hends.of_eq_ok hv⟩
  rw [exists_mapError_eq_error_iff, exists_error_iff, exists_refusal_iff]

/-- A value that a later entry would replace still has to be converted, and a key that still
    waits at the end has no value to lack. -/
example :
    let entries (early : Datum) : Datum := .map false [
      .entry (.primitive (.str "k")) early, .entry (.char 'k') .absent, .key (.char 'l')]
    (entries (.failure "no")).toValue = .error (.other "no") ∧
      (entries (.unitStruct "U")).toValue = .ok (.map [("k", .null)]) :=
  ⟨rfl, rfl⟩

end Datum

end BinaryPack
