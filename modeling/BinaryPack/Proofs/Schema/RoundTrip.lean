import BinaryPack.Proofs.Schema.Order
import BinaryPack.Proofs.Schema.Scalars
import BinaryPack.Schema.Catalogue

/-! # Host data that comes back

  Data of a type that can be stored is converted to a value, and reading the value as that
  type gives the data back (`Schema.HasType.comes_back`). What is written and what is read
  meet constructor by constructor: primitives under their own type, sequences and tuples item
  by item, fields and entries under their keys, and variants under their names.

  Since the order of members does not matter to reading, the same holds of the value in
  any other order, and of every pack of it (`Schema.round_trip`).
-/

namespace BinaryPack

/-- Where no name occurs twice, a field is found under its name. -/
theorem Field.find?_of_mem {ν : Type} {fields : List (Field ν)}
    (hdistinct : (fields.map (·.name)).Nodup) {field : Field ν} (h : field ∈ fields) :
    (fields.find? fun other => other.name = field.name) = some field := by
  induction fields with
  | nil => cases h
  | cons first rest ih =>
    obtain ⟨hfresh, hrest⟩ := List.nodup_cons.mp hdistinct
    rcases List.mem_cons.mp h with rfl | hlater
    · exact List.find?_cons_of_pos (decide_eq_true rfl)
    · have hne : first.name ≠ field.name := by
        intro hsame
        exact hfresh (List.mem_map.mpr ⟨field, hlater, hsame.symm⟩)
      rw [List.find?_cons_of_neg (by simpa using hne)]
      exact ih hrest hlater

namespace Schema

variable {ν : Type} {declarations : ν → Declaration ν}

/-! ### Parts that come back -/

/-- Each field is read from the entry under its own name. -/
inductive ReadOwn : List (Field ν) → Members (Reader ν) → List (String × Datum) → Prop where
  | nil : ReadOwn [] [] []
  | cons {field : Field ν} {fields : List (Field ν)} {reader : Reader ν}
    {entries : Members (Reader ν)} {datum : Datum} {data : List (String × Datum)}
    (h : reader.read (.whole field.schema) = .ok datum) (hrest : ReadOwn fields entries data) :
    ReadOwn (field :: fields) ((field.name, reader) :: entries) ((field.name, datum) :: data)

section own
variable {fields : List (Field ν)} {entries : Members (Reader ν)} {data : List (String × Datum)}

theorem ReadOwn.keys_eq (h : ReadOwn fields entries data) :
    entries.keys = fields.map (·.name) ∧ Members.keys data = fields.map (·.name) := by
  induction h with
  | nil => exact ⟨rfl, rfl⟩
  | cons _ _ ih => exact ⟨congrArg (_ :: ·) ih.1, congrArg (_ :: ·) ih.2⟩

theorem ReadOwn.readByKey {all : List (Field ν)} (closed : Bool)
    (hdistinct : (all.map (·.name)).Nodup) (hall : ∀ field ∈ fields, field ∈ all)
    (h : ReadOwn fields entries data) : ReadByKey closed all entries data := by
  induction h with
  | nil => exact .nil
  | cons hread _ ih =>
    obtain ⟨hfirst, hrest⟩ := List.forall_mem_cons.mp hall
    exact .field (Field.find?_of_mem hdistinct hfirst) hread (ih hrest)

theorem ReadOwn.completes {found : Members Datum}
    (hfound : ∀ entry ∈ data, found.find? entry.1 = some entry.2)
    (h : ReadOwn fields entries data) :
    List.Forall₂ (Completes found) fields data := by
  induction h with
  | nil => exact .nil
  | cons _ _ ih =>
    obtain ⟨hfirst, hrest⟩ := List.forall_mem_cons.mp hfound
    exact .cons ⟨rfl, .inl hfirst⟩ (ih hrest)

/-- A structure whose fields have names of their own is read by key, each field from its
    own entry. -/
theorem ReadOwn.visitMap_keyedFields (h : ReadOwn fields entries data)
    (hdistinct : (fields.map (·.name)).Nodup) (closed : Bool)
    (finish : List (String × Datum) → Datum) :
    visitMap entries (keyedFields closed fields finish _) = .ok (finish data) := by
  have hone : Members.Distinct data := by
    rwa [Members.Distinct, h.keys_eq.2]
  have hfound (entry : String × Datum) (hentry : entry ∈ data) :
      Members.find? (Members.ofList data) entry.1 = some entry.2 := by
    rw [Members.ofList_of_distinct hone]
    exact Members.find?_of_mem hone hentry
  exact visitMap_keyedFields_eq_ok_iff.mpr
    ⟨data, data, h.readByKey closed hdistinct (fun _ => id), h.completes hfound, rfl⟩

/-- Fields with names of their own are converted to the members from which they are read. -/
theorem ReadOwn.fieldValues_eq_ok {members : Members Value}
    (h : ReadOwn fields (memberReaders declarations members) data)
    (hdistinct : (fields.map (·.name)).Nodup)
    (hmembers : List.Forall₂ (fun field member => member.1 = field.1 ∧
      field.2.toValue = .ok member.2) data members) :
    Datum.fieldValues data [] = .ok members := by
  have hone : members.Distinct := by
    rwa [Members.Distinct, ← keys_memberReaders declarations, h.keys_eq.1]
  have hown : members = Members.insertAll [] members := (Members.ofList_of_distinct hone).symm
  exact Datum.fieldValues_eq_ok_iff.mpr ⟨members, hmembers, hown⟩

end own

theorem ReadEach.length_eq {schemas : List (Schema ν)} {readers : List (Reader ν)}
    {data : List Datum} (h : ReadEach schemas readers data) : readers.length = data.length := by
  induction h with
  | nil => rfl
  | cons _ _ ih => exact congrArg (· + 1) ih

theorem findVariant_of_mem {variants : List (String × Content ν)}
    (hdistinct : Members.Distinct variants) {variant : String} {content : Content ν}
    (h : (variant, content) ∈ variants) : findVariant variants variant = .ok content := by
  rw [findVariant, Members.find?_of_mem hdistinct h]

/-- Content that is not absent is read through an option. -/
theorem read_option {content : Schema ν} {v : Value} {x : Datum} (hnull : v ≠ .null)
    (h : read declarations content v = .ok x) :
    read declarations (.option content) v = .ok (.present x) := by
  have hpresent : ¬ v.isNull = true := by
    intro hisNull
    unfold Value.isNull at hisNull
    split at hisNull
    · exact hnull rfl
    · cases hisNull
  rw [read_eq_answer] at h ⊢
  rw [answer, if_neg hpresent, h]
  rfl

/-- A variant with content is read from the map of one member that stands for it. -/
theorem read_variant {name : ν} {type variant : String} {variants : List (String × Content ν)}
    {content : Content ν} {w : Value} {x : Datum}
    (hdeclared : declarations name = .enumeration type variants)
    (hdistinct : Members.Distinct variants) (hvariant : (variant, content) ∈ variants)
    (h : answerContent declarations w (visitOf declarations w) type variant content = .ok x) :
    read declarations (.declared name) (Datum.variantValue variant w) = .ok x := by
  rw [read_eq_answer, answer, hdeclared]
  have hread : (reader declarations w).read (.content type variant content) = .ok x := by
    rw [reader_eq_respond]
    exact h
  exact answerDeclared_map_eq_ok_iff.mpr
    ⟨variant, _, content, rfl, findVariant_of_mem hdistinct hvariant, hread⟩

/-- A variant without content is read from its name. -/
theorem read_unitVariant {name : ν} {type variant : String} {variants : List (String × Content ν)}
    (hdeclared : declarations name = .enumeration type variants)
    (hdistinct : Members.Distinct variants) (hvariant : (variant, .unit) ∈ variants) :
    read declarations (.declared name) (.scalar (.string variant))
      = .ok (.unitVariant type variant) := by
  rw [read_eq_answer, answer, hdeclared, answerDeclared, bareVariant,
    findVariant_of_mem hdistinct hvariant]
  rfl

/-! ### Data that come back -/

theorem storable_fields (hdeclarations : ∀ name, (declarations name).Storable declarations)
    {name : ν} {type : String} {closed : Bool} {fields : List (Field ν)}
    (hdeclared : declarations name = .struct type closed fields) :
    FieldsStorable declarations fields := by
  have hstorable := hdeclarations name
  rwa [hdeclared] at hstorable

theorem storable_variants (hdeclarations : ∀ name, (declarations name).Storable declarations)
    {name : ν} {type : String} {variants : List (String × Content ν)}
    (hdeclared : declarations name = .enumeration type variants) :
    Members.Distinct variants ∧ ∀ variant ∈ variants, variant.2.Storable declarations := by
  have hstorable := hdeclarations name
  rwa [hdeclared] at hstorable

mutual

/-- Data of a type that can be stored is converted to a value that is read as the data. -/
theorem HasType.comes_back (hdeclarations : ∀ name, (declarations name).Storable declarations) :
    ∀ {schema : Schema ν} {x : Datum}, HasType declarations schema x →
    schema.Storable declarations →
      ∃ v, x.toValue = .ok v ∧ read declarations schema v = .ok x
  | _, _, .bool _, _ | _, _, .float32 _, _ | _, _, .float64 _, _ | _, _, .string _, _
  | _, _, .unit, _ | _, _, .blob _, _ | _, _, .absent, _ | _, _, .unitStruct _, _ => ⟨_, rfl, rfl⟩
  | _, _, .char c, _ => by
    refine ⟨_, rfl, ?_⟩
    rw [read_eq_answer]
    exact Datum.readCharOf_toString c
  | .integer type, _, .integer (n := n) hholds, hstorable => by
    cases hstorable with
    | integer hwidth =>
      obtain ⟨p, hp, hn⟩ := IntegerType.integer?_datum hholds hwidth
      refine ⟨.scalar p.converted, by rw [hp]; rfl, ?_⟩
      have hshown : (visitOf declarations (.scalar p.converted)).integer? = some n := hn
      rw [read_eq_answer, answer, Visit.readInteger, hshown]
      exact if_pos hholds
  | _, _, .value hdistinct, _ =>
    ⟨_, Value.toValue_toDatum hdistinct, read_value declarations hdistinct⟩
  | _, _, .present h, hstorable => by
    cases hstorable with
    | option hcontent hnull =>
      obtain ⟨v, hv, hread⟩ := h.comes_back hdeclarations hcontent
      -- The absent value would be read as an option without content.
      have hv' : v ≠ .null := by
        rintro rfl
        exact hnull _ h hv
      exact ⟨v, hv, read_option hv' hread⟩
  | _, _, .newtypeStruct h, hstorable => by
    cases hstorable with
    | newtypeStruct hcontent =>
      obtain ⟨v, hv, hread⟩ := h.comes_back hdeclarations hcontent
      refine ⟨v, hv, ?_⟩
      rw [read_eq_answer] at hread ⊢
      rw [answer, hread]
      rfl
  | _, _, .sequence h, hstorable => by
    cases hstorable with
    | sequence hitem =>
      obtain ⟨values, hvalues, hreads⟩ := h.come_back hdeclarations (hitem.replicate _)
      refine ⟨.array values, by rw [Datum.toValue_seq, hvalues]; rfl, ?_⟩
      -- A sequence has no length of its own; it is read up to its end.
      rw [← hreads.length_eq] at hreads
      rw [read_eq_answer]
      exact visitArray_collect_eq_ok_iff.mpr ⟨_, hreads, rfl⟩
  | _, _, .array h, hstorable => by
    cases hstorable with
    | array hitem =>
      obtain ⟨values, hvalues, hreads⟩ := h.come_back hdeclarations (hitem.replicate _)
      refine ⟨.array values, by rw [Datum.toValue_tuple, hvalues]; rfl, ?_⟩
      rw [read_eq_answer]
      exact visitArray_positional_eq_ok_iff.mpr ⟨_, hreads, rfl⟩
  | _, _, .tuple h, hstorable => by
    cases hstorable with
    | tuple hitems =>
      obtain ⟨values, hvalues, hreads⟩ := h.come_back hdeclarations hitems
      refine ⟨.array values, by rw [Datum.toValue_tuple, hvalues]; rfl, ?_⟩
      rw [read_eq_answer]
      exact visitArray_positional_eq_ok_iff.mpr ⟨_, hreads, rfl⟩
  | _, _, .tupleStruct h, hstorable => by
    cases hstorable with
    | tupleStruct hitems =>
      obtain ⟨values, hvalues, hreads⟩ := h.come_back hdeclarations hitems
      refine ⟨.array values, by rw [Datum.toValue_tupleStruct, hvalues]; rfl, ?_⟩
      rw [read_eq_answer]
      exact visitArray_positional_eq_ok_iff.mpr ⟨_, hreads, rfl⟩
  | _, _, .map h, hstorable => by
    cases hstorable with
    | map _ hheld =>
      obtain ⟨members, -, hdistinct, hsteps, hreads⟩ := h.come_back hdeclarations hheld
      refine ⟨.map members, ?_, ?_⟩
      · rw [Datum.toValue, hsteps, MapBuilder.run_entryStep hdistinct]
        rfl
      · rw [read_eq_answer]
        exact visitMap_entries_eq_ok_iff.mpr ⟨_, hreads, rfl⟩
  | _, _, .struct hdeclared h, _ => by
    obtain ⟨hdistinct, hschemas⟩ := storable_fields hdeclarations hdeclared
    obtain ⟨members, hmembers, hreads⟩ := h.come_back hdeclarations hschemas
    refine ⟨.map members, ?_, ?_⟩
    -- No field overwrites another, so each is there to be found under its name.
    · rw [Datum.toValue, Members.emptyWithCapacity_eq_nil,
        hreads.fieldValues_eq_ok hdistinct hmembers]
      rfl
    · rw [read_eq_answer, answer, hdeclared]
      exact hreads.visitMap_keyedFields hdistinct _ _
  | _, _, .unitVariant hdeclared hvariant, _ =>
    ⟨_, rfl, read_unitVariant hdeclared (storable_variants hdeclarations hdeclared).1 hvariant⟩
  | _, _, .newtypeVariant hdeclared hvariant h, _ => by
    obtain ⟨hdistinct, hcontents⟩ := storable_variants hdeclarations hdeclared
    obtain ⟨v, hv, hread⟩ := h.comes_back hdeclarations (hcontents _ hvariant)
    refine ⟨_, by rw [Datum.toValue, hv]; rfl, read_variant hdeclared hdistinct hvariant ?_⟩
    rw [read_eq_answer] at hread
    rw [answerContent, hread]
    rfl
  | _, _, .tupleVariant hdeclared hvariant h, _ => by
    obtain ⟨hdistinct, hcontents⟩ := storable_variants hdeclarations hdeclared
    obtain ⟨values, hvalues, hreads⟩ := h.come_back hdeclarations (hcontents _ hvariant)
    refine ⟨Datum.variantValue _ (.array values), ?_, read_variant hdeclared hdistinct hvariant ?_⟩
    · rw [Datum.toValue_tupleVariant, hvalues]
      rfl
    · exact visitArray_positional_eq_ok_iff.mpr ⟨_, hreads, rfl⟩
  | _, _, .structVariant hdeclared hvariant h, _ => by
    obtain ⟨hdistinct, hcontents⟩ := storable_variants hdeclarations hdeclared
    obtain ⟨hnames, hschemas⟩ : FieldsStorable declarations _ := hcontents _ hvariant
    obtain ⟨members, hmembers, hreads⟩ := h.come_back hdeclarations hschemas
    have hvalue := hreads.fieldValues_eq_ok hnames hmembers
    refine ⟨Datum.variantValue _ (.map members), ?_, read_variant hdeclared hdistinct hvariant ?_⟩
    · rw [Datum.toValue, Members.emptyWithCapacity_eq_nil, hvalue]
      rfl
    · exact hreads.visitMap_keyedFields hnames false _

theorem HaveTypes.come_back
    (hdeclarations : ∀ name, (declarations name).Storable declarations) :
    ∀ {schemas : List (Schema ν)} {items : List Datum},
    HaveTypes declarations schemas items → (∀ schema ∈ schemas, schema.Storable declarations) →
      ∃ values, items.mapM Datum.toValue = .ok values ∧
        ReadEach schemas (itemReaders declarations values) items
  | _, _, .nil, _ => ⟨[], rfl, .nil⟩
  | _, _, .cons h hrest, hstorable => by
    obtain ⟨hfirst, hlater⟩ := List.forall_mem_cons.mp hstorable
    obtain ⟨v, hv, hread⟩ := h.comes_back hdeclarations hfirst
    obtain ⟨values, hvalues, hreads⟩ := hrest.come_back hdeclarations hlater
    refine ⟨v :: values, ?_, .cons hread hreads⟩
    rw [List.mapM_cons, hv, hvalues]
    rfl

theorem FieldsHaveTypes.come_back
    (hdeclarations : ∀ name, (declarations name).Storable declarations) :
    ∀ {fields : List (Field ν)} {data : List (String × Datum)},
    FieldsHaveTypes declarations fields data →
      (∀ field ∈ fields, field.schema.Storable declarations) →
      ∃ members : Members Value,
        List.Forall₂ (fun field member => member.1 = field.1 ∧ field.2.toValue = .ok member.2)
          data members ∧
        ReadOwn fields (memberReaders declarations members) data
  | _, _, .nil, _ => ⟨[], .nil, .nil⟩
  | _, _, .cons h hrest, hstorable => by
    obtain ⟨hfirst, hlater⟩ := List.forall_mem_cons.mp hstorable
    obtain ⟨v, hv, hread⟩ := h.comes_back hdeclarations hfirst
    obtain ⟨members, hmembers, hreads⟩ := hrest.come_back hdeclarations hlater
    exact ⟨(_, v) :: members, .cons ⟨rfl, hv⟩ hmembers, .cons hread hreads⟩

theorem EntriesHaveType.come_back
    (hdeclarations : ∀ name, (declarations name).Storable declarations) :
    ∀ {key : KeySchema ν} {held : Schema ν} {texts : List String}
    {steps : List (Step Datum)}, EntriesHaveType declarations key held texts steps →
      held.Storable declarations →
      ∃ members : Members Value, members.keys = texts ∧ members.Distinct ∧
        Datum.stepValues steps = members.map MapBuilder.entryStep ∧
        List.Forall₂ (ReadEntry declarations key held) (memberReaders declarations members) steps
  | _, _, _, _, .nil, _ => ⟨[], rfl, List.nodup_nil, rfl, .nil⟩
  | _, _, _, _, .cons hkey hfresh h hrest, hstorable => by
    obtain ⟨v, hv, hread⟩ := h.comes_back hdeclarations hstorable
    obtain ⟨members, rfl, hdistinct, hsteps, hreads⟩ := hrest.come_back hdeclarations hstorable
    obtain ⟨hk, hreadKey⟩ := hkey.comes_back declarations
    refine ⟨(_, v) :: members, rfl, List.nodup_cons.mpr ⟨hfresh, hdistinct⟩, ?_,
      .cons ⟨_, _, hreadKey, hread, rfl⟩ hreads⟩
    rw [Datum.stepValues, hk, hv, hsteps]
    rfl

end

/-! ### Round trips -/

/-- **Host data comes back.** Let all declared types be such that they can be stored, and
    take data of a type that can be stored. It is converted to a value, and reading the
    value as the type gives the very same data back, floating-point numbers bit for bit.
    With the members of its maps in any other order, the value still reads as the data, up
    to the order of the entries of maps.

    So it is with packs: whatever pack the data has reads as the data, and so does every
    pack that is written with the members in another order. -/
theorem round_trip (declarations : ν → Declaration ν)
    (hdeclarations : ∀ name, (declarations name).Storable declarations) {schema : Schema ν}
    (hschema : schema.Storable declarations) {x : Datum} (hx : HasType declarations schema x) :
    ∃ v, x.toValue = .ok v ∧ schema.fromValue declarations v = .ok x ∧
      (∀ v', v.Reordered v' →
        ∃ x', schema.fromValue declarations v' = .ok x' ∧ x.Reordered x') ∧
      (∀ pack, x.toPack.result = .ok pack →
        (schema.fromPack declarations pack.toList).result = .ok x) ∧
      ∀ v' pack, v.Reordered v' → (marshal v').result = .ok pack →
        ∃ x', (schema.fromPack declarations pack.toList).result = .ok x' ∧ x.Reordered x' := by
  obtain ⟨v, hv, hread⟩ := hx.comes_back hdeclarations hschema
  have hdistinct : v.Distinct := Datum.distinct_of_toValue hv
  have hback : schema.fromValue declarations v = .ok x := mapError_eq_ok_iff.mpr hread
  have hanyOrder (v' : Value) (hreordered : v.Reordered v') :
      ∃ x', schema.fromValue declarations v' = .ok x' ∧ x.Reordered x' := by
    obtain ⟨x', hread', hx'⟩ := read_of_reordered declarations hreordered hdistinct hread
    exact ⟨x', mapError_eq_ok_iff.mpr hread', hx'⟩
  refine ⟨v, hv, hback, hanyOrder, ?_, ?_⟩
  · intro pack hpack
    rw [Datum.toPack_of_toValue hv] at hpack
    rw [fromPack_of_marshal declarations schema hpack hdistinct]
    exact hback
  · intro v' pack hreordered hpack
    rw [fromPack_of_marshal declarations schema hpack (hreordered.distinct hdistinct)]
    exact hanyOrder v' hreordered

end Schema

/-! ### The catalogue -/

namespace Catalogue

open Schema

/-- All types of the catalogue can be stored. -/
theorem storable_declarations (name : Entry) : (declarations name).Storable declarations := by
  cases name with
  | point =>
    refine ⟨by decide, List.forall_iff_forall_mem.mp ?_⟩
    exact ⟨.integer (by decide), .integer (by decide)⟩
  | course =>
    refine ⟨by decide, List.forall_iff_forall_mem.mp ?_⟩
    exact ⟨.integer (by decide), .string, .float32, .sequence .string,
      .option .string (neverNull_string declarations), .declared _⟩
  | strict =>
    refine ⟨by decide, List.forall_iff_forall_mem.mp ?_⟩
    exact ⟨.integer (by decide), .integer (by decide),
      .option .bool (neverNull_bool declarations)⟩
  | tree =>
    refine ⟨by decide, List.forall_iff_forall_mem.mp ?_⟩
    exact ⟨.integer (by decide), .sequence (.declared _)⟩
  | bag =>
    refine ⟨by decide, List.forall_iff_forall_mem.mp ?_⟩
    exact ⟨.value, .blob, .map (.inl rfl) (.integer (by decide))⟩
  | kind =>
    have hminutes : FieldsStorable declarations [field "minutes" (.integer .uint16)] :=
      ⟨by decide, List.forall_iff_forall_mem.mp (.integer (by decide))⟩
    refine ⟨by simp [Members.Distinct, Members.keys], List.forall_iff_forall_mem.mp ?_⟩
    exact ⟨trivial, hminutes⟩
  | event =>
    have hmove : Content.Storable declarations (.tuple [.integer .int8, .integer .int8]) :=
      List.forall_iff_forall_mem.mp ⟨.integer (by decide), .integer (by decide)⟩
    have hto : FieldsStorable declarations [field "to" .string] :=
      ⟨by decide, List.forall_iff_forall_mem.mp .string⟩
    have hwrap : Storable declarations (.option (.integer .int32)) :=
      .option (.integer (by decide)) (neverNull_integer declarations .int32)
    refine ⟨by simp [Members.Distinct, Members.keys], List.forall_iff_forall_mem.mp ?_⟩
    exact ⟨trivial, hmove, hto, hwrap, .declared _⟩
  | solo =>
    refine ⟨by simp [Members.Distinct, Members.keys], List.forall_iff_forall_mem.mp ?_⟩
    exact trivial
  | level =>
    refine ⟨by simp [Members.Distinct, Members.keys], List.forall_iff_forall_mem.mp ?_⟩
    exact ⟨trivial, trivial, trivial⟩

/-- A course with a price that is a signalling NaN, in a pack, and as a value with its
    members in the opposite order. -/
theorem round_trip_course :
    let tags : List Datum := [.primitive (.string "a"), .primitive (.string "b")]
    let recorded : List (String × Datum) := [("minutes", .primitive (.uint16 90))]
    let course : Datum := .struct "Course"
      [("id", .primitive (.uint64 42)), ("title", .primitive (.string "math")),
       ("price", .primitive (.float32 ⟨0x7FA00001⟩)), ("tags", .seq true tags),
       ("lecturer", .absent), ("kind", .structVariant "Kind" "Recorded" recorded)]
    let members : Members Value :=
      [("id", .scalar (.uint64 42)), ("title", .scalar (.string "math")),
       ("price", .scalar (.float32 ⟨0x7FA00001⟩)),
       ("tags", .array [.scalar (.string "a"), .scalar (.string "b")]), ("lecturer", .null),
       ("kind", .map [("Recorded", .map [("minutes", .scalar (.uint16 90))])])]
    let pack : Buffer := #[0x90, 0, 117, 6, 0, 0, 0, 0x28, 3, 0x69, 0x64, 0, 42, 0, 0, 0, 0, 0, 0,
      0, 0xD0, 6, 5, 0x74, 0x69, 0x74, 0x6C, 0x65, 0, 0x6D, 0x61, 0x74, 0x68, 0, 0x44, 6, 0x70,
      0x72, 0x69, 0x63, 0x65, 0, 1, 0, 0xA0, 0x7F, 0xA0, 5, 14, 0x74, 0x61, 0x67, 0x73, 0, 2, 0,
      0, 0, 0xD0, 0, 2, 0x61, 0, 0xD0, 0, 2, 0x62, 0, 0x61, 9, 0x6C, 0x65, 0x63, 0x74, 0x75, 0x72,
      0x65, 0x72, 0, 0, 0x90, 5, 32, 0x6B, 0x69, 0x6E, 0x64, 0, 1, 0, 0, 0, 0x90, 9, 16, 0x52,
      0x65, 0x63, 0x6F, 0x72, 0x64, 0x65, 0x64, 0, 1, 0, 0, 0, 0x22, 8, 0x6D, 0x69, 0x6E, 0x75,
      0x74, 0x65, 0x73, 0, 90, 0]
    course.toValue = .ok (.map members) ∧
      fromValue declarations (.declared .course) (.map members) = .ok course ∧
      course.toPack.result = .ok pack ∧
      (fromPack declarations (.declared .course) pack.toList).result = .ok course ∧
      ∃ x', fromValue declarations (.declared .course) (.map members.reverse) = .ok x' ∧
        course.Reordered x' := by
  intro tags recorded course members pack
  have hid : HasType declarations (.integer .uint64) (.primitive (.uint64 42)) :=
    .integer (n := 42) (by decide)
  have htags : HasType declarations (.sequence .string) (.seq true tags) :=
    .sequence (.cons (.string "a") (.cons (.string "b") .nil))
  have hminutes : HasType declarations (.integer .uint16) (.primitive (.uint16 90)) :=
    .integer (n := 90) (by decide)
  have hkind : HasType declarations (.declared .kind) (.structVariant "Kind" "Recorded" recorded) :=
    .structVariant rfl (.tail _ (.head _)) (.cons hminutes .nil)
  have hcourse : HasType declarations (.declared .course) course :=
    .struct rfl (.cons hid (.cons (.string "math") (.cons (.float32 _) (.cons htags
      (.cons .absent (.cons hkind .nil))))))
  have hvalue : course.toValue = .ok (.map members) := rfl
  have hpack : course.toPack.result = .ok pack := by
    rw [Datum.toPack_of_toValue hvalue, marshal_map]
    exact (Encoder.marshalMap_eq_ok_iff {} members pack).mpr (by decide +kernel)
  have hreverse : Value.Reordered (.map members) (.map members.reverse) :=
    .map (.of_perm (List.reverse_perm members).symm)
  obtain ⟨v, hv, hread, hanyOrder, hfromPack, -⟩ :=
    round_trip declarations storable_declarations (.declared .course) hcourse
  cases hvalue.symm.trans hv
  exact ⟨hvalue, hread, hpack, hfromPack pack hpack, hanyOrder _ hreverse⟩

end Catalogue

end BinaryPack
