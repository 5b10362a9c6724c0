import BinaryPack.Proofs.Access

/-! # Parts of schemas that are read

  What the consumers of the parts of a schema read is said here as relations, free of the
  order in which they ask: elements by position (`Schema.ReadEach`), fields by position
  (`Schema.ReadFields`) or by key (`Schema.ReadByKey`), and entries of maps
  (`Schema.ReadEntry`). A visit succeeds just when the relation holds of all parts.
-/

namespace BinaryPack

namespace Schema

variable {ν : Type}

/-! ### Requests -/

section requests
variable (declarations : ν → Declaration ν)

/-- What a value is shown as, with the readers of its parts. -/
def visitOf : Value → Visit (Reader ν)
  | .scalar s => .primitive s.shown
  | .array items => .items (itemReaders declarations items)
  | .map members => .members (memberReaders declarations members)

theorem reader_eq_respond (v : Value) :
    reader declarations v = respond declarations v (visitOf declarations v) := by
  cases v with
  | scalar s => rfl
  | array items => rfl
  | map members => rfl

theorem read_eq_answer (schema : Schema ν) (v : Value) :
    read declarations schema v = answer declarations v (visitOf declarations v) schema := by
  rw [read, reader_eq_respond]
  rfl

@[simp] theorem keys_memberReaders (members : List (String × Value)) :
    Members.keys (memberReaders declarations members) = Members.keys members := by
  rw [memberReaders_eq_map, Members.keys, Members.keys, List.map_map]
  rfl

end requests

/-! ### Elements by position -/

/-- Elements are read one by one, each as a schema of its own. -/
inductive ReadEach : List (Schema ν) → List (Reader ν) → List Datum → Prop where
  | nil : ReadEach [] [] []
  | cons {schema : Schema ν} {schemas : List (Schema ν)} {reader : Reader ν}
    {readers : List (Reader ν)} {datum : Datum} {data : List Datum}
    (h : reader.read (.whole schema) = .ok datum) (hrest : ReadEach schemas readers data) :
    ReadEach (schema :: schemas) (reader :: readers) (datum :: data)

/-- Reading every element alike is reading each as one schema. -/
theorem readEach_replicate_iff {schema : Schema ν} {readers : List (Reader ν)} {data : List Datum} :
    ReadEach (.replicate readers.length schema) readers data ↔
      List.Forall₂ (fun reader x => reader.read (.whole schema) = .ok x) readers data := by
  induction readers generalizing data with
  | nil =>
    constructor
    · intro h
      cases h
      exact .nil
    · intro h
      cases h
      exact .nil
  | cons reader readers ih =>
    rw [List.length_cons, List.replicate_succ]
    constructor
    · intro h
      cases h with
      | cons hfirst hrest => exact .cons hfirst (ih.mp hrest)
    · intro h
      cases h with
      | cons hfirst hrest => exact .cons hfirst (ih.mpr hrest)

theorem run_positional_eq_ok_iff {expected : String} {finish : List Datum → Datum}
    {schemas : List (Schema ν)} {done : List Datum} {readers : List (Reader ν)} {n : Nat}
    {h : readers.length = n} {x : Datum} :
    (positional expected finish schemas done n).run some readers h = (.ok x, []) ↔
      ∃ data, ReadEach schemas readers data ∧ x = finish (done.reverse ++ data) := by
  subst h
  induction schemas generalizing done readers with
  | nil =>
    rw [positional, ArrayPull.run, Prod.mk.injEq]
    constructor
    · intro h
      obtain ⟨hx, rfl⟩ := h
      cases hx
      exact ⟨[], .nil, by rw [List.append_nil]⟩
    · intro h
      obtain ⟨data, hdata, rfl⟩ := h
      cases hdata
      exact ⟨by rw [List.append_nil], rfl⟩
  | cons schema schemas ih =>
    cases readers with
    | nil =>
      -- One more element is asked for, and there is none.
      constructor
      · intro h
        cases h
      · intro h
        obtain ⟨data, hdata, -⟩ := h
        cases hdata
    | cons reader readers =>
      simp only [List.length_cons, positional, ArrayPull.run, ArrayPull.run_proceed_eq_ok_iff, ih,
        List.reverse_cons, List.append_assoc, List.singleton_append]
      constructor
      · intro h
        obtain ⟨datum, hread, data, hdata, rfl⟩ := h
        exact ⟨datum :: data, .cons hread hdata, rfl⟩
      · intro h
        obtain ⟨data, hdata, rfl⟩ := h
        cases hdata with
        | cons hread hrest => exact ⟨_, hread, _, hrest, rfl⟩

/-- An array is read by position just when it has one element for each schema. -/
theorem visitArray_positional_eq_ok_iff {expected : String} {finish : List Datum → Datum}
    {schemas : List (Schema ν)} {readers : List (Reader ν)} {x : Datum} :
    visitArray readers (positional expected finish schemas [] _) = .ok x ↔
      ∃ data, ReadEach schemas readers data ∧ x = finish data := by
  rw [visitArray_eq_ok_iff, run_positional_eq_ok_iff]
  simp only [List.reverse_nil, List.nil_append]

/-- An array is read element by element just when each element is read as the one schema. -/
theorem visitArray_collect_eq_ok_iff {finish : List Datum → Datum} {schema : Schema ν}
    {readers : List (Reader ν)} {x : Datum} :
    visitArray readers (.collect (fun reader => reader.read (.whole schema)) finish _) = .ok x ↔
      ∃ data, ReadEach (.replicate readers.length schema) readers data ∧ x = finish data := by
  rw [visitArray_collect, map_eq_ok_iff]
  simp only [mapM_eq_ok_iff, readEach_replicate_iff]
  constructor
  · intro h
    obtain ⟨data, hdata, rfl⟩ := h
    exact ⟨data, hdata, rfl⟩
  · intro h
    obtain ⟨data, hdata, rfl⟩ := h
    exact ⟨data, hdata, rfl⟩

/-! ### Fields by position -/

/-- Fields are read one by one from elements, and from defaults when there are no more. -/
inductive ReadFields : List (Field ν) → List (Reader ν) → List (String × Datum) → Prop where
  | nil : ReadFields [] [] []
  | cons {field : Field ν} {fields : List (Field ν)} {reader : Reader ν}
    {readers : List (Reader ν)} {datum : Datum} {data : List (String × Datum)}
    (h : reader.read (.whole field.schema) = .ok datum) (hrest : ReadFields fields readers data) :
    ReadFields (field :: fields) (reader :: readers) ((field.name, datum) :: data)
  | default {field : Field ν} {fields : List (Field ν)} {datum : Datum}
    {data : List (String × Datum)} (h : field.default = some datum)
    (hrest : ReadFields fields [] data) :
    ReadFields (field :: fields) [] ((field.name, datum) :: data)

theorem run_positionalFields_eq_ok_iff {expected : String}
    {finish : List (String × Datum) → Datum} {fields : List (Field ν)}
    {done : List (String × Datum)} {readers : List (Reader ν)} {n : Nat}
    {h : readers.length = n} {x : Datum} :
    (positionalFields expected finish fields done n).run some readers h = (.ok x, []) ↔
      ∃ data, ReadFields fields readers data ∧ x = finish (done.reverse ++ data) := by
  subst h
  induction fields generalizing done readers with
  | nil =>
    rw [positionalFields, ArrayPull.run, Prod.mk.injEq]
    constructor
    · intro h
      obtain ⟨hx, rfl⟩ := h
      cases hx
      exact ⟨[], .nil, by rw [List.append_nil]⟩
    · intro h
      obtain ⟨data, hdata, rfl⟩ := h
      cases hdata
      exact ⟨by rw [List.append_nil], rfl⟩
  | cons field fields ih =>
    -- Once a field has its datum, the rest is read with it in front.
    have hmore (datum : Datum) (readers : List (Reader ν)) :
        (positionalFields expected finish fields ((field.name, datum) :: done) _).run some readers
            rfl = (.ok x, []) ↔
          ∃ data, ReadFields fields readers data ∧
            x = finish (done.reverse ++ (field.name, datum) :: data) := by
      rw [ih, List.reverse_cons]
      simp only [List.append_assoc, List.singleton_append]
    cases readers with
    | nil =>
      -- Only a default stands in for an element that is not there.
      cases hdefault : field.default with
      | none =>
        simp only [List.length_nil, positionalFields, ArrayPull.run, hdefault]
        constructor
        · intro h
          cases h
        · intro h
          obtain ⟨data, hdata, -⟩ := h
          cases hdata with
          | default hfirst _ => cases hdefault.symm.trans hfirst
      | some datum =>
        simp only [List.length_nil, positionalFields, ArrayPull.run, hdefault]
        refine (hmore datum []).trans ⟨?_, ?_⟩
        · intro h
          obtain ⟨data, hdata, rfl⟩ := h
          exact ⟨_, .default hdefault hdata, rfl⟩
        · intro h
          obtain ⟨data, hdata, rfl⟩ := h
          cases hdata with
          | default hfirst hrest =>
            cases hdefault.symm.trans hfirst
            exact ⟨_, hrest, rfl⟩
    | cons reader readers =>
      simp only [List.length_cons, positionalFields, ArrayPull.run,
        ArrayPull.run_proceed_eq_ok_iff, hmore]
      constructor
      · intro h
        obtain ⟨datum, hread, data, hdata, rfl⟩ := h
        exact ⟨_, .cons hread hdata, rfl⟩
      · intro h
        obtain ⟨data, hdata, rfl⟩ := h
        cases hdata with
        | cons hread hrest => exact ⟨_, hread, _, hrest, rfl⟩

/-- A structure is read by position just when its fields are. -/
theorem visitArray_positionalFields_eq_ok_iff {expected : String}
    {finish : List (String × Datum) → Datum} {fields : List (Field ν)}
    {readers : List (Reader ν)} {x : Datum} :
    visitArray readers (positionalFields expected finish fields [] _) = .ok x ↔
      ∃ data, ReadFields fields readers data ∧ x = finish data := by
  rw [visitArray_eq_ok_iff, run_positionalFields_eq_ok_iff]
  simp only [List.reverse_nil, List.nil_append]

/-! ### Fields by key -/

/-- Fields are read from the entries that name them. What stands under any other key is read
    and let go, unless the structure is closed. -/
inductive ReadByKey (closed : Bool) (fields : List (Field ν)) :
    Members (Reader ν) → Members Datum → Prop where
  | nil : ReadByKey closed fields [] []
  | field {key : String} {reader : Reader ν} {entries : Members (Reader ν)} {field : Field ν}
    {datum : Datum} {found : Members Datum}
    (hfield : (fields.find? fun field => field.name = key) = some field)
    (h : reader.read (.whole field.schema) = .ok datum)
    (hrest : ReadByKey closed fields entries found) :
    ReadByKey closed fields ((key, reader) :: entries) ((field.name, datum) :: found)
  | unknown {key : String} {reader : Reader ν} {entries : Members (Reader ν)} {datum : Datum}
    {found : Members Datum} (hopen : closed = false)
    (hfield : (fields.find? fun field => field.name = key) = none)
    (h : reader.read (.whole .ignored) = .ok datum)
    (hrest : ReadByKey closed fields entries found) :
    ReadByKey closed fields ((key, reader) :: entries) found

/-- The loop that reads a structure by key finds its fields just as they are read. -/
theorem foldlM_putField_eq_ok_iff {closed : Bool} {fields : List (Field ν)}
    {entries : Members (Reader ν)} {before out : Members Datum} :
    entries.foldlM (MapPull.putEntry (findField closed fields) putField) before = .ok out ↔
      ∃ found, ReadByKey closed fields entries found ∧ out = before.insertAll found := by
  induction entries generalizing before with
  | nil =>
    rw [List.foldlM_nil]
    constructor
    · intro h
      cases h
      exact ⟨[], .nil, rfl⟩
    · intro h
      obtain ⟨found, hfound, rfl⟩ := h
      cases hfound
      rfl
  | cons entry entries ih =>
    obtain ⟨key, reader⟩ := entry
    rw [List.foldlM_cons, MapPull.putEntry, findField]
    simp only [bind_eq_ok_iff, ih]
    cases hfield : fields.find? fun field => field.name = key with
    | some field =>
      constructor
      · intro h
        obtain ⟨next, ⟨_, hkey, hput⟩, found, hfound, rfl⟩ := h
        cases hkey
        obtain ⟨datum, hdatum, rfl⟩ := map_eq_ok_iff.mp hput
        exact ⟨_, .field hfield hdatum hfound, rfl⟩
      · intro h
        obtain ⟨found, hfound, rfl⟩ := h
        cases hfound with
        | field hfield' hdatum hrest =>
          cases hfield.symm.trans hfield'
          exact ⟨_, ⟨_, rfl, map_eq_ok_iff.mpr ⟨_, hdatum, rfl⟩⟩, _, hrest, rfl⟩
        | unknown _ hfield' _ _ => cases hfield.symm.trans hfield'
    | none =>
      -- The key names no field, which an open structure does not mind.
      cases closed with
      | true =>
        constructor
        · intro h
          obtain ⟨next, ⟨_, hkey, -⟩, -⟩ := h
          cases hkey
        · intro h
          obtain ⟨found, hfound, -⟩ := h
          cases hfound with
          | field hfield' _ _ => cases hfield.symm.trans hfield'
          | unknown hopen _ _ _ => cases hopen
      | false =>
        constructor
        · intro h
          obtain ⟨next, ⟨_, hkey, hput⟩, found, hfound, rfl⟩ := h
          cases hkey
          obtain ⟨datum, hdatum, rfl⟩ := map_eq_ok_iff.mp hput
          exact ⟨found, .unknown rfl hfield hdatum hfound, rfl⟩
        · intro h
          obtain ⟨found, hfound, rfl⟩ := h
          cases hfound with
          | field hfield' _ _ => cases hfield.symm.trans hfield'
          | unknown _ _ hdatum hrest =>
            exact ⟨_, ⟨_, rfl, map_eq_ok_iff.mpr ⟨_, hdatum, rfl⟩⟩, found, hrest, rfl⟩

/-- A field as it stands in the end: as it was found, or as absent. -/
def Completes (found : Members Datum) (field : Field ν) (entry : String × Datum) : Prop :=
  entry.1 = field.name ∧
    (found.find? field.name = some entry.2 ∨
      found.find? field.name = none ∧ Field.absent? field = some entry.2)

theorem completeFields_eq_ok_iff {found : Members Datum} {fields : List (Field ν)}
    {data : List (String × Datum)} :
    completeFields fields found = .ok data ↔ List.Forall₂ (Completes found) fields data := by
  rw [completeFields, mapM_eq_ok_iff]
  apply iff_of_eq
  congr 1
  funext field entry
  obtain ⟨name, datum⟩ := entry
  apply propext
  unfold Completes
  cases hfound : found.find? field.name with
  | some held => simp [Option.orElse, eq_comm]
  | none =>
    cases habsent : Field.absent? field with
    | some held => simp [Option.orElse, eq_comm]
    | none => simp [Option.orElse]

/-- A structure is read by key just when the entries are and no field is missing. -/
theorem visitMap_keyedFields_eq_ok_iff {closed : Bool} {fields : List (Field ν)}
    {finish : List (String × Datum) → Datum} {entries : Members (Reader ν)} {x : Datum} :
    visitMap entries (keyedFields closed fields finish _) = .ok x ↔
      ∃ found data, ReadByKey closed fields entries found ∧
        List.Forall₂ (Completes (Members.ofList found)) fields data ∧ x = finish data := by
  rw [keyedFields, visitMap_each, bind_eq_ok_iff]
  simp only [foldlM_putField_eq_ok_iff, map_eq_ok_iff, completeFields_eq_ok_iff]
  constructor
  · intro h
    obtain ⟨_, ⟨found, hfound, rfl⟩, data, hdata, rfl⟩ := h
    exact ⟨found, data, hfound, hdata, rfl⟩
  · intro h
    obtain ⟨found, data, hfound, hdata, rfl⟩ := h
    exact ⟨_, ⟨found, hfound, rfl⟩, data, hdata, rfl⟩

/-! ### Variants -/

/-- A map is read as an enumeration just when it has one entry, which names a variant and
    holds its content. -/
theorem answerDeclared_map_eq_ok_iff {members : Members Value} {entries : Members (Reader ν)}
    {type : String} {variants : List (String × Content ν)} {x : Datum} :
    answerDeclared (.map members) (.members entries) (.enumeration type variants) = .ok x ↔
      ∃ variant reader content, entries = [(variant, reader)] ∧
        findVariant variants variant = .ok content ∧
        reader.read (.content type variant content) = .ok x := by
  constructor
  · intro h
    unfold answerDeclared at h
    match entries, h with
    | [], h => cases h
    | [(variant, reader)], h =>
      obtain ⟨content, hcontent, hread⟩ := bind_eq_ok_iff.mp h
      exact ⟨variant, reader, content, rfl, hcontent, hread⟩
    | _ :: _ :: _, h => cases h
  · intro h
    obtain ⟨variant, reader, content, rfl, hcontent, hread⟩ := h
    exact bind_eq_ok_iff.mpr ⟨content, hcontent, hread⟩

/-! ### Entries -/

/-- An entry of a map is read as a step that hands over its key and what it holds. -/
def ReadEntry (declarations : ν → Declaration ν) (keySchema : KeySchema ν) (heldSchema : Schema ν)
    (entry : String × Reader ν) (step : Step Datum) : Prop :=
  ∃ key held, readKey declarations keySchema entry.1 = .ok key ∧
    entry.2.read (.whole heldSchema) = .ok held ∧ step = .entry key held

section entries
variable {declarations : ν → Declaration ν} {keySchema : KeySchema ν} {heldSchema : Schema ν}

/-- The loop that reads a map reads its entries one after the other. -/
theorem foldlM_pushEntry_eq_ok_iff {members : Members (Reader ν)}
    {before out : Array (Step Datum)} :
    members.foldlM (MapPull.putEntry (readKey declarations keySchema) (pushEntry heldSchema)) before
        = .ok out ↔
      ∃ steps, List.Forall₂ (ReadEntry declarations keySchema heldSchema) members steps ∧
        out.toList = before.toList ++ steps := by
  induction members generalizing before with
  | nil =>
    simp only [List.foldlM_nil, List.forall₂_nil_left_iff, exists_eq_left, List.append_nil,
      Array.toList_inj, eq_comm]
    constructor
    · intro h
      cases h
      rfl
    · intro h
      rw [h]
      rfl
  | cons entry members ih =>
    obtain ⟨key, reader⟩ := entry
    simp only [List.foldlM_cons, MapPull.putEntry, pushEntry, bind_eq_ok_iff, map_eq_ok_iff, ih]
    constructor
    · intro h
      obtain ⟨_, ⟨k, hk, held, hheld, rfl⟩, steps, hsteps, hout⟩ := h
      refine ⟨_, .cons ⟨k, held, hk, hheld, rfl⟩ hsteps, ?_⟩
      rw [hout, Array.toList_push, List.append_assoc, List.singleton_append]
    · intro h
      obtain ⟨steps, hsteps, hout⟩ := h
      cases hsteps with
      | cons hfirst hrest =>
        obtain ⟨k, held, hk, hheld, rfl⟩ := hfirst
        refine ⟨_, ⟨k, hk, held, hheld, rfl⟩, _, hrest, ?_⟩
        rw [hout, Array.toList_push, List.append_assoc, List.singleton_append]

/-- A map is read just when each of its entries is. -/
theorem visitMap_entries_eq_ok_iff {members : Members (Reader ν)} {x : Datum} :
    visitMap members (entries declarations keySchema heldSchema _) = .ok x ↔
      ∃ steps, List.Forall₂ (ReadEntry declarations keySchema heldSchema) members steps ∧
        x = .map true steps := by
  have hvisit := visitMap_each (readKey declarations keySchema) (pushEntry heldSchema)
    (fun steps => .ok (Datum.map true steps.toList)) #[] members
  refine (iff_of_eq (congrArg (· = .ok x) hvisit)).trans ?_
  simp only [bind_eq_ok_iff, foldlM_pushEntry_eq_ok_iff, Except.ok.injEq]
  constructor
  · intro h
    obtain ⟨out, ⟨steps, hsteps, hout⟩, rfl⟩ := h
    exact ⟨steps, hsteps, by rw [hout]; rfl⟩
  · intro h
    obtain ⟨steps, hsteps, rfl⟩ := h
    exact ⟨steps.toArray, ⟨steps, hsteps, rfl⟩, rfl⟩

end entries

end Schema

end BinaryPack
