import BinaryPack.Datum.Reading
import BinaryPack.Proofs.Datum.Refusals
import BinaryPack.Proofs.Value.Visit

/-! # Converting and reading agree

  Host data become a value in two ways, by conversion (`Datum.toValue`) and by reading
  (`Datum.readValue`). The two treat structures, enumerations and stray steps of a map
  differently, but not plain data: primitives, options, sequences, and maps of texts. On these
  both give the same value, or both are refused at the same piece of data, the first that no
  value stands for (`Datum.toValue_agrees_readValue`).

  What is converted is put together by the one, and asked for by the other: items fill an
  array and entries a map builder, while a consumer pulls elements, keys and values. Each
  makes room for as many as it is told of. The two are compared as runs along the parts.
-/

namespace BinaryPack

namespace Datum

/-! ### Plain data -/

/-- A text or a character, such as the keys of plain maps are. -/
def IsText : Datum → Prop
  | .primitive (.str _) | .primitive (.string _) | .char _ => True
  | _ => False

mutual

/-- Data of primitives, options, sequences and maps, with texts for keys. -/
def Plain : Datum → Prop
  | .primitive _ | .int128 _ | .uint128 _ | .char _ | .absent | .failure _ => True
  | .present content => Plain content
  | .seq _ items => PlainItems items
  | .map _ steps => PlainSteps steps
  | _ => False

/-- A run of plain data. -/
def PlainItems : List Datum → Prop
  | [] => True
  | item :: rest => Plain item ∧ PlainItems rest

/-- Steps that hand over entries, each in one step or as a key and then its value. -/
def PlainSteps : List (Step Datum) → Prop
  | [] => True
  | .entry key value :: rest => IsText key ∧ Plain value ∧ PlainSteps rest
  | .key key :: .value value :: rest => IsText key ∧ Plain value ∧ PlainSteps rest
  | _ => False

end

/-- A text is converted and read alike. -/
theorem IsText.exists_text {x : Datum} (h : x.IsText) :
    ∃ text, x.toValue = .ok (.scalar (.string text)) ∧ x.readText = .ok text := by
  unfold IsText at h
  split at h
  · next text => exact ⟨text, rfl, rfl⟩
  · next text => exact ⟨text, rfl, rfl⟩
  · next c => exact ⟨c.toString, rfl, rfl⟩
  · exact h.elim

/-- The length that a plain map announces is the number of entries that are read from it. -/
theorem count_eq_length_readSteps : ∀ {steps : List (Step Datum)}, PlainSteps steps →
    Step.count steps = (readSteps steps).length
  | [], _ => by rw [Step.count, readSteps, List.length_nil]
  | .entry key value :: rest, h => by
    rw [Step.count, readSteps, List.length_cons, count_eq_length_readSteps h.2.2]
  | .key key :: .value value :: rest, h => by
    rw [Step.count, Step.count, readSteps, List.length_cons, count_eq_length_readSteps h.2.2]

/-! ### Data that are refused -/

/-- What is said of a piece of data that no value stands for: the cause when it is converted,
    and the mismatch when it is read. -/
inductive Refused : Datum → MarshalError → Mismatch → Prop where
  | int128 (n : Int) : Refused (.int128 n) .wideInteger (wideInteger n "i128" "any pack value")
  | uint128 (n : Nat) : Refused (.uint128 n) .wideInteger (wideInteger n "u128" "any pack value")
  | failure (reason : String) : Refused (.failure reason) (.other reason) (.other reason)

/-- The piece of data that starts at a place, if no value stands for it. -/
def Place.refused? : Place → Option Datum
  | .datum x => x.refusal?.map fun _ => x
  | _ => none

/-- The pieces of data at some places that no value stands for. -/
def refused (places : List Place) : List Datum :=
  places.filterMap Place.refused?

theorem refused_append (places places' : List Place) :
    refused (places ++ places') = refused places ++ refused places' :=
  List.filterMap_append

theorem IsText.refused_places {x : Datum} (h : x.IsText) : refused x.places = [] := by
  unfold IsText at h
  split at h
  · rfl
  · rfl
  · rfl
  · exact h.elim

theorem mem_refused_iff {places : List Place} {x : Datum} :
    x ∈ refused places ↔ .datum x ∈ places ∧ ∃ cause, x.refusal? = some cause := by
  unfold refused
  rw [List.mem_filterMap]
  constructor
  · rintro ⟨place, hplace, hrefused⟩
    cases place with
    | datum y =>
      obtain ⟨cause, hcause, rfl⟩ := Option.map_eq_some_iff.mp hrefused
      exact ⟨hplace, cause, hcause⟩
    | key key => cases hrefused
    | value waiting => cases hrefused
  · rintro ⟨hplace, cause, hcause⟩
    refine ⟨.datum x, hplace, ?_⟩
    show x.refusal?.map (fun _ => x) = some x
    rw [hcause]
    rfl

/-! ### Runs that agree -/

/-- How a conversion and a reading that come by the same refused data agree: both stop at the
    first of these, and if there are none, both give the same. -/
def Agree {α : Type} (refused : List Datum) (x : Except MarshalError α) (y : Except Mismatch α) :
    Prop :=
  match refused with
  | [] => ∃ a, x = .ok a ∧ y = .ok a
  | first :: _ => ∃ cause mismatch, Refused first cause mismatch ∧
      x = .error cause ∧ y = .error mismatch

section

variable {α β : Type} {found found' : List Datum} {x : Except MarshalError α}
  {y : Except Mismatch α}

theorem agree_ok (a : α) : Agree [] (.ok a) (.ok a) :=
  ⟨a, rfl, rfl⟩

theorem agree_error {datum : Datum} {cause : MarshalError} {mismatch : Mismatch}
    (h : Refused datum cause mismatch) :
    Agree [datum] (.error cause : Except MarshalError α) (.error mismatch) :=
  ⟨cause, mismatch, h, rfl, rfl⟩

theorem Agree.bind {f : α → Except MarshalError β} {g : α → Except Mismatch β}
    (h : Agree found x y) (hrest : ∀ a, Agree found' (f a) (g a)) :
    Agree (found ++ found') (x >>= f) (y >>= g) := by
  cases found with
  | nil =>
    obtain ⟨a, rfl, rfl⟩ := h
    exact hrest a
  | cons first rest =>
    obtain ⟨cause, mismatch, hrefused, rfl, rfl⟩ := h
    exact ⟨cause, mismatch, hrefused, rfl, rfl⟩

theorem Agree.map (h : Agree found x y) (f : α → β) : Agree found (x.map f) (y.map f) := by
  cases found with
  | nil =>
    obtain ⟨a, rfl, rfl⟩ := h
    exact agree_ok (f a)
  | cons first rest =>
    obtain ⟨cause, mismatch, hrefused, rfl, rfl⟩ := h
    exact ⟨cause, mismatch, hrefused, rfl, rfl⟩

end

/-- A place where nothing of the kind starts makes no difference. -/
theorem agree_pass {α : Type} {place : Place} {places : List Place} {x : Except MarshalError α}
    {y : Except Mismatch α} (hpass : place.refused? = none) (h : Agree (refused places) x y) :
    Agree (refused (place :: places)) x y := by
  unfold refused at h ⊢
  rwa [List.filterMap_cons_none hpass]

/-! ### Steps of a map -/

/-- The members that some steps add to those already there, as a map builder does it. -/
def builtMembers (steps : List (Step Datum)) (held : Members Value) :
    Except MarshalError (Members Value) :=
  ((stepValues steps).foldlM MapBuilder.step ⟨held, none⟩).map (·.members)

/-- The members of a key alone and then a value are those of an entry. -/
theorem builtMembers_key_value (key value : Datum) (rest : List (Step Datum))
    (held : Members Value) :
    builtMembers (.key key :: .value value :: rest) held =
      builtMembers (.entry key value :: rest) held := by
  unfold builtMembers
  simp only [stepValues, List.foldlM_cons]
  rw [← bind_assoc]
  rfl

/-- A key alone and then a value come by the places of an entry. -/
theorem placesOfSteps_key_value (waiting : Bool) (key value : Datum)
    (rest : List (Step Datum)) :
    placesOfSteps waiting (.key key :: .value value :: rest) =
      placesOfSteps waiting (.entry key value :: rest) := by
  simp only [placesOfSteps, List.cons_append, List.append_assoc]

/-- The members of an entry are that of its key and value, and those of the steps after it. -/
theorem builtMembers_entry {key : Datum} {text : String}
    (hkey : key.toValue = .ok (.scalar (.string text))) (value : Datum)
    (rest : List (Step Datum)) (held : Members Value) :
    builtMembers (.entry key value :: rest) held =
      value.toValue >>= fun v => builtMembers rest (held.insert text v) := by
  unfold builtMembers
  rw [stepValues, List.foldlM_cons, hkey]
  cases value.toValue <;> rfl

/-- The members that some steps add to those already there, as a reader of any value finds
    them. -/
def readMembers (steps : List (Step Datum)) (held : Members Value) :
    Except Mismatch (Members Value) :=
  (readSteps steps).foldlM (MapPull.putEntry id (Value.putMember id)) held

theorem readMembers_entry {key : Datum} {text : String} (hkey : key.readText = .ok text)
    (value : Datum) (rest : List (Step Datum)) (held : Members Value) :
    readMembers (.entry key value :: rest) held =
      value.readValue >>= fun v => readMembers rest (held.insert text v) := by
  unfold readMembers
  rw [readSteps, List.foldlM_cons, hkey]
  cases value.readValue <;> rfl

/-- An entry under a text agrees if its value does, and all that comes after. -/
theorem agree_entry {key value : Datum} {rest : List (Step Datum)} (hkey : key.IsText)
    (hvalue : Agree (refused value.places) value.toValue value.readValue)
    (hrest : ∀ held, Agree (refused (placesOfSteps false rest)) (builtMembers rest held)
      (readMembers rest held)) (held : Members Value) :
    Agree (refused (placesOfSteps false (.entry key value :: rest)))
      (builtMembers (.entry key value :: rest) held)
      (readMembers (.entry key value :: rest) held) := by
  obtain ⟨text, hconverted, hread⟩ := hkey.exists_text
  -- Nothing is refused within a text, and at its end and the start of the value nothing starts.
  have hplaces : refused (placesOfSteps false (.entry key value :: rest)) =
      refused (.key key :: .value true :: (value.places ++ placesOfSteps false rest)) := by
    rw [placesOfSteps, List.append_assoc, refused_append, hkey.refused_places]
    rfl
  rw [hplaces, builtMembers_entry hconverted, readMembers_entry hread]
  apply agree_pass rfl
  apply agree_pass rfl
  rw [refused_append]
  apply hvalue.bind
  intro v
  exact hrest (held.insert text v)

/-! ### Plain data -/

mutual

/-- Plain data are converted and read alike. -/
theorem agree_value : ∀ {x : Datum}, x.Plain → Agree (refused x.places) x.toValue x.readValue
  | .primitive p, _ => by
    rw [toValue, readValue, p.converted_eq_taken]
    exact agree_pass rfl (agree_ok _)
  | .int128 n, _ => agree_error (.int128 n)
  | .uint128 n, _ => agree_error (.uint128 n)
  | .failure reason, _ => agree_error (.failure reason)
  | .char c, _ => agree_pass rfl (agree_ok (Value.scalar (.string c.toString)))
  | .absent, _ => agree_pass rfl (agree_ok Value.null)
  | .present content, h => agree_pass rfl (agree_value (x := content) h)
  | .seq announced items, h => by
    rw [toValue_seq, readValue, readArray, Value.fst_run_ofElements]
    exact agree_pass rfl ((agree_items h).map Value.array)
  | .map announced steps, h => by
    rw [toValue, readValue, readMap, Value.fst_run_ofEntries]
    exact agree_pass rfl ((agree_steps h []).map Value.map)

theorem agree_items : ∀ {items : List Datum}, PlainItems items →
    Agree (refused (placesOfItems items)) (items.mapM toValue) ((readItems items).mapM id)
  | [], _ => agree_ok []
  | item :: rest, h => by
    obtain ⟨hitem, hrest⟩ := h
    rw [placesOfItems, refused_append, readItems, List.mapM_cons, List.mapM_cons]
    apply (agree_value hitem).bind
    intro v
    exact (agree_items hrest).map (v :: ·)

theorem agree_steps : ∀ {steps : List (Step Datum)}, PlainSteps steps → ∀ held : Members Value,
    Agree (refused (placesOfSteps false steps)) (builtMembers steps held) (readMembers steps held)
  | [], _, held => agree_ok held
  | .entry key value :: rest, h, held => by
    obtain ⟨hkey, hvalue, hrest⟩ := h
    exact agree_entry hkey (agree_value hvalue) (agree_steps hrest) held
  | .key key :: .value value :: rest, h, held => by
    obtain ⟨hkey, hvalue, hrest⟩ := h
    -- Both take the two steps together, as they would take an entry.
    have hread : readMembers (.key key :: .value value :: rest) held =
        readMembers (.entry key value :: rest) held := by
      rw [readMembers, readMembers, readSteps, readSteps]
    rw [placesOfSteps_key_value, builtMembers_key_value, hread]
    exact agree_entry hkey (agree_value hvalue) (agree_steps hrest) held

end

/-! ### Plain data that are refused -/

/-- There is, somewhere in the data, an integer of 128 bits or data that fail by
    themselves. -/
def HoldsRefused (x : Datum) : Prop :=
  (∃ n, .datum (.int128 n) ∈ x.places) ∨ (∃ n, .datum (.uint128 n) ∈ x.places) ∨
    ∃ reason, .datum (.failure reason) ∈ x.places

theorem holdsRefused_iff {x : Datum} : x.HoldsRefused ↔ refused x.places ≠ [] := by
  constructor
  · rintro (⟨n, hplace⟩ | ⟨n, hplace⟩ | ⟨reason, hplace⟩)
    · exact List.ne_nil_of_mem (mem_refused_iff.mpr ⟨hplace, _, rfl⟩)
    · exact List.ne_nil_of_mem (mem_refused_iff.mpr ⟨hplace, _, rfl⟩)
    · exact List.ne_nil_of_mem (mem_refused_iff.mpr ⟨hplace, _, rfl⟩)
  · intro h
    obtain ⟨y, hy⟩ := List.exists_mem_of_ne_nil _ h
    obtain ⟨hplace, cause, hcause⟩ := mem_refused_iff.mp hy
    obtain ⟨n, rfl⟩ | ⟨n, rfl⟩ | ⟨reason, rfl⟩ := cases_of_refusal? hcause
    · exact .inl ⟨n, hplace⟩
    · exact .inr (.inl ⟨n, hplace⟩)
    · exact .inr (.inr ⟨reason, hplace⟩)

/-- **Plain data are converted and read alike.** Conversion and reading both give the same
    value, or they both fail, the first with a marshal error and the second because the pack
    is not valid, and both at the same piece of data, the first that no value stands for.
    Each fails just when there is an integer of 128 bits or data that fail by themselves
    somewhere in the data, even in an entry that a later one replaces.

    It is so whether or not a sequence or a map announces its length. What a map announces is
    the number of entries that are read from it, so both make room for the same number. -/
theorem toValue_agrees_readValue {x : Datum} (h : x.Plain) :
    ((∃ v, x.toValue.mapError Error.marshal = .ok v ∧
        x.readValue.mapError (fun mismatch => Error.invalidPack (.mismatch mismatch)) = .ok v) ∨
      (∃ first cause mismatch, (refused x.places).head? = some first ∧
        Refused first cause mismatch ∧
        x.toValue.mapError Error.marshal = .error (.marshal cause) ∧
        x.readValue.mapError (fun mismatch => Error.invalidPack (.mismatch mismatch)) =
          .error (.invalidPack (.mismatch mismatch)))) ∧
    ((∃ cause, x.toValue = .error cause) ↔ x.HoldsRefused) ∧
    ((∃ mismatch, x.readValue = .error mismatch) ↔ x.HoldsRefused) ∧
    ∀ announced steps, x = .map announced steps →
      Step.count steps = (readSteps steps).length := by
  have hagree := agree_value h
  have hcount (announced : Bool) (steps : List (Step Datum)) (hx : x = .map announced steps) :
      Step.count steps = (readSteps steps).length := by
    subst hx
    exact count_eq_length_readSteps h
  rw [holdsRefused_iff]
  cases hfound : refused x.places with
  | nil =>
    rw [hfound] at hagree
    obtain ⟨v, hconverted, hread⟩ := hagree
    rw [hconverted, hread]
    refine ⟨.inl ⟨v, rfl, rfl⟩, ?_, ?_, hcount⟩
    · simp
    · simp
  | cons first rest =>
    rw [hfound] at hagree
    obtain ⟨cause, mismatch, hrefused, hconverted, hread⟩ := hagree
    rw [hconverted, hread]
    refine ⟨.inr ⟨first, cause, mismatch, rfl, hrefused, rfl, rfl⟩, ?_, ?_, hcount⟩
    · simp
    · simp

/-- Two maps in which a key comes twice, as a text and as a character. In the second an
    integer of 128 bits is under the first of these. -/
theorem toValue_agrees_readValue_twice :
    let twice (first : Datum) : Datum := .map true [
      .entry (.primitive (.str "a")) (.seq false [.absent, .present first]),
      .key (.char 'a'), .value (.primitive (.bool true))]
    ((twice .absent).Plain ∧
      (twice .absent).toValue = .ok (.map [("a", .scalar (.bool true))]) ∧
      (twice .absent).readValue = .ok (.map [("a", .scalar (.bool true))])) ∧
    ((twice (.int128 5)).Plain ∧ (twice (.int128 5)).HoldsRefused ∧
      (twice (.int128 5)).toValue = .error .wideInteger ∧
      (twice (.int128 5)).readValue = .error (wideInteger 5 "i128" "any pack value")) := by
  intro twice
  have hplain (first : Datum) (h : first.Plain) : (twice first).Plain :=
    ⟨trivial, ⟨trivial, h, trivial⟩, trivial, trivial, trivial⟩
  have hwide : (twice (.int128 5)).HoldsRefused :=
    (toValue_agrees_readValue (hplain (.int128 5) trivial)).2.1.mp ⟨_, rfl⟩
  exact ⟨⟨hplain .absent trivial, rfl, rfl⟩, hplain (.int128 5) trivial, hwide, rfl, rfl⟩

end Datum

end BinaryPack
