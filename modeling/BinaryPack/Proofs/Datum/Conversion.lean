import BinaryPack.Datum.Conversion
import BinaryPack.Proofs.Item.Inversion
import BinaryPack.Proofs.Traversal

/-! # What conversion makes of host data

  A map is handed over step by step, and the fields of a structure one by one. Whatever the
  steps are, the map that comes out holds no key twice, and what it holds is the value of
  some part of the data (`MapBuilder.run_cases`). So conversion makes well-formed values
  only (`Datum.distinct_of_toValue`).

  Entries that come as pairs, and fields, are put in one after the other.
-/

namespace BinaryPack

/-! ### Steps of a map -/

/-- What a step hands over as a value. -/
def Step.Hands {α : Type} : Step α → α → Prop
  | .key _, _ => False
  | .value held, handed => held = handed
  | .entry _ held, handed => held = handed

namespace MapBuilder

/-- A key that is a text waits from then on. -/
theorem key_eq_ok_iff {b b' : MapBuilder} {key : Value} :
    b.key key = .ok b' ↔ ∃ text, key = .scalar (.string text) ∧ b' = ⟨b.members, some text⟩ := by
  constructor
  · intro h
    unfold MapBuilder.key at h
    split at h
    · next text =>
      cases h
      exact ⟨text, rfl, rfl⟩
    · cases h
  · rintro ⟨text, rfl, rfl⟩
    rfl

theorem key_eq_error_iff {b : MapBuilder} {key : Value} {cause : MarshalError} :
    b.key key = .error cause ↔
      cause = .keyType key.typeName ∧ ∀ text, key ≠ .scalar (.string text) := by
  unfold MapBuilder.key
  split
  · next text => simp
  · next hother =>
    constructor
    · intro h
      cases h
      exact ⟨rfl, hother⟩
    · intro h
      obtain ⟨rfl, -⟩ := h
      rfl

/-- A value goes under the key that waits, and uses it up. -/
theorem value_eq_ok_iff {b b' : MapBuilder} {value : Except MarshalError Value} :
    b.value value = .ok b' ↔ ∃ text held, b.pending = some text ∧ value = .ok held ∧
      b' = ⟨b.members.insert text held, none⟩ := by
  unfold MapBuilder.value
  split
  · next hnone => simp [hnone]
  · next text hsome =>
    rw [map_eq_ok_iff, hsome]
    constructor
    · rintro ⟨held, hheld, rfl⟩
      exact ⟨text, held, rfl, hheld, rfl⟩
    · rintro ⟨text', held, htext, hheld, rfl⟩
      cases htext
      exact ⟨held, hheld, rfl⟩

theorem value_eq_error_iff {b : MapBuilder} {value : Except MarshalError Value}
    {cause : MarshalError} : b.value value = .error cause ↔
      (b.pending = none ∧ cause = .valueBeforeKey) ∨
      (∃ text, b.pending = some text) ∧ value = .error cause := by
  unfold MapBuilder.value
  cases b.pending with
  | none => simp [eq_comm]
  | some text =>
    rw [map_eq_error_iff]
    simp

/-- A step leaves the members as they are, or puts in one more, which it hands over. -/
theorem step_cases {b b' : MapBuilder} {step : Step (Except MarshalError Value)}
    (h : b.step step = .ok b') :
    b'.members = b.members ∨
      ∃ text held, step.Hands (.ok held) ∧ b'.members = b.members.insert text held := by
  cases step with
  | key key =>
    obtain ⟨k, -, hkey⟩ := bind_eq_ok_iff.mp h
    obtain ⟨text, -, rfl⟩ := key_eq_ok_iff.mp hkey
    exact .inl rfl
  | value value =>
    obtain ⟨text, held, -, hheld, rfl⟩ := value_eq_ok_iff.mp h
    exact .inr ⟨text, held, hheld, rfl⟩
  | entry key value =>
    obtain ⟨b₁, hfirst, hvalue⟩ := bind_eq_ok_iff.mp h
    obtain ⟨k, -, hkey⟩ := bind_eq_ok_iff.mp hfirst
    obtain ⟨waiting, -, rfl⟩ := key_eq_ok_iff.mp hkey
    obtain ⟨text, held, -, hheld, rfl⟩ := value_eq_ok_iff.mp hvalue
    exact .inr ⟨text, held, hheld, rfl⟩

theorem foldlM_cases {steps : List (Step (Except MarshalError Value))} {b b' : MapBuilder}
    (h : steps.foldlM MapBuilder.step b = .ok b') :
    (b.members.Distinct → b'.members.Distinct) ∧
      ∀ member ∈ b'.members, member ∈ b.members ∨ ∃ step ∈ steps, step.Hands (.ok member.2) := by
  induction steps generalizing b with
  | nil =>
    cases h
    exact ⟨id, fun _ => .inl⟩
  | cons step rest ih =>
    rw [List.foldlM_cons] at h
    obtain ⟨b₁, hstep, hrest⟩ := bind_eq_ok_iff.mp h
    obtain ⟨hdistinct, hmembers⟩ := ih hrest
    rcases step_cases hstep with hsame | ⟨text, held, hhands, hinsert⟩
    · rw [hsame] at hdistinct hmembers
      refine ⟨hdistinct, ?_⟩
      intro member hmember
      apply (hmembers member hmember).imp_right
      intro hlater
      obtain ⟨step', hstep', hhands⟩ := hlater
      exact ⟨step', List.mem_cons_of_mem _ hstep', hhands⟩
    · rw [hinsert] at hdistinct hmembers
      refine ⟨fun hb => hdistinct (hb.insert _ _), ?_⟩
      intro member hmember
      rcases hmembers member hmember with hput | ⟨step', hstep', hhands'⟩
      · rcases Members.mem_insert hput with rfl | hheld
        · exact .inr ⟨step, List.mem_cons_self, hhands⟩
        · exact .inl hheld
      · exact .inr ⟨step', List.mem_cons_of_mem _ hstep', hhands'⟩

/-- A map that was handed over holds no key twice, and nothing but what a step handed over. -/
theorem run_cases {told : Option Nat} {steps : List (Step (Except MarshalError Value))}
    {members : Members Value} (h : run told steps = .ok members) :
    members.Distinct ∧ ∀ member ∈ members, ∃ step ∈ steps, step.Hands (.ok member.2) := by
  obtain ⟨b, hfold, rfl⟩ := map_eq_ok_iff.mp h
  obtain ⟨hdistinct, hmembers⟩ := foldlM_cases hfold
  refine ⟨hdistinct List.nodup_nil, ?_⟩
  intro member hmember
  exact (hmembers member hmember).resolve_left List.not_mem_nil

/-- An entry as a step whose parts have been converted. -/
def entryStep (member : String × Value) : Step (Except MarshalError Value) :=
  .entry (.ok (.scalar (.string member.1))) (.ok member.2)

theorem foldlM_entryStep (members held : Members Value) :
    (members.map entryStep).foldlM MapBuilder.step ⟨held, none⟩
      = .ok ⟨held.insertAll members, none⟩ := by
  induction members generalizing held with
  | nil => rfl
  | cons member rest ih => exact ih (held.insert member.1 member.2)

theorem start_eq (told : Option Nat) : start told = ⟨[], none⟩ := rfl

/-- Entries with distinct keys are handed over as the map that they make up. -/
theorem run_entryStep {members : Members Value} (h : members.Distinct) (told : Option Nat) :
    run told (members.map entryStep) = .ok members := by
  have hown : Members.insertAll [] members = members := Members.ofList_of_distinct h
  rw [run, start_eq, foldlM_entryStep, hown]
  rfl

end MapBuilder

namespace Datum

/-! ### Items -/

/-- Items are converted one by one, and each joins those before it. -/
theorem itemValues_eq (items : List Datum) (values : Array Value) :
    itemValues items values = (items.mapM toValue).map fun more => values ++ more.toArray := by
  induction items generalizing values with
  | nil =>
    rw [itemValues]
    show _ = Except.ok (values ++ #[])
    rw [Array.append_empty]
  | cons item rest ih =>
    rw [itemValues, List.mapM_cons]
    cases item.toValue with
    | error cause => rfl
    | ok v =>
      show itemValues rest (values.push v) = _
      rw [ih]
      cases rest.mapM toValue with
      | error cause => rfl
      | ok more =>
        show Except.ok (values.push v ++ more.toArray) = .ok (values ++ (v :: more).toArray)
        rw [Array.push_eq_append, Array.append_assoc, ← List.toArray_cons]

/-- What is made of the items does not depend on how many of them were told of. -/
theorem map_itemValues {β : Type} (told : Option Nat) (items : List Datum) (f : List Value → β) :
    ((itemValues items (startArray told)).map fun values => f values.toList)
      = (items.mapM toValue).map f := by
  rw [itemValues_eq]
  cases items.mapM toValue with
  | error cause => rfl
  | ok values =>
    show Except.ok (f (startArray told ++ values.toArray).toList) = .ok (f values)
    rw [Array.toList_append]
    rfl

theorem toValue_seq (announced : Bool) (items : List Datum) :
    (seq announced items).toValue = (items.mapM toValue).map .array := by
  rw [toValue, map_itemValues]

theorem toValue_tuple (items : List Datum) :
    (tuple items).toValue = (items.mapM toValue).map .array := by
  rw [toValue, map_itemValues]

theorem toValue_tupleStruct (type : String) (items : List Datum) :
    (tupleStruct type items).toValue = (items.mapM toValue).map .array := by
  rw [toValue, map_itemValues]

theorem toValue_tupleVariant (type variant : String) (items : List Datum) :
    (tupleVariant type variant items).toValue
      = (items.mapM toValue).map fun values => variantValue variant (.array values) := by
  rw [toValue]
  exact map_itemValues _ items fun values => variantValue variant (.array values)

/-! ### Fields -/

/-- Fields are converted one by one and put in under their names. -/
theorem fieldValues_eq_ok_iff {fields : List (String × Datum)} {held members : Members Value} :
    fieldValues fields held = .ok members ↔ ∃ converted,
      List.Forall₂ (fun field member => member.1 = field.1 ∧ field.2.toValue = .ok member.2)
        fields converted ∧ members = held.insertAll converted := by
  induction fields generalizing held with
  | nil =>
    simp only [fieldValues, List.forall₂_nil_left_iff, exists_eq_left]
    constructor
    · intro h
      cases h
      rfl
    · intro h
      rw [h]
      rfl
  | cons field rest ih =>
    obtain ⟨name, content⟩ := field
    rw [fieldValues, bind_eq_ok_iff]
    constructor
    · intro h
      obtain ⟨v, hv, hrest⟩ := h
      obtain ⟨converted, hconverted, hmembers⟩ := ih.mp hrest
      exact ⟨(name, v) :: converted, .cons ⟨rfl, hv⟩ hconverted, hmembers⟩
    · intro h
      obtain ⟨converted, hconverted, hmembers⟩ := h
      cases hconverted with
      | @cons _ member _ others hfirst hrest =>
        obtain ⟨rfl, hv⟩ : member.1 = name ∧ content.toValue = .ok member.2 := hfirst
        exact ⟨member.2, hv, ih.mpr ⟨others, hrest, hmembers⟩⟩

/-! ### Well-formed values -/

mutual

/-- No host data is converted to a value in which a map holds a key twice. -/
theorem distinct_of_toValue : ∀ {x : Datum} {v : Value}, x.toValue = .ok v → v.Distinct
  | .primitive _, _, h | .absent, _, h | .unitStruct _, _, h | .char _, _, h
  | .unitVariant _ _, _, h => by
    cases h
    trivial
  | .int128 _, _, h | .uint128 _, _, h | .failure _, _, h => by cases h
  | .present content, _, h | .newtypeStruct _ content, _, h => distinct_of_toValue (x := content) h
  | .newtypeVariant _ variant content, _, h => by
    obtain ⟨w, hw, rfl⟩ := map_eq_ok_iff.mp h
    exact ⟨Members.distinct_singleton _ _, distinct_of_toValue hw, trivial⟩
  | .seq _ items, _, h | .tuple items, _, h | .tupleStruct _ items, _, h => by
    simp only [toValue_seq, toValue_tuple, toValue_tupleStruct] at h
    obtain ⟨values, hvalues, rfl⟩ := map_eq_ok_iff.mp h
    exact distinct_of_mapM hvalues
  | .tupleVariant _ variant items, _, h => by
    rw [toValue_tupleVariant] at h
    obtain ⟨values, hvalues, rfl⟩ := map_eq_ok_iff.mp h
    exact ⟨Members.distinct_singleton _ _, distinct_of_mapM hvalues, trivial⟩
  | .map _ steps, _, h => by
    obtain ⟨members, hmembers, rfl⟩ := map_eq_ok_iff.mp h
    obtain ⟨hdistinct, hheld⟩ := MapBuilder.run_cases hmembers
    refine ⟨hdistinct, Value.distinctMembers_iff.mpr ?_⟩
    intro member hmember
    obtain ⟨step, hstep, hhands⟩ := hheld member hmember
    exact distinct_of_stepValues hstep hhands
  | .struct _ fields, _, h => by
    obtain ⟨members, hmembers, rfl⟩ := map_eq_ok_iff.mp h
    exact distinct_of_fieldValues hmembers ⟨List.nodup_nil, trivial⟩
  | .structVariant _ variant fields, _, h => by
    obtain ⟨members, hmembers, rfl⟩ := map_eq_ok_iff.mp h
    exact ⟨Members.distinct_singleton _ _,
      distinct_of_fieldValues hmembers ⟨List.nodup_nil, trivial⟩, trivial⟩

theorem distinct_of_mapM : ∀ {items : List Datum} {values : List Value},
    items.mapM toValue = .ok values → Value.DistinctItems values
  | [], _, h => by
    cases h
    trivial
  | item :: rest, _, h => by
    rw [List.mapM_cons] at h
    obtain ⟨v, hv, h⟩ := bind_eq_ok_iff.mp h
    obtain ⟨values, hvalues, hpure⟩ := bind_eq_ok_iff.mp h
    cases hpure
    exact ⟨distinct_of_toValue hv, distinct_of_mapM hvalues⟩

theorem distinct_of_stepValues : ∀ {steps : List (Step Datum)}
    {step : Step (Except MarshalError Value)} {v : Value},
      step ∈ stepValues steps → step.Hands (.ok v) → v.Distinct
  | .key key :: rest, step, v, h, hhands => by
    rcases List.mem_cons.mp h with rfl | hrest
    · exact hhands.elim
    · exact distinct_of_stepValues hrest hhands
  | .value value :: rest, step, v, h, hhands => by
    rcases List.mem_cons.mp h with rfl | hrest
    · exact distinct_of_toValue (x := value) hhands
    · exact distinct_of_stepValues hrest hhands
  | .entry key value :: rest, step, v, h, hhands => by
    rcases List.mem_cons.mp h with rfl | hrest
    · exact distinct_of_toValue (x := value) hhands
    · exact distinct_of_stepValues hrest hhands

theorem distinct_of_fieldValues : ∀ {fields : List (String × Datum)} {held members : Members Value},
    fieldValues fields held = .ok members → Value.Distinct (.map held) →
      Value.Distinct (.map members)
  | [], _, _, h, hheld => by
    cases h
    exact hheld
  | (name, field) :: rest, held, members, h, hheld => by
    obtain ⟨v, hv, hrest⟩ := bind_eq_ok_iff.mp h
    refine distinct_of_fieldValues hrest ⟨hheld.1.insert _ _, Value.distinctMembers_iff.mpr ?_⟩
    intro member hmember
    rcases Members.mem_insert hmember with rfl | hbefore
    · exact distinct_of_toValue hv
    · exact Value.distinctMembers_iff.mp hheld.2 member hbefore

end

end Datum

end BinaryPack
