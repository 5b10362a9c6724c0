import BinaryPack.Event

/-! # Runs that succeed

  A run of several steps succeeds just when each step succeeds on what the one
  before it gave. These facts take a run apart into its steps, for plain
  results and for results with events. The events of a run are those of its steps,
  up to the first that fails.

  Where a run can fail at several places, it fails at the first of them. `Ends` says so
  for a list of all that the run could be refused for, and composes along the steps.
-/

namespace BinaryPack

variable {ε ε' α β : Type}

theorem bind_eq_ok_iff {x : Except ε α} {f : α → Except ε β} {b : β} :
    x >>= f = .ok b ↔ ∃ a, x = .ok a ∧ f a = .ok b := by
  cases x <;> simp [bind, Except.bind]

theorem map_eq_ok_iff {x : Except ε α} {f : α → β} {b : β} :
    x.map f = .ok b ↔ ∃ a, x = .ok a ∧ f a = b := by
  cases x <;> simp [Except.map]

theorem map_eq_error_iff {x : Except ε α} {f : α → β} {cause : ε} :
    x.map f = .error cause ↔ x = .error cause := by
  cases x <;> simp [Except.map]

theorem mapError_eq_ok_iff {x : Except ε α} {f : ε → ε'} {a : α} :
    x.mapError f = .ok a ↔ x = .ok a := by
  constructor
  · intro h
    cases x with
    | error cause => cases h
    | ok b =>
      cases h
      rfl
  · intro h
    rw [h]
    rfl

theorem mapError_eq_error_iff {x : Except ε α} {f : ε → ε'} {error : ε'} :
    x.mapError f = .error error ↔ ∃ cause, x = .error cause ∧ f cause = error := by
  cases x with
  | error cause =>
    show (Except.error (f cause) : Except ε' α) = .error error ↔ _
    simp
  | ok a =>
    show (Except.ok a : Except ε' α) = .error error ↔ _
    simp

theorem exists_mapError_eq_error_iff {x : Except ε α} {f : ε → ε'} :
    (∃ error, x.mapError f = .error error) ↔ ∃ cause, x = .error cause := by
  simp only [mapError_eq_error_iff]
  constructor
  · rintro ⟨error, cause, hcause, -⟩
    exact ⟨cause, hcause⟩
  · rintro ⟨cause, hcause⟩
    exact ⟨f cause, cause, hcause, rfl⟩

/-! ### Runs that end with the first refusal -/

/-- How a run ends that comes by some refusals: with the first of them. If it comes by none,
    it gives something of the kind `P`. -/
def Ends (refusals : List ε) (P : α → Prop) (x : Except ε α) : Prop :=
  match refusals with
  | [] => ∃ a, x = .ok a ∧ P a
  | first :: _ => x = .error first

section

variable {refusals refusals' : List ε} {P : α → Prop} {Q : β → Prop} {x : Except ε α}

theorem ends_ok {a : α} (h : P a) : Ends [] P (.ok a : Except ε α) :=
  ⟨a, rfl, h⟩

theorem Ends.imp {P' : α → Prop} (h : Ends refusals P x) (himp : ∀ a, P a → P' a) :
    Ends refusals P' x := by
  cases refusals with
  | nil =>
    obtain ⟨a, ha, hP⟩ := h
    exact ⟨a, ha, himp a hP⟩
  | cons first rest => exact h

theorem Ends.bind {f : α → Except ε β} (h : Ends refusals P x)
    (hf : ∀ a, P a → Ends refusals' Q (f a)) : Ends (refusals ++ refusals') Q (x >>= f) := by
  cases refusals with
  | nil =>
    obtain ⟨a, rfl, ha⟩ := h
    exact hf a ha
  | cons first rest =>
    have herror : x = .error first := h
    rw [herror]
    rfl

theorem Ends.map {f : α → β} (h : Ends refusals P x) (hf : ∀ a, P a → Q (f a)) :
    Ends refusals Q (x.map f) := by
  cases refusals with
  | nil =>
    obtain ⟨a, rfl, ha⟩ := h
    exact ends_ok (hf a ha)
  | cons first rest =>
    have herror : x = .error first := h
    rw [herror]
    rfl

/-- The error of a run is its first refusal. -/
theorem Ends.eq_error_iff (h : Ends refusals P x) (cause : ε) :
    x = .error cause ↔ refusals.head? = some cause := by
  cases refusals with
  | nil =>
    obtain ⟨a, rfl, -⟩ := h
    simp
  | cons first rest =>
    have herror : x = .error first := h
    rw [herror]
    simp

/-- A run fails just when something is refused along it. -/
theorem Ends.exists_error_iff (h : Ends refusals P x) :
    (∃ cause, x = .error cause) ↔ refusals ≠ [] := by
  cases refusals with
  | nil =>
    obtain ⟨a, rfl, -⟩ := h
    simp
  | cons first rest =>
    have herror : x = .error first := h
    rw [herror]
    simp

theorem Ends.of_eq_ok (h : Ends refusals P x) {a : α} (hx : x = .ok a) : P a := by
  cases refusals with
  | nil =>
    obtain ⟨b, hb, hP⟩ := h
    cases hb.symm.trans hx
    exact hP
  | cons first rest =>
    have herror : x = .error first := h
    cases herror.symm.trans hx

/-! ### Refusals along places -/

variable {Place : Type} {refusal? : Place → Option ε} {places : List Place}

/-- A run fails just when something is refused at some place that it comes by. -/
theorem Ends.exists_error_iff_exists_mem (h : Ends (places.filterMap refusal?) P x) :
    (∃ cause, x = .error cause) ↔ ∃ place ∈ places, ∃ cause, refusal? place = some cause := by
  rw [h.exists_error_iff]
  constructor
  · intro hne
    obtain ⟨cause, hcause⟩ := List.exists_mem_of_ne_nil _ hne
    obtain ⟨place, hplace, hrefusal⟩ := List.mem_filterMap.mp hcause
    exact ⟨place, hplace, cause, hrefusal⟩
  · rintro ⟨place, hplace, cause, hrefusal⟩
    exact List.ne_nil_of_mem (List.mem_filterMap.mpr ⟨place, hplace, hrefusal⟩)

/-- The error of a run is that of the first place at which something is refused. -/
theorem Ends.mapError_eq_error_iff (h : Ends (places.filterMap refusal?) P x) {f : ε → ε'}
    {error : ε'} : x.mapError f = .error error ↔
      ∃ cause, error = f cause ∧ places.findSome? refusal? = some cause := by
  rw [BinaryPack.mapError_eq_error_iff]
  simp only [h.eq_error_iff, List.head?_filterMap]
  constructor
  · rintro ⟨cause, hfirst, rfl⟩
    exact ⟨cause, rfl, hfirst⟩
  · rintro ⟨cause, rfl, hfirst⟩
    exact ⟨cause, hfirst, rfl⟩

end

namespace Logged

@[simp] theorem result_pure (a : α) : (pure a : Logged ε α).result = .ok a := rfl

@[simp] theorem result_ofExcept (x : Except ε α) : (ofExcept x).result = x := rfl

@[simp] theorem result_emit (event : Event) : (emit event : Logged ε Unit).result = .ok () := rfl

@[simp] theorem result_mapError (f : ε → ε') (run : Logged ε α) :
    (run.mapError f).result = run.result.mapError f := rfl

theorem result_bind_eq_ok_iff {x : Logged ε α} {f : α → Logged ε β} {b : β} :
    (x >>= f).result = .ok b ↔ ∃ a, x.result = .ok a ∧ (f a).result = .ok b := by
  change (andThen x f).result = .ok b ↔ _
  obtain ⟨result, events⟩ := x
  cases result <;> simp [andThen]

theorem ends_bind {refusals refusals' : List ε} {P : α → Prop} {Q : β → Prop} {x : Logged ε α}
    {f : α → Logged ε β} (h : Ends refusals P x.result)
    (hf : ∀ a, P a → Ends refusals' Q (f a).result) :
    Ends (refusals ++ refusals') Q (x >>= f).result := by
  have hresult : (x >>= f).result = x.result >>= fun a => (f a).result := by
    change (andThen x f).result = _
    obtain ⟨result, events⟩ := x
    cases result <;> rfl
  rw [hresult]
  exact h.bind hf

/-! ### Events of a run -/

@[simp] theorem events_pure (a : α) : (pure a : Logged ε α).events = [] := rfl

@[simp] theorem events_ofExcept (x : Except ε α) : (ofExcept x).events = [] := rfl

@[simp] theorem events_emit (event : Event) : (emit event : Logged ε Unit).events = [event] := rfl

@[simp] theorem events_mapError (f : ε → ε') (run : Logged ε α) :
    (run.mapError f).events = run.events := rfl

/-- After a step that succeeds, the events go on. -/
theorem bind_of_ok {x : Logged ε α} {a : α} (h : x.result = .ok a) (f : α → Logged ε β) :
    x >>= f = ⟨(f a).result, x.events ++ (f a).events⟩ := by
  show andThen x f = _
  rw [andThen, h]

/-- After a step that fails, nothing is done. -/
theorem bind_of_error {x : Logged ε α} {cause : ε} (h : x.result = .error cause)
    (f : α → Logged ε β) : x >>= f = ⟨.error cause, x.events⟩ := by
  show andThen x f = _
  rw [andThen, h]

end Logged

end BinaryPack
