import BinaryPack.Encoder
import BinaryPack.Proofs.Encoder.Container

/-! # Writes that only append

  A write does the same to every buffer it meets: it puts some bytes at the end
  and comes to some result, and what stands in the buffer before is neither read
  nor changed (`Write.Appends`). Writes of which this holds are put together by
  `Write.Writes`, which also tells when they succeed and what they have then
  appended.
-/

namespace BinaryPack

namespace Buffer

@[simp] theorem append_nil (buffer : Buffer) : buffer.append [] = buffer := by
  simp [append]

@[simp] theorem append_append (buffer : Buffer) (bytes bytes' : Bytes) :
    (buffer.append bytes).append bytes' = buffer.append (bytes ++ bytes') := by
  apply Array.ext'
  simp

@[simp] theorem size_append (buffer : Buffer) (bytes : Bytes) :
    (buffer.append bytes).size = buffer.size + bytes.length := by
  simp [append]

/-- Cutting off what was appended gives the buffer back. -/
@[simp] theorem truncate_append (buffer : Buffer) (bytes : Bytes) :
    (buffer.append bytes).truncate buffer.size = buffer := by
  simp [append, truncate, Array.extract_append]

end Buffer

namespace Write

variable {α β : Type}

/-! ### Running a write -/

theorem run_pure (a : α) (buffer : Buffer) : (pure a : Write α).run.run buffer = (.ok a, buffer) :=
  rfl

theorem run_throw (cause : MarshalError) (buffer : Buffer) :
    (throw cause : Write α).run.run buffer = (.error cause, buffer) := rfl

theorem run_get (buffer : Buffer) :
    (get : Write Buffer).run.run buffer = (.ok buffer, buffer) := rfl

theorem run_bind (w : Write α) (f : α → Write β) (buffer : Buffer) :
    (w >>= f).run.run buffer = match w.run.run buffer with
      | (.ok a, next) => (f a).run.run next
      | (.error cause, next) => (.error cause, next) := by
  change (match w.run.run buffer with | (r, next) => (ExceptT.bindCont f r).run next) = _
  rcases w.run.run buffer with ⟨_ | _, _⟩ <;> rfl

/-! ### Writes that only append -/

/-- A write that does the same to every buffer: it puts some bytes at the end and comes
    to some result. -/
def Appends (w : Write Unit) (result : Except MarshalError Unit) (written : Bytes) : Prop :=
  ∀ buffer, w.run.run buffer = (result, buffer.append written)

/-- A write that only appends, whether it succeeds or not. It succeeds just under a
    condition, and has then appended the given bytes. -/
def Writes (w : Write Unit) (Fits : Prop) (bytes : Bytes) : Prop :=
  ∃ result written, Appends w result written ∧ (result = .ok () ↔ Fits) ∧ (Fits → written = bytes)

variable {w w' : Write Unit} {Fits Fits' : Prop} {bytes bytes' : Bytes}

theorem writes_of_appends (h : Appends w (.ok ()) bytes) (hfits : Fits) : Writes w Fits bytes :=
  ⟨.ok (), bytes, h, by simp [hfits], fun _ => rfl⟩

theorem writes_of_error {cause : MarshalError} {written : Bytes}
    (h : Appends w (.error cause) written) (hfits : ¬ Fits) : Writes w Fits bytes :=
  ⟨.error cause, written, h, by simp [hfits], fun hfits' => absurd hfits' hfits⟩

/-- A write that only appends ends in one of two ways. -/
theorem Writes.cases (h : Writes w Fits bytes) :
    Fits ∧ Appends w (.ok ()) bytes ∨
      ¬ Fits ∧ ∃ cause written, Appends w (.error cause) written := by
  obtain ⟨result, written, happends, hfits, hbytes⟩ := h
  cases result with
  | ok u =>
    have hfit := hfits.mp rfl
    exact .inl ⟨hfit, hbytes hfit ▸ happends⟩
  | error cause =>
    have hnot : ¬ Fits := fun hfit => nomatch hfits.mpr hfit
    exact .inr ⟨hnot, cause, written, happends⟩

theorem Writes.congr (h : Writes w Fits bytes) (hfits : Fits ↔ Fits') : Writes w Fits' bytes :=
  propext hfits ▸ h

theorem appends_pure : Appends (pure ()) (.ok ()) [] := by
  intro buffer
  rw [run_pure, Buffer.append_nil]

theorem Appends.bind {result : Except MarshalError Unit} (h : Appends w (.ok ()) bytes)
    (h' : Appends w' result bytes') : Appends (do w; w') result (bytes ++ bytes') := by
  intro buffer
  rw [run_bind, h buffer]
  dsimp only
  rw [h', Buffer.append_append]

theorem Appends.bind_error {cause : MarshalError} (h : Appends w (.error cause) bytes) :
    Appends (do w; w') (.error cause) bytes := by
  intro buffer
  rw [run_bind, h buffer]

/-- One write after another. -/
theorem Writes.bind (h : Writes w Fits bytes) (h' : Writes w' Fits' bytes') :
    Writes (do w; w') (Fits ∧ Fits') (bytes ++ bytes') := by
  rcases h.cases with ⟨hfits, happends⟩ | ⟨hfits, cause, written, happends⟩
  · rcases h'.cases with ⟨hfits', happends'⟩ | ⟨hfits', cause, written, happends'⟩
    · exact writes_of_appends (happends.bind happends') ⟨hfits, hfits'⟩
    · exact writes_of_error (happends.bind happends') fun hboth => hfits' hboth.2
  · exact writes_of_error happends.bind_error fun hboth => hfits hboth.1

end Write

end BinaryPack
