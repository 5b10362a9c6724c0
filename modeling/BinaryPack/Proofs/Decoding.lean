import BinaryPack.Decoder
import BinaryPack.Proofs.Item.Binding
import BinaryPack.Proofs.Item.Grammar

/-! # What a decoder accepts

  A decoder accepts a buffer just when the reader takes an object at its start,
  the buffer is within the limit on its length, and nothing follows the object
  unless it may (`Decoder.Accepts`). The object then always has members, since
  the reader gives no item that cannot be bound. The two other checks made
  before reading, for the least length and for the first version of the format,
  refuse nothing that starts with an object.
-/

namespace BinaryPack

namespace Item

/-! ### Items that a reader gives -/

theorem valid_of_read {depth : Nat} {buffer : Bytes} {offset next : Nat} {item : Item}
    (h : read depth buffer offset = .ok (item, next)) :
    item.Valid ∧ item.nesting ≤ depth ∧ item.StandsIn buffer offset next :=
  (read_eq_ok_iff depth buffer offset item next).mp h

/-- What stands at the start of a buffer opens it. -/
theorem StandsIn.eq_append {item : Item} {buffer : Bytes} {next : Nat}
    (h : item.StandsIn buffer 0 next) : ∃ rest, buffer = item.wire ++ rest := by
  obtain ⟨rest, hrest, -⟩ := standsIn_iff.mp h
  exact ⟨rest, by simpa using hrest⟩

/-- An object has the count of its members, so it takes more bytes than a header. -/
theorem length_wire_of_object {item : Item} (hvalid : item.Valid)
    (htype : item.itemType? = some .object) : Decoder.leastLength ≤ item.wire.length := by
  obtain ⟨tag, name, data, children⟩ := item
  obtain ⟨-, -, hdata⟩ := hvalid
  unfold itemType? at htype
  rw [htype] at hdata
  rw [length_wire, wireSize, sizeClass, SizeClass.headerLength, hdata.1]
  simp only [List.length_append, LittleEndian.length_encode, Decoder.leastLength]
  omega

/-- The first version opens with the tag of a text, which no object has. -/
theorem not_firstVersion_of_object {item : Item} {rest : Bytes}
    (htype : item.itemType? = some .object) :
    ¬ Decoder.firstVersionMagic <+: item.wire ++ rest := by
  have htag : item.tag ≠ 0x50 := by
    intro h
    rw [itemType?, h] at htype
    exact absurd htype (by decide)
  intro h
  simp only [wire, Decoder.firstVersionMagic, List.cons_append, List.cons_prefix_cons] at h
  exact htag h.1.symm

end Item

namespace Decoder

/-! ### Checks before reading -/

/-- The buffer is no longer than the decoder allows. -/
def WithinLimit (d : Decoder) (buffer : Bytes) : Prop :=
  ∀ limit, d.maxInputLength = some limit → buffer.length ≤ limit

theorem withinLimit_of_eq_none {d : Decoder} (h : d.maxInputLength = none) (buffer : Bytes) :
    d.WithinLimit buffer := by
  intro limit hsome
  rw [h] at hsome
  cases hsome

theorem refusal?_eq_none_iff (d : Decoder) (buffer : Bytes) :
    d.refusal? buffer = none ↔ leastLength ≤ buffer.length ∧ d.WithinLimit buffer ∧
      ¬ firstVersionMagic <+: buffer := by
  by_cases hshort : buffer.length < leastLength
  · simp [refusal?, hshort, Nat.not_le.mpr hshort]
  · have hmagic : refusal?.magic buffer = none ↔ ¬ firstVersionMagic <+: buffer := by
      simp [refusal?.magic]
    cases hlimit : d.maxInputLength with
    | none => simp [refusal?, WithinLimit, hshort, hlimit, hmagic, Nat.not_lt.mp hshort]
    | some limit =>
      by_cases hover : limit < buffer.length
      · simp [refusal?, WithinLimit, hshort, hlimit, hover, Nat.not_le.mpr hover]
      · simp [refusal?, WithinLimit, hshort, hlimit, hover, hmagic, Nat.not_lt.mp hshort,
          Nat.not_lt.mp hover]

theorem result_checkTrailing_eq_ok_iff (d : Decoder) (count : Nat) (u : Unit) :
    (d.checkTrailing count).result = .ok u ↔ d.allowTrailing ∨ count = 0 := by
  by_cases hcount : count = 0
  · simp [checkTrailing, hcount]
  · cases hallow : d.allowTrailing <;> simp [checkTrailing, hcount, hallow]

/-! ### Acceptance -/

/-- A buffer that a decoder accepts, with its root and the offset after it. -/
structure Accepts (d : Decoder) (buffer : Bytes) (root : Item) (stop : Nat) : Prop where
  /-- The buffer is not too long. -/
  limit : d.WithinLimit buffer
  /-- The reader takes the root. -/
  read : Item.read d.maxDepth buffer 0 = .ok (root, stop)
  /-- The root is an object. -/
  object : root.itemType? = some .object
  /-- Nothing follows the root, or whatever follows may be ignored. -/
  trailing : d.allowTrailing ∨ stop = buffer.length

/-- Neither check made before reading refuses a buffer that starts with an object. -/
theorem refusal?_of_object {depth : Nat} {buffer : Bytes} {root : Item} {stop : Nat}
    (hread : Item.read depth buffer 0 = .ok (root, stop)) (htype : root.itemType? = some .object) :
    leastLength ≤ buffer.length ∧ ¬ firstVersionMagic <+: buffer := by
  obtain ⟨hvalid, -, hstands⟩ := Item.valid_of_read hread
  obtain ⟨rest, rfl⟩ := hstands.eq_append
  have hlen := Item.length_wire_of_object hvalid htype
  refine ⟨?_, Item.not_firstVersion_of_object htype⟩
  rw [List.length_append]
  omega

theorem result_decodeRoot_eq_ok_iff (d : Decoder) (buffer : Bytes) (members : Members Value) :
    (d.decodeRoot buffer).result = .ok members ↔
      ∃ root stop, d.Accepts buffer root stop ∧ root.bindObject.result = .ok members := by
  unfold decodeRoot
  constructor
  · intro h
    split at h
    · cases h
    · next hrefusal =>
      have hnone := Option.eq_none_iff_forall_ne_some.mpr hrefusal
      obtain ⟨-, hlimit, -⟩ := (refusal?_eq_none_iff d buffer).mp hnone
      simp only [Logged.result_bind_eq_ok_iff, Logged.result_ofExcept, mapError_eq_ok_iff,
        Prod.exists, result_checkTrailing_eq_ok_iff] at h
      obtain ⟨root, stop, hread, -, htrailing, h⟩ := h
      -- The root ends within the buffer, so no bytes left over means that it ends there.
      have hstop : stop ≤ buffer.length := (Item.valid_of_read hread).2.2.2.1
      split at h
      · next htype =>
        refine ⟨root, stop, ⟨hlimit, hread, htype, ?_⟩, mapError_eq_ok_iff.mp h⟩
        exact htrailing.imp_right fun hcount => by omega
      · cases h
  · intro h
    obtain ⟨root, stop, ⟨hlimit, hread, htype, htrailing⟩, hbind⟩ := h
    -- Two of the checks before reading ask for nothing that an object would not have.
    obtain ⟨hlen, hmagic⟩ := refusal?_of_object hread htype
    rw [(refusal?_eq_none_iff d buffer).mpr ⟨hlen, hlimit, hmagic⟩]
    simp only [Logged.result_bind_eq_ok_iff, Logged.result_ofExcept, mapError_eq_ok_iff,
      Prod.exists, result_checkTrailing_eq_ok_iff]
    refine ⟨root, stop, hread, (), htrailing.imp_right fun hstop => by omega, ?_⟩
    rw [htype]
    exact mapError_eq_ok_iff.mpr hbind

theorem result_decode (d : Decoder) (buffer : Bytes) :
    (d.decode buffer).result = (d.decodeRoot buffer).result.mapError .invalidPack := rfl

/-- Whatever is accepted is decoded to the members of its root. -/
theorem result_decode_eq_ok_iff (d : Decoder) (buffer : Bytes) (members : Members Value) :
    (d.decode buffer).result = .ok members ↔
      ∃ root stop, d.Accepts buffer root stop ∧ root.bindObject.result = .ok members := by
  rw [result_decode, mapError_eq_ok_iff, result_decodeRoot_eq_ok_iff]

/-- Binding never fails on an item that a reader gives, so what is accepted is decoded. -/
theorem Accepts.exists_members {d : Decoder} {buffer : Bytes} {root : Item} {stop : Nat}
    (h : d.Accepts buffer root stop) : ∃ members, (d.decode buffer).result = .ok members := by
  obtain ⟨hvalid, -, -⟩ := Item.valid_of_read h.read
  obtain ⟨members, hmembers⟩ := Item.bindObject_total (Item.bindable_of_valid hvalid)
  exact ⟨members, (d.result_decode_eq_ok_iff buffer members).mpr ⟨root, stop, h, hmembers⟩⟩

/-- **What a decoder accepts.** A pack is decoded to the members of its root just when
    the reader takes an object at its start, within the limit on its length, and
    with nothing after it that may not be there. Binding never fails on an item
    that a reader gives, the checks before reading refuse no object, and whatever
    is not accepted is an invalid pack. -/
theorem decode_accepts_objects (d : Decoder) (buffer : Bytes) :
    (∀ members, (d.decode buffer).result = .ok members ↔
      ∃ root stop, d.Accepts buffer root stop ∧ root.bindObject.result = .ok members) ∧
    (∀ depth offset item next, Item.read depth buffer offset = .ok (item, next) →
      item.Bindable ∧ (∃ value, item.bind.result = .ok value) ∧
        ∃ members, item.bindObject.result = .ok members) ∧
    (∀ depth root stop, Item.read depth buffer 0 = .ok (root, stop) →
      root.itemType? = some .object →
        leastLength ≤ buffer.length ∧ ¬ firstVersionMagic <+: buffer) ∧
    ((¬ ∃ root stop, d.Accepts buffer root stop) →
      ∃ cause, (d.decode buffer).result = .error (.invalidPack cause)) := by
  refine ⟨result_decode_eq_ok_iff d buffer, ?_, ?_, ?_⟩
  · intro depth offset item next hread
    have hbindable := Item.bindable_of_valid (Item.valid_of_read hread).1
    exact ⟨hbindable, Item.bind_total hbindable, Item.bindObject_total hbindable⟩
  · intro depth root stop hread htype
    exact refusal?_of_object hread htype
  · intro hrefused
    cases hresult : (d.decodeRoot buffer).result with
    | error cause => exact ⟨cause, by rw [result_decode, hresult]; rfl⟩
    | ok members =>
      obtain ⟨root, stop, haccepts, -⟩ := (result_decodeRoot_eq_ok_iff d buffer members).mp hresult
      exact absurd ⟨root, stop, haccepts⟩ hrefused

end Decoder

end BinaryPack
