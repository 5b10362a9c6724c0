import BinaryPack.Proofs.Decoding
import BinaryPack.Proofs.Encoder.Tree

/-! # Buffers that are cut short

  An item tells its own length, so nothing that starts like it is an item of its own.
  Cutting a buffer does not let a reader find anything that was not there before: what
  is read in a prefix is read in the whole buffer too, at the same place and up to the
  same offset (`Item.read_take_eq_ok_iff`). And in the whole buffer there is only one
  item to be read at a place, whatever the limit on nesting (`Item.read_unique`).

  So where a reader has taken an item, it takes none once the item has been cut, and a
  decoder refuses the prefix as an invalid pack (`Decoder.decode_truncated`).
-/

namespace BinaryPack

namespace Item

/-! ### Reading in a prefix -/

/-- An item stands in a prefix just when it stands in the buffer and ends in the prefix. -/
theorem standsIn_take_iff {item : Item} {buffer : Bytes} {offset next k : Nat} :
    item.StandsIn (buffer.take k) offset next ↔ item.StandsIn buffer offset next ∧ next ≤ k := by
  have hslice (hk : next ≤ k) :
      (buffer.take k).extract offset next = buffer.extract offset next := by
    rw [List.extract_eq_take_drop, List.extract_eq_take_drop, List.drop_take, List.take_take,
      Nat.min_eq_left (Nat.sub_le_sub_right hk offset)]
  constructor
  · intro h
    obtain ⟨hnext, hend, hwire⟩ := h
    -- The end is bounded twice, by the cut and by the end of the buffer.
    rw [List.length_take] at hend
    have hk : next ≤ k := Nat.le_trans hend (Nat.min_le_left _ _)
    rw [hslice hk] at hwire
    exact ⟨⟨hnext, Nat.le_trans hend (Nat.min_le_right _ _), hwire⟩, hk⟩
  · intro h
    obtain ⟨⟨hnext, hend, hwire⟩, hk⟩ := h
    refine ⟨hnext, ?_, ?_⟩
    · rw [List.length_take]
      exact Nat.le_min.mpr ⟨hk, hend⟩
    · rw [hslice hk]
      exact hwire

/-- What is read in a prefix is what is read in the buffer, if it ends in the prefix. -/
theorem read_take_eq_ok_iff (depth : Nat) (buffer : Bytes) (k offset : Nat) (item : Item)
    (next : Nat) : read depth (buffer.take k) offset = .ok (item, next) ↔
      read depth buffer offset = .ok (item, next) ∧ next ≤ k := by
  rw [read_eq_ok_iff, read_eq_ok_iff, standsIn_take_iff]
  simp only [and_assoc]

/-- At any two limits that let an item be read at a place, it is the same item. -/
theorem read_unique {depth depth' : Nat} {buffer : Bytes} {offset next next' : Nat}
    {item item' : Item} (h : read depth buffer offset = .ok (item, next))
    (h' : read depth' buffer offset = .ok (item', next')) : item = item' ∧ next = next' := by
  obtain ⟨hvalid, -, hstands⟩ := valid_of_read h
  obtain ⟨hvalid', -, hstands'⟩ := valid_of_read h'
  exact hstands.unique hvalid hstands' hvalid'

/-- Where an item was read, none is read in a prefix that cuts it, at any limit. -/
theorem read_take_error {depth : Nat} {buffer : Bytes} {offset next k : Nat} {item : Item}
    (h : read depth buffer offset = .ok (item, next)) (hk : k < next) (depth' : Nat) :
    ∃ cause, read depth' (buffer.take k) offset = .error cause := by
  cases hread : read depth' (buffer.take k) offset with
  | error cause => exact ⟨cause, rfl⟩
  | ok found =>
    -- Another item in the prefix would be another item in the buffer, or the same one.
    obtain ⟨item', next'⟩ := found
    obtain ⟨hread', hnext⟩ := (read_take_eq_ok_iff depth' buffer k offset item' next').mp hread
    obtain ⟨-, rfl⟩ := read_unique h hread'
    exact absurd hk (Nat.not_lt.mpr hnext)

end Item

namespace Decoder

/-! ### Decoding a prefix -/

/-- A buffer is decoded, or is an invalid pack. -/
theorem result_decode_cases (d : Decoder) (buffer : Bytes) :
    (∃ members, (d.decode buffer).result = .ok members) ∨
      ∃ cause, (d.decode buffer).result = .error (.invalidPack cause) := by
  rw [result_decode]
  cases (d.decodeRoot buffer).result with
  | ok members => exact .inl ⟨members, rfl⟩
  | error cause => exact .inr ⟨cause, rfl⟩

/-- A prefix that cuts the item at the start of a buffer is an invalid pack. -/
theorem decode_take_error {depth : Nat} {buffer : Bytes} {root : Item} {stop k : Nat}
    (h : Item.read depth buffer 0 = .ok (root, stop)) (hk : k < stop) (d : Decoder) :
    ∃ cause, (d.decode (buffer.take k)).result = .error (.invalidPack cause) := by
  rcases d.result_decode_cases (buffer.take k) with ⟨members, hok⟩ | herror
  · -- To be decoded, the prefix would have to start with a root of its own.
    obtain ⟨root', stop', haccepts, -⟩ := (d.result_decode_eq_ok_iff _ members).mp hok
    obtain ⟨cause, hcause⟩ := Item.read_take_error h hk d.maxDepth
    cases hcause.symm.trans haccepts.read
  · exact herror

/-- **Truncation is always detected.** Where a reader takes an item that ends at some
    offset, a reader with any limit refuses a prefix of the buffer that is shorter, be it
    cut in the header, the name or the payload of the item or of any item within it. So
    every strict prefix of a pack that an encoder wrote is an invalid pack, with whatever
    is allowed to the encoder and the decoder. In a buffer that a decoder takes there is a
    root, which may be followed by other bytes, and every prefix that ends before the root
    does is an invalid pack to every decoder. -/
theorem decode_truncated :
    (∀ (depth : Nat) (buffer : Bytes) (offset : Nat) (item : Item) (next : Nat),
      Item.read depth buffer offset = .ok (item, next) → ∀ k < next, ∀ depth', ∃ cause,
        (Item.read depth' (buffer.take k) offset).mapError InvalidPack.read
          = .error (.read cause)) ∧
    (∀ (e : Encoder) (members : Members Value) (pack : Buffer),
      (e.marshalMap members).result = .ok pack → ∀ k < pack.size, ∀ d : Decoder, ∃ cause,
        (d.decode (pack.toList.take k)).result = .error (.invalidPack cause)) ∧
    (∀ (d : Decoder) (buffer : Bytes) (members : Members Value),
      (d.decode buffer).result = .ok members →
        ∃ root stop, Item.read d.maxDepth buffer 0 = .ok (root, stop) ∧
          ∀ k < stop, ∀ d' : Decoder, ∃ cause,
            (d'.decode (buffer.take k)).result = .error (.invalidPack cause)) := by
  refine ⟨?_, ?_, ?_⟩
  · intro depth buffer offset item next hread k hk depth'
    obtain ⟨cause, hcause⟩ := Item.read_take_error hread hk depth'
    exact ⟨cause, by rw [hcause]; rfl⟩
  · intro e members pack hmarshal k hk d
    -- The whole pack is one item, which is read at the nesting of the map, whatever the
    -- limits of the encoder and the decoder are.
    have hread := Encoder.read_marshalMap hmarshal (Nat.le_refl _)
    exact decode_take_error hread hk d
  · intro d buffer members hdecode
    obtain ⟨root, stop, haccepts, -⟩ := (d.result_decode_eq_ok_iff buffer members).mp hdecode
    refine ⟨root, stop, haccepts.read, ?_⟩
    intro k hk d'
    exact decode_take_error haccepts.read hk d'

/-- A root that is followed by two bytes: what is cut off behind the root is not missed. -/
example :
    let buffer : Bytes := [0x90, 0, 10, 1, 0, 0, 0, 0xD0, 2, 1, 0x61, 0, 0, 0, 0x90]
    (List.range 16).map (fun k => (Decoder.decode {} (buffer.take k)).result.isOk) =
      List.replicate 13 false ++ List.replicate 3 true := by
  decide +kernel

end Decoder

end BinaryPack
