import BinaryPack.Datum.Conversion
import BinaryPack.Proofs.RoundTrip
import BinaryPack.Schema.Reading

/-! # Host data in packs

  The pack of a piece of host data is the pack of its value, and what is read from a pack is
  read from the map that it is decoded to. Since encoding and decoding give the same map
  back, whatever goes through a pack goes through a value and no more
  (`Schema.fromPack_of_marshal`).
-/

namespace BinaryPack

theorem marshal_map (members : Members Value) :
    marshal (.map members) = Encoder.marshalMap {} members := rfl

/-- Only a map has a pack. -/
theorem exists_members_of_marshal {v : Value} {pack : Buffer}
    (h : (marshal v).result = .ok pack) : ∃ members, v = .map members := by
  cases v with
  | scalar s => cases h
  | array items => cases h
  | map members => exact ⟨members, rfl⟩

/-- With the usual limits a map is decoded from its pack, in the order in which it was
    written. -/
theorem decode_of_marshal {members : Members Value} {pack : Buffer}
    (h : (marshal (.map members)).result = .ok pack) (hdistinct : Value.Distinct (.map members)) :
    (decode pack.toList).result = .ok members := by
  rw [marshal_map] at h
  obtain ⟨⟨-, -, hnesting⟩, -⟩ := (Encoder.marshalMap_eq_ok_iff {} members pack).mp h
  have hlimit : ({} : Decoder).WithinLimit pack.toList :=
    Decoder.withinLimit_of_eq_none rfl pack.toList
  have hform := Encoder.form_of_marshalMap h
  -- Both limits on nesting are the usual one.
  exact (hform.result_decode_eq_ok_iff (Nat.zero_le _) hdistinct hlimit members).mpr ⟨hnesting, rfl⟩

theorem Datum.toPack_of_toValue {x : Datum} {v : Value} (h : x.toValue = .ok v) :
    x.toPack = marshal v := by
  rw [toPack, h]

variable {ν : Type} (declarations : ν → Declaration ν) (schema : Schema ν)

/-- What is read from a decoded pack is read from its map. -/
theorem Schema.result_fromPack {buffer : Bytes} {members : Members Value}
    (h : (decode buffer).result = .ok members) :
    (schema.fromPack declarations buffer).result
      = schema.fromValue declarations (.map members) := by
  rw [fromPack, Logged.bind_of_ok h]
  rfl

/-- A value that is written to a pack is read from it as if there had been no pack. -/
theorem Schema.fromPack_of_marshal {v : Value} {pack : Buffer}
    (h : (marshal v).result = .ok pack) (hdistinct : v.Distinct) :
    (schema.fromPack declarations pack.toList).result = schema.fromValue declarations v := by
  obtain ⟨members, rfl⟩ := exists_members_of_marshal h
  exact schema.result_fromPack declarations (decode_of_marshal h hdistinct)

end BinaryPack
