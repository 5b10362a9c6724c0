import BinaryPack.Proofs.Decoding
import BinaryPack.Proofs.Encoder.Form
import BinaryPack.Proofs.Item.Carrying
import BinaryPack.Proofs.Value.Reordered

/-! # Round trips

  What an encoder writes and what a decoder takes meet at the wire forms of a map
  (`Members.WireForm`). A decoder gives the map back from every one of them, just
  when the map is nested within its limit, and an encoder writes one of them. So a
  map that is written and decoded again is the same map.

  That a decoder gives nothing else back needs that no other item stands at the
  start of the same bytes (`Item.StandsIn.unique`).
-/

namespace BinaryPack

/-! ### Decoding a form -/

/-- A form of a map is decoded to the map, just when the map is nested within the limit. -/
theorem Form.result_decode_eq_ok_iff {d : Decoder} {name w : Bytes} {members : Members Value}
    (h : Form name (.map members) w) (hname : name.length ≤ 255)
    (hdistinct : Value.Distinct (.map members)) (hlimit : d.WithinLimit w)
    (held : Members Value) :
    (d.decode w).result = .ok held ↔
      Value.nesting (.map members) ≤ d.maxDepth ∧ held = members := by
  obtain ⟨item, hitem⟩ := h.exists_item hname hdistinct
  have hstands := item.standsIn_wire
  rw [hitem.wire_eq] at hstands
  have hmembers := hitem.bindObject
  rw [Decoder.result_decode_eq_ok_iff]
  constructor
  · intro hdecode
    obtain ⟨root, stop, haccepts, hroot⟩ := hdecode
    obtain ⟨hvalid, hnesting, hstands'⟩ := Item.valid_of_read haccepts.read
    obtain ⟨rfl, rfl⟩ := hstands.unique hitem.valid hstands' hvalid
    rw [hmembers] at hroot
    cases hroot
    rw [← hitem.nesting_eq]
    exact ⟨hnesting, rfl⟩
  · intro hdecode
    obtain ⟨hnesting, rfl⟩ := hdecode
    rw [← hitem.nesting_eq] at hnesting
    have hread := (Item.read_eq_ok_iff d.maxDepth w 0 item w.length).mpr
      ⟨hitem.valid, hnesting, hstands⟩
    exact ⟨item, w.length, ⟨hlimit, hread, hitem.type, .inr rfl⟩, hmembers⟩

/-! ### The wire forms of a map -/

/-- The wire forms of a map: the forms of its members in any order, under any name. -/
def Members.WireForm (members : Members Value) (w : Bytes) : Prop :=
  ∃ order name, Value.Reordered (.map members) (.map order) ∧ name.length ≤ 255 ∧
    Form name (.map order) w

/-- An encoder writes a form, which has no name. -/
theorem Encoder.form_of_marshalMap {e : Encoder} {members : Members Value} {buffer : Buffer}
    (h : (e.marshalMap members).result = .ok buffer) : Form [] (.map members) buffer.toList := by
  obtain ⟨⟨hkeys, hlengths, -⟩, hbuffer⟩ := (marshalMap_eq_ok_iff e members buffer).mp h
  rw [hbuffer, Members.layout]
  exact Layout.form_item [] hkeys hlengths

/-- **Every wire form decodes to its map.** A decoder without a limit on the length of its
    input takes every form of a map that is nested within its limit, and gives the map
    back, bit for bit, in the order in which the form has the members. What an encoder
    writes for the map, in any order, is one of these forms. -/
theorem Members.decode_of_wireForm {members : Members Value}
    (hdistinct : Value.Distinct (.map members)) :
    (∀ (d : Decoder) (w : Bytes), d.maxInputLength = none →
      Value.nesting (.map members) ≤ d.maxDepth → members.WireForm w →
        ∃ held, (d.decode w).result = .ok held ∧ Value.Reordered (.map members) (.map held)) ∧
    (∀ (e : Encoder) (order : Members Value) (buffer : Buffer),
      Value.Reordered (.map members) (.map order) → (e.marshalMap order).result = .ok buffer →
        members.WireForm buffer.toList) := by
  constructor
  · intro d w hlimit hnesting hw
    obtain ⟨order, name, horder, hname, hform⟩ := hw
    have hwithin : d.WithinLimit w := by
      intro limit hsome
      rw [hlimit] at hsome
      cases hsome
    have hdecode := hform.result_decode_eq_ok_iff hname (horder.distinct hdistinct) hwithin order
    rw [horder.nesting_eq] at hnesting
    exact ⟨order, hdecode.mpr ⟨hnesting, rfl⟩, horder⟩
  · intro e order buffer horder hmarshal
    exact ⟨order, [], horder, Nat.zero_le _, Encoder.form_of_marshalMap hmarshal⟩

/-- A form that no encoder writes: the members in another order, a name for the root, long
    headers, a marked tag, seven for true, and a name and a text without terminators. -/
theorem Members.decode_of_wireForm_unusual :
    let members : Members Value := [("a", .scalar (.bool true)), ("b", .scalar (.string "x"))]
    let w : Bytes := [0x10, 1, 17, 0, 0, 0, 0x72, 2, 0, 0, 0, 0x50, 1, 1, 0, 0, 0, 0x62, 0x78,
      0xB1, 2, 0x61, 0, 7]
    let written : Buffer := #[0x90, 0, 16, 2, 0, 0, 0, 0x31, 2, 0x61, 0, 1, 0xD0, 2, 2, 0x62, 0,
      0x78, 0]
    members.WireForm w ∧
      (∃ held, ((⟨1, none, false⟩ : Decoder).decode w).result = .ok held ∧
        Value.Reordered (.map members) (.map held)) ∧
      members.WireForm written.toList := by
  intro members w written
  have hdistinct : Value.Distinct (.map members) := by
    simp [members, Value.Distinct, Value.DistinctMembers, Members.Distinct, Members.keys]
  have htext : Form [0x62] (.scalar (.string "x")) [0x50, 1, 1, 0, 0, 0, 0x62, 0x78] :=
    .sized rfl (.bare "x" (by decide)) (.long (by decide))
  have hbool : Form [0x61, 0] (.scalar (.bool true)) [0xB1, 2, 0x61, 0, 7] :=
    .fixed (by decide) (.true 7 (by decide)) .marked
  have hb : NameForm "b" [0x62] := .bare (by decide) (by decide)
  have ha : NameForm "a" [0x61, 0] := .terminated (by decide)
  have hbody : MemberForms [("b", .scalar (.string "x")), ("a", .scalar (.bool true))]
      [0x50, 1, 1, 0, 0, 0, 0x62, 0x78, 0xB1, 2, 0x61, 0, 7] :=
    .cons hb htext (.cons ha hbool .nil)
  have hform : Form [0x72] (.map [("b", .scalar (.string "x")), ("a", .scalar (.bool true))]) w :=
    .map hbody (.long (by decide))
  have hw : members.WireForm w := ⟨_, [0x72], .map (.swap _ _ []), by decide, hform⟩
  have hmarshal : (Encoder.marshalMap ⟨1⟩ members).result = .ok written :=
    (Encoder.marshalMap_eq_ok_iff ⟨1⟩ members written).mpr (by decide)
  obtain ⟨hdecode, hencode⟩ := decode_of_wireForm hdistinct
  exact ⟨hw, hdecode ⟨1, none, false⟩ w rfl (by decide) hw,
    hencode ⟨1⟩ members written (.refl _) hmarshal⟩

/-- One pack is written for one map only, whatever the limits of the encoders are. -/
theorem Encoder.eq_of_marshalMap {e e' : Encoder} {members members' : Members Value}
    {buffer : Buffer} (hdistinct : Value.Distinct (.map members))
    (hdistinct' : Value.Distinct (.map members'))
    (hmarshal : (e.marshalMap members).result = .ok buffer)
    (hmarshal' : (e'.marshalMap members').result = .ok buffer) : members = members' := by
  let d : Decoder := ⟨Value.nesting (.map members), none, true⟩
  have hlimit : d.WithinLimit buffer.toList := by
    intro limit hsome
    cases hsome
  have hdecode := (form_of_marshalMap hmarshal).result_decode_eq_ok_iff (Nat.zero_le _) hdistinct
    hlimit members
  have hdecode' := (form_of_marshalMap hmarshal').result_decode_eq_ok_iff (Nat.zero_le _)
    hdistinct' hlimit members
  exact (hdecode'.mp (hdecode.mpr ⟨Nat.le_refl _, rfl⟩)).2

/-! ### Encoding and decoding -/

/-- **Encoding and decoding give the same map back.** Let a map be written, in any order of
    its members at every depth. A decoder that lets as many bytes through takes them just
    when the map is nested within its limit, whether or not it would ignore bytes after
    the root. What it then gives is the map as it was written, bit for bit and in the
    same order. -/
theorem Encoder.decode_marshalMap {e : Encoder} {d : Decoder} {members order : Members Value}
    {buffer : Buffer} (hdistinct : Value.Distinct (.map members))
    (horder : Value.Reordered (.map members) (.map order))
    (hmarshal : (e.marshalMap order).result = .ok buffer) (hlimit : d.WithinLimit buffer.toList) :
    ((∃ held, (d.decode buffer.toList).result = .ok held) ↔
      Value.nesting (.map members) ≤ d.maxDepth) ∧
    ∀ held, (d.decode buffer.toList).result = .ok held →
      held = order ∧ Value.Reordered (.map members) (.map held) := by
  have hdecode := (form_of_marshalMap hmarshal).result_decode_eq_ok_iff (Nat.zero_le _)
    (horder.distinct hdistinct) hlimit
  rw [horder.nesting_eq]
  refine ⟨⟨?_, ?_⟩, ?_⟩
  · intro h
    obtain ⟨held, hheld⟩ := h
    exact ((hdecode held).mp hheld).1
  · intro hnesting
    exact ⟨order, (hdecode order).mpr ⟨hnesting, rfl⟩⟩
  · intro held hheld
    obtain ⟨-, rfl⟩ := (hdecode held).mp hheld
    exact ⟨rfl, horder⟩

/-- A NaN, an empty key and a text that is a NUL, written in another order. -/
theorem Encoder.decode_marshalMap_reordered :
    let members : Members Value := [("k", .scalar (.float64 ⟨0x7FF8000000000001⟩)),
      ("", .array [.scalar (.string "\x00"), .map []])]
    let order : Members Value := [("", .array [.scalar (.string "\x00"), .map []]),
      ("k", .scalar (.float64 ⟨0x7FF8000000000001⟩))]
    let buffer : Buffer := #[0x90, 0, 36, 2, 0, 0, 0, 0xA0, 1, 16, 0, 2, 0, 0, 0, 0xD0, 0, 2, 0, 0,
      0x90, 0, 4, 0, 0, 0, 0, 0x48, 2, 0x6B, 0, 1, 0, 0, 0, 0, 0, 0xF8, 0x7F]
    (Encoder.marshalMap ⟨3⟩ order).result = .ok buffer ∧
      ∃ held, ((⟨3, some 39, false⟩ : Decoder).decode buffer.toList).result = .ok held ∧
        held = order ∧ Value.Reordered (.map members) (.map held) := by
  intro members order buffer
  have hdistinct : Value.Distinct (.map members) := by
    simp [members, Value.Distinct, Value.DistinctMembers, Value.DistinctItems, Members.Distinct,
      Members.keys]
  have horder : Value.Reordered (.map members) (.map order) := .map (.swap _ _ [])
  have hmarshal : (Encoder.marshalMap ⟨3⟩ order).result = .ok buffer :=
    (marshalMap_eq_ok_iff ⟨3⟩ order buffer).mpr (by decide)
  have hlimit : (⟨3, some 39, false⟩ : Decoder).WithinLimit buffer.toList := by
    intro limit hsome
    cases hsome
    decide
  have hnesting : Value.nesting (.map members) ≤ 3 := by decide
  obtain ⟨haccepts, hgives⟩ := decode_marshalMap hdistinct horder hmarshal hlimit
  obtain ⟨held, hheld⟩ := haccepts.mpr hnesting
  exact ⟨hmarshal, held, hheld, hgives held hheld⟩

end BinaryPack
