import BinaryPack.Proofs.Decoding
import BinaryPack.Proofs.Item.Place
import BinaryPack.Proofs.Truncation

/-! # Sizes that cannot be forged

  A container tells two sizes of itself: how long its payload is, and how many children are
  in it (`SizeField`). Neither can be changed without the other parts of the buffer being
  changed as well. A longer payload would take in bytes that its count does not account
  for, a shorter one would break off before the count is reached, and with another count
  the children would not make up the payload. This holds of every container in a tree, at
  any depth, since the bytes before it settle that an item must stand there
  (`Item.Expects`).
-/

namespace BinaryPack

/-- The buffer with the bytes from a place on replaced by others. -/
def overwrite (buffer : Bytes) (place : Nat) (bytes : Bytes) : Bytes :=
  buffer.take place ++ bytes ++ buffer.drop (place + bytes.length)

/-- Overwriting is about one stretch of the buffer. -/
theorem overwrite_append {before old : Bytes} (bytes after : Bytes)
    (hlen : bytes.length = old.length) :
    overwrite (before ++ old ++ after) before.length bytes = before ++ bytes ++ after := by
  have hplace : before.length + bytes.length = (before ++ old).length := by
    rw [List.length_append, hlen]
  rw [overwrite, hplace, List.drop_left, List.append_assoc before old, List.take_left]

/-- The sizes that a container tells of itself. -/
inductive SizeField where
  /-- How many children are in it. -/
  | count
  /-- How long its payload is. -/
  | length
  deriving DecidableEq

namespace SizeField

open Item

/-- Where the field stands, counted from the start of the item. -/
def offset (item : Item) : SizeField → Nat
  | .count => item.sizeClass.headerLength + item.name.length
  | .length => 2

/-- The bytes of the field. -/
def width (item : Item) : SizeField → Nat
  | .count => countWidth
  | .length => item.sizeClass.lengthWidth

/-- The size that the field tells. -/
def value (item : Item) : SizeField → Nat
  | .count => item.children.length
  | .length => item.data.length

/-- The bytes of an item before the field. -/
def front (item : Item) : SizeField → Bytes
  | .count => item.heading
  | .length => [item.tag, UInt8.ofNat item.name.length]

/-- The bytes of an item after the field. -/
def back (item : Item) : SizeField → Bytes
  | .count => item.children.flatMap wire
  | .length => item.name ++ item.data

theorem length_front (item : Item) (field : SizeField) :
    (field.front item).length = field.offset item := by
  cases field with
  | count => exact length_heading item
  | length => rfl

/-- The field stands where it is said to, and tells the size of the item. -/
theorem wire_eq_fields {item : Item} (hvalid : item.Valid) (hcontainer : item.IsContainer)
    (field : SizeField) : item.wire = field.front item
      ++ LittleEndian.encode (field.width item) (field.value item) ++ field.back item := by
  cases field with
  | count =>
    rw [wire_eq_heading, (hvalid.body hcontainer).1, List.append_assoc]
    rfl
  | length => simp [wire, lengthField, front, back, width, value, sizeClass]

end SizeField

namespace Item

open SizeField

/-! ### One container -/

section forged

variable {item item' : Item} {rest rest' : Bytes} {n : Nat}

/-- With everything else as it is, only one count makes an item. -/
theorem count_eq_of_wire_append (hvalid : item.Valid) (hcontainer : item.IsContainer)
    (hvalid' : item'.Valid) (hn : n < Nat.pow 256 countWidth)
    (h : item'.wire ++ rest' = item.heading ++ LittleEndian.encode countWidth n
      ++ item.children.flatMap wire ++ rest) : n = item.children.length := by
  obtain ⟨hdata, hchildren⟩ := hvalid.body hcontainer
  rw [wire_eq_heading, List.append_assoc, List.append_assoc, List.append_assoc] at h
  obtain ⟨htag, -, hlen, htail⟩ := heading_append_inj hvalid' hvalid h
  have hcontainer' := hcontainer.of_tag_eq htag
  obtain ⟨hdata', hchildren'⟩ := hvalid'.body hcontainer'
  -- The headings agree, so the payloads are equally long and made of the same children.
  rw [hdata', List.append_assoc] at htail
  obtain ⟨hcount, htail⟩ := List.append_inj htail (by simp)
  have hbody : (item'.children.flatMap wire).length = (item.children.flatMap wire).length := by
    rw [hdata, hdata', List.length_append, List.length_append, LittleEndian.length_encode,
      LittleEndian.length_encode] at hlen
    exact Nat.add_left_cancel hlen
  obtain ⟨hwires, -⟩ := List.append_inj htail hbody
  have hsame := flatMap_wire_inj hchildren' hchildren hwires
  rw [← hsame]
  exact (LittleEndian.encode_inj (hvalid'.length_children_lt hcontainer') hn hcount).symm

/-- With everything else as it is, only one length makes an item. -/
theorem length_eq_of_wire_append (hvalid : item.Valid) (hcontainer : item.IsContainer)
    (hvalid' : item'.Valid) (hn : n < Nat.pow 256 item.sizeClass.lengthWidth)
    (h : item'.wire ++ rest' = [item.tag, UInt8.ofNat item.name.length]
      ++ LittleEndian.encode item.sizeClass.lengthWidth n ++ (item.name ++ item.data) ++ rest) :
    n = item.data.length := by
  obtain ⟨hdata, hchildren⟩ := hvalid.body hcontainer
  simp only [wire, List.cons_append, List.nil_append, List.append_assoc, List.cons.injEq] at h
  obtain ⟨htag, hname, htail⟩ := h
  have hnames := length_name_inj hvalid'.length_name_lt hvalid.length_name_lt hname
  have hclass : item'.sizeClass = item.sizeClass := by rw [sizeClass, sizeClass, htag]
  obtain ⟨hfield, htail⟩ := List.append_inj htail (by simp [htag, sizeClass])
  obtain ⟨-, htail⟩ := List.append_inj htail hnames
  have hcontainer' := hcontainer.of_tag_eq htag
  obtain ⟨hdata', hchildren'⟩ := hvalid'.body hcontainer'
  have hn' : n = item'.data.length := by
    have hfits := hvalid'.length_data_lt hcontainer'
    unfold lengthField at hfield
    rw [hclass] at hfits
    rw [htag] at hfield
    exact (LittleEndian.encode_inj hfits hn hfield).symm
  -- Both payloads start with the same count, so neither holds more children than the other.
  rw [hdata, hdata', List.append_assoc, List.append_assoc] at htail
  obtain ⟨hcount, htail⟩ := List.append_inj htail (by simp)
  have hcounts := LittleEndian.encode_inj (hvalid'.length_children_lt hcontainer')
    (hvalid.length_children_lt hcontainer) hcount
  obtain ⟨hsame, -⟩ := flatMap_wire_append_inj hchildren' hchildren hcounts htail
  rw [hn', hdata, hdata', hsame]

end forged

/-! ### A container in a buffer -/

/-- A buffer in which an item was read, cut at a field of one of its containers. The bytes
    before the container settle that an item follows. -/
theorem exists_split_of_field {depth offset next place : Nat} {buffer : Bytes}
    {root item : Item} (hread : read depth buffer offset = .ok (root, next))
    (hitem : (place, item) ∈ root.placed offset) (hcontainer : item.IsContainer)
    (field : SizeField) : item.Valid ∧ ∃ skipped before after, Expects before ∧
      skipped.length = offset ∧
      place + field.offset item = (skipped ++ before ++ field.front item).length ∧
      buffer = (skipped ++ before ++ field.front item)
        ++ LittleEndian.encode (field.width item) (field.value item)
        ++ (field.back item ++ after) := by
  obtain ⟨hvalid, -, hstands⟩ := valid_of_read hread
  obtain ⟨skipped, rest, hbuffer, hskipped, -⟩ := hstands.exists_split
  obtain ⟨before, after, hwire, hplace, hitem', hexpects⟩ := exists_split_of_placed hvalid hitem
  refine ⟨hitem', skipped, before, after ++ rest, hexpects, hskipped, ?_, ?_⟩
  · rw [List.length_append, List.length_append, hskipped, field.length_front, hplace]
  · rw [hbuffer, hwire, field.wire_eq_fields hitem' hcontainer]
    simp only [List.append_assoc]

/-- Where no item stands, none is read, and a buffer that starts with none is no pack. -/
theorem refused_of_not_standsIn {buffer : Bytes} {offset : Nat}
    (h : ∀ (item : Item) (next : Nat), item.Valid → ¬ item.StandsIn buffer offset next) :
    (∀ depth, ∃ cause,
      (read depth buffer offset).mapError InvalidPack.read = .error (.read cause)) ∧
    (offset = 0 → ∀ d : Decoder, ∃ cause,
      (d.decode buffer).result = .error (.invalidPack cause)) := by
  have hnone : ∀ depth item next, read depth buffer offset ≠ .ok (item, next) := by
    intro depth item next hread
    obtain ⟨hvalid, -, hstands⟩ := valid_of_read hread
    exact h item next hvalid hstands
  constructor
  · intro depth
    cases hread : read depth buffer offset with
    | error cause => exact ⟨cause, rfl⟩
    | ok found => exact absurd hread (hnone depth found.1 found.2)
  · intro hstart d
    subst hstart
    rcases d.result_decode_cases buffer with ⟨members, hok⟩ | herror
    · obtain ⟨root, stop, haccepts, -⟩ := (d.result_decode_eq_ok_iff buffer members).mp hok
      exact absurd haccepts.read (hnone d.maxDepth root stop)
    · exact herror

/-- **The sizes of a container are tight.** Let a reader take an item, at any place of a
    buffer that may go on after it, and let a count or a payload length be overwritten in
    one of its containers, at any depth, by a number that the field can tell. If the number
    is the one that stands there the buffer is the same. With any other number no reader
    takes an item at that place, and if the place is the start of the buffer, no decoder
    takes the buffer. Both refuse it as an invalid pack, whatever they allow. -/
theorem sizes_tight {depth offset next place : Nat} {buffer : Bytes} {root item : Item}
    (hread : read depth buffer offset = .ok (root, next))
    (hitem : (place, item) ∈ root.placed offset) (hcontainer : item.IsContainer)
    (field : SizeField) {size : Nat} (hsize : size < Nat.pow 256 (field.width item)) :
    let forged := overwrite buffer (place + field.offset item)
      (LittleEndian.encode (field.width item) size)
    (size = field.value item → forged = buffer) ∧
    (size ≠ field.value item →
      (∀ depth', ∃ cause,
        (read depth' forged offset).mapError InvalidPack.read = .error (.read cause)) ∧
      (offset = 0 → ∀ d : Decoder, ∃ cause,
        (d.decode forged).result = .error (.invalidPack cause))) := by
  intro forged
  obtain ⟨hvalid, skipped, before, after, hexpects, hskipped, hplace, hbuffer⟩ :=
    exists_split_of_field hread hitem hcontainer field
  -- Overwriting touches the field and nothing else.
  have hforged : forged = (skipped ++ before ++ field.front item)
      ++ LittleEndian.encode (field.width item) size ++ (field.back item ++ after) := by
    show overwrite buffer _ _ = _
    rw [hplace]
    conv => lhs; rw [hbuffer]
    exact overwrite_append _ _ (by rw [LittleEndian.length_encode, LittleEndian.length_encode])
  constructor
  · intro hsame
    rw [hforged, hsame]
    exact hbuffer.symm
  · intro hother
    apply refused_of_not_standsIn
    intro item' next' hvalid' hstands'
    obtain ⟨rest', hrest', -⟩ := standsIn_iff.mp hstands'
    -- An item at the same place has an item where the container was, which ends its header,
    -- its name and its payload as the container did.
    have hbegin : item'.wire ++ rest' = before ++ (field.front item
        ++ LittleEndian.encode (field.width item) size ++ field.back item ++ after) := by
      rw [← hrest', hforged, ← hskipped]
      simp only [List.append_assoc, List.drop_left]
    obtain ⟨found, rest'', hfound, hfollows⟩ := hexpects item' rest' _ hvalid' hbegin
    apply hother
    cases field with
    | count => exact count_eq_of_wire_append hvalid hcontainer hfound hsize hfollows.symm
    | length => exact length_eq_of_wire_append hvalid hcontainer hfound hsize hfollows.symm

/-- An array whose length is forged so that it takes in the member behind it, exactly. -/
theorem sizes_tight_swallowing :
    let buffer : Bytes := [0x90, 0, 20, 2, 0, 0, 0, 0xA0, 2, 7, 0x61, 0, 1, 0, 0, 0, 0x11, 0, 5,
      0x21, 1, 0x62, 9, 0x11, 0, 6]
    let array : Item := ⟨0xA0, [0x61, 0], [1, 0, 0, 0, 0x11, 0, 5], [⟨0x11, [], [5], []⟩]⟩
    let root : Item := ⟨0x90, [], [2, 0, 0, 0, 0xA0, 2, 7, 0x61, 0, 1, 0, 0, 0, 0x11, 0, 5,
      0x21, 1, 0x62, 9], [array, ⟨0x21, [0x62], [9], []⟩]⟩
    let forged : Bytes := overwrite buffer 9 [11]
    read 2 buffer 0 = .ok (root, 23) ∧ (7, array) ∈ root.placed 0 ∧ array.IsContainer ∧
      (∀ depth', ∃ cause,
        (read depth' forged 0).mapError InvalidPack.read = .error (.read cause)) ∧
      ∀ d : Decoder, ∃ cause, (d.decode forged).result = .error (.invalidPack cause) := by
  intro buffer array root forged
  have hread : read 2 buffer 0 = .ok (root, 23) := by with_unfolding_all rfl
  have hitem : (7, array) ∈ root.placed 0 := .tail _ (.head _)
  have hcontainer : array.IsContainer := ⟨.array, by decide, rfl⟩
  have hsize : 11 < Nat.pow 256 (SizeField.width array .length) := by decide
  have hother : 11 ≠ SizeField.value array .length := by decide
  have hforged : forged = overwrite buffer (7 + SizeField.offset array .length)
      (LittleEndian.encode (SizeField.width array .length) 11) := by decide
  obtain ⟨hrefused, hdecode⟩ := (sizes_tight hread hitem hcontainer .length hsize).2 hother
  rw [← hforged] at hrefused hdecode
  exact ⟨hread, hitem, hcontainer, hrefused, hdecode rfl⟩

end Item

end BinaryPack
