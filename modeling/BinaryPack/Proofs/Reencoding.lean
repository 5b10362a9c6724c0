import BinaryPack.Proofs.Encoder.Admission
import BinaryPack.Proofs.Encoder.Depth
import BinaryPack.Proofs.Encoder.Tree
import BinaryPack.Proofs.Item.Inversion

/-! # Encoding what was decoded

  A map that was decoded can be encoded again at the same limit, as long as its payloads
  fit, unless a key has grown (`Decoder.marshalMap_of_decode`). Depth does no harm: all
  that binding loses are elements' names and members that others replace, so the map is
  nested no more deeply than its pack.

  The names are another matter. A reader takes one terminator off and an encoder puts
  one on, so a name of 255 bytes may stand for a key that is written without one. But
  U+FFFD takes three bytes where one malformed byte stood, and a name of 86 bytes may
  stand for a key that fits no name. Names that are well formed are safe.
-/

namespace BinaryPack

/-! ### Keys that names stand for -/

/-- Bytes that are the encoding of a text. -/
def Utf8.WellFormed (bytes : Bytes) : Prop :=
  ∃ text, encode text = bytes

/-- A text that ends in a NUL has the bytes of the text before it, and a zero. -/
theorem Utf8.exists_encode_of_getLast? {text : String}
    (h : (encode text).getLast? = some 0) : ∃ front, encode text = encode front ++ [0] := by
  obtain ⟨front, hfront⟩ := List.getLast?_eq_some_iff.mp ((getLast?_encode_eq_zero_iff text).mp h)
  refine ⟨String.ofList front, ?_⟩
  unfold encode
  rw [hfront, List.flatMap_append, String.toList_ofList]
  rfl

/-- The key of a well-formed name fits: the terminator that a name of 255 bytes may lose
    makes room for the one that is put on. -/
theorem keyFits_of_wellFormed {name : Bytes} (hlen : name.length < 256)
    (h : Utf8.WellFormed name) : KeyFits (Utf8.lossy (unterminated name)) := by
  obtain ⟨text, rfl⟩ := h
  by_cases hlast : (Utf8.encode text).getLast? = some 0
  · obtain ⟨front, hfront⟩ := Utf8.exists_encode_of_getLast? hlast
    rw [hfront, List.length_append, List.length_singleton] at hlen
    rw [hfront, unterminated_append_nul, Utf8.lossy_encode]
    left
    show (Utf8.encode front).length < 255
    omega
  · rw [unterminated_of_getLast? hlast, Utf8.lossy_encode]
    rcases Nat.lt_or_eq_of_le (Nat.le_of_lt_succ hlen) with hshort | hfull
    · exact .inl hshort
    · exact .inr ⟨hfull, hlast⟩

/-- A key that does not fit is too long for a name, or has the length of one and would lose
    its last byte. -/
theorem not_keyFits_iff (key : String) :
    ¬ KeyFits key ↔ 255 < (Utf8.encode key).length ∨
      (Utf8.encode key).length = 255 ∧ key.toList.getLast? = some '\x00' := by
  rw [keyFits_iff]
  by_cases hfull : (Utf8.encode key).length = 255
  · simp [hfull]
  · -- Away from the boundary only the length counts.
    simp only [hfull, false_and, or_false]
    omega

namespace Value

/-! ### Lengths -/

/-- Every payload in the pack of a value fits the widest length field. -/
def PayloadsFit (v : Value) : Prop :=
  ∀ item ∈ (Item.ofValue [] v).subitems, item.data.length ≤ maxLongLength

instance : DecidablePred PayloadsFit := fun v =>
  inferInstanceAs (Decidable (∀ item ∈ (Item.ofValue [] v).subitems,
    item.data.length ≤ maxLongLength))

theorem length_le_length_flatMap_wire (items : List Item) :
    items.length ≤ (items.flatMap Item.wire).length := by
  have hpos : ∀ item ∈ items, 1 ≤ item.wire.length :=
    fun item _ => List.length_pos_iff.mpr item.wire_ne_nil
  simpa using Item.length_le_of_paid hpos

/-- A payload has a byte at least for each of the items that it counts. -/
theorem count_le_of_payload {items : List Item} {count : Nat} (hcount : items.length = count)
    (h : (LittleEndian.encode 4 count ++ items.flatMap Item.wire).length ≤ maxLongLength) :
    count ≤ maxLongLength := by
  have hbytes := length_le_length_flatMap_wire items
  rw [List.length_append] at h
  omega

mutual

/-- Where payloads fit, so do counts. -/
theorem lengthsFit_of_payloads (name : Bytes) : ∀ {v : Value},
    (∀ item ∈ (Item.ofValue name v).subitems, item.data.length ≤ maxLongLength) → v.LengthsFit
  | .scalar s, h => (List.forall_mem_cons.mp h).1
  | .array items, h => by
    obtain ⟨hown, hbelow⟩ := List.forall_mem_cons.mp h
    have hpayload : (LittleEndian.encode 4 items.length ++ Layout.elements items).length
        ≤ maxLongLength := hown
    rw [← Item.flatMap_wire_ofElements] at hpayload
    have hcount := count_le_of_payload (Item.length_ofElements items) hpayload
    exact ⟨hcount, lengthsFitItems_of_payloads hbelow, hown⟩
  | .map members, h => by
    obtain ⟨hown, hbelow⟩ := List.forall_mem_cons.mp h
    have hpayload : (LittleEndian.encode 4 members.length ++ Layout.namedElements members).length
        ≤ maxLongLength := hown
    rw [← Item.flatMap_wire_ofMembers] at hpayload
    have hcount := count_le_of_payload (Item.length_ofMembers members) hpayload
    exact ⟨hcount, lengthsFitMembers_of_payloads hbelow, hown⟩

theorem lengthsFitItems_of_payloads : ∀ {items : List Value},
    (∀ item ∈ Item.subitemsOfChildren (Item.ofElements items), item.data.length ≤ maxLongLength) →
      LengthsFitItems items
  | [], _ => trivial
  | _ :: _, h => by
    obtain ⟨hitem, hrest⟩ := List.forall_mem_append.mp h
    exact ⟨lengthsFit_of_payloads [] hitem, lengthsFitItems_of_payloads hrest⟩

theorem lengthsFitMembers_of_payloads : ∀ {members : List (String × Value)},
    (∀ item ∈ Item.subitemsOfChildren (Item.ofMembers members), item.data.length ≤ maxLongLength) →
      LengthsFitMembers members
  | [], _ => trivial
  | (key, _) :: _, h => by
    obtain ⟨hitem, hrest⟩ := List.forall_mem_append.mp h
    exact ⟨lengthsFit_of_payloads (Layout.keyName key) hitem, lengthsFitMembers_of_payloads hrest⟩

end

end Value

/-! ### Maps within the limit -/

namespace Encoder

/-- Of a map that is nested within the limit, and whose payloads fit, only the keys are left to
    check. -/
theorem exists_pack_iff_keysFit (e : Encoder) {members : Members Value}
    (hnesting : Value.nesting (.map members) ≤ e.maxDepth)
    (hpayloads : Value.PayloadsFit (.map members)) :
    (∃ pack, (e.marshalMap members).result = .ok pack) ↔
      ∀ key ∈ Value.allKeys (.map members), KeyFits key := by
  have hlengths := Value.lengthsFit_of_payloads [] hpayloads
  rw [e.exists_pack_iff, ← canWrite_iff, ← Value.keysFit_iff]
  constructor
  · intro hcan
    exact hcan.1
  · intro hkeys
    exact ⟨hkeys, hlengths, hnesting⟩

/-- Every run ends in a pack or in an error, and not in both. -/
theorem exists_error_iff (e : Encoder) (members : Members Value) :
    (∃ cause, (e.marshalMap members).result = .error cause) ↔
      ¬ ∃ pack, (e.marshalMap members).result = .ok pack := by
  cases (e.marshalMap members).result with
  | ok pack => simp
  | error cause => simp

end Encoder

/-! ### Maps that were decoded -/

namespace Decoder

/-- A map that was decoded is well formed and nested within the limit, and its keys are the
    texts of names in the pack. -/
theorem shape_of_accepts {d : Decoder} {buffer : Bytes} {root : Item} {stop : Nat}
    {members : Members Value} (haccepts : d.Accepts buffer root stop)
    (hbind : root.bindObject.result = .ok members) :
    Value.Distinct (.map members) ∧ Value.nesting (.map members) ≤ d.maxDepth ∧
      ∀ key ∈ Value.allKeys (.map members),
        ∃ name, root.HasMemberName name ∧ key = Utf8.lossy (unterminated name) := by
  obtain ⟨-, hdepth, -⟩ := Item.valid_of_read haccepts.read
  have hvalue := Item.bind_of_bindObject haccepts.object hbind
  refine ⟨Item.distinct_of_bind hvalue, ?_, ?_⟩
  · exact Nat.le_trans (Item.nesting_le_of_bind hvalue) hdepth
  · intro key hkey
    exact Item.exists_name_of_mem_allKeys hvalue hkey

/-- **When a decoded map can be encoded again.** Let a decoder give a map, and let an encoder
    with the same limit take the members in any order, at every depth. It never refuses
    them for depth. As long as payloads fit, it refuses them just when a key, at some
    depth, has more than 255 bytes, or has 255 and ends in a NUL. Keys are the texts of
    names in the pack that was decoded, so it refuses nothing if all names of members in
    that pack are well formed. What it writes is decoded to the same map, bit for bit, by
    every decoder with the same limit on depth that takes as many bytes. -/
theorem marshalMap_of_decode {d : Decoder} {buffer : Bytes} {members order : Members Value}
    (hdecode : (d.decode buffer).result = .ok members)
    (horder : Value.Reordered (.map members) (.map order)) :
    let run := (Encoder.marshalMap ⟨d.maxDepth⟩ order).result
    run ≠ .error (.marshal .tooDeep) ∧
    (Value.PayloadsFit (.map order) →
      ((∃ cause, run = .error cause) ↔
        ∃ key ∈ Value.allKeys (.map members), 255 < (Utf8.encode key).length ∨
          (Utf8.encode key).length = 255 ∧ key.toList.getLast? = some '\x00')) ∧
    (∃ root stop, d.Accepts buffer root stop ∧ root.bindObject.result = .ok members ∧
      (∀ key ∈ Value.allKeys (.map members),
        ∃ name, root.HasMemberName name ∧ key = Utf8.lossy (unterminated name)) ∧
      (Value.PayloadsFit (.map order) →
        (∀ name, root.HasMemberName name → Utf8.WellFormed name) → ∃ pack, run = .ok pack)) ∧
    (∀ pack, run = .ok pack → ∀ d' : Decoder, d'.maxDepth = d.maxDepth →
      d'.WithinLimit pack.toList → (d'.decode pack.toList).result = .ok order) := by
  intro run
  obtain ⟨root, stop, haccepts, hbind⟩ := (result_decode_eq_ok_iff d buffer members).mp hdecode
  obtain ⟨hdistinct, hnesting, hnames⟩ := shape_of_accepts haccepts hbind
  rw [horder.nesting_eq] at hnesting
  -- The encoder takes the members in another order, which has the same keys.
  have hkeys : ∀ key, key ∈ Value.allKeys (.map order) ↔ key ∈ Value.allKeys (.map members) :=
    fun key => horder.allKeys_perm.symm.mem_iff
  have hpack := Encoder.exists_pack_iff_keysFit ⟨d.maxDepth⟩ hnesting
  simp only [hkeys] at hpack
  refine ⟨Encoder.marshalMap_ne_tooDeep hnesting, ?_,
    ⟨root, stop, haccepts, hbind, hnames, ?_⟩, ?_⟩
  · intro hpayloads
    rw [Encoder.exists_error_iff, hpack hpayloads]
    simp only [← not_keyFits_iff, Classical.not_forall, exists_prop]
  · intro hpayloads hwell
    apply (hpack hpayloads).mpr
    intro key hkey
    obtain ⟨name, hname, rfl⟩ := hnames key hkey
    have hlen := hname.length_lt (Item.valid_of_read haccepts.read).1
    exact keyFits_of_wellFormed hlen (hwell name hname)
  · intro pack hok d' hdepth hlimit
    have hform := Encoder.form_of_marshalMap hok
    have hdecode' := hform.result_decode_eq_ok_iff (Nat.zero_le _) (horder.distinct hdistinct)
      hlimit order
    rw [← hdepth] at hnesting
    exact hdecode'.mpr ⟨hnesting, rfl⟩

/-- A pack with a byte after it, where an array is lost to a later member with the same key,
    whose name has no terminator, and where one name is a malformed byte. -/
theorem marshalMap_of_decode_malformed :
    let buffer : Bytes := [0x90, 0, 21, 3, 0, 0, 0, 0xA0, 2, 4, 0x6B, 0, 0, 0, 0, 0, 0x31, 1, 0xFF,
      7, 0x31, 1, 0x6B, 0, 9]
    let members : Members Value := [("k", .scalar (.bool false)), ("\uFFFD", .scalar (.bool true))]
    let order : Members Value := [("\uFFFD", .scalar (.bool true)), ("k", .scalar (.bool false))]
    ((⟨2, none, true⟩ : Decoder).decode buffer).result = .ok members ∧
      Value.PayloadsFit (.map order) ∧
      ∃ pack, (Encoder.marshalMap ⟨2⟩ order).result = .ok pack ∧
        ((⟨2, none, false⟩ : Decoder).decode pack.toList).result = .ok order := by
  intro buffer members order
  let root : Item := ⟨0x90, [], buffer.extract 3 24,
    [⟨0xA0, [0x6B, 0], [0, 0, 0, 0], []⟩, ⟨0x31, [0xFF], [7], []⟩, ⟨0x31, [0x6B], [0], []⟩]⟩
  have hread : Item.read 2 buffer 0 = .ok (root, 24) := by with_unfolding_all rfl
  have hbind : root.bindObject.result = .ok members := by with_unfolding_all rfl
  have haccepts : (⟨2, none, true⟩ : Decoder).Accepts buffer root 24 :=
    ⟨withinLimit_of_eq_none rfl buffer, hread, by decide, .inl rfl⟩
  have hdecode := (result_decode_eq_ok_iff _ buffer members).mpr ⟨root, 24, haccepts, hbind⟩
  have horder : Value.Reordered (.map members) (.map order) := .map (.swap _ _ [])
  have hpayloads : Value.PayloadsFit (.map order) := by decide
  obtain ⟨-, hfails, -, hagain⟩ := marshalMap_of_decode hdecode horder
  -- The longest key has three bytes.
  have hkeys : ¬ ∃ key ∈ Value.allKeys (.map members), 255 < (Utf8.encode key).length ∨
      (Utf8.encode key).length = 255 ∧ key.toList.getLast? = some '\x00' := by decide
  have hpack := (not_congr (hfails hpayloads)).mpr hkeys
  rw [Encoder.exists_error_iff, Classical.not_not] at hpack
  obtain ⟨pack, hok⟩ := hpack
  have hlimit : (⟨2, none, false⟩ : Decoder).WithinLimit pack.toList :=
    withinLimit_of_eq_none rfl pack.toList
  exact ⟨hdecode, hpayloads, pack, hok, hagain pack hok ⟨2, none, false⟩ rfl hlimit⟩

end Decoder

end BinaryPack
