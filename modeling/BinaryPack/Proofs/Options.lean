import BinaryPack.Proofs.Truncation

/-! # What the options of a decoder change

  The options of a decoder say which packs are taken, not what they mean. A decoder that
  allows no less than another (`Decoder.Restricts`) takes whatever the other one takes, and
  gives the same map.

  A decoder that ignores bytes after the root does no more than to find where the root ends:
  it gives what a strict decoder gives for the bytes up to there. No other prefix of the
  buffer is a pack to a strict decoder, since only one item is read at the start of a
  buffer, and it ends at one offset (`Item.read_unique`).
-/

namespace BinaryPack

/-- A wider limit on nesting takes nothing away. -/
theorem Item.read_mono {depth depth' : Nat} {buffer : Bytes} {offset next : Nat} {item : Item}
    (h : read depth buffer offset = .ok (item, next)) (hdepth : depth ≤ depth') :
    read depth' buffer offset = .ok (item, next) := by
  obtain ⟨hvalid, hnesting, hstands⟩ := valid_of_read h
  apply (read_eq_ok_iff depth' buffer offset item next).mpr
  exact ⟨hvalid, Nat.le_trans hnesting hdepth, hstands⟩

namespace Decoder

/-! ### Fewer and more options -/

/-- The first decoder allows nothing that the second does not allow. -/
structure Restricts (d d' : Decoder) : Prop where
  /-- The second one takes containers at least as deep. -/
  depth : d.maxDepth ≤ d'.maxDepth
  /-- If the second one limits the length of a buffer, so does the first, and to no more. -/
  limit : ∀ limit', d'.maxInputLength = some limit' →
    ∃ limit, d.maxInputLength = some limit ∧ limit ≤ limit'
  /-- Bytes after the root are ignored by the second one if they are by the first. -/
  trailing : d.allowTrailing → d'.allowTrailing

theorem Restricts.withinLimit {d d' : Decoder} (h : d.Restricts d') {buffer : Bytes}
    (hlimit : d.WithinLimit buffer) : d'.WithinLimit buffer := by
  intro limit' hsome
  obtain ⟨limit, hlimit', hle⟩ := h.limit limit' hsome
  have hlen : buffer.length ≤ limit := hlimit limit hlimit'
  exact Nat.le_trans hlen hle

/-- What the first decoder accepts, the second one accepts with the same root. -/
theorem Restricts.accepts {d d' : Decoder} (h : d.Restricts d') {buffer : Bytes} {root : Item}
    {stop : Nat} (haccepts : d.Accepts buffer root stop) : d'.Accepts buffer root stop where
  limit := h.withinLimit haccepts.limit
  read := Item.read_mono haccepts.read h.depth
  object := haccepts.object
  trailing := haccepts.trailing.imp_left h.trailing

/-! ### Packs and buffers that begin with one -/

/-- A decoder that takes buffers of any length and ignores bytes after the root. -/
def lenient (depth : Nat) : Decoder :=
  ⟨depth, none, true⟩

/-- A decoder that takes buffers of any length, with nothing after the root. -/
def strict (depth : Nat) : Decoder :=
  ⟨depth, none, false⟩

/-- Nothing but the limit on nesting holds a lenient decoder back. -/
theorem restricts_lenient {d : Decoder} {depth : Nat} (h : d.maxDepth ≤ depth) :
    d.Restricts (lenient depth) where
  depth := h
  limit := by
    intro limit' hsome
    cases hsome
  trailing := fun _ => rfl

/-- To a decoder that refuses bytes after the root, the root ends with the buffer. -/
theorem Accepts.stop_eq {d : Decoder} {pack : Bytes} {root : Item} {stop : Nat}
    (h : d.Accepts pack root stop) (hstrict : d.allowTrailing = false) : stop = pack.length := by
  rcases h.trailing with hallow | hstop
  · rw [hstrict] at hallow
    cases hallow
  · exact hstop

/-- The root of a pack that opens a buffer is read in the buffer too, and ends with the
    pack. -/
theorem Accepts.read_of_prefix {d : Decoder} {pack buffer : Bytes} {root : Item} {stop : Nat}
    (h : d.Accepts pack root stop) (hstrict : d.allowTrailing = false) (hpack : pack <+: buffer) :
    Item.read d.maxDepth buffer 0 = .ok (root, pack.length) := by
  have hread := h.read
  rw [h.stop_eq hstrict, List.prefix_iff_eq_take.mp hpack] at hread
  have hwhole := ((Item.read_take_eq_ok_iff _ _ _ _ _ _).mp hread).1
  rwa [← List.prefix_iff_eq_take.mp hpack] at hwhole

/-- Ignoring what follows the root is decoding the bytes up to its end. -/
theorem decode_lenient_eq_ok_iff (depth : Nat) (buffer : Bytes) (members : Members Value) :
    ((lenient depth).decode buffer).result = .ok members ↔
      ∃ pack, pack <+: buffer ∧ ((strict depth).decode pack).result = .ok members := by
  constructor
  · intro hdecode
    obtain ⟨root, stop, haccepts, hbind⟩ := (result_decode_eq_ok_iff _ _ _).mp hdecode
    have hstop : stop ≤ buffer.length := (Item.valid_of_read haccepts.read).2.2.2.1
    have hread : Item.read depth (buffer.take stop) 0 = .ok (root, stop) :=
      (Item.read_take_eq_ok_iff _ _ _ _ _ _).mpr ⟨haccepts.read, Nat.le_refl _⟩
    have hpack : (strict depth).Accepts (buffer.take stop) root stop := by
      refine ⟨withinLimit_of_eq_none rfl _, hread, haccepts.object, .inr ?_⟩
      rw [List.length_take, Nat.min_eq_left hstop]
    exact ⟨buffer.take stop, List.take_prefix _ _,
      (result_decode_eq_ok_iff _ _ _).mpr ⟨root, stop, hpack, hbind⟩⟩
  · intro hprefix
    obtain ⟨pack, hpack, hdecode⟩ := hprefix
    obtain ⟨root, stop, haccepts, hbind⟩ := (result_decode_eq_ok_iff _ _ _).mp hdecode
    have hread := haccepts.read_of_prefix rfl hpack
    apply (result_decode_eq_ok_iff _ _ _).mpr
    exact ⟨root, pack.length, ⟨withinLimit_of_eq_none rfl _, hread, haccepts.object, .inl rfl⟩,
      hbind⟩

/-- A buffer opens with one pack at most, whatever else is asked of it. -/
theorem prefix_unique {d d' : Decoder} {buffer pack pack' : Bytes} {held held' : Members Value}
    (hstrict : d.allowTrailing = false) (hstrict' : d'.allowTrailing = false)
    (hpack : pack <+: buffer) (hpack' : pack' <+: buffer)
    (hdecode : (d.decode pack).result = .ok held)
    (hdecode' : (d'.decode pack').result = .ok held') : pack = pack' := by
  obtain ⟨root, stop, haccepts, -⟩ := (result_decode_eq_ok_iff _ _ _).mp hdecode
  obtain ⟨root', stop', haccepts', -⟩ := (result_decode_eq_ok_iff _ _ _).mp hdecode'
  have hread := haccepts.read_of_prefix hstrict hpack
  have hread' := haccepts'.read_of_prefix hstrict' hpack'
  have hlen : pack.length = pack'.length := (Item.read_unique hread hread').2
  rw [List.prefix_iff_eq_take.mp hpack, List.prefix_iff_eq_take.mp hpack', hlen]

/-- **Options restrict what is taken, and change no map.** What a decoder takes, any decoder
    that allows no less takes as the same map. Without a limit on the length of a buffer,
    ignoring bytes after the root is the same as being strict with some prefix, of which
    there is only one, however deeply a strict decoder lets containers nest. So bytes that
    are put after a buffer never change the map. -/
theorem decode_under_options (buffer : Bytes) (members : Members Value) :
    (∀ d d' : Decoder, d.Restricts d' → (d.decode buffer).result = .ok members →
      (d'.decode buffer).result = .ok members) ∧
    (∀ depth, ((lenient depth).decode buffer).result = .ok members ↔
      ∃ pack, pack <+: buffer ∧ ((strict depth).decode pack).result = .ok members) ∧
    (∀ depth depth' pack pack' held held', pack <+: buffer → pack' <+: buffer →
      ((strict depth).decode pack).result = .ok held →
        ((strict depth').decode pack').result = .ok held' → pack = pack') ∧
    (∀ depth rest, ((lenient depth).decode buffer).result = .ok members →
      ((lenient depth).decode (buffer ++ rest)).result = .ok members) := by
  refine ⟨?_, ?_, ?_, ?_⟩
  · intro d d' hrestricts hdecode
    obtain ⟨root, stop, haccepts, hbind⟩ := (result_decode_eq_ok_iff _ _ _).mp hdecode
    have haccepts' := hrestricts.accepts haccepts
    exact (result_decode_eq_ok_iff _ _ _).mpr ⟨root, stop, haccepts', hbind⟩
  · intro depth
    exact decode_lenient_eq_ok_iff depth buffer members
  · intro depth depth' pack pack' held held' hpack hpack' hdecode hdecode'
    exact prefix_unique rfl rfl hpack hpack' hdecode hdecode'
  · intro depth rest hdecode
    -- The pack that opens the buffer opens the longer one too.
    obtain ⟨pack, hpack, hstrict⟩ := (decode_lenient_eq_ok_iff depth buffer members).mp hdecode
    have hlonger : pack <+: buffer ++ rest := hpack.trans (List.prefix_append _ _)
    exact (decode_lenient_eq_ok_iff depth _ members).mpr ⟨pack, hlonger, hstrict⟩

/-- A pack of seven bytes and one byte after it: decoders that are equal or laxer in one
    option each, the only pack in front, and more bytes behind. -/
theorem decode_under_options_trailing :
    let pack : Bytes := [0x90, 0, 4, 0, 0, 0, 0]
    let buffer : Bytes := pack ++ [0x90]
    ((⟨2, some 9, true⟩ : Decoder).decode buffer).result = .ok [] ∧
      ((lenient 3).decode buffer).result = .ok [] ∧
      ((strict 2).decode pack).result = .ok [] ∧
      (∀ depth pack' held, pack' <+: buffer → ((strict depth).decode pack').result = .ok held →
        pack' = pack) ∧
      ∀ rest, ((lenient 2).decode (buffer ++ rest)).result = .ok [] := by
  intro pack buffer
  let root : Item := ⟨0x90, [], [0, 0, 0, 0], []⟩
  have hread : Item.read 2 buffer 0 = .ok (root, 7) := by with_unfolding_all rfl
  have hbind : root.bindObject.result = .ok [] := rfl
  have hwithin : (⟨2, some 9, true⟩ : Decoder).WithinLimit buffer := by
    intro limit hsome
    cases hsome
    decide
  have hdecode : ((⟨2, some 9, true⟩ : Decoder).decode buffer).result = .ok [] :=
    (result_decode_eq_ok_iff _ _ _).mpr ⟨root, 7, ⟨hwithin, hread, by decide, .inl rfl⟩, hbind⟩
  obtain ⟨hlaxer, hlenient, hunique, hrest⟩ := decode_under_options buffer []
  have hlaxer2 : ((lenient 2).decode buffer).result = .ok [] :=
    hlaxer _ _ (restricts_lenient (Nat.le_refl 2)) hdecode
  have hlaxer3 : ((lenient 3).decode buffer).result = .ok [] :=
    hlaxer _ _ (restricts_lenient (by decide)) hdecode
  have hpack : pack <+: buffer := List.prefix_append _ _
  have hpackRead : Item.read 2 pack 0 = .ok (root, 7) := by with_unfolding_all rfl
  have hstrict : ((strict 2).decode pack).result = .ok [] :=
    (result_decode_eq_ok_iff _ _ _).mpr
      ⟨root, 7, ⟨withinLimit_of_eq_none rfl _, hpackRead, by decide, .inr rfl⟩, hbind⟩
  refine ⟨hdecode, hlaxer3, hstrict, ?_, ?_⟩
  · intro depth pack' held hpack' hdecode'
    exact hunique depth 2 pack' pack held [] hpack' hpack hdecode' hstrict
  · intro rest
    exact hrest 2 rest hlaxer2

end Decoder

end BinaryPack
