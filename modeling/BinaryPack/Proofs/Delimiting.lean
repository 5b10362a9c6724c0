import BinaryPack.Proofs.Decoding
import BinaryPack.Proofs.Encoder.Form
import BinaryPack.Proofs.Encoder.Stream
import BinaryPack.Proofs.Encoder.Tree
import BinaryPack.Proofs.Item.Carrying
import BinaryPack.Proofs.Item.Place

/-! # Packs that delimit themselves

  A pack tells its own length, so packs may stand one after another with nothing between
  them. A reader that goes on where the last item ended finds them again
  (`Item.readAll`): from the end of whatever stood in the buffer before, it takes one
  object for each pack, and comes out at the end of the buffer
  (`Encoder.readAll_appendAll`).

  The two sides meet at a row of items. What is appended by calls that succeed are the
  bytes of the items of their maps, and a row of valid items is read back from its bytes.
-/

namespace BinaryPack

namespace Item

/-! ### Reading a row of items -/

/-- An item ends behind its start, and within the buffer. -/
theorem lt_of_read {depth offset next : Nat} {buffer : Bytes} {item : Item}
    (h : read depth buffer offset = .ok (item, next)) : offset < next ∧ next ≤ buffer.length := by
  obtain ⟨-, -, hnext, hend, -⟩ := valid_of_read h
  have hpos : 0 < item.wire.length := List.length_pos_iff.mpr item.wire_ne_nil
  exact ⟨by omega, hend⟩

/-- Reads one item after another, from an offset to the end of a buffer, and gives the
    offset after the last one. -/
def readAll (depth : Nat) (buffer : Bytes) (offset : Nat) : Except ReadError (List Item × Nat) :=
  if offset < buffer.length then
    match hread : read depth buffer offset with
    | .error cause => .error cause
    | .ok (item, next) => do
      -- Each item takes at least one byte.
      have hless : buffer.length - next < buffer.length - offset := by
        have hnext := lt_of_read hread
        omega
      let (items, stop) ← readAll depth buffer next
      return (item :: items, stop)
  else .ok ([], offset)
termination_by buffer.length - offset

theorem readAll_end (depth : Nat) (buffer : Bytes) :
    readAll depth buffer buffer.length = .ok ([], buffer.length) := by
  rw [readAll, if_neg (Nat.lt_irrefl _)]

/-- Where an item is read, reading goes on after it. -/
theorem readAll_of_read {depth offset next stop : Nat} {buffer : Bytes} {item : Item}
    {items : List Item} (hread : read depth buffer offset = .ok (item, next))
    (hrest : readAll depth buffer next = .ok (items, stop)) :
    readAll depth buffer offset = .ok (item :: items, stop) := by
  have hnext := lt_of_read hread
  rw [readAll, if_pos (by omega)]
  split
  · next cause herror =>
    rw [hread] at herror
    cases herror
  · next item' next' hok =>
    rw [hread] at hok
    cases hok
    rw [hrest]
    rfl

/-- A row of valid items is read back from its bytes. -/
theorem readAll_flatMap_wire {depth : Nat} {items : List Item}
    (h : ∀ item ∈ items, item.Valid ∧ item.nesting ≤ depth) (skipped : Bytes) :
    readAll depth (skipped ++ items.flatMap wire) skipped.length
      = .ok (items, (skipped ++ items.flatMap wire).length) := by
  -- With each item the bytes that are skipped become more.
  induction items generalizing skipped with
  | nil =>
    rw [List.flatMap_nil, List.append_nil]
    exact readAll_end depth skipped
  | cons item items ih =>
    obtain ⟨hvalid, hnesting⟩ := h item List.mem_cons_self
    have hrest := ih (fun item' hitem' => h item' (List.mem_cons_of_mem _ hitem'))
      (skipped ++ item.wire)
    rw [List.length_append, length_wire, List.append_assoc] at hrest
    rw [List.flatMap_cons]
    have hread := (read_eq_ok_iff depth _ skipped.length item (skipped.length + item.wireSize)).mpr
      ⟨hvalid, hnesting, standsIn_append item skipped (items.flatMap wire)⟩
    exact readAll_of_read hread hrest

end Item

/-! ### The item of a map -/

/-- The items of a value that can be written carry the value. -/
theorem Item.carries_ofValue {v : Value} (hkeys : v.KeysFit) (hlengths : v.LengthsFit)
    (hdistinct : v.Distinct) : (Item.ofValue [] v).Carries [] v (Layout.item [] v) := by
  obtain ⟨item, hitem⟩ :=
    (Layout.form_item [] hkeys hlengths).exists_item (Nat.zero_le _) hdistinct
  have hvalid : (Item.ofValue [] v).Valid := Item.valid_ofValue (by decide) hkeys hlengths
  -- There is only one item with these bytes.
  have hwire : item.wire ++ [] = (Item.ofValue [] v).wire ++ [] := by
    rw [hitem.wire_eq, Item.wire_ofValue]
  obtain ⟨rfl, -⟩ := Item.wire_append_inj hitem.valid hvalid hwire
  exact hitem

namespace Encoder

/-! ### Calls that succeed -/

/-- All calls of a sequence succeed, each on the buffer that the one before it left. -/
def AllSucceed : Buffer → List Call → Prop
  | _, [] => True
  | buffer, call :: calls =>
    (call.run buffer).1.result = .ok () ∧ AllSucceed (call.run buffer).2 calls

/-- The call that appends a map. -/
def Call.ofMap (write : Encoder × Members Value) : Call :=
  ⟨write.1, .map write.2⟩

theorem Call.run_ofMap (write : Encoder × Members Value) (buffer : Buffer) :
    (Call.ofMap write).run buffer = write.1.appendRoot buffer write.2 := rfl

/-- Appending a map succeeds just when the map can be written. -/
theorem Call.result_run_ofMap_eq_ok_iff (write : Encoder × Members Value) (buffer : Buffer) :
    ((Call.ofMap write).run buffer).1.result = .ok () ↔ write.1.CanWrite write.2 := by
  rw [Call.run_ofMap]
  rcases write.1.appendRoot_cases write.2 with ⟨hcan, happends⟩ | ⟨hcan, cause, hfails⟩
  · rw [happends]
    exact iff_of_true rfl hcan
  · rw [hfails]
    exact iff_of_false (by simp) hcan

/-- A map that can be written is appended as its item. -/
theorem Call.toList_run_ofMap {write : Encoder × Members Value} (h : write.1.CanWrite write.2)
    (buffer : Buffer) : ((Call.ofMap write).run buffer).2.toList
      = buffer.toList ++ (Item.ofValue [] (.map write.2)).wire := by
  rw [Call.run_ofMap]
  rcases write.1.appendRoot_cases write.2 with ⟨-, happends⟩ | ⟨hcan, -⟩
  · rw [happends, Buffer.toList_append, Members.layout, Item.wire_ofValue]
  · exact absurd h hcan

/-- No call spoils the buffer for the next one: all succeed just when each map can be
    written. -/
theorem allSucceed_ofMap_iff (buffer : Buffer) (writes : List (Encoder × Members Value)) :
    AllSucceed buffer (writes.map Call.ofMap) ↔
      ∀ write ∈ writes, write.1.CanWrite write.2 := by
  induction writes generalizing buffer with
  | nil => simp [AllSucceed]
  | cons write writes ih =>
    rw [List.map_cons, AllSucceed, List.forall_mem_cons, Call.result_run_ofMap_eq_ok_iff, ih]

/-- What is appended is a row of items, one for each map. -/
theorem toList_appendAll_ofMap {writes : List (Encoder × Members Value)}
    (h : ∀ write ∈ writes, write.1.CanWrite write.2) (buffer : Buffer) :
    (appendAll buffer (writes.map Call.ofMap)).toList = buffer.toList
      ++ (writes.map fun write => Item.ofValue [] (.map write.2)).flatMap Item.wire := by
  induction writes generalizing buffer with
  | nil =>
    rw [List.map_nil, List.map_nil, List.flatMap_nil, List.append_nil]
    rfl
  | cons write writes ih =>
    have hwrite := Call.toList_run_ofMap (h write List.mem_cons_self) buffer
    have hrest := ih fun write' hwrite' => h write' (List.mem_cons_of_mem _ hwrite')
    rw [List.map_cons, appendAll_cons, hrest, hwrite, List.map_cons, List.flatMap_cons,
      List.append_assoc]

/-- **Packs delimit themselves.** Let well-formed maps be appended to a buffer one by one, each
    under a limit of its own, and let all these calls succeed. A reader with a limit that is
    no smaller than any of theirs, which starts where the buffer ended before and goes on
    from each offset that it is given, takes exactly one object for each map. They bind to
    the maps, bit for bit and in their order, and the last offset is the end of the
    buffer. -/
theorem readAll_appendAll {buffer : Buffer} {writes : List (Encoder × Members Value)} {depth : Nat}
    (hdistinct : ∀ write ∈ writes, Value.Distinct (.map write.2))
    (hdepth : ∀ write ∈ writes, write.1.maxDepth ≤ depth)
    (hsuccess : AllSucceed buffer (writes.map Call.ofMap)) :
    let packed := appendAll buffer (writes.map Call.ofMap)
    ∃ items, Item.readAll depth packed.toList buffer.size = .ok (items, packed.size) ∧
      items.length = writes.length ∧
      (∀ item ∈ items, item.itemType? = some .object) ∧
      items.map (fun item => item.bindObject.result) = writes.map fun write => .ok write.2 := by
  intro packed
  have hcan := (allSucceed_ofMap_iff buffer writes).mp hsuccess
  have hpacked := toList_appendAll_ofMap hcan buffer
  have hcarries : ∀ write ∈ writes, (Item.ofValue [] (.map write.2)).Carries []
      (.map write.2) (Layout.item [] (.map write.2)) := by
    intro write hwrite
    obtain ⟨hkeys, hlengths, -⟩ := hcan write hwrite
    exact Item.carries_ofValue hkeys hlengths (hdistinct write hwrite)
  have hvalid : ∀ item ∈ writes.map (fun write => Item.ofValue [] (.map write.2)),
      item.Valid ∧ item.nesting ≤ depth := by
    intro item hitem
    obtain ⟨write, hwrite, rfl⟩ := List.mem_map.mp hitem
    obtain ⟨-, -, hnesting⟩ := hcan write hwrite
    have hitem := hcarries write hwrite
    refine ⟨hitem.valid, ?_⟩
    rw [hitem.nesting_eq]
    exact Nat.le_trans hnesting (hdepth write hwrite)
  have hread := Item.readAll_flatMap_wire hvalid buffer.toList
  rw [← hpacked, Array.length_toList, Array.length_toList] at hread
  refine ⟨_, hread, List.length_map _, ?_, ?_⟩
  · intro item hitem
    obtain ⟨write, hwrite, rfl⟩ := List.mem_map.mp hitem
    exact (hcarries write hwrite).type
  · rw [List.map_map]
    apply List.map_congr_left
    intro write hwrite
    exact (hcarries write hwrite).bindObject

/-- Two maps behind two other bytes, the second nested more deeply and under another limit. -/
theorem readAll_appendAll_two :
    let buffer : Buffer := #[7, 0x90]
    let writes : List (Encoder × Members Value) := [(⟨1⟩, [("a", .scalar (.float32 ⟨0x7FC00001⟩))]),
      (⟨2⟩, [("b", .array [.scalar .null]), ("", .map [])])]
    let packed := appendAll buffer (writes.map Call.ofMap)
    AllSucceed buffer (writes.map Call.ofMap) ∧
      ∃ items, Item.readAll 2 packed.toList 2 = .ok (items, packed.size) ∧ items.length = 2 ∧
        (∀ item ∈ items, item.itemType? = some .object) ∧
        items.map (fun item => item.bindObject.result) = writes.map fun write => .ok write.2 := by
  intro buffer writes packed
  have hdistinct : ∀ write ∈ writes, Value.Distinct (.map write.2) := by
    simp [writes, Value.Distinct, Value.DistinctMembers, Value.DistinctItems, Members.Distinct,
      Members.keys]
  have hdepth : ∀ write ∈ writes, write.1.maxDepth ≤ 2 := by
    simp [writes]
  have hsuccess : AllSucceed buffer (writes.map Call.ofMap) :=
    (allSucceed_ofMap_iff buffer writes).mpr (by decide)
  exact ⟨hsuccess, readAll_appendAll hdistinct hdepth hsuccess⟩

end Encoder

end BinaryPack
