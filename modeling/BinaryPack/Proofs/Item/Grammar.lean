import BinaryPack.Item.Reader
import BinaryPack.Item.Wire
import BinaryPack.Proofs.Outcome
import BinaryPack.Proofs.Wire.Tag

/-! # Reading accepts the wire grammar

  Every step of the reader takes exactly the bytes of what it gives and stops
  after them (`Cursor.Reads`). From the steps for single fields this goes up to
  whole items, by induction on the nesting limit: within a limit the reader
  takes the valid items nested within it, and no others (`reads_nested`).

  For a buffer this says that an item is read at an offset just where its wire
  form stands (`read_eq_ok_iff`). No check on the way refuses an item that is
  valid: one that names a type is no tombstone, and elements that are there
  always have the room that is asked for before they are read.
-/

namespace BinaryPack

namespace Cursor

/-! ### Steps that take what they give -/

/-- A step of reading that takes exactly the bytes of what it gives: it succeeds just
    where the bytes of a lawful result stand, and goes on after them. -/
def Reads {α : Type} (step : Cursor → Except ReadError (α × Cursor)) (bytes : α → Bytes)
    (Lawful : α → Prop) : Prop :=
  ∀ c a next, step c = .ok (a, next) ↔
    Lawful a ∧ c.rest = bytes a ++ next.rest ∧ next.offset = c.offset + (bytes a).length

theorem reads_take (count : Nat) : Reads (fun c => c.take count) id (·.length = count) := by
  intro c bytes ⟨offset, rest⟩
  constructor
  · intro h
    simp only [take] at h
    split at h
    · next hlen =>
      obtain ⟨rfl, rfl, rfl⟩ : c.rest.take count = bytes ∧ c.offset + count = offset
          ∧ c.rest.drop count = rest := by simpa using h
      exact ⟨hlen, (List.take_append_drop count c.rest).symm, by simp [hlen]⟩
    · cases h
  · intro h
    obtain ⟨rfl, hrest, hoffset⟩ := h
    simp only [id] at hrest hoffset
    subst hoffset
    simp [take, hrest]

theorem reads_byte : Reads byte (fun b => [b]) (fun _ => True) := by
  intro c b next
  obtain ⟨offset, rest⟩ := c
  obtain ⟨offset', rest'⟩ := next
  cases rest with
  | nil => simp [byte]
  | cons b' rest => simp [byte, and_comm, and_assoc, eq_comm]

theorem reads_number (width : Nat) :
    Reads (fun c => c.number width) (LittleEndian.encode width) (· < Nat.pow 256 width) := by
  intro c n next
  simp only [number, bind_eq_ok_iff, Prod.exists, reads_take width c, id]
  constructor
  · intro h
    obtain ⟨bytes, next', ⟨hlen, hrest, hoffset⟩, h⟩ := h
    obtain ⟨rfl, rfl⟩ : LittleEndian.decode bytes = n ∧ next' = next := by
      simpa [pure, Except.pure] using h
    rw [← hlen, LittleEndian.encode_decode]
    exact ⟨LittleEndian.decode_lt bytes, hrest, hoffset⟩
  · intro h
    obtain ⟨hn, hrest, hoffset⟩ := h
    refine ⟨_, next, ⟨LittleEndian.length_encode width n, hrest, hoffset⟩, ?_⟩
    rw [LittleEndian.decode_encode_of_lt hn]
    rfl

end Cursor

namespace Item

open Cursor

theorem reads_length (tag : UInt8) : Reads (readLength tag) (lengthField tag) (lengthFits tag) := by
  intro c n next
  cases h : SizeClass.ofTag tag with
  | fixed =>
    obtain ⟨offset, rest⟩ := c
    obtain ⟨offset', rest'⟩ := next
    simp only [readLength, lengthField, lengthFits, h, SizeClass.lengthWidth, LittleEndian.encode]
    constructor
    · intro h
      cases h
      simp
    · intro h
      obtain ⟨rfl, hrest, hoffset⟩ := h
      simp_all
  | short => simpa [readLength, lengthField, lengthFits, h] using
      reads_number SizeClass.short.lengthWidth c n next
  | long => simpa [readLength, lengthField, lengthFits, h] using
      reads_number SizeClass.long.lengthWidth c n next

/-! ### One item -/

/-- Whether children stand for what follows a tag, given which children stand for
    the payload of a container. -/
def ChildrenFit (Accepts : Bytes → List Item → Prop) (item : Item) : Prop :=
  match ItemType.ofTag? item.tag with
  | none => False
  | some (.scalar _) => item.children = []
  | some _ => Accepts item.data item.children

theorem childrenOf_eq_ok_iff {readChildren : Bytes → Except ReadError (List Item)}
    {Accepts : Bytes → List Item → Prop}
    (hchildren : ∀ payload items, readChildren payload = .ok items ↔ Accepts payload items)
    (offset : Nat) (item : Item) :
    childrenOf readChildren item.tag offset item.data = .ok item.children ↔
      ChildrenFit Accepts item := by
  unfold childrenOf ChildrenFit
  match ItemType.ofTag? item.tag with
  | none => simp
  | some (.scalar _) => simp [ItemType.isContainer, eq_comm]
  | some .object => simp [ItemType.isContainer, hchildren]
  | some .array => simp [ItemType.isContainer, hchildren]

theorem reads_item {readChildren : Bytes → Except ReadError (List Item)}
    {Accepts : Bytes → List Item → Prop}
    (hchildren : ∀ payload items, readChildren payload = .ok items ↔ Accepts payload items) :
    Reads (readWith readChildren) wire fun item =>
      item.name.length < 256 ∧ lengthFits item.tag item.data.length ∧ ChildrenFit Accepts item := by
  intro c item next
  simp only [← childrenOf_eq_ok_iff hchildren c.offset, readWith, bind_eq_ok_iff, Prod.exists,
    reads_byte _ _ _]
  constructor
  · intro h
    obtain ⟨tag, c₁, ⟨-, hrest₁, hoffset₁⟩, n, c₂, ⟨-, hrest₂, hoffset₂⟩, h⟩ := h
    split at h
    · cases h
    simp only [bind_eq_ok_iff, Prod.exists, reads_length _ _ _ _, reads_take _ _ _ _, id] at h
    obtain ⟨length, c₃, ⟨hfits, hrest₃, hoffset₃⟩, name, c₄, ⟨hname, hrest₄, hoffset₄⟩, data, c₅,
      ⟨rfl, hrest₅, hoffset₅⟩, children, hchildren, h⟩ := h
    cases h
    refine ⟨⟨by rw [hname]; exact n.toNat_lt, hfits, hchildren⟩, ?_, ?_⟩
    · simp [wire, hrest₁, hrest₂, hrest₃, hrest₄, hrest₅, hname]
    · simp only [wire, List.length_append, List.length_cons, List.length_nil] at *
      omega
  · intro h
    obtain ⟨⟨hname, hfits, hchildren⟩, hrest, hoffset⟩ := h
    -- The check for tombstones comes before the type is known, but a type is never one.
    have hlive : ¬ Tag.isDeleted item.tag := by
      cases htype : ItemType.ofTag? item.tag with
      | none => simp [childrenOf, htype] at hchildren
      | some type => simp [ItemType.isDeleted_of_ofTag? htype]
    -- The cursors between the fields, from the tag to the end of the payload.
    let c₁ : Cursor := ⟨c.offset + 1, UInt8.ofNat item.name.length ::
      (lengthField item.tag item.data.length ++ item.name ++ item.data ++ next.rest)⟩
    let c₂ : Cursor := ⟨c₁.offset + 1,
      lengthField item.tag item.data.length ++ item.name ++ item.data ++ next.rest⟩
    let c₃ : Cursor := ⟨c₂.offset + (lengthField item.tag item.data.length).length,
      item.name ++ item.data ++ next.rest⟩
    let c₄ : Cursor := ⟨c₃.offset + item.name.length, item.data ++ next.rest⟩
    refine ⟨item.tag, c₁, ⟨trivial, by simp [c₁, hrest, wire], rfl⟩, UInt8.ofNat item.name.length,
      c₂, ⟨trivial, rfl, rfl⟩, ?_⟩
    rw [if_neg hlive]
    simp only [bind_eq_ok_iff, Prod.exists, reads_length _ _ _ _, reads_take _ _ _ _, id]
    refine ⟨item.data.length, c₃, ⟨hfits, by simp [c₂, c₃], rfl⟩, item.name, c₄,
      ⟨?_, by simp [c₃, c₄], rfl⟩, item.data, next, ⟨rfl, rfl, ?_⟩, item.children, hchildren, ?_⟩
    · rw [UInt8.toNat_ofNat', Nat.mod_eq_of_lt hname]
    · simp [c₁, c₂, c₃, c₄, hoffset, wire]
      omega
    · cases item
      rfl

/-! ### The elements of a container -/

theorem wire_ne_nil (item : Item) : item.wire ≠ [] := by
  simp [wire]

theorem readElements_eq_ok_iff {readOne : Cursor → Except ReadError (Item × Cursor)}
    {Lawful : Item → Prop} (hread : Reads readOne wire Lawful) (declared left : Nat) (c : Cursor)
    (items : List Item) :
    readElements readOne declared left c = .ok items ↔
      items.length = left ∧ c.rest = items.flatMap wire ∧ ∀ item ∈ items, Lawful item := by
  -- The cursor moves with every element, and the items to be given back are the later ones.
  induction left generalizing c items with
  | zero =>
    simp only [readElements, List.length_eq_zero_iff]
    split
    · next hempty =>
      have hrest : c.rest = [] := List.isEmpty_iff.mp hempty
      constructor
      · intro h
        cases h
        simp [hrest]
      · intro h
        obtain ⟨rfl, -⟩ := h
        rfl
    · next hempty =>
      simp only [reduceCtorEq, false_iff]
      intro h
      obtain ⟨rfl, hrest, -⟩ := h
      exact hempty (List.isEmpty_iff.mpr hrest)
  | succ left ih =>
    simp only [readElements]
    split
    · next hempty =>
      have hrest : c.rest = [] := List.isEmpty_iff.mp hempty
      simp only [reduceCtorEq, false_iff]
      intro h
      obtain ⟨hlen, hitems, -⟩ := h
      -- An element that is still expected would have bytes of its own.
      cases items with
      | nil => simp at hlen
      | cons item items => simp [hrest, wire_ne_nil] at hitems
    · simp only [bind_eq_ok_iff, Prod.exists, hread _ _ _, ih]
      constructor
      · intro h
        obtain ⟨item, next, ⟨hitem, hrest, -⟩, rest, ⟨rfl, hnext, hall⟩, h⟩ := h
        cases h
        exact ⟨rfl, by rw [hrest, hnext, List.flatMap_cons],
          List.forall_mem_cons.mpr ⟨hitem, hall⟩⟩
      · intro h
        obtain ⟨hlen, hrest, hall⟩ := h
        cases items with
        | nil => simp at hlen
        | cons item rest =>
          refine ⟨item, ⟨c.offset + item.wire.length, rest.flatMap wire⟩,
            ⟨hall item (by simp), by simpa using hrest, rfl⟩, rest,
            ⟨by simpa using hlen, rfl, fun item hitem => hall item (by simp [hitem])⟩, rfl⟩

theorem validAll_iff {items : List Item} : ValidAll items ↔ ∀ item ∈ items, item.Valid := by
  induction items with
  | nil => simp [ValidAll]
  | cons item rest ih => simp [ValidAll, ih]

theorem nestingOfChildren_le_iff {items : List Item} {depth : Nat} :
    nestingOfChildren items ≤ depth ↔ ∀ item ∈ items, item.nesting ≤ depth := by
  induction items with
  | nil => simp [nestingOfChildren]
  | cons item rest ih => rw [nestingOfChildren, Nat.max_le, List.forall_mem_cons, ih]

theorem leastWireSize_le_length_wire {item : Item} (h : item.Valid) :
    leastWireSize ≤ item.wire.length := by
  obtain ⟨tag, name, data, children⟩ := item
  obtain ⟨-, hfits, -⟩ := h
  rw [length_wire, wireSize, sizeClass, SizeClass.headerLength, leastWireSize]
  cases hclass : SizeClass.ofTag tag with
  | fixed =>
    -- The width that makes the class a fixed one is not zero.
    have hwidth := (SizeClass.ofTag_eq_fixed_iff tag).mp hclass
    simp only [lengthFits, hclass] at hfits
    simp only [SizeClass.lengthWidth]
    omega
  | short =>
    simp only [SizeClass.lengthWidth]
    omega
  | long =>
    simp only [SizeClass.lengthWidth]
    omega

/-- If each item pays with its bytes for what it gives, all their bytes pay for all of it. -/
theorem length_flatMap_le_of_paid {α : Type} {least : Nat} {f : Item → List α}
    {items : List Item} (h : ∀ item ∈ items, least * (f item).length ≤ item.wire.length) :
    least * (items.flatMap f).length ≤ (items.flatMap wire).length := by
  induction items with
  | nil => exact Nat.zero_le _
  | cons item rest ih =>
    obtain ⟨hitem, hrest⟩ := List.forall_mem_cons.mp h
    rw [List.flatMap_cons, List.flatMap_cons, List.length_append, List.length_append, Nat.mul_add]
    exact Nat.add_le_add hitem (ih hrest)

/-- There are no more items than their bytes have room for. -/
theorem length_le_of_paid {least : Nat} {items : List Item}
    (h : ∀ item ∈ items, least ≤ item.wire.length) :
    least * items.length ≤ (items.flatMap wire).length := by
  have hpaid : ∀ item ∈ items, least * [item].length ≤ item.wire.length := by
    intro item hitem
    rw [List.length_singleton, Nat.mul_one]
    exact h item hitem
  have hall := length_flatMap_le_of_paid hpaid
  rwa [List.flatMap_singleton'] at hall

theorem length_le_of_valid {items : List Item} (h : ∀ item ∈ items, item.Valid) :
    leastWireSize * items.length ≤ (items.flatMap wire).length :=
  length_le_of_paid fun item hitem => leastWireSize_le_length_wire (h item hitem)

/-- Whether items are the elements of a payload, nested less deeply than allowed. -/
def AreElementsOf (depth : Nat) (payload : Bytes) (items : List Item) : Prop :=
  items.length < Nat.pow 256 countWidth ∧
    payload = LittleEndian.encode countWidth items.length ++ items.flatMap wire ∧
    ValidAll items ∧ nestingOfChildren items < depth

theorem readCount_eq_ok_iff (payload : Bytes) (declared : Nat) (next : Cursor) :
    readCount payload = .ok (declared, next) ↔
      declared < Nat.pow 256 countWidth ∧
        payload = LittleEndian.encode countWidth declared ++ next.rest ∧
        next.offset = countWidth ∧ leastWireSize * declared ≤ next.rest.length := by
  simp only [readCount, bind_eq_ok_iff, Prod.exists, reads_number countWidth _ _ _]
  constructor
  · intro h
    obtain ⟨count, c, ⟨hcount, hrest, hoffset⟩, h⟩ := h
    split at h
    · cases h
    · next hroom =>
      cases h
      simp only [ofBuffer, List.drop_zero] at hrest
      refine ⟨hcount, hrest, by simpa [ofBuffer] using hoffset, ?_⟩
      simp only [hrest, List.length_append, LittleEndian.length_encode, leastWireSize] at *
      omega
  · intro h
    obtain ⟨hcount, hrest, hoffset, hroom⟩ := h
    refine ⟨declared, next, ⟨hcount, by simpa [ofBuffer] using hrest, by simpa [ofBuffer]⟩, ?_⟩
    rw [if_neg]
    · rfl
    · simp only [hrest, List.length_append, LittleEndian.length_encode, leastWireSize] at *
      omega

/-! ### Nested items -/

theorem lt_of_lengthFits {tag : UInt8} {length : Nat} (h : lengthFits tag length) :
    length < Nat.pow 256 countWidth := by
  unfold lengthFits at h
  split at h
  · have hwidth : Tag.width tag ≤ 0x0F := by
      rw [Tag.width, UInt8.toNat_and]
      exact Nat.and_le_right
    rw [h]
    exact Nat.lt_of_le_of_lt hwidth (by decide)
  · exact Nat.lt_of_lt_of_le h (Nat.pow_le_pow_right (by omega) (SizeClass.lengthWidth_le _))

/-- A count never overflows its field: the elements themselves would overflow the payload. -/
theorem areElementsOf_iff {tag : UInt8} {depth : Nat} {payload : Bytes} {items : List Item}
    (h : lengthFits tag payload.length) :
    AreElementsOf depth payload items ↔
      (payload = LittleEndian.encode countWidth items.length ++ items.flatMap wire ∧
        ValidAll items) ∧ nestingOfChildren items < depth := by
  unfold AreElementsOf
  rw [and_assoc]
  refine and_iff_right_of_imp ?_
  intro hall
  obtain ⟨hpayload, hvalid, -⟩ := hall
  have hfits := lt_of_lengthFits h
  have hroom := length_le_of_valid (validAll_iff.mp hvalid)
  simp only [hpayload, List.length_append, leastWireSize] at hfits hroom
  omega

/-- A container whose elements are read with one level less is one that is valid and nested
    less deeply than allowed. -/
theorem lawful_iff_valid (depth : Nat) (item : Item) :
    (item.name.length < 256 ∧ lengthFits item.tag item.data.length ∧
        ChildrenFit (AreElementsOf depth) item) ↔ item.Valid ∧ item.nesting ≤ depth := by
  obtain ⟨tag, name, data, children⟩ := item
  unfold ChildrenFit Valid nesting
  rw [and_assoc, and_assoc]
  refine and_congr_right fun _ => and_congr_right fun hfits => ?_
  match ItemType.ofTag? tag with
  | none => simp
  | some (.scalar _) => simp
  | some .object => exact areElementsOf_iff hfits
  | some .array => exact areElementsOf_iff hfits

theorem readChildren_eq_ok_iff (depth : Nat) (payload : Bytes) (items : List Item) :
    readChildren depth payload = .ok items ↔ AreElementsOf depth payload items := by
  induction depth generalizing payload items with
  | zero => simp [readChildren, AreElementsOf]
  | succ depth ih =>
    -- One level down the reader takes the items nested within the smaller limit.
    have hread : Reads (readWith (readChildren depth)) wire
        fun item => item.Valid ∧ item.nesting ≤ depth := by
      simpa only [lawful_iff_valid] using reads_item ih
    simp only [readChildren, bind_eq_ok_iff, Prod.exists, readCount_eq_ok_iff,
      readElements_eq_ok_iff hread, AreElementsOf, validAll_iff, Nat.lt_succ_iff,
      nestingOfChildren_le_iff]
    constructor
    · intro h
      obtain ⟨count, c, ⟨hcount, hpayload, -, -⟩, rfl, hrest, hall⟩ := h
      exact ⟨hcount, by rw [hpayload, hrest], fun item hitem => (hall item hitem).1,
        fun item hitem => (hall item hitem).2⟩
    · intro h
      obtain ⟨hcount, hpayload, hvalid, hnesting⟩ := h
      exact ⟨items.length, ⟨countWidth, items.flatMap wire⟩,
        ⟨hcount, hpayload, rfl, length_le_of_valid hvalid⟩, rfl, rfl,
        fun item hitem => ⟨hvalid item hitem, hnesting item hitem⟩⟩

/-- Reading at a limit takes exactly the valid items nested within it. -/
theorem reads_nested (depth : Nat) : Reads (readWith (readChildren depth)) wire
    fun item => item.Valid ∧ item.nesting ≤ depth := by
  simpa only [lawful_iff_valid] using reads_item (readChildren_eq_ok_iff depth)

/-! ### Buffers -/

/-- Whether the bytes of an item stand in a buffer from one offset up to another. -/
def StandsIn (item : Item) (buffer : Bytes) (offset next : Nat) : Prop :=
  next = offset + item.wire.length ∧ next ≤ buffer.length ∧ buffer.extract offset next = item.wire

theorem standsIn_iff {item : Item} {buffer : Bytes} {offset next : Nat} :
    item.StandsIn buffer offset next ↔
      ∃ rest, buffer.drop offset = item.wire ++ rest ∧ next = offset + item.wire.length := by
  constructor
  · intro h
    obtain ⟨rfl, -, hslice⟩ := h
    rw [List.extract_eq_take_drop, Nat.add_sub_cancel_left] at hslice
    have hsplit := List.take_append_drop item.wire.length (buffer.drop offset)
    rw [hslice] at hsplit
    exact ⟨_, hsplit.symm, rfl⟩
  · intro h
    obtain ⟨rest, hrest, rfl⟩ := h
    have hlen := congrArg List.length hrest
    have hpos := List.length_pos_iff.mpr item.wire_ne_nil
    simp only [List.length_drop, List.length_append] at hlen
    refine ⟨rfl, by omega, ?_⟩
    simp [List.extract_eq_take_drop, hrest]

/-- An item is read at an offset just where its bytes stand. -/
theorem read_eq_ok_iff (depth : Nat) (buffer : Bytes) (offset : Nat) (item : Item) (next : Nat) :
    read depth buffer offset = .ok (item, next) ↔
      item.Valid ∧ item.nesting ≤ depth ∧ item.StandsIn buffer offset next := by
  simp only [read, bind_eq_ok_iff, Prod.exists, reads_nested depth _ _ _, ofBuffer, standsIn_iff]
  constructor
  · intro h
    obtain ⟨found, c, ⟨⟨hvalid, hnesting⟩, hrest, hoffset⟩, h⟩ := h
    cases h
    exact ⟨hvalid, hnesting, c.rest, hrest, hoffset⟩
  · intro h
    obtain ⟨hvalid, hnesting, rest, hrest, hoffset⟩ := h
    exact ⟨item, ⟨next, rest⟩, ⟨⟨hvalid, hnesting⟩, hrest, hoffset⟩, rfl⟩

/-- **Reading accepts exactly the wire grammar.** An item is read at an offset, within
    a nesting limit, just when it is valid, nested within the limit, and its bytes
    stand there up to the offset that is given back. Everything else is an invalid
    pack. An offset past the end is refused like any other place where a byte is
    missing, however large it is. -/
theorem read_accepts_grammar (depth : Nat) (buffer : Bytes) (offset : Nat) :
    (∀ item next, read depth buffer offset = .ok (item, next) ↔
      item.Valid ∧ item.nesting ≤ depth ∧ item.StandsIn buffer offset next) ∧
    ((¬ ∃ (item : Item) (next : Nat),
        item.Valid ∧ item.nesting ≤ depth ∧ item.StandsIn buffer offset next) →
      ∃ cause, (read depth buffer offset).mapError InvalidPack.read = .error (.read cause)) ∧
    (buffer.length ≤ offset → read depth buffer offset = .error (.truncated 1 offset 0)) := by
  refine ⟨read_eq_ok_iff depth buffer offset, ?_, ?_⟩
  · intro hnone
    cases hread : read depth buffer offset with
    | error cause => exact ⟨cause, rfl⟩
    | ok found => exact absurd ⟨_, _, (read_eq_ok_iff depth buffer offset _ _).mp hread⟩ hnone
  · intro hpast
    have hrest : buffer.drop offset = [] := List.drop_eq_nil_of_le hpast
    simp [read, readWith, ofBuffer, byte, hrest, Bind.bind, Except.bind]

/-! ### The item at a place -/

/-- Only one item stands at a place. -/
theorem StandsIn.unique {item item' : Item} {buffer : Bytes} {offset next next' : Nat}
    (h : item.StandsIn buffer offset next) (hvalid : item.Valid)
    (h' : item'.StandsIn buffer offset next') (hvalid' : item'.Valid) :
    item = item' ∧ next = next' := by
  -- Both are what the reader takes there, at a limit that is wide enough for both.
  have hread := (read_eq_ok_iff (max item.nesting item'.nesting) buffer offset item next).mpr
    ⟨hvalid, Nat.le_max_left _ _, h⟩
  have hread' := (read_eq_ok_iff (max item.nesting item'.nesting) buffer offset item' next').mpr
    ⟨hvalid', Nat.le_max_right _ _, h'⟩
  rw [hread] at hread'
  cases hread'
  exact ⟨rfl, rfl⟩

theorem standsIn_wire (item : Item) : item.StandsIn item.wire 0 item.wire.length :=
  standsIn_iff.mpr ⟨[], by simp, by simp⟩

end Item

end BinaryPack
