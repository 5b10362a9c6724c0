import BinaryPack.Proofs.Decoding
import BinaryPack.Proofs.Item.Inversion

/-! # What reading costs

  A count is only a number, and may be far larger than what is there. A reader sets room
  aside for as many elements as a container declares, so it asks first whether the payload
  could hold them (`Item.readCount`). Whatever the input is and however reading ends, each
  reservation is then paid for by bytes of the input (`Reservation.Within`), each item by at
  least three bytes that the cursor moves on, and each level of nesting by seven. So the
  input bounds what is reserved, what is built and how deep it goes, even where the limit on
  nesting does not (`Item.read_resources`).

  The question is asked for no other reason. A reader that trusts every count
  (`Item.readTrusting`) takes the same items, since elements that are there have room.
-/

namespace BinaryPack

namespace Item

/-! ### Reservations -/

/-- Room that is set aside for the elements of a container before any of them is read. -/
structure Reservation where
  /-- The number of elements that there is room for. -/
  count : Nat
  /-- The payload that the elements are to be read from. -/
  payload : Bytes
  deriving DecidableEq

/-- What reading one item sets aside, given what reading the payload of a container does. A
    payload is read when everything in front of it was taken. -/
def reservedByItem (below : Bytes → List Reservation) (start : Cursor) : List Reservation :=
  match readWith (fun _ => .ok []) start with
  | .ok (item, _) => if item.itemType?.any ItemType.isContainer then below item.data else []
  | .error _ => []

/-- What reading elements sets aside, up to the first that is not taken. -/
def reservedByElements (readOne : Cursor → Except ReadError (Item × Cursor))
    (reservedByOne : Cursor → List Reservation) : (left : Nat) → Cursor → List Reservation
  | 0, _ => []
  | left + 1, c =>
    if c.rest.isEmpty then []
    else reservedByOne c ++
      match readOne c with
      | .ok (_, next) => reservedByElements readOne reservedByOne left next
      | .error _ => []

/-- What reading the payload of a container sets aside, whether it succeeds or not: room for
    its own elements, once their number is known, and what is set aside below. -/
def reservedByChildren : (depth : Nat) → (payload : Bytes) → List Reservation
  | 0, _ => []
  | depth + 1, payload =>
    match readCount payload with
    | .ok (declared, c) => ⟨declared, payload⟩ :: reservedByElements
        (readWith (readChildren depth)) (reservedByItem (reservedByChildren depth)) declared c
    | .error _ => []

/-- What reading the item at an offset of a buffer sets aside, in order. -/
def reserved (depth : Nat) (buffer : Bytes) (offset : Nat) : List Reservation :=
  reservedByItem (reservedByChildren depth) (Cursor.ofBuffer buffer offset)

/-- An array in an object declares a thousand elements: nothing is set aside for it. -/
example : reserved 9 [0x90, 0, 14, 1, 0, 0, 0, 0xA0, 0, 7, 0xE8, 3, 0, 0, 0x61, 0, 0] 0
    = [⟨1, [1, 0, 0, 0, 0xA0, 0, 7, 0xE8, 3, 0, 0, 0x61, 0, 0]⟩] := by decide

/-! ### What is set aside is paid for -/

/-- A reservation that bytes pay for: the payload is part of them, opens with a count, and
    goes on with the least bytes for each of the elements. -/
structure Reservation.Within (r : Reservation) (bytes : Bytes) : Prop where
  /-- The payload is part of the bytes. -/
  isInfix : r.payload <:+: bytes
  /-- The count stands in the payload. -/
  opens : countWidth ≤ r.payload.length
  /-- What follows the count has room for the elements. -/
  room : leastWireSize * r.count ≤ r.payload.length - countWidth

theorem Reservation.Within.mono {r : Reservation} {bytes bytes' : Bytes} (h : r.Within bytes)
    (hbytes : bytes <:+: bytes') : r.Within bytes' :=
  ⟨h.isInfix.trans hbytes, h.opens, h.room⟩

/-- An item is taken from the front, however its children are read. -/
theorem rest_of_readWith {readChildren : Bytes → Except ReadError (List Item)}
    {start next : Cursor} {item : Item} (h : readWith readChildren start = .ok (item, next)) :
    start.rest = item.wire ++ next.rest :=
  ((reads_item (fun _ _ => Iff.rfl) start item next).mp h).2.1

theorem within_reservedByItem {below : Bytes → List Reservation}
    (hbelow : ∀ payload, ∀ r ∈ below payload, r.Within payload) (start : Cursor) :
    ∀ r ∈ reservedByItem below start, r.Within start.rest := by
  intro r hr
  unfold reservedByItem at hr
  split at hr
  · next item next hread =>
    split at hr
    · refine (hbelow item.data r hr).mono ?_
      rw [rest_of_readWith hread, wire_eq_heading, List.append_assoc]
      exact List.infix_append' _ _ _
    · cases hr
  · cases hr

theorem within_reservedByElements {readChildren : Bytes → Except ReadError (List Item)}
    {reservedByOne : Cursor → List Reservation}
    (hone : ∀ c, ∀ r ∈ reservedByOne c, r.Within c.rest) (left : Nat) (c : Cursor) :
    ∀ r ∈ reservedByElements (readWith readChildren) reservedByOne left c, r.Within c.rest := by
  induction left generalizing c with
  | zero =>
    intro r hr
    cases hr
  | succ left ih =>
    intro r hr
    rw [reservedByElements] at hr
    split at hr
    · cases hr
    · rcases List.mem_append.mp hr with hfirst | hrest
      · exact hone c r hfirst
      · split at hrest
        · next item next hread =>
          -- What is left after an element is the end of what was there before.
          refine (ih next r hrest).mono ?_
          rw [rest_of_readWith hread]
          exact (List.suffix_append _ _).isInfix
        · cases hrest

/-- Whatever a payload is, each reservation made while it is read is paid for by it. -/
theorem within_reservedByChildren (depth : Nat) (payload : Bytes) :
    ∀ r ∈ reservedByChildren depth payload, r.Within payload := by
  induction depth generalizing payload with
  | zero =>
    intro r hr
    cases hr
  | succ depth ih =>
    intro r hr
    rw [reservedByChildren] at hr
    split at hr
    · next declared c hcount =>
      obtain ⟨-, hpayload, -, hroom⟩ := (readCount_eq_ok_iff payload declared c).mp hcount
      have hlength : payload.length = countWidth + c.rest.length := by
        rw [hpayload, List.length_append, LittleEndian.length_encode]
      rcases List.mem_cons.mp hr with rfl | hbelow
      · exact ⟨List.infix_rfl, by simp only; omega, by simp only; omega⟩
      · have hrest : c.rest <:+: payload := by
          rw [hpayload]
          exact (List.suffix_append _ _).isInfix
        exact (within_reservedByElements (within_reservedByItem ih) declared c r hbelow).mono hrest
    · cases hr

/-! ### What is set aside is used -/

/-- Room for exactly the children of each container in a tree, in the order in which the
    containers begin. -/
def rooms (item : Item) : List Reservation :=
  (item.subitems.filter fun sub => sub.itemType?.any ItemType.isContainer).map
    fun sub => ⟨sub.children.length, sub.data⟩

theorem rooms_eq (item : Item) : item.rooms =
    (if item.itemType?.any ItemType.isContainer then [⟨item.children.length, item.data⟩] else [])
      ++ item.children.flatMap rooms := by
  rw [rooms, subitems_eq, List.filter_cons, List.filter_flatMap]
  split
  · rw [List.map_cons, List.map_flatMap]
    rfl
  · rw [List.map_flatMap]
    rfl

theorem isContainer_iff (item : Item) :
    item.itemType?.any ItemType.isContainer = true ↔ item.IsContainer := by
  rw [Option.any_eq_true]
  rfl

theorem childrenFit_iff {Accepts : Bytes → List Item → Prop} {item : Item} :
    ChildrenFit Accepts item ↔ (item.IsScalar ∧ item.children = []) ∨
      (item.IsContainer ∧ Accepts item.data item.children) := by
  unfold ChildrenFit IsScalar IsContainer itemType?
  match ItemType.ofTag? item.tag with
  | none => simp
  | some (.scalar type) => simp [ItemType.isContainer]
  | some .object => simp [ItemType.isContainer]
  | some .array => simp [ItemType.isContainer]

theorem reservedByItem_eq {readChildren : Bytes → Except ReadError (List Item)}
    {below : Bytes → List Reservation}
    (hbelow : ∀ payload items, readChildren payload = .ok items →
      below payload = ⟨items.length, payload⟩ :: items.flatMap rooms)
    {start next : Cursor} {item : Item} (h : readWith readChildren start = .ok (item, next)) :
    reservedByItem below start = item.rooms := by
  obtain ⟨⟨hname, hfits, hchildren⟩, hrest⟩ :=
    (reads_item (fun _ _ => Iff.rfl) start item next).mp h
  rw [childrenFit_iff] at hchildren
  -- The same bytes are taken if nobody asks for the children.
  have hleaf : readWith (fun _ => .ok []) start = .ok ({ item with children := [] }, next) := by
    refine (reads_item (fun _ _ => Iff.rfl) start { item with children := [] } next).mpr
      ⟨⟨hname, hfits, childrenFit_iff.mpr ?_⟩, hrest⟩
    rcases hchildren with ⟨hscalar, -⟩ | ⟨hcontainer, -⟩
    · exact .inl ⟨hscalar, rfl⟩
    · exact .inr ⟨hcontainer, rfl⟩
  rw [reservedByItem, hleaf, rooms_eq]
  show (if item.itemType?.any ItemType.isContainer then below item.data else []) = _
  rcases hchildren with ⟨hscalar, hnone⟩ | ⟨hcontainer, hread⟩
  · have hno : ¬ item.itemType?.any ItemType.isContainer = true := by
      rw [isContainer_iff]
      exact not_isContainer_of_isScalar hscalar
    rw [if_neg hno, if_neg hno, hnone]
    rfl
  · have hyes := (isContainer_iff item).mpr hcontainer
    rw [if_pos hyes, if_pos hyes, hbelow _ _ hread]
    rfl

theorem reservedByElements_eq {readOne : Cursor → Except ReadError (Item × Cursor)}
    {reservedByOne : Cursor → List Reservation}
    (hone : ∀ c item next, readOne c = .ok (item, next) → reservedByOne c = item.rooms)
    {declared left : Nat} {c : Cursor} {items : List Item}
    (h : readElements readOne declared left c = .ok items) :
    reservedByElements readOne reservedByOne left c = items.flatMap rooms := by
  induction left generalizing c items with
  | zero =>
    rw [readElements] at h
    split at h
    · cases h
      rfl
    · cases h
  | succ left ih =>
    rw [readElements] at h
    rw [reservedByElements]
    split at h
    · cases h
    · next hmore =>
      simp only [bind_eq_ok_iff, Prod.exists] at h
      obtain ⟨item, next, hread, rest, hrest, hpure⟩ := h
      cases hpure
      rw [if_neg hmore, hone c item next hread, hread, List.flatMap_cons]
      dsimp only
      rw [ih hrest]

/-- Where children are read, room was set aside for just these, and for those below them. -/
theorem reservedByChildren_eq {depth : Nat} {payload : Bytes} {items : List Item}
    (h : readChildren depth payload = .ok items) :
    reservedByChildren depth payload = ⟨items.length, payload⟩ :: items.flatMap rooms := by
  induction depth generalizing payload items with
  | zero => cases h
  | succ depth ih =>
    rw [readChildren] at h
    simp only [bind_eq_ok_iff, Prod.exists] at h
    obtain ⟨declared, c, hcount, helements⟩ := h
    obtain ⟨hlength, -⟩ :=
      (readElements_eq_ok_iff (reads_nested depth) declared declared c items).mp helements
    have hone : ∀ c item next, readWith (readChildren depth) c = .ok (item, next) →
        reservedByItem (reservedByChildren depth) c = item.rooms :=
      fun _ _ _ hread => reservedByItem_eq (fun _ _ => ih) hread
    rw [reservedByChildren, hcount]
    dsimp only
    rw [reservedByElements_eq hone helements, hlength]

/-- Where an item is read, room was set aside for the children of its containers and for
    nothing else. -/
theorem reserved_of_read {depth offset next : Nat} {buffer : Bytes} {item : Item}
    (h : read depth buffer offset = .ok (item, next)) :
    reserved depth buffer offset = item.rooms := by
  simp only [read, bind_eq_ok_iff, Prod.exists] at h
  obtain ⟨found, c, hread, hpure⟩ := h
  cases hpure
  exact reservedByItem_eq (fun _ _ => reservedByChildren_eq) hread

/-! ### What is built is paid for -/

/-- Each item of a tree takes at least the bytes of the smallest item. -/
theorem length_subitems_le {item : Item} (hvalid : item.Valid) :
    leastWireSize * item.subitems.length ≤ item.wire.length := by
  induction item using childInduction with
  | node item ih =>
    rw [subitems_eq, List.length_cons]
    rcases hvalid.cases with ⟨-, hnone⟩ | ⟨-, hdata, -⟩
    · rw [hnone]
      exact leastWireSize_le_length_wire hvalid
    · have hbelow := length_flatMap_le_of_paid fun child hchild =>
        ih child hchild (hvalid.child hchild)
      -- The count alone is larger than the smallest item.
      rw [wire_eq_heading, List.length_append, hdata, List.length_append,
        LittleEndian.length_encode]
      simp only [leastWireSize, countWidth] at *
      omega

/-- The bytes of the smallest container: a short header and a count. -/
def leastContainerSize : Nat := 7

theorem nestingOfChildren_le {items : List Item}
    (h : ∀ item ∈ items, leastContainerSize * item.nesting ≤ item.wire.length) :
    leastContainerSize * nestingOfChildren items ≤ (items.flatMap wire).length := by
  induction items with
  | nil => exact Nat.zero_le _
  | cons item rest ih =>
    obtain ⟨hitem, hrest⟩ := List.forall_mem_cons.mp h
    have hbelow := ih hrest
    rw [nestingOfChildren, List.flatMap_cons, List.length_append]
    simp only [leastContainerSize] at *
    omega

theorem nesting_of_isScalar {item : Item} (h : item.IsScalar) : item.nesting = 0 := by
  obtain ⟨tag, name, data, children⟩ := item
  obtain ⟨type, htype⟩ := h
  unfold itemType? at htype
  rw [nesting, htype]

/-- Each level of nesting takes at least the bytes of the smallest container. -/
theorem nesting_le_length_wire {item : Item} (hvalid : item.Valid) :
    leastContainerSize * item.nesting ≤ item.wire.length := by
  induction item using childInduction with
  | node item ih =>
    rcases hvalid.cases with ⟨hscalar, -⟩ | ⟨hcontainer, hdata, -⟩
    · rw [nesting_of_isScalar hscalar]
      exact Nat.zero_le _
    · have hbelow := nestingOfChildren_le fun child hchild =>
        ih child hchild (hvalid.child hchild)
      have hheader : 3 ≤ item.sizeClass.headerLength := by
        have hclass := hcontainer.sizeClass_ne_fixed
        cases hsize : item.sizeClass with
        | fixed => exact absurd hsize hclass
        | short | long => decide
      rw [nesting_of_isContainer hcontainer, wire_eq_heading, List.length_append, length_heading,
        hdata, List.length_append, LittleEndian.length_encode]
      simp only [leastContainerSize, countWidth] at *
      omega

/-! ### Rounds of the loop over elements -/

/-- An item that is taken moves the cursor on, by the bytes of the smallest item at least. -/
theorem advance_of_readWith {depth : Nat} {c next : Cursor} {item : Item}
    (h : readWith (readChildren depth) c = .ok (item, next)) :
    c.offset + leastWireSize ≤ next.offset ∧
      next.rest.length + leastWireSize ≤ c.rest.length := by
  obtain ⟨⟨hvalid, -⟩, hrest, hoffset⟩ := (reads_nested depth c item next).mp h
  have hleast := leastWireSize_le_length_wire hvalid
  have hlength := congrArg List.length hrest
  rw [List.length_append] at hlength
  omega

/-- One item after another cannot be taken for ever, whatever count was declared. -/
theorem wellFounded_readWith (depth : Nat) :
    WellFounded fun next c => ∃ item, readWith (readChildren depth) c = .ok (item, next) := by
  refine Subrelation.wf ?_ (measure fun c : Cursor => c.rest.length).wf
  intro next c htaken
  obtain ⟨item, hread⟩ := htaken
  have hadvance := (advance_of_readWith hread).2
  show next.rest.length < c.rest.length
  simp only [leastWireSize] at hadvance
  omega

/-! ### A reader that trusts counts -/

/-- Reads the elements of a container's payload, however many are declared. -/
def readChildrenTrusting : (depth : Nat) → (payload : Bytes) → Except ReadError (List Item)
  | 0, _ => .error .tooDeep
  | depth + 1, payload => do
    let (declared, c) ← (Cursor.ofBuffer payload 0).number countWidth
    readElements (readWith (readChildrenTrusting depth)) declared declared c

/-- Reads the item at an offset of a buffer and never asks whether elements have room. -/
def readTrusting (depth : Nat) (buffer : Bytes) (offset : Nat) : Except ReadError (Item × Nat) := do
  let (item, c) ← readWith (readChildrenTrusting depth) (Cursor.ofBuffer buffer offset)
  return (item, c.offset)

theorem readChildrenTrusting_eq_ok_iff (depth : Nat) (payload : Bytes) (items : List Item) :
    readChildrenTrusting depth payload = .ok items ↔ AreElementsOf depth payload items := by
  induction depth generalizing payload items with
  | zero => simp [readChildrenTrusting, AreElementsOf]
  | succ depth ih =>
    -- The elements are those that the other reader takes, as far as a count is trusted.
    have hread : Cursor.Reads (readWith (readChildrenTrusting depth)) wire
        fun item => item.Valid ∧ item.nesting ≤ depth := by
      simpa only [lawful_iff_valid] using reads_item ih
    simp only [readChildrenTrusting, bind_eq_ok_iff, Prod.exists,
      Cursor.reads_number countWidth _ _ _, readElements_eq_ok_iff hread, AreElementsOf,
      validAll_iff, Nat.lt_succ_iff, nestingOfChildren_le_iff]
    constructor
    · intro h
      obtain ⟨count, c, ⟨hcount, hpayload, -⟩, rfl, hrest, hall⟩ := h
      simp only [Cursor.ofBuffer, List.drop_zero] at hpayload
      exact ⟨hcount, by rw [hpayload, hrest], fun item hitem => (hall item hitem).1,
        fun item hitem => (hall item hitem).2⟩
    · intro h
      obtain ⟨hcount, hpayload, hvalid, hnesting⟩ := h
      exact ⟨items.length, ⟨countWidth, items.flatMap wire⟩,
        ⟨hcount, by simpa [Cursor.ofBuffer] using hpayload, by simp [Cursor.ofBuffer]⟩, rfl, rfl,
        fun item hitem => ⟨hvalid item hitem, hnesting item hitem⟩⟩

/-- Trust makes no difference to what is taken. -/
theorem readChildrenTrusting_eq_ok_iff_readChildren (depth : Nat) (payload : Bytes)
    (items : List Item) :
    readChildrenTrusting depth payload = .ok items ↔ readChildren depth payload = .ok items := by
  rw [readChildrenTrusting_eq_ok_iff, readChildren_eq_ok_iff]

theorem readTrusting_eq_ok_iff (depth : Nat) (buffer : Bytes) (offset : Nat) (item : Item)
    (next : Nat) :
    readTrusting depth buffer offset = .ok (item, next) ↔
      read depth buffer offset = .ok (item, next) := by
  have hitem := reads_item (readChildrenTrusting_eq_ok_iff depth)
  have hitem' := reads_item (readChildren_eq_ok_iff depth)
  simp only [readTrusting, read, bind_eq_ok_iff, Prod.exists, hitem _ _ _, hitem' _ _ _]

/-! ### All that reading costs -/

/-- **A reader spends no more than the bytes it is given.** Let an item be read at an offset
    of any buffer, with any limit on nesting. Whether an item is taken or not, every
    reservation that is made on the way is for a payload that is part of the buffer behind
    the offset, and three bytes of it behind the count stand for each element. Every item
    that is taken moves the cursor by three bytes or more, so a row of elements comes to an
    end. If an item is taken in the end, the reservations were for the children of its
    containers, three bytes of the buffer stand for each item in it, and seven for each
    level of nesting. A reader that does not ask whether elements have room takes the same
    elements and the same items. -/
theorem read_resources (depth : Nat) (buffer : Bytes) (offset : Nat) :
    (∀ r ∈ reserved depth buffer offset, r.payload <:+: buffer.drop offset ∧
      4 ≤ r.payload.length ∧ 3 * r.count ≤ r.payload.length - 4) ∧
    (∀ c item next, readWith (readChildren depth) c = .ok (item, next) →
      c.offset + 3 ≤ next.offset ∧ next.rest.length + 3 ≤ c.rest.length) ∧
    (WellFounded fun next c => ∃ item, readWith (readChildren depth) c = .ok (item, next)) ∧
    (∀ item next, read depth buffer offset = .ok (item, next) →
      reserved depth buffer offset = item.rooms ∧
        3 * item.subitems.length ≤ next - offset ∧ 7 * item.nesting ≤ next - offset) ∧
    (∀ payload items, readChildrenTrusting depth payload = .ok items ↔
      readChildren depth payload = .ok items) ∧
    (∀ item next, readTrusting depth buffer offset = .ok (item, next) ↔
      read depth buffer offset = .ok (item, next)) := by
  refine ⟨?_, fun _ _ _ => advance_of_readWith, wellFounded_readWith depth, ?_,
    readChildrenTrusting_eq_ok_iff_readChildren depth, readTrusting_eq_ok_iff depth buffer offset⟩
  · intro r hr
    have hwithin := within_reservedByItem (within_reservedByChildren depth)
      (Cursor.ofBuffer buffer offset) r hr
    exact ⟨hwithin.isInfix, hwithin.opens, hwithin.room⟩
  · intro item next hread
    obtain ⟨hvalid, -, hnext, -⟩ := valid_of_read hread
    rw [hnext, Nat.add_sub_cancel_left]
    exact ⟨reserved_of_read hread, length_subitems_le hvalid, nesting_le_length_wire hvalid⟩

end Item

end BinaryPack
