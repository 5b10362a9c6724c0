import BinaryPack.Proofs.Decoding
import BinaryPack.Proofs.Item.Place
import BinaryPack.Proofs.Truncation

/-! # Bytes that do not steer a reader

  What a reader makes of a buffer is settled by the tags, the lengths of names, the length
  fields and the counts. The bytes of names and of the payloads of scalars may be edited as
  one likes (`Item.Loose`): an item is still read at the same place and up to the same
  offset, and its tree is alike in all but these bytes (`Item.Alike`).

  The proof makes the new tree out of the old one and the edited bytes, cutting the bytes
  into the same pieces. Pieces that steer the reader are as they were, since no position
  in them is loose.
-/

namespace BinaryPack

/-! ### Edits -/

/-- Bytes that were edited in place: as many as before, and different only at positions
    where they may be. Positions are counted from that of the first byte. -/
def EditedAt (May : Nat → Prop) (start : Nat) (bytes edited : Bytes) : Prop :=
  edited.length = bytes.length ∧ ∀ i, edited[i]? ≠ bytes[i]? → May (start + i)

namespace EditedAt

variable {May : Nat → Prop} {start : Nat} {bytes bytes' edited : Bytes}

theorem length_eq (h : EditedAt May start bytes edited) : edited.length = bytes.length := h.1

/-- Where nothing may be edited, nothing is. -/
theorem eq_of_not (h : EditedAt May start bytes edited)
    (hnot : ∀ i, start ≤ i → i < start + bytes.length → ¬ May i) : edited = bytes := by
  apply List.ext_getElem?
  intro i
  by_cases hi : i < bytes.length
  · apply Decidable.byContradiction
    intro hne
    exact hnot (start + i) (Nat.le_add_right _ _) (Nat.add_lt_add_left hi _) (h.2 i hne)
  · have hlen := h.length_eq
    rw [List.getElem?_eq_none (by omega), List.getElem?_eq_none (by omega)]

/-- Edited bytes are cut where the bytes were. -/
theorem split (h : EditedAt May start (bytes ++ bytes') edited) :
    ∃ first second, edited = first ++ second ∧ EditedAt May start bytes first ∧
      EditedAt May (start + bytes.length) bytes' second := by
  obtain ⟨hlen, hmay⟩ := h
  rw [List.length_append] at hlen
  have hfirst : (edited.take bytes.length).length = bytes.length := by
    rw [List.length_take]
    omega
  refine ⟨edited.take bytes.length, edited.drop bytes.length,
    (List.take_append_drop _ _).symm, ⟨hfirst, ?_⟩, ?_, ?_⟩
  · intro i hne
    by_cases hi : i < bytes.length
    · apply hmay i
      rw [List.getElem?_append_left hi]
      rwa [List.getElem?_take_of_lt hi] at hne
    · rw [List.getElem?_eq_none (by omega), List.getElem?_eq_none (by omega)] at hne
      exact absurd rfl hne
  · rw [List.length_drop]
    omega
  · intro i hne
    rw [Nat.add_assoc]
    apply hmay
    rwa [List.getElem?_append_right (Nat.le_add_right _ _), Nat.add_sub_cancel_left,
      ← List.getElem?_drop]

end EditedAt

namespace Item

/-! ### Loose positions -/

/-- Whether a position lies in the name of an item that starts at a place, or in its payload
    if it is a scalar. -/
def LooseAt (item : Item) (place position : Nat) : Prop :=
  let name := place + item.sizeClass.headerLength
  let data := name + item.name.length
  name ≤ position ∧ position < data ∨
    item.IsScalar ∧ data ≤ position ∧ position < data + item.data.length

/-- Whether a position lies in a name or in the payload of a scalar, somewhere in a tree
    whose root starts at a place. -/
def Loose (root : Item) (start position : Nat) : Prop :=
  ∃ place item, (place, item) ∈ root.placed start ∧ item.LooseAt place position

/-- The same of a row of children. -/
def LooseAmong (items : List Item) (start position : Nat) : Prop :=
  ∃ place item, (place, item) ∈ placedChildren start items ∧ item.LooseAt place position

theorem loose_iff (item : Item) (start position : Nat) :
    item.Loose start position ↔ item.LooseAt start position ∨
      LooseAmong item.children
        (start + item.sizeClass.headerLength + item.name.length + countWidth) position := by
  obtain ⟨tag, name, data, children⟩ := item
  simp only [Loose, LooseAmong, placed, List.mem_cons, Prod.mk.injEq, sizeClass]
  constructor
  · intro h
    obtain ⟨place, item, hroot | hchild, hloose⟩ := h
    · obtain ⟨rfl, rfl⟩ := hroot
      exact .inl hloose
    · exact .inr ⟨place, item, hchild, hloose⟩
  · intro h
    rcases h with hloose | ⟨place, item, hchild, hloose⟩
    · exact ⟨_, _, .inl ⟨rfl, rfl⟩, hloose⟩
    · exact ⟨place, item, .inr hchild, hloose⟩

theorem looseAmong_cons (item : Item) (rest : List Item) (start position : Nat) :
    LooseAmong (item :: rest) start position ↔ item.Loose start position ∨
      LooseAmong rest (start + item.wireSize) position := by
  simp only [LooseAmong, Loose, placedChildren, List.mem_append]
  constructor
  · intro h
    obtain ⟨place, found, hitem | hrest, hloose⟩ := h
    · exact .inl ⟨place, found, hitem, hloose⟩
    · exact .inr ⟨place, found, hrest, hloose⟩
  · intro h
    rcases h with ⟨place, found, hitem, hloose⟩ | ⟨place, found, hrest, hloose⟩
    · exact ⟨place, found, .inl hitem, hloose⟩
    · exact ⟨place, found, .inr hrest, hloose⟩

theorem LooseAt.bounds {item : Item} {place position : Nat} (h : item.LooseAt place position) :
    place + item.sizeClass.headerLength ≤ position ∧ position < place + item.wireSize := by
  unfold LooseAt at h
  unfold wireSize
  omega

/-- Loose positions lie within the bytes of the items. -/
theorem LooseAmong.bounds {items : List Item} {start position : Nat} (hvalid : ValidAll items)
    (h : LooseAmong items start position) :
    start ≤ position ∧ position < start + (items.flatMap wire).length := by
  obtain ⟨place, found, hfound, hloose⟩ := h
  obtain ⟨before, after, hwire, hplace, -, -⟩ := exists_split_of_placedChildren hvalid hfound
  have hbounds := hloose.bounds
  rw [hwire, List.length_append, List.length_append, length_wire]
  omega

theorem Loose.lt {item : Item} {start position : Nat} (hvalid : item.Valid)
    (h : item.Loose start position) : position < start + item.wireSize := by
  obtain ⟨place, found, hfound, hloose⟩ := h
  obtain ⟨before, after, hwire, hplace, -, -⟩ := exists_split_of_placed hvalid hfound
  have hbounds := hloose.bounds
  have hlen := congrArg List.length hwire
  rw [List.length_append, List.length_append, length_wire, length_wire] at hlen
  omega

/-! ### Trees that are alike -/

mutual

/-- Items that are alike in all but some bytes. They have the same tag, names and payloads of
    the same lengths, and equally many children that are alike. A byte of a name or of a
    payload is different only at a position where it may be. -/
def Alike (May : Nat → Prop) (start : Nat) : Item → Item → Prop
  | ⟨tag, name, data, children⟩, ⟨tag', name', data', children'⟩ =>
    tag' = tag ∧ EditedAt May (start + (SizeClass.ofTag tag).headerLength) name name' ∧
      EditedAt May (start + (SizeClass.ofTag tag).headerLength + name.length) data data' ∧
      AlikeAll May (start + (SizeClass.ofTag tag).headerLength + name.length + countWidth)
        children children'

/-- Children that are alike one by one. -/
def AlikeAll (May : Nat → Prop) (start : Nat) : List Item → List Item → Prop
  | [], [] => True
  | item :: rest, item' :: rest' =>
    Alike May start item item' ∧ AlikeAll May (start + item.wireSize) rest rest'
  | _, _ => False

end

theorem Alike.itemType?_eq {May : Nat → Prop} {start : Nat} {item item' : Item}
    (h : item.Alike May start item') : item'.itemType? = item.itemType? := by
  obtain ⟨tag, name, data, children⟩ := item
  obtain ⟨tag', name', data', children'⟩ := item'
  obtain ⟨htag, -⟩ := h
  rw [itemType?, itemType?, htag]

/-! ### Cutting edited bytes -/

section pieces

variable {May : Nat → Prop} {item : Item} {start : Nat} {edited : Bytes}

/-- A byte of a container is loose only in its name, apart from its children. -/
theorem LooseAt.lt_of_isContainer {place position : Nat} (h : item.LooseAt place position)
    (hcontainer : item.IsContainer) :
    position < place + item.sizeClass.headerLength + item.name.length := by
  rcases h with ⟨-, hname⟩ | ⟨hscalar, -, -⟩
  · exact hname
  · exact absurd hcontainer (not_isContainer_of_isScalar hscalar)

/-- No byte of a header is loose. -/
theorem Loose.header_le {position : Nat} (hvalid : item.Valid) (h : item.Loose start position) :
    start + item.sizeClass.headerLength ≤ position := by
  rcases (loose_iff item start position).mp h with hself | hamong
  · exact hself.bounds.1
  · rcases hvalid.cases with ⟨-, hnone⟩ | ⟨-, -, hchildren⟩
    · -- A scalar has no children that could be loose.
      obtain ⟨place, found, hfound, -⟩ := hamong
      rw [hnone] at hfound
      cases hfound
    · have hbounds := hamong.bounds hchildren
      omega

/-- Edited bytes of an item have its header. What follows is the name and the payload, edited. -/
theorem exists_pieces (hvalid : item.Valid) (hedited : EditedAt May start item.wire edited)
    (hloose : ∀ i, start ≤ i → i < start + item.wireSize → May i → item.Loose start i) :
    ∃ name data, edited = [item.tag, UInt8.ofNat item.name.length]
        ++ lengthField item.tag item.data.length ++ name ++ data ∧
      EditedAt May (start + item.sizeClass.headerLength) item.name name ∧
      EditedAt May (start + item.sizeClass.headerLength + item.name.length) item.data data := by
  have hheader : ([item.tag, UInt8.ofNat item.name.length]
      ++ lengthField item.tag item.data.length).length = item.sizeClass.headerLength := by
    rw [List.length_append, length_lengthField]
    rfl
  obtain ⟨heading, data, rfl, hheading, hdata⟩ := EditedAt.split hedited
  obtain ⟨header, name, rfl, hfields, hname⟩ := EditedAt.split hheading
  rw [List.length_append, hheader, ← Nat.add_assoc] at hdata
  rw [hheader] at hname
  have hsame : header = [item.tag, UInt8.ofNat item.name.length]
      ++ lengthField item.tag item.data.length := by
    apply hfields.eq_of_not
    intro i hi hi' hmay
    rw [hheader] at hi'
    have hsize : item.sizeClass.headerLength ≤ item.wireSize := by
      unfold wireSize
      omega
    have hbound := (hloose i hi (by omega) hmay).header_le hvalid
    omega
  rw [hsame]
  exact ⟨name, data, rfl, hname, hdata⟩

/-- The edited payload of a container has the same count, if only its children are loose. -/
theorem exists_body {data : Bytes} (hvalid : item.Valid) (hcontainer : item.IsContainer)
    (hdata : EditedAt May start item.data data)
    (hloose : ∀ i, start ≤ i → i < start + item.data.length → May i →
      LooseAmong item.children (start + countWidth) i) :
    ∃ body, data = LittleEndian.encode countWidth item.children.length ++ body ∧
      EditedAt May (start + countWidth) (item.children.flatMap wire) body ∧
      ∀ i, start + countWidth ≤ i → i < start + countWidth + (item.children.flatMap wire).length →
        May i → LooseAmong item.children (start + countWidth) i := by
  obtain ⟨hbody, hchildren⟩ := hvalid.body hcontainer
  rw [hbody] at hdata hloose
  rw [List.length_append, LittleEndian.length_encode] at hloose
  obtain ⟨count, body, rfl, hcount, hrest⟩ := EditedAt.split hdata
  rw [LittleEndian.length_encode] at hrest
  have hsame : count = LittleEndian.encode countWidth item.children.length := by
    apply hcount.eq_of_not
    intro i hi hi' hmay
    rw [LittleEndian.length_encode] at hi'
    have hbounds := (hloose i hi (by omega) hmay).bounds hchildren
    omega
  rw [hsame]
  refine ⟨body, rfl, hrest, ?_⟩
  intro i hi hi' hmay
  exact hloose i (by omega) (by omega) hmay

end pieces

/-! ### The tree of edited bytes -/

/-- The header of an item depends on its name and its payload only through their lengths. -/
theorem wire_of_length_eq (tag : UInt8) {name name' data data' : Bytes}
    (hname : name'.length = name.length) (hdata : data'.length = data.length)
    (children : List Item) : wire ⟨tag, name', data', children⟩
      = [tag, UInt8.ofNat name.length] ++ lengthField tag data.length ++ name' ++ data' := by
  rw [wire, hname, hdata]

mutual

/-- If the bytes of a valid item are edited only where they are loose, the edited bytes are
    those of a valid item that is alike. -/
theorem exists_alike {May : Nat → Prop} : ∀ {item : Item} {start : Nat} {edited : Bytes},
    item.Valid → EditedAt May start item.wire edited →
      (∀ i, start ≤ i → i < start + item.wireSize → May i → item.Loose start i) →
        ∃ item' : Item, item'.Valid ∧ item'.nesting = item.nesting ∧ item'.wire = edited ∧
          item.Alike May start item'
  | ⟨tag, name, data, children⟩, start, edited, hvalid, hedited, hloose => by
    obtain ⟨name', data', rfl, hname, hdata⟩ := exists_pieces hvalid hedited hloose
    have hwire := wire_of_length_eq tag hname.length_eq hdata.length_eq
    have hlength : name'.length < 256 := hname.length_eq ▸ hvalid.length_name_lt
    have hfits : lengthFits tag data'.length := hdata.length_eq ▸ hvalid.lengthFits
    rcases hvalid.cases with ⟨⟨type, htype⟩, hnone⟩ | ⟨hcontainer, -, hchildren⟩
    · -- A scalar keeps its type, and any payload of the same length will do.
      cases hnone
      unfold itemType? at htype
      refine ⟨⟨tag, name', data', []⟩, ⟨hlength, hfits, ?_⟩, ?_, hwire [], rfl, hname, hdata,
        trivial⟩
      · rw [htype]
      · rw [nesting, nesting]
    · -- In a container the edits behind the name are edits of the children.
      have hamong : ∀ i, start + (SizeClass.ofTag tag).headerLength + name.length ≤ i →
          i < start + (SizeClass.ofTag tag).headerLength + name.length + data.length → May i →
            LooseAmong children (start + (SizeClass.ofTag tag).headerLength + name.length
              + countWidth) i := by
        intro i hi hi' hmay
        have hsize : wireSize ⟨tag, name, data, children⟩
            = (SizeClass.ofTag tag).headerLength + name.length + data.length := rfl
        rcases (loose_iff _ start i).mp (hloose i (by omega) (by omega) hmay) with hself | hchild
        · have hlt := hself.lt_of_isContainer hcontainer
          exact absurd hlt (Nat.not_lt.mpr hi)
        · exact hchild
      obtain ⟨body, rfl, hbody, hloose'⟩ := exists_body hvalid hcontainer hdata hamong
      obtain ⟨children', hvalid', hlen', hnesting', hwires', halike'⟩ :=
        exists_alikeAll hchildren hbody hloose'
      have hcontainer' : IsContainer ⟨tag, name', LittleEndian.encode countWidth children.length
          ++ body, children'⟩ := hcontainer.of_tag_eq rfl
      refine ⟨_, valid_of_isContainer hcontainer' hlength hfits ?_ hvalid', ?_, hwire children',
        rfl, hname, hdata, halike'⟩
      · rw [hlen', hwires']
      · rw [nesting_of_isContainer hcontainer', nesting_of_isContainer hcontainer, hnesting']

theorem exists_alikeAll {May : Nat → Prop} : ∀ {items : List Item} {start : Nat} {edited : Bytes},
    ValidAll items → EditedAt May start (items.flatMap wire) edited →
      (∀ i, start ≤ i → i < start + (items.flatMap wire).length → May i →
        LooseAmong items start i) →
        ∃ items' : List Item, ValidAll items' ∧ items'.length = items.length ∧
          nestingOfChildren items' = nestingOfChildren items ∧ items'.flatMap wire = edited ∧
          AlikeAll May start items items'
  | [], start, edited, _, hedited, _ => by
    have hnil : edited = [] := List.length_eq_zero_iff.mp hedited.length_eq
    exact ⟨[], trivial, rfl, rfl, hnil.symm, trivial⟩
  | item :: rest, start, edited, hvalid, hedited, hloose => by
    rw [List.flatMap_cons] at hedited hloose
    obtain ⟨first, second, rfl, hfirst, hsecond⟩ := EditedAt.split hedited
    rw [length_wire] at hsecond
    rw [List.length_append, length_wire] at hloose
    simp only [looseAmong_cons] at hloose
    -- What is loose in an item is not in the bytes of its siblings.
    have hitem : ∀ i, start ≤ i → i < start + item.wireSize → May i → item.Loose start i := by
      intro i hi hi' hmay
      rcases hloose i hi (by omega) hmay with hself | hother
      · exact hself
      · have hbounds := hother.bounds hvalid.2
        omega
    have hrest : ∀ i, start + item.wireSize ≤ i →
        i < start + item.wireSize + (rest.flatMap wire).length → May i →
          LooseAmong rest (start + item.wireSize) i := by
      intro i hi hi' hmay
      rcases hloose i (by omega) (by omega) hmay with hself | hother
      · have hbound := hself.lt hvalid.1
        omega
      · exact hother
    obtain ⟨item', hvalid', hnesting', hwire', halike'⟩ := exists_alike hvalid.1 hfirst hitem
    obtain ⟨rest', hvalids', hlen', hnestings', hwires', halikes'⟩ :=
      exists_alikeAll hvalid.2 hsecond hrest
    refine ⟨item' :: rest', ⟨hvalid', hvalids'⟩, ?_, ?_, ?_, halike', halikes'⟩
    · rw [List.length_cons, hlen', List.length_cons]
    · rw [nestingOfChildren, hnesting', hnestings', nestingOfChildren]
    · rw [List.flatMap_cons, hwire', hwires']

end

/-! ### Reading edited bytes -/

/-- Where an item stands, an item that is alike stands in the edited buffer. -/
theorem StandsIn.exists_alike {May : Nat → Prop} {item : Item} {buffer edited : Bytes}
    {offset next : Nat} (hvalid : item.Valid) (hstands : item.StandsIn buffer offset next)
    (hedited : EditedAt May 0 buffer edited)
    (hloose : ∀ i, offset ≤ i → i < next → May i → item.Loose offset i) :
    ∃ item' : Item, item'.Valid ∧ item'.nesting = item.nesting ∧
      item'.StandsIn edited offset next ∧ item.Alike May offset item' := by
  obtain ⟨skipped, rest, rfl, rfl, rfl⟩ := hstands.exists_split
  obtain ⟨skipped', tail', rfl, hskipped, htail⟩ := hedited.split
  obtain ⟨bytes', rest', rfl, hbytes, -⟩ := htail.split
  rw [Nat.zero_add] at hbytes
  obtain ⟨item', hvalid', hnesting', rfl, halike⟩ := Item.exists_alike hvalid hbytes hloose
  refine ⟨item', hvalid', hnesting', ?_, halike⟩
  have hstands' := standsIn_append item' skipped' rest'
  -- Nothing has been moved: the bytes before the item and its own are as many as before.
  have hsize : item'.wireSize = item.wireSize := by
    rw [← length_wire, ← length_wire, hbytes.length_eq]
  rwa [hskipped.length_eq, hsize] at hstands'

/-- **Names and scalars do not steer the reader.** Let a reader take an item, and let the
    buffer be edited in place, in names and in the payloads of scalars at any depth of the
    tree, and before and behind the item. A reader with the same limit then takes an item
    that ends at the same offset and whose tree is alike: the tags, the lengths of names and
    payloads and the numbers of children are the same, and a byte of a name or a payload is
    different only where the buffer is. If a decoder with this limit took the buffer, it
    takes the edited buffer too. -/
theorem read_edited {depth offset next : Nat} {buffer edited : Bytes} {root : Item}
    (hread : read depth buffer offset = .ok (root, next))
    (hedited : EditedAt (fun i => root.Loose offset i ∨ i < offset ∨ next ≤ i) 0 buffer edited) :
    (∃ root', read depth edited offset = .ok (root', next) ∧
      root.Alike (fun i => edited[i]? ≠ buffer[i]?) offset root') ∧
    (offset = 0 → ∀ d : Decoder, d.maxDepth = depth →
      (∃ members, (d.decode buffer).result = .ok members) →
        ∃ members, (d.decode edited).result = .ok members) := by
  obtain ⟨hvalid, hnesting, hstands⟩ := valid_of_read hread
  have hself : EditedAt (fun i => edited[i]? ≠ buffer[i]?) 0 buffer edited := by
    refine ⟨hedited.length_eq, ?_⟩
    intro i hne
    rwa [Nat.zero_add]
  -- What is edited within the item is loose in it.
  have hloose : ∀ i, offset ≤ i → i < next → edited[i]? ≠ buffer[i]? → root.Loose offset i := by
    intro i hi hi' hne
    have hmay := hedited.2 i hne
    rw [Nat.zero_add] at hmay
    rcases hmay with hloose | hbefore | hbehind
    · exact hloose
    · exact absurd hbefore (Nat.not_lt.mpr hi)
    · exact absurd hi' (Nat.not_lt.mpr hbehind)
  obtain ⟨root', hvalid', hnesting', hstands', halike⟩ := hstands.exists_alike hvalid hself hloose
  have hread' : read depth edited offset = .ok (root', next) :=
    (read_eq_ok_iff depth edited offset root' next).mpr ⟨hvalid', hnesting' ▸ hnesting, hstands'⟩
  refine ⟨⟨root', hread', halike⟩, ?_⟩
  intro hstart d hdepth hdecode
  subst hstart
  subst hdepth
  obtain ⟨members, hmembers⟩ := hdecode
  obtain ⟨found, stop, haccepts, -⟩ := (d.result_decode_eq_ok_iff buffer members).mp hmembers
  obtain ⟨rfl, rfl⟩ := read_unique hread haccepts.read
  -- The edited root is an object of the same size.
  have haccepts' : d.Accepts edited root' next := by
    refine ⟨?_, hread', ?_, ?_⟩
    · intro limit hlimit
      rw [hedited.length_eq]
      exact haccepts.limit limit hlimit
    · rw [halike.itemType?_eq]
      exact haccepts.object
    · rw [hedited.length_eq]
      exact haccepts.trailing
  exact haccepts'.exists_members

/-- A key is edited so that it repeats another, a boolean so that it is neither zero nor one,
    and a byte behind the root. -/
theorem read_edited_repeated_key :
    let buffer : Bytes := [0x90, 0, 14, 2, 0, 0, 0, 0x31, 2, 0x61, 0, 1, 0x21, 2, 0x62, 0, 9, 1]
    let edited : Bytes := [0x90, 0, 14, 2, 0, 0, 0, 0x31, 2, 0x62, 0, 7, 0x21, 2, 0x62, 0, 9, 2]
    let first : Item := ⟨0x31, [0x61, 0], [1], []⟩
    let root : Item := ⟨0x90, [], [2, 0, 0, 0, 0x31, 2, 0x61, 0, 1, 0x21, 2, 0x62, 0, 9],
      [first, ⟨0x21, [0x62, 0], [9], []⟩]⟩
    read 1 buffer 0 = .ok (root, 17) ∧
      EditedAt (fun i => root.Loose 0 i ∨ i < 0 ∨ 17 ≤ i) 0 buffer edited ∧
      (∃ root', read 1 edited 0 = .ok (root', 17) ∧
        root.Alike (fun i => edited[i]? ≠ buffer[i]?) 0 root') ∧
      ∃ members, ((⟨1, none, true⟩ : Decoder).decode edited).result = .ok members := by
  intro buffer edited first root
  have hread : read 1 buffer 0 = .ok (root, 17) := by with_unfolding_all rfl
  have hfirst : (7, first) ∈ root.placed 0 := .tail _ (.head _)
  have hchanged : ∀ i < 18, edited[i]? ≠ buffer[i]? → i = 9 ∨ i = 11 ∨ i = 17 := by decide
  have hedited : EditedAt (fun i => root.Loose 0 i ∨ i < 0 ∨ 17 ≤ i) 0 buffer edited := by
    refine ⟨rfl, ?_⟩
    intro i hne
    by_cases hi : i < 18
    · rw [Nat.zero_add]
      rcases hchanged i hi hne with rfl | rfl | rfl
      · exact .inl ⟨7, first, hfirst, .inl (by decide)⟩
      · exact .inl ⟨7, first, hfirst, .inr ⟨⟨.bool, by decide⟩, by decide⟩⟩
      · exact .inr (.inr (Nat.le_refl _))
    · -- Behind the end there is nothing to be different.
      have hend : 18 ≤ i := Nat.not_lt.mp hi
      rw [List.getElem?_eq_none (by exact hend), List.getElem?_eq_none (by exact hend)] at hne
      exact absurd rfl hne
  have haccepts : (⟨1, none, true⟩ : Decoder).Accepts buffer root 17 :=
    ⟨Decoder.withinLimit_of_eq_none rfl buffer, hread, by decide, .inl rfl⟩
  obtain ⟨halike, hdecodes⟩ := read_edited hread hedited
  exact ⟨hread, hedited, halike, hdecodes rfl ⟨1, none, true⟩ rfl haccepts.exists_members⟩

end Item

end BinaryPack
