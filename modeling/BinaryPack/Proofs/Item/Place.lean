import BinaryPack.Proofs.Item.Grammar

/-! # Where the items of a tree stand

  The bytes of an item contain the bytes of every item below it. `Item.placed` lists the
  items of a tree, each with the place where its bytes start, and
  `Item.exists_split_of_placed` says that they do stand there.

  Whatever the bytes of a valid item are, they can be told apart from what follows them
  (`Item.wire_append_inj`). So the bytes that stand before an item in a tree settle that an
  item stands there: any other valid item that begins with the same bytes goes on with an
  item at the same place (`Item.Expects`). This is what ties two buffers to each other that
  agree up to some place, without following a reader through either of them.
-/

namespace BinaryPack

/-- A number that fits its width is told by its bytes. -/
theorem LittleEndian.encode_inj {width n n' : Nat} (h : n < Nat.pow 256 width)
    (h' : n' < Nat.pow 256 width) (heq : encode width n = encode width n') : n = n' := by
  rw [← decode_encode_of_lt h, heq, decode_encode_of_lt h']

namespace Item

/-! ### Kinds of items -/

/-- An item that holds other items. -/
def IsContainer (item : Item) : Prop :=
  ∃ type, item.itemType? = some type ∧ type.isContainer = true

/-- An item that holds a scalar. -/
def IsScalar (item : Item) : Prop :=
  ∃ type, item.itemType? = some (.scalar type)

theorem Valid.length_name_lt {item : Item} (h : item.Valid) : item.name.length < 256 := by
  obtain ⟨tag, name, data, children⟩ := item
  exact h.1

theorem Valid.lengthFits {item : Item} (h : item.Valid) :
    Item.lengthFits item.tag item.data.length := by
  obtain ⟨tag, name, data, children⟩ := item
  exact h.2.1

/-- A valid item is a scalar without children, or a container whose payload is the count of
    its children followed by their bytes. -/
theorem Valid.cases {item : Item} (h : item.Valid) :
    (item.IsScalar ∧ item.children = []) ∨
      (item.IsContainer ∧
        item.data = LittleEndian.encode countWidth item.children.length
          ++ item.children.flatMap wire ∧ ValidAll item.children) := by
  obtain ⟨tag, name, data, children⟩ := item
  obtain ⟨-, -, hbody⟩ := h
  cases htype : ItemType.ofTag? tag with
  | none =>
    rw [htype] at hbody
    exact hbody.elim
  | some type =>
    rw [htype] at hbody
    cases type with
    | scalar type => exact .inl ⟨⟨type, htype⟩, hbody⟩
    | object => exact .inr ⟨⟨.object, htype, rfl⟩, hbody⟩
    | array => exact .inr ⟨⟨.array, htype, rfl⟩, hbody⟩

theorem not_isContainer_of_isScalar {item : Item} (h : item.IsScalar) : ¬ item.IsContainer := by
  intro hcontainer
  obtain ⟨type, htype⟩ := h
  obtain ⟨type', htype', hkind⟩ := hcontainer
  rw [htype] at htype'
  cases htype'
  cases hkind

theorem IsContainer.of_tag_eq {item item' : Item} (h : item.IsContainer)
    (htag : item'.tag = item.tag) : item'.IsContainer := by
  unfold IsContainer itemType? at h ⊢
  rw [htag]
  exact h

/-- The payload of a valid container. -/
theorem Valid.body {item : Item} (h : item.Valid) (hcontainer : item.IsContainer) :
    item.data = LittleEndian.encode countWidth item.children.length
      ++ item.children.flatMap wire ∧ ValidAll item.children := by
  rcases h.cases with ⟨hscalar, -⟩ | ⟨-, hbody⟩
  · exact absurd hcontainer (not_isContainer_of_isScalar hscalar)
  · exact hbody

/-- What makes a container valid. -/
theorem valid_of_isContainer {item : Item} (hcontainer : item.IsContainer)
    (hname : item.name.length < 256) (hfits : Item.lengthFits item.tag item.data.length)
    (hdata : item.data = LittleEndian.encode countWidth item.children.length
      ++ item.children.flatMap wire) (hchildren : ValidAll item.children) : item.Valid := by
  obtain ⟨tag, name, data, children⟩ := item
  obtain ⟨type, htype, hkind⟩ := hcontainer
  refine ⟨hname, hfits, ?_⟩
  unfold itemType? at htype
  rw [htype]
  cases type with
  | scalar type => cases hkind
  | object | array => exact ⟨hdata, hchildren⟩

theorem nesting_of_isContainer {item : Item} (hcontainer : item.IsContainer) :
    item.nesting = nestingOfChildren item.children + 1 := by
  obtain ⟨tag, name, data, children⟩ := item
  obtain ⟨type, htype, hkind⟩ := hcontainer
  unfold itemType? at htype
  rw [nesting, htype]
  cases type with
  | scalar type => cases hkind
  | object | array => rfl

/-- A container has no width of its own, so the length of its payload has a field. -/
theorem IsContainer.sizeClass_ne_fixed {item : Item} (h : item.IsContainer) :
    item.sizeClass ≠ .fixed := by
  obtain ⟨type, htype, hkind⟩ := h
  have hwidth : Tag.width item.tag = 0 := by
    rw [ItemType.width_of_ofTag? htype]
    cases type with
    | object => decide
    | array => decide
    | scalar type => cases hkind
  intro hfixed
  exact (SizeClass.ofTag_eq_fixed_iff item.tag).mp hfixed hwidth

/-- The length of a valid container's payload fits its field. -/
theorem Valid.length_data_lt {item : Item} (h : item.Valid) (hcontainer : item.IsContainer) :
    item.data.length < Nat.pow 256 item.sizeClass.lengthWidth := by
  have hfits := h.lengthFits
  have hclass := hcontainer.sizeClass_ne_fixed
  unfold Item.lengthFits at hfits
  unfold sizeClass at hclass ⊢
  split at hfits
  · next hfixed => exact absurd hfixed hclass
  · exact hfits

/-- The count of a valid container fits its field. -/
theorem Valid.length_children_lt {item : Item} (h : item.Valid) (hcontainer : item.IsContainer) :
    item.children.length < Nat.pow 256 countWidth := by
  have hbody := h.body hcontainer
  have helements : AreElementsOf (nestingOfChildren item.children + 1) item.data item.children :=
    (areElementsOf_iff h.lengthFits).mpr ⟨hbody, Nat.lt_succ_self _⟩
  exact helements.1

/-! ### Headings -/

/-- The bytes of an item before its payload: tag, name length, length field and name. -/
def heading (item : Item) : Bytes :=
  [item.tag, UInt8.ofNat item.name.length] ++ lengthField item.tag item.data.length ++ item.name

theorem wire_eq_heading (item : Item) : item.wire = item.heading ++ item.data := rfl

@[simp] theorem length_heading (item : Item) :
    item.heading.length = item.sizeClass.headerLength + item.name.length := by
  simp [heading, sizeClass, SizeClass.headerLength]
  omega

theorem lengthField_inj {tag : UInt8} {n n' : Nat} (h : lengthFits tag n)
    (h' : lengthFits tag n') (heq : lengthField tag n = lengthField tag n') : n = n' := by
  unfold lengthFits at h h'
  unfold lengthField at heq
  cases hclass : SizeClass.ofTag tag with
  | fixed =>
    simp only [hclass] at h h'
    rw [h, h']
  | short | long =>
    simp only [hclass] at h h' heq
    exact LittleEndian.encode_inj h h' heq

/-- A byte tells the length of a name. -/
theorem length_name_inj {item item' : Item} (h : item.name.length < 256)
    (h' : item'.name.length < 256)
    (heq : UInt8.ofNat item.name.length = UInt8.ofNat item'.name.length) :
    item.name.length = item'.name.length := by
  have hnat := congrArg UInt8.toNat heq
  rwa [UInt8.toNat_ofNat', UInt8.toNat_ofNat', Nat.mod_eq_of_lt h, Nat.mod_eq_of_lt h'] at hnat

/-- A heading tells where it ends, and how long the payload behind it is. -/
theorem heading_append_inj {item item' : Item} {rest rest' : Bytes} (hvalid : item.Valid)
    (hvalid' : item'.Valid) (h : item.heading ++ rest = item'.heading ++ rest') :
    item.tag = item'.tag ∧ item.name = item'.name ∧ item.data.length = item'.data.length ∧
      rest = rest' := by
  simp only [heading, List.cons_append, List.nil_append, List.append_assoc, List.cons.injEq] at h
  obtain ⟨htag, hname, htail⟩ := h
  have hnames := length_name_inj hvalid.length_name_lt hvalid'.length_name_lt hname
  have hfits' := hvalid'.lengthFits
  rw [← htag] at hfits' htail
  -- With one tag the length fields are equally long, and so are the names behind them.
  obtain ⟨hfield, htail⟩ := List.append_inj htail (by rw [length_lengthField, length_lengthField])
  obtain ⟨hname, hrest⟩ := List.append_inj htail hnames
  exact ⟨htag, hname, lengthField_inj hvalid.lengthFits hfits' hfield, hrest⟩

/-! ### Cutting a buffer at an item -/

/-- A buffer in which an item stands, cut before and behind it. -/
theorem StandsIn.exists_split {item : Item} {buffer : Bytes} {offset next : Nat}
    (h : item.StandsIn buffer offset next) :
    ∃ skipped rest, buffer = skipped ++ (item.wire ++ rest) ∧ skipped.length = offset ∧
      next = offset + item.wireSize := by
  have hend : offset ≤ buffer.length := Nat.le_trans (h.1 ▸ Nat.le_add_right _ _) h.2.1
  obtain ⟨rest, hrest, hnext⟩ := standsIn_iff.mp h
  refine ⟨buffer.take offset, rest, ?_, ?_, ?_⟩
  · rw [← hrest, List.take_append_drop]
  · rw [List.length_take, Nat.min_eq_left hend]
  · rw [hnext, length_wire]

theorem standsIn_append (item : Item) (skipped rest : Bytes) :
    item.StandsIn (skipped ++ (item.wire ++ rest)) skipped.length
      (skipped.length + item.wireSize) := by
  apply standsIn_iff.mpr
  refine ⟨rest, ?_, ?_⟩
  · rw [List.drop_left]
  · rw [length_wire]

/-! ### Telling items apart from what follows -/

/-- A valid item is told by its bytes, whatever follows them. -/
theorem wire_append_inj {item item' : Item} {rest rest' : Bytes} (hvalid : item.Valid)
    (hvalid' : item'.Valid) (h : item.wire ++ rest = item'.wire ++ rest') :
    item = item' ∧ rest = rest' := by
  have hstands := standsIn_append item [] rest
  have hstands' := standsIn_append item' [] rest'
  rw [← h] at hstands'
  obtain ⟨rfl, -⟩ := hstands.unique hvalid hstands' hvalid'
  exact ⟨rfl, List.append_cancel_left h⟩

/-- So is a row of valid items, once their number is known. -/
theorem flatMap_wire_append_inj {items items' : List Item} {rest rest' : Bytes}
    (hvalid : ValidAll items) (hvalid' : ValidAll items') (hlen : items.length = items'.length)
    (h : items.flatMap wire ++ rest = items'.flatMap wire ++ rest') :
    items = items' ∧ rest = rest' := by
  induction items generalizing items' with
  | nil =>
    have hnil : items' = [] := List.length_eq_zero_iff.mp hlen.symm
    subst hnil
    exact ⟨rfl, h⟩
  | cons item items ih =>
    cases items' with
    | nil => cases hlen
    | cons item' items' =>
      rw [List.flatMap_cons, List.flatMap_cons, List.append_assoc, List.append_assoc] at h
      obtain ⟨rfl, htail⟩ := wire_append_inj hvalid.1 hvalid'.1 h
      obtain ⟨rfl, hrest⟩ := ih hvalid.2 hvalid'.2 (Nat.succ.inj hlen) htail
      exact ⟨rfl, hrest⟩

/-- Rows of valid items that make up the same bytes are the same. -/
theorem flatMap_wire_inj {items items' : List Item} (hvalid : ValidAll items)
    (hvalid' : ValidAll items') (h : items.flatMap wire = items'.flatMap wire) :
    items = items' := by
  induction items generalizing items' with
  | nil =>
    cases items' with
    | nil => rfl
    | cons item' items' => simp [wire_ne_nil] at h
  | cons item items ih =>
    cases items' with
    | nil => simp [wire_ne_nil] at h
    | cons item' items' =>
      rw [List.flatMap_cons, List.flatMap_cons] at h
      obtain ⟨rfl, htail⟩ := wire_append_inj hvalid.1 hvalid'.1 h
      rw [ih hvalid.2 hvalid'.2 htail]

/-! ### Places -/

mutual

/-- The items of a tree, each with the place where its bytes start. Behind the heading of a
    container stands its count, and then one child after the other. -/
def placed (start : Nat) : Item → List (Nat × Item)
  | ⟨tag, name, data, children⟩ =>
    (start, ⟨tag, name, data, children⟩) :: placedChildren
      (start + (SizeClass.ofTag tag).headerLength + name.length + countWidth) children

/-- The items in a row of children, each with its place. -/
def placedChildren (start : Nat) : List Item → List (Nat × Item)
  | [] => []
  | item :: rest => placed start item ++ placedChildren (start + item.wireSize) rest

end

mutual

/-- Every item of a tree has a place. -/
theorem map_snd_placed (start : Nat) : ∀ item : Item,
    (item.placed start).map Prod.snd = item.subitems
  | ⟨tag, name, data, children⟩ => by
    rw [placed, subitems, List.map_cons, map_snd_placedChildren]

theorem map_snd_placedChildren (start : Nat) : ∀ items : List Item,
    (placedChildren start items).map Prod.snd = subitemsOfChildren items
  | [] => rfl
  | item :: rest => by
    rw [placedChildren, subitemsOfChildren, List.map_append, map_snd_placed start item,
      map_snd_placedChildren _ rest]

end

/-! ### What the bytes before an item settle -/

/-- After these bytes an item must follow: a valid item that begins with them goes on with
    one, whatever else it holds. -/
def Expects (before : Bytes) : Prop :=
  ∀ (item : Item) (rest after : Bytes), item.Valid → item.wire ++ rest = before ++ after →
    ∃ (found : Item) (rest' : Bytes), found.Valid ∧ after = found.wire ++ rest'

/-- The same of the bytes of so many valid items in a row. -/
def ExpectsAmong (count : Nat) (before : Bytes) : Prop :=
  ∀ (items : List Item) (rest after : Bytes), ValidAll items → items.length = count →
    items.flatMap wire ++ rest = before ++ after →
      ∃ (found : Item) (rest' : Bytes), found.Valid ∧ after = found.wire ++ rest'

theorem expects_nil : Expects [] := by
  intro item rest after hvalid h
  exact ⟨item, rest, hvalid, h.symm⟩

theorem Expects.first {before : Bytes} (h : Expects before) (count : Nat) :
    ExpectsAmong (count + 1) before := by
  intro items rest after hvalid hlen heq
  cases items with
  | nil => cases hlen
  | cons item items =>
    rw [List.flatMap_cons, List.append_assoc] at heq
    exact h item _ after hvalid.1 heq

theorem ExpectsAmong.next {count : Nat} {before : Bytes} (h : ExpectsAmong count before)
    {item : Item} (hitem : item.Valid) : ExpectsAmong (count + 1) (item.wire ++ before) := by
  intro items rest after hvalid hlen heq
  cases items with
  | nil => cases hlen
  | cons item' items =>
    rw [List.flatMap_cons, List.append_assoc, List.append_assoc] at heq
    -- The first of the items is the one whose bytes are known, so the others go on alike.
    obtain ⟨rfl, htail⟩ := wire_append_inj hvalid.1 hitem heq
    exact h items rest after hvalid.2 (Nat.succ.inj hlen) htail

/-- The heading and the count of a container settle how many items follow. -/
theorem ExpectsAmong.inside {item : Item} (hitem : item.Valid) (hcontainer : item.IsContainer)
    {before : Bytes} (h : ExpectsAmong item.children.length before) :
    Expects (item.heading ++ LittleEndian.encode countWidth item.children.length ++ before) := by
  intro item' rest after hvalid heq
  rw [wire_eq_heading, List.append_assoc, List.append_assoc, List.append_assoc] at heq
  obtain ⟨htag, -, -, htail⟩ := heading_append_inj hvalid hitem heq
  -- With the same tag the other item is a container too, and starts with a count.
  have hcontainer' := hcontainer.of_tag_eq htag
  obtain ⟨hdata, hchildren⟩ := hvalid.body hcontainer'
  rw [hdata, List.append_assoc] at htail
  obtain ⟨hcount, htail⟩ := List.append_inj htail (by simp)
  have hlen := LittleEndian.encode_inj (hvalid.length_children_lt hcontainer')
    (hitem.length_children_lt hcontainer) hcount
  exact h item'.children rest after hchildren hlen htail

mutual

/-- Every item of a valid tree is valid and stands at its place. The bytes before it settle
    that an item stands there. -/
theorem exists_split_of_placed {start place : Nat} {found : Item} : ∀ {item : Item}, item.Valid →
    (place, found) ∈ item.placed start →
      ∃ before after, item.wire = before ++ found.wire ++ after ∧ place = start + before.length ∧
        found.Valid ∧ Expects before
  | ⟨tag, name, data, children⟩, hvalid, hfound => by
    rcases List.mem_cons.mp hfound with hroot | hchild
    · cases hroot
      exact ⟨[], [], by simp, rfl, hvalid, expects_nil⟩
    · rcases hvalid.cases with ⟨-, hnone⟩ | ⟨hcontainer, hdata, hchildren⟩
      · -- A scalar has no children in which an item could be found.
        cases hnone
        cases hchild
      · obtain ⟨before, after, hwire, hplace, hfound, hexpects⟩ :=
          exists_split_of_placedChildren hchildren hchild
        refine ⟨_, after, ?_, ?_, hfound, hexpects.inside hvalid hcontainer⟩
        · rw [wire_eq_heading, hdata]
          simp only [hwire, List.append_assoc]
        · rw [hplace]
          simp only [List.length_append, length_heading, LittleEndian.length_encode, sizeClass]
          omega

theorem exists_split_of_placedChildren {start place : Nat} {found : Item} : ∀ {items : List Item},
    ValidAll items → (place, found) ∈ placedChildren start items →
      ∃ before after, items.flatMap wire = before ++ found.wire ++ after ∧
        place = start + before.length ∧ found.Valid ∧ ExpectsAmong items.length before
  | [], _, hfound => nomatch hfound
  | item :: rest, hvalid, hfound => by
    rcases List.mem_append.mp hfound with hitem | hrest
    · obtain ⟨before, after, hwire, hplace, hfound, hexpects⟩ :=
        exists_split_of_placed hvalid.1 hitem
      refine ⟨before, after ++ rest.flatMap wire, ?_, hplace, hfound, hexpects.first rest.length⟩
      rw [List.flatMap_cons, hwire, List.append_assoc]
    · obtain ⟨before, after, hwire, hplace, hfound, hexpects⟩ :=
        exists_split_of_placedChildren hvalid.2 hrest
      refine ⟨item.wire ++ before, after, ?_, ?_, hfound, hexpects.next hvalid.1⟩
      · rw [List.flatMap_cons, hwire]
        simp only [List.append_assoc]
      · rw [hplace, List.length_append, length_wire]
        omega

end

end Item

end BinaryPack
