import BinaryPack.Proofs.Datum.Reordered
import BinaryPack.Proofs.Datum.Values
import BinaryPack.Proofs.Value.Members

/-! # Reading regardless of the order of members

  A value may come with the members of its maps in any order. The order has no say in what
  it can be read as, and none in what is read but for the order of entries
  (`Schema.read_of_reordered`): a structure asks for its fields by name, and what it finds
  is put in the order of their declaration.

  The proof follows the value. Each part in its other order reads alike (`ReadsAlike`), and
  so does every consumer that is given such parts.
-/

namespace BinaryPack

namespace Schema

variable {ν : Type}

/-! ### Readers that read alike -/

/-- What one reader reads, the other reads too, up to the order of entries. -/
def ReadsAlike (reader reader' : Reader ν) : Prop :=
  ∀ request x, reader.read request = .ok x → ∃ x', reader'.read request = .ok x' ∧ x.Reordered x'

theorem ReadsAlike.refl (reader : Reader ν) : ReadsAlike reader reader :=
  fun _ x h => ⟨x, h, .refl x⟩

theorem ReadsAlike.trans {reader reader' reader'' : Reader ν} (h : ReadsAlike reader reader')
    (h' : ReadsAlike reader' reader'') : ReadsAlike reader reader'' := by
  intro request x hread
  obtain ⟨x', hread', hx'⟩ := h request x hread
  obtain ⟨x'', hread'', hx''⟩ := h' request x' hread'
  exact ⟨x'', hread'', hx'.trans hx''⟩

/-! ### Consumers of alike parts -/

theorem ReadEach.of_alike {schemas : List (Schema ν)} {readers readers' : List (Reader ν)}
    {data : List Datum} (h : ReadEach schemas readers data)
    (halike : List.Forall₂ ReadsAlike readers readers') :
    ∃ data', ReadEach schemas readers' data' ∧ Datum.ReorderedItems data data' := by
  induction h generalizing readers' with
  | nil =>
    cases halike
    exact ⟨[], .nil, .nil⟩
  | cons hread _ ih =>
    cases halike with
    | cons hfirst hrest =>
      obtain ⟨x', hx', hreordered⟩ := hfirst _ _ hread
      obtain ⟨data', hdata', hreordered'⟩ := ih hrest
      exact ⟨x' :: data', .cons hx' hdata', .cons hreordered hreordered'⟩

theorem ReadFields.of_alike {fields : List (Field ν)} {readers readers' : List (Reader ν)}
    {data : List (String × Datum)} (h : ReadFields fields readers data)
    (halike : List.Forall₂ ReadsAlike readers readers') :
    ∃ data', ReadFields fields readers' data' ∧ Datum.ReorderedFields data data' := by
  induction h generalizing readers' with
  | nil =>
    cases halike
    exact ⟨[], .nil, .nil⟩
  | cons hread _ ih =>
    cases halike with
    | cons hfirst hrest =>
      obtain ⟨x', hx', hreordered⟩ := hfirst _ _ hread
      obtain ⟨data', hdata', hreordered'⟩ := ih hrest
      exact ⟨(_, x') :: data', .cons hx' hdata', .cons hreordered hreordered'⟩
  | default hdefault _ ih =>
    obtain ⟨data', hdata', hreordered'⟩ := ih halike
    cases halike
    exact ⟨_, .default hdefault hdata', .cons (.refl _) hreordered'⟩

theorem ReadByKey.of_alike {closed : Bool} {fields : List (Field ν)}
    {entries entries' : Members (Reader ν)} {read : Members Datum}
    (halike : Members.Alike ReadsAlike entries entries')
    (h : ReadByKey closed fields entries read) :
    ∃ read', ReadByKey closed fields entries' read' ∧
      Members.Alike Datum.Reordered read read' := by
  induction halike generalizing read with
  | nil =>
    cases h
    exact ⟨[], .nil, .nil⟩
  | cons hfirst _ ih =>
    cases h with
    | field hfield hread hrest =>
      obtain ⟨x', hx', hreordered⟩ := hfirst _ _ hread
      obtain ⟨read', hread', hreordered'⟩ := ih hrest
      exact ⟨_, .field hfield hx' hread', .cons hreordered hreordered'⟩
    | unknown hopen hfield hread hrest =>
      obtain ⟨x', hx', -⟩ := hfirst _ _ hread
      obtain ⟨read', hread', hreordered'⟩ := ih hrest
      exact ⟨read', .unknown hopen hfield hx' hread', hreordered'⟩
  | swap entry entry' entries =>
    -- Only two fields that are both known come out in the other order.
    have hsame := Members.Alike.refl Datum.Reordered.refl
    cases h with
    | field hfield hread hrest =>
      cases hrest with
      | field hfield' hread' hrest =>
        exact ⟨_, .field hfield' hread' (.field hfield hread hrest), .swap _ _ _⟩
      | unknown hopen hfield' hread' hrest =>
        exact ⟨_, .unknown hopen hfield' hread' (.field hfield hread hrest), hsame _⟩
    | unknown hopen hfield hread hrest =>
      cases hrest with
      | field hfield' hread' hrest =>
        exact ⟨_, .field hfield' hread' (.unknown hopen hfield hread hrest), hsame _⟩
      | unknown hopen' hfield' hread' hrest =>
        exact ⟨_, .unknown hopen' hfield' hread' (.unknown hopen hfield hread hrest), hsame _⟩
  | trans _ _ ih ih' =>
    obtain ⟨read', hread', halike⟩ := ih h
    obtain ⟨read'', hread'', halike'⟩ := ih' hread'
    exact ⟨read'', hread'', halike.trans halike'⟩

/-- What is read by key is read from some of the entries. -/
theorem ReadByKey.keys_sublist {closed : Bool} {fields : List (Field ν)}
    {entries : Members (Reader ν)} {read : Members Datum}
    (h : ReadByKey closed fields entries read) : read.keys.Sublist entries.keys := by
  induction h with
  | nil => exact .slnil
  | @field key _ _ field _ _ hfield _ _ ih =>
    have hname : field.name = key := by simpa using List.find?_some hfield
    rw [← hname]
    exact ih.cons_cons _
  | unknown _ _ _ _ ih => exact ih.cons _

theorem completes_of_alike {fields : List (Field ν)} {found found' : Members Datum}
    {data : List (String × Datum)} (halike : Members.Alike Datum.Reordered found found')
    (hdistinct : found.Distinct) (h : List.Forall₂ (Completes found) fields data) :
    ∃ data', List.Forall₂ (Completes found') fields data' ∧ Datum.ReorderedFields data data' := by
  induction h with
  | nil => exact ⟨[], .nil, .nil⟩
  | @cons field entry fields data hfirst _ ih =>
    obtain ⟨data', hdata', hreordered'⟩ := ih
    obtain ⟨name, x⟩ := entry
    obtain ⟨hname, hfound | ⟨hmissing, habsent⟩⟩ := hfirst
    · obtain ⟨x', hx', hreordered⟩ :=
        halike.find?_eq_some Datum.Reordered.refl Datum.Reordered.trans hdistinct hfound
      exact ⟨(name, x') :: data', .cons ⟨hname, .inl hx'⟩ hdata', .cons hreordered hreordered'⟩
    · have hmissing' := halike.find?_eq_none hmissing
      exact ⟨(name, x) :: data', .cons ⟨hname, .inr ⟨hmissing', habsent⟩⟩ hdata',
        .cons (.refl x) hreordered'⟩

theorem forall₂_readEntry_of_alike {declarations : ν → Declaration ν} {keySchema : KeySchema ν}
    {heldSchema : Schema ν} {entries entries' : Members (Reader ν)} {steps : List (Step Datum)}
    (halike : Members.Alike ReadsAlike entries entries')
    (h : List.Forall₂ (ReadEntry declarations keySchema heldSchema) entries steps) :
    ∃ steps', List.Forall₂ (ReadEntry declarations keySchema heldSchema) entries' steps' ∧
      Datum.ReorderedSteps steps steps' := by
  induction halike generalizing steps with
  | nil =>
    cases h
    exact ⟨[], .nil, .nil⟩
  | cons hheld _ ih =>
    cases h with
    | cons hfirst hrest =>
      obtain ⟨key, x, hkey, hx, rfl⟩ := hfirst
      obtain ⟨x', hx', hreordered⟩ := hheld _ _ hx
      obtain ⟨steps', hsteps', hreordered'⟩ := ih hrest
      exact ⟨_, .cons ⟨key, x', hkey, hx', rfl⟩ hsteps', .entry hreordered hreordered'⟩
  | swap entry entry' entries =>
    cases h with
    | cons hfirst hrest =>
      cases hrest with
      | cons hsecond hrest => exact ⟨_, .cons hsecond (.cons hfirst hrest), .swap _ _ _⟩
  | trans _ _ ih ih' =>
    obtain ⟨steps', hsteps', hreordered⟩ := ih h
    obtain ⟨steps'', hsteps'', hreordered'⟩ := ih' hsteps'
    exact ⟨steps'', hsteps'', hreordered.trans hreordered'⟩

/-! ### Visits of alike parts -/

theorem visitArray_positional_of_alike {expected : String} {finish : List Datum → Datum}
    {schemas : List (Schema ν)} {readers readers' : List (Reader ν)} {x : Datum}
    (halike : List.Forall₂ ReadsAlike readers readers')
    (hfinish : ∀ {data data'}, Datum.ReorderedItems data data' →
      (finish data).Reordered (finish data'))
    (h : visitArray readers (positional expected finish schemas [] _) = .ok x) :
    ∃ x', visitArray readers' (positional expected finish schemas [] _) = .ok x' ∧
      x.Reordered x' := by
  obtain ⟨data, hdata, rfl⟩ := visitArray_positional_eq_ok_iff.mp h
  obtain ⟨data', hdata', hreordered⟩ := hdata.of_alike halike
  exact ⟨_, visitArray_positional_eq_ok_iff.mpr ⟨data', hdata', rfl⟩, hfinish hreordered⟩

theorem visitMap_keyedFields_of_alike {closed : Bool} {fields : List (Field ν)}
    {finish : List (String × Datum) → Datum} {entries entries' : Members (Reader ν)} {x : Datum}
    (halike : Members.Alike ReadsAlike entries entries') (hdistinct : entries.Distinct)
    (hfinish : ∀ {data data'}, Datum.ReorderedFields data data' →
      (finish data).Reordered (finish data'))
    (h : visitMap entries (keyedFields closed fields finish _) = .ok x) :
    ∃ x', visitMap entries' (keyedFields closed fields finish _) = .ok x' ∧ x.Reordered x' := by
  obtain ⟨read, data, hread, hdata, rfl⟩ := visitMap_keyedFields_eq_ok_iff.mp h
  obtain ⟨read', hread', hfound⟩ := hread.of_alike halike
  -- What was found in either order overwrites nothing, so looking it up is enough.
  have hone : read.Distinct := hdistinct.sublist hread.keys_sublist
  have hone' : read'.Distinct := hfound.distinct hone
  rw [Members.ofList_of_distinct hone] at hdata
  obtain ⟨data', hdata', hreordered⟩ := completes_of_alike hfound hone hdata
  rw [← Members.ofList_of_distinct hone'] at hdata'
  exact ⟨_, visitMap_keyedFields_eq_ok_iff.mpr ⟨read', data', hread', hdata', rfl⟩,
    hfinish hreordered⟩

/-! ### Values in another order -/

/-- Values of one kind whose parts read alike. -/
inductive PartsAlike : Value → Visit (Reader ν) → Value → Visit (Reader ν) → Prop where
  | scalar (s : Scalar) :
    PartsAlike (.scalar s) (.primitive s.shown) (.scalar s) (.primitive s.shown)
  | array {items items' : List Value} {readers readers' : List (Reader ν)}
    (h : List.Forall₂ ReadsAlike readers readers') :
    PartsAlike (.array items) (.items readers) (.array items') (.items readers')
  | map {members members' : Members Value} {readers readers' : Members (Reader ν)}
    (h : Members.Alike ReadsAlike readers readers') (hdistinct : readers.Distinct) :
    PartsAlike (.map members) (.members readers) (.map members') (.members readers')

variable {v v' : Value} {visit visit' : Visit (Reader ν)}

theorem answerDeclared_of_alike (halike : PartsAlike v visit v' visit')
    {declaration : Declaration ν} {x : Datum} (h : answerDeclared v visit declaration = .ok x) :
    ∃ x', answerDeclared v' visit' declaration = .ok x' ∧ x.Reordered x' := by
  cases declaration with
  | struct type closed fields =>
    cases halike with
    | scalar _ => cases h
    | array halike =>
      obtain ⟨data, hdata, rfl⟩ := visitArray_positionalFields_eq_ok_iff.mp h
      obtain ⟨data', hdata', hreordered⟩ := hdata.of_alike halike
      exact ⟨_, visitArray_positionalFields_eq_ok_iff.mpr ⟨data', hdata', rfl⟩, .struct hreordered⟩
    | map halike hdistinct => exact visitMap_keyedFields_of_alike halike hdistinct .struct h
  | enumeration type variants =>
    cases halike with
    | scalar _ => exact ⟨x, h, .refl x⟩
    | array _ => cases h
    | map halike _ =>
      obtain ⟨variant, reader, content, hreaders, hcontent, hread⟩ :=
        answerDeclared_map_eq_ok_iff.mp h
      obtain ⟨reader', hreaders', hreader⟩ := halike.eq_singleton ReadsAlike.trans hreaders
      obtain ⟨x', hread', hreordered⟩ := hreader _ _ hread
      exact ⟨x', answerDeclared_map_eq_ok_iff.mpr
        ⟨variant, reader', content, hreaders', hcontent, hread'⟩, hreordered⟩

section values
variable (declarations : ν → Declaration ν)

mutual

/-- Any value can be passed over. -/
theorem read_ignored : ∀ v : Value, read declarations .ignored v = .ok (.primitive .unit)
  | .scalar _ => rfl
  | .array items => by
    rw [read_eq_answer, visitOf, answer, skipElements, visitArray_each, mapM_read_ignored items]
    rfl
  | .map members => by
    rw [read_eq_answer, visitOf, answer, skipEntries, visitMap_each, foldlM_skipHeld members]
    rfl

theorem mapM_read_ignored : ∀ items : List Value,
    (itemReaders declarations items).mapM (fun reader => reader.read (.whole .ignored)) =
      .ok (items.map fun _ => .primitive .unit)
  | [] => rfl
  | item :: rest => by
    have hitem := read_ignored item
    rw [read] at hitem
    rw [itemReaders, List.mapM_cons, hitem, mapM_read_ignored rest]
    rfl

theorem foldlM_skipHeld : ∀ members : List (String × Value),
    (memberReaders declarations members).foldlM (MapPull.putEntry .ok skipHeld) () = .ok ()
  | [] => rfl
  | (key, held) :: rest => by
    have hheld := read_ignored held
    rw [read] at hheld
    rw [memberReaders, List.foldlM_cons, MapPull.putEntry]
    simp only [skipHeld, hheld]
    exact foldlM_skipHeld rest

end

/-- A value whose parts read alike reads alike as any schema. -/
theorem answer_of_alike (hreordered : v.Reordered v') (hdistinct : v.Distinct)
    (hvisit : visit = visitOf declarations v) (hvisit' : visit' = visitOf declarations v')
    (halike : PartsAlike v visit v' visit') :
    ∀ {schema : Schema ν} {x : Datum}, answer declarations v visit schema = .ok x →
      ∃ x', answer declarations v' visit' schema = .ok x' ∧ x.Reordered x'
  | .bool, x, h | .integer _, x, h | .float32, x, h | .float64, x, h | .char, x, h | .string, x, h
  | .unit, x, h | .blob, x, h | .unitStruct _, x, h => by
    -- Only a scalar can be read so, and it has one order.
    cases halike with
    | scalar s => exact ⟨x, h, .refl x⟩
    | array _ => cases h
    | map _ _ => cases h
  | .ignored, x, h => by
    rw [hvisit, ← read_eq_answer, read_ignored] at h
    rw [hvisit', ← read_eq_answer, read_ignored]
    exact ⟨x, h, .refl x⟩
  | .value, x, h => by
    rw [hvisit, ← read_eq_answer, read_value declarations hdistinct] at h
    cases h
    rw [hvisit', ← read_eq_answer, read_value declarations (hreordered.distinct hdistinct)]
    exact ⟨_, rfl, hreordered.toDatum⟩
  | .option content, x, h => by
    have hnull : v'.isNull = v.isNull := by
      cases halike with
      | scalar _ => rfl
      | array _ => rfl
      | map _ _ => rfl
    rw [answer] at h ⊢
    rw [hnull]
    split at h
    · next hnull => exact ⟨x, by rw [if_pos hnull, h], .refl x⟩
    · next hnull =>
      obtain ⟨y, hy, rfl⟩ := map_eq_ok_iff.mp h
      obtain ⟨y', hy', hreordered'⟩ := answer_of_alike hreordered hdistinct hvisit hvisit' halike hy
      rw [if_neg hnull]
      exact ⟨_, map_eq_ok_iff.mpr ⟨y', hy', rfl⟩, .present hreordered'⟩
  | .newtypeStruct _ content, _, h => by
    obtain ⟨y, hy, rfl⟩ := map_eq_ok_iff.mp h
    obtain ⟨y', hy', hreordered'⟩ := answer_of_alike hreordered hdistinct hvisit hvisit' halike hy
    exact ⟨_, map_eq_ok_iff.mpr ⟨y', hy', rfl⟩, .newtypeStruct hreordered'⟩
  | .sequence item, _, h => by
    cases halike with
    | scalar _ => cases h
    | array halike =>
      obtain ⟨data, hdata, rfl⟩ := visitArray_collect_eq_ok_iff.mp h
      -- Both arrays have as many items, and so both are as many times one schema.
      rw [halike.length_eq] at hdata
      obtain ⟨data', hdata', hreordered'⟩ := hdata.of_alike halike
      exact ⟨_, visitArray_collect_eq_ok_iff.mpr ⟨data', hdata', rfl⟩, .seq hreordered'⟩
    | map _ _ => cases h
  | .array _ _, _, h | .tuple _, _, h => by
    cases halike with
    | scalar _ => cases h
    | array halike => exact visitArray_positional_of_alike halike .tuple h
    | map _ _ => cases h
  | .tupleStruct _ _, _, h => by
    cases halike with
    | scalar _ => cases h
    | array halike => exact visitArray_positional_of_alike halike .tupleStruct h
    | map _ _ => cases h
  | .map _ _, _, h => by
    cases halike with
    | scalar _ => cases h
    | array _ => cases h
    | map halike _ =>
      obtain ⟨steps, hsteps, rfl⟩ := visitMap_entries_eq_ok_iff.mp h
      obtain ⟨steps', hsteps', hreordered'⟩ := forall₂_readEntry_of_alike halike hsteps
      exact ⟨_, visitMap_entries_eq_ok_iff.mpr ⟨steps', hsteps', rfl⟩, .map hreordered'⟩
  | .declared _, _, h => answerDeclared_of_alike halike h

/-- A value whose parts read alike reads alike as the content of any variant. -/
theorem answerContent_of_alike (hreordered : v.Reordered v') (hdistinct : v.Distinct)
    (hvisit : visit = visitOf declarations v) (hvisit' : visit' = visitOf declarations v')
    (halike : PartsAlike v visit v' visit') {type variant : String} {content : Content ν}
    {x : Datum} (h : answerContent declarations v visit type variant content = .ok x) :
    ∃ x', answerContent declarations v' visit' type variant content = .ok x' ∧ x.Reordered x' := by
  cases content with
  | unit =>
    cases halike with
    | scalar _ => exact ⟨x, h, .refl x⟩
    | array _ => cases h
    | map _ _ => cases h
  | newtype content =>
    obtain ⟨y, hy, rfl⟩ := map_eq_ok_iff.mp h
    obtain ⟨y', hy', hreordered'⟩ :=
      answer_of_alike declarations hreordered hdistinct hvisit hvisit' halike hy
    exact ⟨_, map_eq_ok_iff.mpr ⟨y', hy', rfl⟩, .newtypeVariant hreordered'⟩
  | tuple schemas =>
    cases halike with
    | scalar _ => cases h
    | array halike => exact visitArray_positional_of_alike halike .tupleVariant h
    | map _ _ => cases h
  | struct fields =>
    cases halike with
    | scalar _ => cases h
    | array _ => cases h
    | map halike hone => exact visitMap_keyedFields_of_alike halike hone .structVariant h

theorem readsAlike_of_alike (hreordered : v.Reordered v') (hdistinct : v.Distinct)
    (halike : PartsAlike v (visitOf declarations v) v' (visitOf declarations v')) :
    ReadsAlike (reader declarations v) (reader declarations v') := by
  intro request x h
  rw [reader_eq_respond] at h ⊢
  cases request with
  | whole schema => exact answer_of_alike declarations hreordered hdistinct rfl rfl halike h
  | content type variant content =>
    exact answerContent_of_alike declarations hreordered hdistinct rfl rfl halike h

theorem distinct_memberReaders {members : Members Value} (h : members.Distinct) :
    (memberReaders declarations members).Distinct := by
  rwa [Members.Distinct, keys_memberReaders]

mutual

theorem readsAlike_reader : ∀ {v v' : Value}, v.Reordered v' → v.Distinct →
    ReadsAlike (reader declarations v) (reader declarations v')
  | _, _, .scalar s, _ => .refl _
  | _, _, .array h, hdistinct => by
    have hitems := readsAlike_itemReaders h hdistinct
    exact readsAlike_of_alike declarations (.array h) hdistinct (.array hitems)
  | _, _, .map h, hdistinct => by
    have hmembers := readsAlike_memberReaders h hdistinct.2
    have hone := distinct_memberReaders declarations hdistinct.1
    exact readsAlike_of_alike declarations (.map h) hdistinct (.map hmembers hone)

theorem readsAlike_itemReaders : ∀ {items items' : List Value},
    Value.ReorderedItems items items' → Value.DistinctItems items →
      List.Forall₂ ReadsAlike (itemReaders declarations items) (itemReaders declarations items')
  | _, _, .nil, _ => .nil
  | _, _, .cons h hrest, hdistinct =>
    .cons (readsAlike_reader h hdistinct.1) (readsAlike_itemReaders hrest hdistinct.2)

theorem readsAlike_memberReaders : ∀ {members members' : List (String × Value)},
    Value.ReorderedMembers members members' → Value.DistinctMembers members →
      Members.Alike ReadsAlike (memberReaders declarations members)
        (memberReaders declarations members')
  | _, _, .nil, _ => .nil
  | _, _, .cons h hrest, hdistinct =>
    .cons (readsAlike_reader h hdistinct.1) (readsAlike_memberReaders hrest hdistinct.2)
  | _, _, .swap _ _ _, _ => .swap _ _ _
  | _, _, .trans h h', hdistinct => by
    have hfirst := readsAlike_memberReaders h hdistinct
    have hsecond := readsAlike_memberReaders h' (h.distinct hdistinct)
    exact hfirst.trans hsecond

end

/-- **The order of members does not matter to reading.** What a value can be read as, it
    can be read as with the members of its maps in any other order, and what is read is
    the same up to the order of entries. -/
theorem read_of_reordered {schema : Schema ν} {x : Datum} (hreordered : v.Reordered v')
    (hdistinct : v.Distinct) (h : read declarations schema v = .ok x) :
    ∃ x', read declarations schema v' = .ok x' ∧ x.Reordered x' :=
  readsAlike_reader declarations hreordered hdistinct (.whole schema) x h

end values

end Schema

end BinaryPack
