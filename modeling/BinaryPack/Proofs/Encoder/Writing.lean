import BinaryPack.Proofs.Encoder.Appending
import BinaryPack.Proofs.Wire.Payload

/-! # What an encoder writes

  A value is written when its keys, its lengths and its counts fit their fields
  and its nesting is within the limit, and what is written is its layout
  (`Write.writes_item`). This is one induction over the value, with one lemma for
  each kind of item. From it follows what an encoder makes of a map
  (`Encoder.marshalMap_eq_ok_iff`).
-/

namespace BinaryPack

/-! ### Names -/

/-- A key that fits the field of a name: with a terminator, or without one if none could
    be taken for it. -/
def KeyFits (key : String) : Prop :=
  (Utf8.encode key).length < ItemName.maxLength ∨
    (Utf8.encode key).length = ItemName.maxLength ∧ (Utf8.encode key).getLast? ≠ some 0

instance : DecidablePred KeyFits := fun key =>
  inferInstanceAs (Decidable ((Utf8.encode key).length < ItemName.maxLength ∨
    (Utf8.encode key).length = ItemName.maxLength ∧ (Utf8.encode key).getLast? ≠ some 0))

namespace ItemName

/-- Whether a name can be written. -/
def Fits : ItemName → Prop
  | .unnamed => True
  | .key text => KeyFits text

/-- The bytes that a name is laid out as. -/
def layout : ItemName → Bytes
  | .unnamed => []
  | .key text => Layout.keyName text

theorem bytes_of_fits {name : ItemName} (h : name.Fits) : name.bytes = .ok name.layout := by
  cases name with
  | unnamed => rfl
  | key text =>
    rcases h with hlen | ⟨hlen, hlast⟩
    · have hlen' : (Utf8.encode text).length < 255 := hlen
      simp [bytes, layout, Layout.keyName, maxLength, hlen']
    · have hlen' : (Utf8.encode text).length = 255 := hlen
      simp [bytes, layout, Layout.keyName, maxLength, hlen', hlast]

theorem bytes_of_not_fits {name : ItemName} (h : ¬ name.Fits) :
    ∃ cause, name.bytes = .error cause := by
  cases name with
  | unnamed => exact absurd trivial h
  | key text =>
    simp only [Fits, KeyFits, not_or, not_and] at h
    obtain ⟨hlen, hlast⟩ := h
    unfold bytes
    dsimp only
    rw [if_neg hlen]
    split
    · next heq =>
      rw [if_pos (Decidable.not_not.mp (hlast heq))]
      exact ⟨_, rfl⟩
    · exact ⟨_, rfl⟩

theorem length_layout_lt {name : ItemName} (h : name.Fits) : name.layout.length < 256 := by
  cases name with
  | unnamed => exact Nat.zero_lt_succ _
  | key text =>
    rw [layout, Layout.keyName]
    split
    · simp only [List.length_append, List.length_singleton]
      omega
    · rcases h with hlen | ⟨hlen, -⟩ <;> simp only [maxLength] at hlen <;> omega

end ItemName

namespace Layout

/-! ### Layouts of scalars -/

theorem scalar_of_width_eq_zero (name : Bytes) {s : Scalar} (h : s.type.width = 0) :
    scalar name s = sized (.scalar s.type) name s.payload := by
  cases s with
  | string text => rfl
  | raw bytes => rfl
  | _ => cases h

theorem scalar_of_width_ne_zero (name : Bytes) {s : Scalar} (h : s.type.width ≠ 0) :
    scalar name s = [s.type.tag, UInt8.ofNat name.length] ++ name ++ s.payload := by
  cases s with
  | string text => exact absurd rfl h
  | raw bytes => exact absurd rfl h
  | _ => rfl

end Layout

namespace Write

variable {w : Write Unit} {Fits : Prop} {bytes : Bytes}

/-! ### Containers -/

/-- Opens a container, writes what is in it, and closes it. -/
def container (type : ItemType) (name : ItemName) (count depth : Nat) (body : Write Unit) :
    Write Unit := do
  let start ← openContainer type name count depth
  body
  closeContainer start

theorem run_openContainer (type : ItemType) {name : ItemName} {count depth : Nat}
    (hdepth : depth ≠ 0) (hcount : count ≤ maxLongLength) (hname : name.Fits) (buffer : Buffer) :
    (openContainer type name count depth).run.run buffer
      = (.ok buffer.size, buffer.openContainer type.tag name.layout count) := by
  unfold openContainer
  rw [if_neg hdepth, if_neg (Nat.not_lt.mpr hcount), ItemName.bytes_of_fits hname]
  rfl

theorem run_openContainer_error (type : ItemType) {name : ItemName} {count depth : Nat}
    (h : ¬ (depth ≠ 0 ∧ count ≤ maxLongLength ∧ name.Fits)) :
    ∃ cause, ∀ buffer, (openContainer type name count depth).run.run buffer
      = (.error cause, buffer) := by
  unfold openContainer
  by_cases hdepth : depth = 0
  · exact ⟨.tooDeep, fun buffer => by rw [if_pos hdepth]; rfl⟩
  · rw [if_neg hdepth]
    by_cases hcount : maxLongLength < count
    · exact ⟨.tooManyElements count, fun buffer => by rw [if_pos hcount]; rfl⟩
    · rw [if_neg hcount]
      obtain ⟨cause, hcause⟩ := ItemName.bytes_of_not_fits
        fun hname => h ⟨hdepth, Nat.not_lt.mp hcount, hname⟩
      exact ⟨cause, fun buffer => by rw [hcause]; rfl⟩

theorem run_closeContainer (start : Nat) (buffer : Buffer) :
    (closeContainer start).run.run buffer =
      if maxLongLength < buffer.payloadLength start then
        (.error (.payloadTooLong (buffer.payloadLength start)), buffer)
      else (.ok (), buffer.closeContainer start (buffer.payloadLength start)) := by
  unfold closeContainer
  rw [run_bind, run_get]
  dsimp only
  split <;> rfl

/-- The bytes that opening a container puts into the buffer. -/
def opening (type : ItemType) (name : Bytes) (count : Nat) : Bytes :=
  [type.tag, UInt8.ofNat name.length] ++ LittleEndian.encode 4 0 ++ name
    ++ LittleEndian.encode 4 count

theorem append_opened (buffer : Buffer) (type : ItemType) (name : Bytes) (count : Nat)
    (body : Bytes) : (buffer.openContainer type.tag name count).append body
      = buffer.append (opening type name count ++ body) :=
  Buffer.append_append _ _ _

section container

variable {type : ItemType} {name : ItemName} {count depth : Nat}

/-- A container whose body is written is closed, unless its payload is too long. -/
theorem run_container (hdepth : depth ≠ 0) (hcount : count ≤ maxLongLength)
    (hname : name.Fits) (h : Appends w (.ok ()) bytes) (buffer : Buffer) :
    (container type name count depth w).run.run buffer =
      if maxLongLength < (LittleEndian.encode 4 count ++ bytes).length then
        (.error (.payloadTooLong (LittleEndian.encode 4 count ++ bytes).length),
          buffer.append (opening type name.layout count ++ bytes))
      else (.ok (), buffer.append
        (Layout.sized type name.layout (LittleEndian.encode 4 count ++ bytes))) := by
  have hpayload := Buffer.payloadLength_opened buffer type name.layout count bytes
    (ItemName.length_layout_lt hname)
  rw [container, run_bind, run_openContainer type hdepth hcount hname]
  dsimp only
  rw [run_bind, h]
  dsimp only
  rw [run_closeContainer, hpayload, Buffer.closeContainer_opened, append_opened]

theorem appends_container_error (hdepth : depth ≠ 0) (hcount : count ≤ maxLongLength)
    (hname : name.Fits) {cause : MarshalError} (h : Appends w (.error cause) bytes) :
    Appends (container type name count depth w) (.error cause)
      (opening type name.layout count ++ bytes) := by
  intro buffer
  rw [container, run_bind, run_openContainer type hdepth hcount hname]
  dsimp only
  rw [run_bind, h]
  dsimp only
  rw [append_opened]

/-- A container is written when it may be opened, what is in it is written, and its
    payload is not too long. -/
theorem writes_container (h : Writes w Fits bytes) :
    Writes (container type name count depth w)
      ((depth ≠ 0 ∧ count ≤ maxLongLength ∧ name.Fits) ∧ Fits ∧
        (LittleEndian.encode 4 count ++ bytes).length ≤ maxLongLength)
      (Layout.sized type name.layout (LittleEndian.encode 4 count ++ bytes)) := by
  -- What is checked on opening comes first, and what is checked on closing comes last.
  by_cases hopen : depth ≠ 0 ∧ count ≤ maxLongLength ∧ name.Fits
  · obtain ⟨hdepth, hcount, hname⟩ := id hopen
    rcases h.cases with ⟨hfits, happends⟩ | ⟨hfits, cause, written, happends⟩
    · have hrun : ∀ buffer, (container type name count depth w).run.run buffer = _ :=
        run_container hdepth hcount hname happends
      by_cases hlen : maxLongLength < (LittleEndian.encode 4 count ++ bytes).length
      · simp only [if_pos hlen] at hrun
        exact writes_of_error hrun fun hall => Nat.not_le.mpr hlen hall.2.2
      · simp only [if_neg hlen] at hrun
        exact writes_of_appends hrun ⟨hopen, hfits, Nat.not_lt.mp hlen⟩
    · exact writes_of_error (appends_container_error hdepth hcount hname happends)
        fun hall => hfits hall.2.1
  · obtain ⟨cause, hrun⟩ := run_openContainer_error type hopen
    have happends : Appends (container type name count depth w) (.error cause) [] := by
      intro buffer
      rw [container, run_bind, hrun]
      dsimp only
      rw [Buffer.append_nil]
    exact writes_of_error happends fun hall => hopen hall.1

end container

/-! ### Scalars -/

theorem appends_put (bytes : Bytes) : Appends (put bytes) (.ok ()) bytes := fun _ => rfl

/-- A write that starts with the bytes of a name needs a name that fits. -/
theorem writes_named {name : ItemName} {f : Bytes → Write Unit}
    (h : Writes (f name.layout) Fits bytes) :
    Writes (do let n ← name.bytes; f n) (name.Fits ∧ Fits) bytes := by
  by_cases hname : name.Fits
  · have hrun : ∀ buffer, (do let n ← name.bytes; f n : Write Unit).run.run buffer
        = (f name.layout).run.run buffer := by
      intro buffer
      rw [ItemName.bytes_of_fits hname]
      rfl
    rcases h.cases with ⟨hfits, happends⟩ | ⟨hfits, cause, written, happends⟩
    · exact writes_of_appends (fun buffer => by rw [hrun, happends]) ⟨hname, hfits⟩
    · have happends' : Appends (do let n ← name.bytes; f n) (.error cause) written :=
        fun buffer => by rw [hrun, happends]
      exact writes_of_error happends' fun hall => hfits hall.2
  · obtain ⟨cause, hcause⟩ := ItemName.bytes_of_not_fits hname
    have happends : Appends (do let n ← name.bytes; f n) (.error cause) [] := by
      intro buffer
      rw [hcause, Buffer.append_nil]
      rfl
    exact writes_of_error happends fun hall => hname hall.1

theorem writes_fixedItem (type : ScalarType) (name : ItemName) (payload : Bytes) :
    Writes (fixedItem type name payload) (name.Fits ∧ True)
      ([type.tag, UInt8.ofNat name.layout.length] ++ name.layout ++ payload) :=
  writes_named (writes_of_appends (appends_put _) trivial)

theorem writes_variableItem (type : ScalarType) (name : ItemName) (payload : Bytes) :
    Writes (variableItem type name payload) (name.Fits ∧ payload.length ≤ maxLongLength)
      (Layout.sized (.scalar type) name.layout payload) := by
  unfold variableItem
  refine writes_named ?_
  dsimp only
  unfold Layout.sized
  by_cases hshort : payload.length ≤ maxShortLength
  · have hfits : payload.length ≤ maxLongLength := Nat.le_trans hshort (by decide)
    have hshort' : payload.length ≤ 255 := hshort
    rw [if_pos hshort, if_pos hshort']
    exact writes_of_appends ((appends_put _).bind (appends_put payload)) hfits
  · have hshort' : ¬ payload.length ≤ 255 := hshort
    rw [if_neg hshort, if_neg hshort']
    by_cases hlong : maxLongLength < payload.length
    · rw [if_pos hlong]
      have happends : Appends (throw (.payloadTooLong payload.length))
          (.error (.payloadTooLong payload.length)) [] := by
        intro buffer
        rw [run_throw, Buffer.append_nil]
      exact writes_of_error happends.bind_error (Nat.not_le.mpr hlong)
    · rw [if_neg hlong]
      exact writes_of_appends ((appends_put _).bind (appends_put payload)) (Nat.not_lt.mp hlong)

/-- A scalar is written when its name and its payload fit. -/
theorem writes_scalar (name : ItemName) (s : Scalar) :
    Writes (scalar name s) (name.Fits ∧ s.payload.length ≤ maxLongLength)
      (Layout.scalar name.layout s) := by
  unfold scalar
  rw [ScalarType.width_tag]
  by_cases hwidth : s.type.width = 0
  · rw [if_pos hwidth, Layout.scalar_of_width_eq_zero name.layout hwidth]
    exact writes_variableItem s.type name s.payload
  · rw [if_neg hwidth, Layout.scalar_of_width_ne_zero name.layout hwidth]
    -- No length is checked here, and none needs to be.
    have hlen : s.payload.length ≤ maxLongLength := by
      rw [Scalar.length_of_form (.own s) hwidth]
      cases s.type <;> decide
    simpa [hlen] using writes_fixedItem s.type name s.payload

end Write

namespace Value

/-! ### Values that can be written -/

mutual

/-- Every key in a value fits the field of a name. -/
def KeysFit : Value → Prop
  | .scalar _ => True
  | .array items => KeysFitItems items
  | .map members => KeysFitMembers members

/-- Every key in the items of an array fits. -/
def KeysFitItems : List Value → Prop
  | [] => True
  | item :: rest => KeysFit item ∧ KeysFitItems rest

/-- Every key of a map, and every key in what it holds, fits. -/
def KeysFitMembers : List (String × Value) → Prop
  | [] => True
  | (key, held) :: rest => KeyFits key ∧ KeysFit held ∧ KeysFitMembers rest

end

mutual

/-- Every payload length and every count in a value fits its field. -/
def LengthsFit : Value → Prop
  | .scalar s => s.payload.length ≤ maxLongLength
  | .array items =>
    items.length ≤ maxLongLength ∧ LengthsFitItems items ∧
      (LittleEndian.encode 4 items.length ++ Layout.elements items).length ≤ maxLongLength
  | .map members =>
    members.length ≤ maxLongLength ∧ LengthsFitMembers members ∧
      (LittleEndian.encode 4 members.length ++ Layout.namedElements members).length ≤ maxLongLength

/-- Every length and count in the items of an array fits. -/
def LengthsFitItems : List Value → Prop
  | [] => True
  | item :: rest => LengthsFit item ∧ LengthsFitItems rest

/-- Every length and count in what a map holds fits. -/
def LengthsFitMembers : List (String × Value) → Prop
  | [] => True
  | (_, held) :: rest => LengthsFit held ∧ LengthsFitMembers rest

end

mutual

def decidableKeysFit : ∀ v : Value, Decidable v.KeysFit
  | .scalar _ => isTrue trivial
  | .array items => decidableKeysFitItems items
  | .map members => decidableKeysFitMembers members

def decidableKeysFitItems : ∀ items : List Value, Decidable (KeysFitItems items)
  | [] => isTrue trivial
  | v :: rest => @instDecidableAnd _ _ (decidableKeysFit v) (decidableKeysFitItems rest)

def decidableKeysFitMembers : ∀ members : List (String × Value), Decidable (KeysFitMembers members)
  | [] => isTrue trivial
  | (key, v) :: rest =>
    @instDecidableAnd _ _ (inferInstanceAs (Decidable (KeyFits key)))
      (@instDecidableAnd _ _ (decidableKeysFit v) (decidableKeysFitMembers rest))

end

instance : DecidablePred KeysFit := decidableKeysFit

mutual

def decidableLengthsFit : ∀ v : Value, Decidable v.LengthsFit
  | .scalar s => inferInstanceAs (Decidable (s.payload.length ≤ maxLongLength))
  | .array items =>
    @instDecidableAnd _ _ inferInstance
      (@instDecidableAnd _ _ (decidableLengthsFitItems items) inferInstance)
  | .map members =>
    @instDecidableAnd _ _ inferInstance
      (@instDecidableAnd _ _ (decidableLengthsFitMembers members) inferInstance)

def decidableLengthsFitItems : ∀ items : List Value, Decidable (LengthsFitItems items)
  | [] => isTrue trivial
  | v :: rest => @instDecidableAnd _ _ (decidableLengthsFit v) (decidableLengthsFitItems rest)

def decidableLengthsFitMembers :
    ∀ members : List (String × Value), Decidable (LengthsFitMembers members)
  | [] => isTrue trivial
  | (_, v) :: rest =>
    @instDecidableAnd _ _ (decidableLengthsFit v) (decidableLengthsFitMembers rest)

end

instance : DecidablePred LengthsFit := decidableLengthsFit

end Value

namespace Write

/-! ### Values -/

/-- The checks made around a container and inside it, sorted by what they check. -/
theorem fits_container_iff {NameFits KeysFit LengthsFit : Prop} {depth count nesting length : Nat} :
    ((depth ≠ 0 ∧ count ≤ maxLongLength ∧ NameFits) ∧
        (KeysFit ∧ LengthsFit ∧ nesting ≤ depth - 1) ∧ length ≤ maxLongLength) ↔
      NameFits ∧ KeysFit ∧ (count ≤ maxLongLength ∧ LengthsFit ∧ length ≤ maxLongLength) ∧
        nesting + 1 ≤ depth := by
  constructor
  · intro h
    obtain ⟨⟨hdepth, hcount, hname⟩, ⟨hkeys, hlengths, hnesting⟩, hlength⟩ := h
    exact ⟨hname, hkeys, ⟨hcount, hlengths, hlength⟩, by omega⟩
  · intro h
    obtain ⟨hname, hkeys, ⟨hcount, hlengths, hlength⟩, hnesting⟩ := h
    exact ⟨⟨by omega, hcount, hname⟩, ⟨hkeys, hlengths, by omega⟩, hlength⟩

open Value

mutual

/-- A value is written when its name, its keys and its lengths fit and its nesting is
    within the limit. What is written is its layout. -/
theorem writes_item (name : ItemName) : ∀ (v : Value) (depth : Nat),
    Writes (item name v depth)
      (name.Fits ∧ v.KeysFit ∧ v.LengthsFit ∧ v.nesting ≤ depth) (Layout.item name.layout v)
  | .scalar s, depth => by
    refine (writes_scalar name s).congr ?_
    simp [KeysFit, LengthsFit, nesting]
  | .array items, depth => by
    exact (writes_container (writes_elements items (depth - 1))).congr fits_container_iff
  | .map members, depth => by
    exact (writes_container (writes_namedElements members (depth - 1))).congr fits_container_iff

theorem writes_elements : ∀ (items : List Value) (depth : Nat),
    Writes (elements items depth)
      (KeysFitItems items ∧ LengthsFitItems items ∧ nestingOfItems items ≤ depth)
      (Layout.elements items)
  | [], _ =>
    writes_of_appends appends_pure (by simp [KeysFitItems, LengthsFitItems, nestingOfItems])
  | v :: rest, depth => by
    refine ((writes_item .unnamed v depth).bind (writes_elements rest depth)).congr ?_
    simp only [KeysFitItems, LengthsFitItems, nestingOfItems, Nat.max_le, ItemName.Fits]
    constructor
    · intro h
      obtain ⟨⟨-, hkeys, hlengths, hnesting⟩, hkeys', hlengths', hnesting'⟩ := h
      exact ⟨⟨hkeys, hkeys'⟩, ⟨hlengths, hlengths'⟩, hnesting, hnesting'⟩
    · intro h
      obtain ⟨⟨hkeys, hkeys'⟩, ⟨hlengths, hlengths'⟩, hnesting, hnesting'⟩ := h
      exact ⟨⟨trivial, hkeys, hlengths, hnesting⟩, hkeys', hlengths', hnesting'⟩

theorem writes_namedElements : ∀ (members : List (String × Value)) (depth : Nat),
    Writes (namedElements members depth)
      (KeysFitMembers members ∧ LengthsFitMembers members ∧ nestingOfMembers members ≤ depth)
      (Layout.namedElements members)
  | [], _ =>
    writes_of_appends appends_pure (by simp [KeysFitMembers, LengthsFitMembers, nestingOfMembers])
  | (key, v) :: rest, depth => by
    refine ((writes_item (.key key) v depth).bind (writes_namedElements rest depth)).congr ?_
    simp only [KeysFitMembers, LengthsFitMembers, nestingOfMembers, Nat.max_le, ItemName.Fits]
    constructor
    · intro h
      obtain ⟨⟨hkey, hkeys, hlengths, hnesting⟩, hkeys', hlengths', hnesting'⟩ := h
      exact ⟨⟨hkey, hkeys, hkeys'⟩, ⟨hlengths, hlengths'⟩, hnesting, hnesting'⟩
    · intro h
      obtain ⟨⟨hkey, hkeys, hkeys'⟩, ⟨hlengths, hlengths'⟩, hnesting, hnesting'⟩ := h
      exact ⟨⟨hkey, hkeys, hlengths, hnesting⟩, hkeys', hlengths', hnesting'⟩

end

end Write

namespace Encoder

/-! ### Packs -/

/-- An encoder can write a map whose keys, lengths and counts fit their fields and which
    is nested within the limit. -/
abbrev CanWrite (e : Encoder) (members : Members Value) : Prop :=
  Value.KeysFit (.map members) ∧ Value.LengthsFit (.map members) ∧
    Value.nesting (.map members) ≤ e.maxDepth

/-- Appending a map does one of two things, and the same to every buffer: it puts the
    layout at the end, or it changes nothing. What a failed write has left in the buffer
    is cut off again. -/
theorem appendRoot_cases (e : Encoder) (members : Members Value) :
    e.CanWrite members ∧ (∀ buffer, e.appendRoot buffer members
        = (⟨.ok (), [.marshalled members.layout.length]⟩, buffer.append members.layout)) ∨
      ¬ e.CanWrite members ∧ ∃ cause, ∀ buffer, e.appendRoot buffer members
        = (⟨.error (.marshal cause), [.marshalFailed (.marshal cause)]⟩, buffer) := by
  rcases (Write.writes_item .unnamed (.map members) e.maxDepth).cases with
    ⟨⟨-, hfits⟩, happends⟩ | ⟨hfits, cause, written, happends⟩
  · refine .inl ⟨hfits, fun buffer => ?_⟩
    have hsize : (buffer.append members.layout).size - buffer.size = members.layout.length := by
      rw [Buffer.size_append, Nat.add_sub_cancel_left]
    rw [appendRoot, happends buffer]
    dsimp only
    rw [← hsize]
    rfl
  · refine .inr ⟨fun hcan => hfits ⟨trivial, hcan⟩, cause, fun buffer => ?_⟩
    rw [appendRoot, happends buffer]
    dsimp only
    rw [Buffer.truncate_append]

/-- A map is written, and its pack is then its layout, or it is refused. -/
theorem marshalMap_cases (e : Encoder) (members : Members Value) :
    e.CanWrite members ∧ (∃ pack, (e.marshalMap members).result = .ok pack ∧
        pack.toList = members.layout) ∨
      ¬ e.CanWrite members ∧
        ∃ cause, (e.marshalMap members).result = .error (.marshal cause) := by
  unfold marshalMap
  rcases e.appendRoot_cases members with ⟨hcan, happends⟩ | ⟨hcan, cause, happends⟩
  · left
    rw [happends]
    refine ⟨hcan, Buffer.append #[] members.layout, rfl, ?_⟩
    -- The buffer was empty, so the pack is what was appended and no more.
    rw [Buffer.toList_append, List.nil_append]
  · right
    rw [happends]
    exact ⟨hcan, cause, rfl⟩

/-- A map is written when it may be, and its pack is then its layout. -/
theorem marshalMap_eq_ok_iff (e : Encoder) (members : Members Value) (buffer : Buffer) :
    (e.marshalMap members).result = .ok buffer ↔
      e.CanWrite members ∧ buffer.toList = members.layout := by
  rcases e.marshalMap_cases members with ⟨hcan, pack, hpack, hlayout⟩ | ⟨hcan, cause, herror⟩
  · rw [hpack]
    constructor
    · intro h
      cases h
      exact ⟨hcan, hlayout⟩
    · intro h
      have hbuffer : buffer = pack := Array.ext' (h.2.trans hlayout.symm)
      rw [hbuffer]
  · rw [herror]
    constructor
    · intro h
      cases h
    · intro h
      exact absurd h.1 hcan

end Encoder

end BinaryPack
