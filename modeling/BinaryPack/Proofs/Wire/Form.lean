import BinaryPack.Item.Wire
import BinaryPack.Proofs.Wire.Payload

/-! # Wire forms of a value

  A value has many forms on the wire. Each item chooses for itself, and none of
  the choices depends on another: the size of the length field (`SizedForm`), the
  bit that a tag of fixed width does not mind (`FixedForm`), whether a name or a
  text ends in a terminator (`NameForm`, `PayloadForm`), and any name at all for
  the root and for elements. `Form` puts them together, by one rule for each kind
  of item.

  A form is a text of bytes, not a tree of items: what is chosen for an item
  changes the length of its bytes, and so the sizes of all containers around it.
-/

namespace BinaryPack

/-! ### Headers -/

/-- The bytes of an item whose payload may have any length. -/
inductive SizedForm (type : ItemType) (name payload : Bytes) : Bytes → Prop where
  /-- The length in one byte. -/
  | short (h : payload.length ≤ 255) : SizedForm type name payload
      ([type.tag ||| Tag.shortBit, UInt8.ofNat name.length, UInt8.ofNat payload.length]
        ++ name ++ payload)
  /-- The length in four bytes. -/
  | long (h : payload.length < Nat.pow 256 4) : SizedForm type name payload
      ([type.tag, UInt8.ofNat name.length] ++ LittleEndian.encode 4 payload.length
        ++ name ++ payload)

/-- The bytes of an item whose payload has the width of its type. -/
inductive FixedForm (type : ScalarType) (name payload : Bytes) : Bytes → Prop where
  /-- The bare tag. -/
  | bare : FixedForm type name payload
      ([type.tag, UInt8.ofNat name.length] ++ name ++ payload)
  /-- The tag with the bit for short payloads. -/
  | marked : FixedForm type name payload
      ([type.tag ||| Tag.shortBit, UInt8.ofNat name.length] ++ name ++ payload)

/-- The names that a key may be written under. -/
inductive NameForm (key : String) : Bytes → Prop where
  /-- With a terminator. -/
  | terminated (h : (Utf8.encode key).length ≤ 254) : NameForm key (Utf8.encode key ++ [0])
  /-- Without one, if none could be taken for it. -/
  | bare (h : (Utf8.encode key).length ≤ 255) (hlast : (Utf8.encode key).getLast? ≠ some 0) :
    NameForm key (Utf8.encode key)

/-! ### Items -/

mutual

/-- The bytes of a value under a name. -/
inductive Form : Bytes → Value → Bytes → Prop where
  /-- A scalar of fixed width. -/
  | fixed {name payload w : Bytes} {s : Scalar} (hwidth : s.type.width ≠ 0)
    (hpayload : Scalar.PayloadForm s payload) (h : FixedForm s.type name payload w) :
    Form name (.scalar s) w
  /-- A text or raw bytes. -/
  | sized {name payload w : Bytes} {s : Scalar} (hwidth : s.type.width = 0)
    (hpayload : Scalar.PayloadForm s payload) (h : SizedForm (.scalar s.type) name payload w) :
    Form name (.scalar s) w
  /-- An array: the count of its elements, then their bytes. -/
  | array {name body w : Bytes} {items : List Value} (hbody : ElementForms items body)
    (h : SizedForm .array name (LittleEndian.encode 4 items.length ++ body) w) :
    Form name (.array items) w
  /-- A map: the count of its members, then their bytes. -/
  | map {name body w : Bytes} {members : List (String × Value)} (hbody : MemberForms members body)
    (h : SizedForm .object name (LittleEndian.encode 4 members.length ++ body) w) :
    Form name (.map members) w

/-- The bytes of the elements of an array, under any names. -/
inductive ElementForms : List Value → Bytes → Prop where
  | nil : ElementForms [] []
  | cons {name w rest : Bytes} {v : Value} {items : List Value} (hname : name.length ≤ 255)
    (h : Form name v w) (hrest : ElementForms items rest) : ElementForms (v :: items) (w ++ rest)

/-- The bytes of the members of a map, in their order. -/
inductive MemberForms : List (String × Value) → Bytes → Prop where
  | nil : MemberForms [] []
  | cons {name w rest : Bytes} {key : String} {v : Value} {members : List (String × Value)}
    (hname : NameForm key name) (h : Form name v w) (hrest : MemberForms members rest) :
    MemberForms ((key, v) :: members) (w ++ rest)

end

/-! ### Headers of items -/

theorem NameForm.length_le {key : String} {name : Bytes} (h : NameForm key name) :
    name.length ≤ 255 := by
  cases h with
  | terminated h =>
    rw [List.length_append, List.length_singleton]
    omega
  | bare h => exact h

/-- A name gives back the key it was written for. -/
theorem NameForm.lossy_unterminated {key : String} {name : Bytes} (h : NameForm key name) :
    Utf8.lossy (unterminated name) = key := by
  cases h with
  | terminated h => rw [unterminated_append_nul, Utf8.lossy_encode]
  | bare h hlast => rw [unterminated_of_getLast? hlast, Utf8.lossy_encode]

/-- An item that has the bytes of a form, whatever its children. -/
theorem SizedForm.exists_tag {type : ItemType} {name payload w : Bytes}
    (hwidth : Tag.width type.tag = 0) (h : SizedForm type name payload w) :
    ∃ tag, ItemType.ofTag? tag = some type ∧ Item.lengthFits tag payload.length ∧
      ∀ children, Item.wire ⟨tag, name, payload, children⟩ = w := by
  -- The type carries no width, so the bit for short payloads settles the class.
  cases h with
  | short h =>
    have hclass := SizeClass.ofTag_tag_short type
    rw [if_pos hwidth] at hclass
    refine ⟨_, ItemType.ofTag?_tag_short type, ?_, fun children => ?_⟩
    · rw [Item.lengthFits, hclass]
      exact Nat.lt_succ_of_le h
    · rw [Item.wire, Item.lengthField, hclass]
      rfl
  | long h =>
    have hclass := SizeClass.ofTag_tag type
    rw [if_pos hwidth] at hclass
    refine ⟨_, ItemType.ofTag?_tag type, ?_, fun children => ?_⟩
    · rw [Item.lengthFits, hclass]
      exact h
    · rw [Item.wire, Item.lengthField, hclass]
      rfl

theorem FixedForm.exists_tag {type : ScalarType} {name payload w : Bytes}
    (hwidth : type.width ≠ 0) (hlen : payload.length = type.width)
    (h : FixedForm type name payload w) :
    ∃ tag, ItemType.ofTag? tag = some (.scalar type) ∧ Item.lengthFits tag payload.length ∧
      ∀ children, Item.wire ⟨tag, name, payload, children⟩ = w := by
  have htag : Tag.width (ItemType.scalar type).tag ≠ 0 := by
    rw [ItemType.tag, ScalarType.width_tag]
    exact hwidth
  -- With either tag the class is the fixed one, which has no length field.
  have hfixed : ∀ tag, ItemType.ofTag? tag = some (.scalar type) → SizeClass.ofTag tag = .fixed →
      Item.lengthFits tag payload.length ∧ ∀ children, Item.wire ⟨tag, name, payload, children⟩
        = [tag, UInt8.ofNat name.length] ++ name ++ payload := by
    intro tag htype hclass
    refine ⟨?_, fun children => ?_⟩
    · rw [Item.lengthFits, hclass]
      dsimp only
      rw [hlen, ItemType.width_of_ofTag? htype, ItemType.tag, ScalarType.width_tag]
    · rw [Item.wire, Item.lengthField, hclass]
      rfl
  cases h with
  | bare =>
    have hclass := SizeClass.ofTag_tag (.scalar type)
    rw [if_neg htag] at hclass
    exact ⟨_, ItemType.ofTag?_tag _, hfixed _ (ItemType.ofTag?_tag _) hclass⟩
  | marked =>
    have hclass := SizeClass.ofTag_tag_short (.scalar type)
    rw [if_neg htag] at hclass
    exact ⟨_, ItemType.ofTag?_tag_short _, hfixed _ (ItemType.ofTag?_tag_short _) hclass⟩

end BinaryPack
