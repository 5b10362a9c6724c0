import BinaryPack.Item.Binder
import BinaryPack.Item.Wire
import BinaryPack.Proofs.Outcome
import BinaryPack.Proofs.Wire.Tag

/-! # Binding what a reader gives

  Binding fails on a tag that names no type and on a number whose payload has
  not the width of its type. Neither is found in an item that stands for bytes,
  at any depth (`Bindable`, `bindable_of_valid`), so such an item always has a
  value (`bind_total`).
-/

namespace BinaryPack

/-! ### Scalars -/

namespace ItemType

/-- The payload of a type of fixed width has that width. -/
def WidthFits (type : ItemType) (length : Nat) : Prop :=
  ∀ width, type.fixedWidth? = some width → length = width

theorem widthFits_of_lengthFits {tag : UInt8} {type : ItemType} {length : Nat}
    (htype : ofTag? tag = some type) (h : Item.lengthFits tag length) : type.WidthFits length := by
  intro width hwidth
  unfold fixedWidth? at hwidth
  rw [← width_of_ofTag? htype] at hwidth
  split at hwidth
  · cases hwidth
  · next hne =>
    have hfixed := (SizeClass.ofTag_eq_fixed_iff tag).mpr hne
    rw [Item.lengthFits, hfixed] at h
    rw [h]
    exact Option.some.inj hwidth

end ItemType

theorem Scalar.number_of_length {type : ScalarType} {width : Nat} {data : Bytes}
    (h : data.length = width) : number type width data = .ok (LittleEndian.decode data) := by
  rw [number, if_pos h]

/-- A payload of the right width always holds a scalar. -/
theorem Scalar.ofPayload_total {type : ScalarType} {data : Bytes}
    (h : (ItemType.scalar type).WidthFits data.length) : ∃ s, ofPayload type data = .ok s := by
  cases type with
  | null => exact ⟨_, rfl⟩
  | bool => exact ⟨_, rfl⟩
  | string => exact ⟨_, rfl⟩
  | raw => exact ⟨_, rfl⟩
  | int8 | uint8 =>
    rw [ofPayload, number_of_length (h 1 (by decide))]
    exact ⟨_, rfl⟩
  | int16 | uint16 =>
    rw [ofPayload, number_of_length (h 2 (by decide))]
    exact ⟨_, rfl⟩
  | int32 | uint32 | float32 =>
    rw [ofPayload, number_of_length (h 4 (by decide))]
    exact ⟨_, rfl⟩
  | int64 | uint64 | float64 =>
    rw [ofPayload, number_of_length (h 8 (by decide))]
    exact ⟨_, rfl⟩

namespace Item

/-! ### Items that can be bound -/

mutual

/-- Every tag in the item names a type, and every payload of fixed width has it. -/
def Bindable : Item → Prop
  | ⟨tag, _, data, children⟩ =>
    (∃ type, ItemType.ofTag? tag = some type ∧ type.WidthFits data.length) ∧ BindableAll children

/-- All children of a container can be bound. -/
def BindableAll : List Item → Prop
  | [] => True
  | item :: rest => Bindable item ∧ BindableAll rest

end

mutual

theorem bindable_of_valid : ∀ {item : Item}, item.Valid → item.Bindable
  | ⟨tag, name, data, children⟩, h => by
    obtain ⟨-, hfits, hrest⟩ := h
    match htype : ItemType.ofTag? tag, hrest with
    | some (.scalar type), hrest =>
      -- A valid scalar has no children, which binding would not look at anyway.
      subst hrest
      exact ⟨⟨_, htype, ItemType.widthFits_of_lengthFits htype hfits⟩, trivial⟩
    | some .object, hrest =>
      exact ⟨⟨_, htype, ItemType.widthFits_of_lengthFits htype hfits⟩,
        bindableAll_of_validAll hrest.2⟩
    | some .array, hrest =>
      exact ⟨⟨_, htype, ItemType.widthFits_of_lengthFits htype hfits⟩,
        bindableAll_of_validAll hrest.2⟩

theorem bindableAll_of_validAll : ∀ {items : List Item}, ValidAll items → BindableAll items
  | [], _ => trivial
  | _ :: _, h => ⟨bindable_of_valid h.1, bindableAll_of_validAll h.2⟩

end

/-! ### Binding -/

@[simp] theorem result_addMember (held : Members Value) (key : String) (value : Value) :
    (addMember held key value).result = .ok (held.insert key value) := by
  unfold addMember
  split <;> rfl

mutual

/-- An item that can be bound has a value. -/
theorem bind_total : ∀ {item : Item}, item.Bindable → ∃ value, item.bind.result = .ok value
  | ⟨tag, name, data, children⟩, h => by
    obtain ⟨⟨type, htype, hwidth⟩, hchildren⟩ := h
    cases type with
    | object =>
      obtain ⟨members, hmembers⟩ := bindMembers_total hchildren []
      refine ⟨.map members, ?_⟩
      simp [bind, htype, Logged.result_bind_eq_ok_iff, hmembers]
    | array =>
      obtain ⟨values, hvalues⟩ := bindItems_total hchildren
      refine ⟨.array values, ?_⟩
      simp [bind, htype, Logged.result_bind_eq_ok_iff, hvalues]
    | scalar type =>
      obtain ⟨s, hs⟩ := Scalar.ofPayload_total hwidth
      refine ⟨.scalar s, ?_⟩
      simp [bind, htype, hs, Except.map]

theorem bindItems_total : ∀ {items : List Item}, BindableAll items →
    ∃ values, (bindItems items).result = .ok values
  | [], _ => ⟨[], rfl⟩
  | item :: rest, h => by
    obtain ⟨value, hvalue⟩ := bind_total h.1
    obtain ⟨values, hvalues⟩ := bindItems_total h.2
    refine ⟨value :: values, ?_⟩
    simp [bindItems, Logged.result_bind_eq_ok_iff, hvalue, hvalues]

theorem bindMembers_total : ∀ {items : List Item}, BindableAll items →
    ∀ held, ∃ members, (bindMembers items held).result = .ok members
  | [], _, held => ⟨held, rfl⟩
  | item :: rest, h, held => by
    obtain ⟨value, hvalue⟩ := bind_total h.1
    obtain ⟨members, hmembers⟩ := bindMembers_total h.2 (held.insert item.keyText value)
    refine ⟨members, ?_⟩
    simp [bindMembers, Logged.result_bind_eq_ok_iff, hvalue, hmembers]

end

/-- The children of an item that can be bound make a map. -/
theorem bindObject_total {item : Item} (h : item.Bindable) :
    ∃ members, item.bindObject.result = .ok members := by
  obtain ⟨tag, name, data, children⟩ := item
  exact bindMembers_total h.2 []

end Item

end BinaryPack
