import BinaryPack.Proofs.Encoder.Writing
import BinaryPack.Proofs.Wire.Form

/-! # The form that an encoder chooses

  The layout of a value that can be written is one of its wire forms: the short
  class wherever it fits, bare tags, a terminator wherever there is room for one,
  the payloads of the scalars themselves, and no names but keys.
-/

namespace BinaryPack

namespace Layout

open Value

theorem nameForm_keyName {key : String} (h : KeyFits key) : NameForm key (keyName key) := by
  unfold keyName
  dsimp only
  rcases h with hlen | ⟨hlen, hlast⟩
  · have hlen' : (Utf8.encode key).length < 255 := hlen
    rw [if_pos hlen']
    exact .terminated (Nat.le_of_lt_succ hlen')
  · have hlen' : (Utf8.encode key).length = 255 := hlen
    rw [if_neg (by omega)]
    exact .bare (Nat.le_of_eq hlen') hlast

theorem sizedForm_sized {type : ItemType} (name : Bytes) {payload : Bytes}
    (h : payload.length ≤ maxLongLength) :
    SizedForm type name payload (sized type name payload) := by
  unfold sized
  split
  · next hshort => exact .short hshort
  · exact .long (Nat.lt_of_le_of_lt h (by decide))

theorem form_scalar (name : Bytes) {s : Scalar} (h : s.payload.length ≤ maxLongLength) :
    Form name (.scalar s) (scalar name s) := by
  by_cases hwidth : s.type.width = 0
  · rw [scalar_of_width_eq_zero name hwidth]
    exact .sized hwidth (.own s) (sizedForm_sized name h)
  · rw [scalar_of_width_ne_zero name hwidth]
    exact .fixed hwidth (.own s) .bare

mutual

/-- The layout of a value is a form of it. -/
theorem form_item (name : Bytes) : ∀ {v : Value}, v.KeysFit → v.LengthsFit →
    Form name v (item name v)
  | .scalar _, _, h => form_scalar name h
  | .array _, hkeys, h => .array (forms_elements hkeys h.2.1) (sizedForm_sized name h.2.2)
  | .map _, hkeys, h => .map (forms_namedElements hkeys h.2.1) (sizedForm_sized name h.2.2)

theorem forms_elements : ∀ {items : List Value}, KeysFitItems items → LengthsFitItems items →
    ElementForms items (elements items)
  | [], _, _ => .nil
  | _ :: _, hkeys, h =>
    .cons (Nat.zero_le _) (form_item [] hkeys.1 h.1) (forms_elements hkeys.2 h.2)

theorem forms_namedElements : ∀ {members : List (String × Value)}, KeysFitMembers members →
    LengthsFitMembers members → MemberForms members (namedElements members)
  | [], _, _ => .nil
  | (key, _) :: _, hkeys, h =>
    .cons (nameForm_keyName hkeys.1) (form_item (keyName key) hkeys.2.1 h.1)
      (forms_namedElements hkeys.2.2 h.2)

end

end Layout

end BinaryPack
