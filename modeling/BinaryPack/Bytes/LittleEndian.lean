/-! # Little-endian numbers

  Lengths, counts and numeric payloads travel least significant byte first.
  A number is written in a fixed count of bytes; a run of bytes of any length
  spells one number. The two directions are inverse up to the bits that the
  width holds (`decode_encode`, `encode_decode`).
-/

namespace BinaryPack

/-- A run of bytes: a name, a payload, or a whole pack. -/
abbrev Bytes := List UInt8

namespace LittleEndian

/-- The lowest `width` base-256 digits of a number, least significant first. -/
def encode : (width number : Nat) → Bytes
  | 0, _ => []
  | width + 1, number => UInt8.ofNat number :: encode width (number / 256)

/-- The number that a run of bytes spells, least significant byte first. -/
def decode : Bytes → Nat
  | [] => 0
  | b :: rest => b.toNat + 256 * decode rest

/-! ### Laws -/

@[simp] theorem length_encode (width number : Nat) :
    (encode width number).length = width := by
  induction width generalizing number with
  | zero => rfl
  | succ w ih => simp [encode, ih]

/-- Writing keeps exactly the bits that the width holds. -/
theorem decode_encode (width number : Nat) :
    decode (encode width number) = number % Nat.pow 256 width := by
  induction width generalizing number with
  | zero => simp [encode, decode, Nat.mod_one]
  | succ w ih =>
    have low : (UInt8.ofNat number).toNat = number % 256 := UInt8.toNat_ofNat'
    have grow : Nat.pow 256 (w + 1) = 256 * Nat.pow 256 w := Nat.mul_comm _ _
    rw [encode, decode, ih, low, grow, Nat.mod_mul]

/-- A number that fits its width comes back unchanged. -/
theorem decode_encode_of_lt {width number : Nat} (fits : number < Nat.pow 256 width) :
    decode (encode width number) = number := by
  rw [decode_encode, Nat.mod_eq_of_lt fits]

/-- Every run of bytes is the writing of the number it spells. -/
theorem encode_decode (bytes : Bytes) : encode bytes.length (decode bytes) = bytes := by
  induction bytes with
  | nil => rfl
  | cons b rest ih =>
    have below : b.toNat < 256 := b.toNat_lt
    have low : (b.toNat + 256 * decode rest) / 256 = decode rest := by omega
    have head : UInt8.ofNat (b.toNat + 256 * decode rest) = b := by
      apply UInt8.toNat_inj.mp
      rw [UInt8.toNat_ofNat']
      omega
    simp only [List.length_cons, encode, decode, low, ih, head]

theorem decode_lt (bytes : Bytes) : decode bytes < Nat.pow 256 bytes.length := by
  induction bytes with
  | nil => simp [decode]
  | cons b rest ih =>
    have below : b.toNat < 256 := b.toNat_lt
    have grow : Nat.pow 256 (rest.length + 1) = 256 * Nat.pow 256 rest.length := Nat.mul_comm _ _
    rw [decode, List.length_cons, grow]
    omega

end LittleEndian

end BinaryPack
