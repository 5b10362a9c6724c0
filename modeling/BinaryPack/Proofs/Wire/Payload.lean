import BinaryPack.Proofs.Outcome
import BinaryPack.Proofs.Text.Utf8
import BinaryPack.Proofs.Wire.Tag
import BinaryPack.Wire.Payload

/-! # Payloads that hold a scalar

  A scalar may be written with other payloads than its own: any byte stands for
  the absent value, any byte but zero for the true boolean, and a text that does
  not end in a NUL may go without its terminator. All of them are read back as
  that scalar (`ofPayload_of_form`), numbers bit for bit.
-/

namespace BinaryPack

/-! ### Terminators -/

@[simp] theorem unterminated_append_nul (bytes : Bytes) : unterminated (bytes ++ [0]) = bytes := by
  simp [unterminated]

theorem unterminated_of_getLast? {bytes : Bytes} (h : bytes.getLast? ≠ some 0) :
    unterminated bytes = bytes := by
  rw [unterminated, if_neg h]

namespace Scalar

/-! ### Numbers -/

theorem number_encode (type : ScalarType) {width n : Nat} (h : n < Nat.pow 256 width) :
    number type width (LittleEndian.encode width n) = .ok n := by
  rw [number, if_pos (LittleEndian.length_encode width n), LittleEndian.decode_encode_of_lt h]

/-- A scalar is read back from its own payload. -/
theorem ofPayload_payload (s : Scalar) : ofPayload s.type s.payload = .ok s := by
  cases s with
  | null => rfl
  | bool value => cases value <;> rfl
  | string text => simp [ofPayload, type, payload]
  | raw bytes => rfl
  | int8 value =>
    rw [type, payload, ofPayload, number_encode _ value.toUInt8.toNat_lt]
    simp [Except.map]
  | int16 value =>
    rw [type, payload, ofPayload, number_encode _ value.toUInt16.toNat_lt]
    simp [Except.map]
  | int32 value =>
    rw [type, payload, ofPayload, number_encode _ value.toUInt32.toNat_lt]
    simp [Except.map]
  | int64 value =>
    rw [type, payload, ofPayload, number_encode _ value.toUInt64.toNat_lt]
    simp [Except.map]
  | uint8 value =>
    rw [type, payload, ofPayload, number_encode _ value.toNat_lt]
    simp [Except.map]
  | uint16 value =>
    rw [type, payload, ofPayload, number_encode _ value.toNat_lt]
    simp [Except.map]
  | uint32 value =>
    rw [type, payload, ofPayload, number_encode _ value.toNat_lt]
    simp [Except.map]
  | uint64 value =>
    rw [type, payload, ofPayload, number_encode _ value.toNat_lt]
    simp [Except.map]
  | float32 value =>
    rw [type, payload, ofPayload, number_encode _ value.bits.toNat_lt]
    simp [Except.map]
  | float64 value =>
    rw [type, payload, ofPayload, number_encode _ value.bits.toNat_lt]
    simp [Except.map]

/-! ### Other payloads -/

/-- The payloads that may be written for a scalar. -/
inductive PayloadForm : Scalar → Bytes → Prop where
  /-- The payload that an encoder writes. -/
  | own (s : Scalar) : PayloadForm s s.payload
  /-- Any byte for the absent value. -/
  | null (b : UInt8) : PayloadForm .null [b]
  /-- Any byte but zero for the true boolean. -/
  | true (b : UInt8) (h : b ≠ 0) : PayloadForm (.bool true) [b]
  /-- A text without its terminator, if none could be taken for one. -/
  | bare (text : String) (h : (Utf8.encode text).getLast? ≠ some 0) :
    PayloadForm (.string text) (Utf8.encode text)

theorem ofPayload_of_form {s : Scalar} {data : Bytes} (h : PayloadForm s data) :
    ofPayload s.type data = .ok s := by
  cases h with
  | own => exact ofPayload_payload s
  | null b => rfl
  | true b h => simp [ofPayload, type, h]
  | bare text h => simp [ofPayload, type, unterminated_of_getLast? h]

/-- The payload of a scalar of fixed width has that width. -/
theorem length_of_form {s : Scalar} {data : Bytes} (h : PayloadForm s data)
    (hwidth : s.type.width ≠ 0) : data.length = s.type.width := by
  cases h with
  | own =>
    cases s <;> simp [type, payload, ScalarType.width] at hwidth ⊢
  | null b => rfl
  | true b h => rfl
  | bare text h => exact absurd rfl hwidth

end Scalar

end BinaryPack
