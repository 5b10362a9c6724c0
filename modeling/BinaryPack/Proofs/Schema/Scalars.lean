import BinaryPack.Proofs.Schema.Typing

/-! # Integers and keys that come back

  A number of an integer type is converted to a scalar of that number, if there is one of its
  width, and shown as that number again. A character is converted to the text of that
  character. Reading asks no more than that.
-/

namespace BinaryPack

/-! ### Integers -/

namespace IntegerType

theorem holds_signed_iff {type : IntegerType} (h : type.isSigned = true) (n : Int) :
    type.holds n ↔ -Int.pow 2 (type.width - 1) ≤ n ∧ n < Int.pow 2 (type.width - 1) := by
  rw [holds, if_pos h, Bool.and_eq_true, decide_eq_true_eq, decide_eq_true_eq]

theorem holds_unsigned_iff {type : IntegerType} (h : type.isSigned = false) (n : Int) :
    type.holds n ↔ 0 ≤ n ∧ n.toNat < Nat.pow 2 type.width := by
  rw [holds, if_neg (by rw [h]; decide), Bool.and_eq_true, decide_eq_true_eq, decide_eq_true_eq]
  apply and_congr_right
  intro hnonneg
  have hpow : Int.pow 2 type.width = (Nat.pow 2 type.width : Nat) := (Int.natCast_pow 2 _).symm
  rw [Int.toNat_lt hnonneg, hpow]

/-- A number of a type that fits a value is converted to a scalar that is shown as the
    number. -/
theorem integer?_datum {type : IntegerType} {n : Int} (h : type.holds n)
    (hwidth : type.width ≤ 64) :
    ∃ p, type.datum n = .primitive p ∧ p.converted.shown.integer? = some n := by
  cases type with
  | int8 =>
    obtain ⟨hleast, hbound⟩ := (holds_signed_iff rfl n).mp h
    exact ⟨_, rfl, congrArg some (Int8.toInt_ofInt_of_le hleast hbound)⟩
  | int16 =>
    obtain ⟨hleast, hbound⟩ := (holds_signed_iff rfl n).mp h
    exact ⟨_, rfl, congrArg some (Int16.toInt_ofInt_of_le hleast hbound)⟩
  | int32 =>
    obtain ⟨hleast, hbound⟩ := (holds_signed_iff rfl n).mp h
    exact ⟨_, rfl, congrArg some (Int32.toInt_ofInt_of_le hleast hbound)⟩
  | int64 =>
    obtain ⟨hleast, hbound⟩ := (holds_signed_iff rfl n).mp h
    exact ⟨_, rfl, congrArg some (Int64.toInt_ofInt_of_le hleast hbound)⟩
  | uint8 =>
    obtain ⟨hnonneg, hbound⟩ := (holds_unsigned_iff rfl n).mp h
    have hn : (UInt8.ofNat n.toNat).toNat = n.toNat := UInt8.toNat_ofNat_of_lt' hbound
    exact ⟨_, rfl, congrArg some (by rw [hn, Int.toNat_of_nonneg hnonneg])⟩
  | uint16 =>
    obtain ⟨hnonneg, hbound⟩ := (holds_unsigned_iff rfl n).mp h
    have hn : (UInt16.ofNat n.toNat).toNat = n.toNat := UInt16.toNat_ofNat_of_lt' hbound
    exact ⟨_, rfl, congrArg some (by rw [hn, Int.toNat_of_nonneg hnonneg])⟩
  | uint32 =>
    obtain ⟨hnonneg, hbound⟩ := (holds_unsigned_iff rfl n).mp h
    have hn : (UInt32.ofNat n.toNat).toNat = n.toNat := UInt32.toNat_ofNat_of_lt' hbound
    exact ⟨_, rfl, congrArg some (by rw [hn, Int.toNat_of_nonneg hnonneg])⟩
  | uint64 =>
    obtain ⟨hnonneg, hbound⟩ := (holds_unsigned_iff rfl n).mp h
    have hn : (UInt64.ofNat n.toNat).toNat = n.toNat := UInt64.toNat_ofNat_of_lt' hbound
    exact ⟨_, rfl, congrArg some (by rw [hn, Int.toNat_of_nonneg hnonneg])⟩
  | int128 => exact absurd hwidth (by decide)
  | uint128 => exact absurd hwidth (by decide)

end IntegerType

/-! ### Characters and keys -/

theorem Datum.readCharOf_toString (c : Char) : readCharOf c.toString = .ok (.char c) := by
  rw [readCharOf, Char.toString, String.toList_singleton]

/-- A key is converted to its text, and the text read as the key. -/
theorem KeySchema.Names.comes_back {ν : Type} (declarations : ν → Declaration ν)
    {key : KeySchema ν} {text : String} {k : Datum} (h : key.Names text k) :
    k.toValue = .ok (.scalar (.string text)) ∧ Schema.readKey declarations key text = .ok k := by
  cases h with
  | string text => exact ⟨rfl, rfl⟩
  | char c => exact ⟨rfl, Datum.readCharOf_toString c⟩

end BinaryPack
