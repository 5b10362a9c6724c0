import BinaryPack.Value.Basic

/-! # Equality of values

  Two values are equal if they have the same type and content, where
  floating-point numbers compare as IEEE 754 says (a NaN equals nothing, the two
  zeros are equal) and maps compare without regard to the order of their
  members: they have as many members, and each member of the one is held under
  its key in the other.
-/

namespace BinaryPack

/-- Equality of scalars: exact, but for floating-point numbers. -/
def Scalar.equal : Scalar → Scalar → Bool
  | .float32 a, .float32 b => a.equal b
  | .float64 a, .float64 b => a.equal b
  | a, b => decide (a = b)

namespace Value

mutual

/-- Equality of values. -/
def equal : Value → Value → Bool
  | .scalar a, .scalar b => a.equal b
  | .array xs, .array ys => equalItems xs ys
  | .map xs, .map ys => xs.length == ys.length && heldIn xs ys
  | _, _ => false

/-- Arrays are equal item by item. -/
def equalItems : List Value → List Value → Bool
  | [], [] => true
  | x :: xs, y :: ys => equal x y && equalItems xs ys
  | _, _ => false

/-- Each member is held under its key in the other map. -/
def heldIn : List (String × Value) → List (String × Value) → Bool
  | [], _ => true
  | (key, value) :: rest, other =>
    (match Members.find? other key with
      | some held => equal value held
      | none => false) && heldIn rest other

end

instance : BEq Value := ⟨equal⟩

end Value

end BinaryPack
