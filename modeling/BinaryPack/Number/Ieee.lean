/-! # IEEE 754 numbers by their bits

  A floating-point number is held as its bits, so that two NaNs or the two
  zeros can be told apart where a pack does so. A format says how the bits are
  divided; from it follow the value of a bit pattern, IEEE comparison, the
  rounding of an exact dyadic number to the nearest pattern, and conversion
  between formats.
-/

namespace BinaryPack

/-! ### Formats -/

/-- How the bits of a binary interchange format are divided. -/
structure FloatFormat where
  /-- Bits of the fraction field. -/
  fractionBits : Nat
  /-- Bits of the exponent field. -/
  exponentBits : Nat
  deriving DecidableEq

namespace FloatFormat

/-- The 32-bit format. -/
def binary32 : FloatFormat := ⟨23, 8⟩

/-- The 64-bit format. -/
def binary64 : FloatFormat := ⟨52, 11⟩

/-- The value of a bit pattern. -/
inductive Class where
  /-- Not a number. -/
  | nan
  /-- An infinity. -/
  | infinite (negative : Bool)
  /-- The number `mantissa * 2 ^ exponent`, with its sign. -/
  | finite (negative : Bool) (mantissa : Nat) (exponent : Int)
  deriving DecidableEq

/-- The fraction field. -/
def fraction (f : FloatFormat) (bits : Nat) : Nat :=
  bits % Nat.pow 2 f.fractionBits

/-- The exponent field. -/
def exponentField (f : FloatFormat) (bits : Nat) : Nat :=
  bits / Nat.pow 2 f.fractionBits % Nat.pow 2 f.exponentBits

/-- The sign bit. -/
def isNegative (f : FloatFormat) (bits : Nat) : Bool :=
  bits / Nat.pow 2 (f.fractionBits + f.exponentBits) % 2 == 1

/-- The exponent field of the infinities and NaNs. -/
def topExponent (f : FloatFormat) : Nat :=
  Nat.pow 2 f.exponentBits - 1

/-- The exponent of the last place of the smallest numbers. -/
def leastExponent (f : FloatFormat) : Int :=
  2 - Int.pow 2 (f.exponentBits - 1) - f.fractionBits

/-- Whether a pattern is a NaN. -/
def isNaN (f : FloatFormat) (bits : Nat) : Bool :=
  f.exponentField bits == f.topExponent && f.fraction bits != 0

/-- Whether a pattern is one of the two zeros. -/
def isZero (f : FloatFormat) (bits : Nat) : Bool :=
  f.exponentField bits == 0 && f.fraction bits == 0

/-- The value of a pattern. -/
def classify (f : FloatFormat) (bits : Nat) : Class :=
  let negative := f.isNegative bits
  let exponent := f.exponentField bits
  let fraction := f.fraction bits
  if exponent = f.topExponent then
    if fraction = 0 then .infinite negative else .nan
  else if exponent = 0 then
    .finite negative fraction f.leastExponent
  else
    .finite negative (Nat.pow 2 f.fractionBits + fraction) (f.leastExponent + (exponent - 1))

/-- IEEE equality: no NaN equals anything, and the two zeros are equal. -/
def equal (f : FloatFormat) (a b : Nat) : Bool :=
  !f.isNaN a && !f.isNaN b && (a == b || (f.isZero a && f.isZero b))

/-! ### Rounding -/

/-- The pattern of an infinity. -/
def infinity (f : FloatFormat) : Nat :=
  f.topExponent * Nat.pow 2 f.fractionBits

/-- The sign bit as a number to add to a pattern. -/
def signBit (f : FloatFormat) (negative : Bool) : Nat :=
  if negative then Nat.pow 2 (f.fractionBits + f.exponentBits) else 0

/-- The quotient to the nearest whole number, a half to the even neighbour. -/
def divideToEven (n d : Nat) : Nat :=
  let q := n / d
  let twice := 2 * (n % d)
  if twice < d then q else if d < twice then q + 1 else q + q % 2

/-- The pattern nearest to `mantissa * 2 ^ exponent`, a tie to the even one;
    what is too large becomes an infinity. The magnitudes of the finite
    patterns count up without a gap, so the pattern is the count of last places
    plus one full binade for each step of the exponent. -/
def round (f : FloatFormat) (negative : Bool) (mantissa : Nat) (exponent : Int) : Nat :=
  if mantissa = 0 then f.signBit negative
  else
    let size : Int := mantissa.log2 + 1
    let last := max (exponent + size - (f.fractionBits + 1)) f.leastExponent
    let places :=
      if last ≤ exponent then mantissa * Nat.pow 2 (exponent - last).toNat
      else divideToEven mantissa (Nat.pow 2 (last - exponent).toNat)
    let magnitude := (last - f.leastExponent).toNat * Nat.pow 2 f.fractionBits + places
    f.signBit negative + min magnitude f.infinity

/-- The pattern of another format with the same value, or the nearest to it. A
    NaN keeps its sign and the leading bits of its fraction and is quiet. -/
def convert (source target : FloatFormat) (bits : Nat) : Nat :=
  match source.classify bits with
  | .finite negative mantissa exponent => target.round negative mantissa exponent
  | .infinite negative => target.signBit negative + target.infinity
  | .nan =>
    let fraction :=
      source.fraction bits * Nat.pow 2 target.fractionBits / Nat.pow 2 source.fractionBits
    let quiet := Nat.pow 2 (target.fractionBits - 1)
    target.signBit (source.isNegative bits) + target.infinity + (fraction % quiet + quiet)

/-- The pattern nearest to a whole number. -/
def ofInt (f : FloatFormat) (n : Int) : Nat :=
  f.round (decide (n < 0)) n.natAbs 0

end FloatFormat

/-! ### The two widths -/

/-- A 32-bit number, by its bits. -/
structure Single where
  /-- The bits. -/
  bits : UInt32
  deriving DecidableEq

/-- A 64-bit number, by its bits. -/
structure Double where
  /-- The bits. -/
  bits : UInt64
  deriving DecidableEq

namespace Single

def isNaN (x : Single) : Bool :=
  FloatFormat.binary32.isNaN x.bits.toNat

/-- IEEE equality. -/
def equal (x y : Single) : Bool :=
  FloatFormat.binary32.equal x.bits.toNat y.bits.toNat

/-- The nearest number to a whole number, ties to even. -/
def ofInt (n : Int) : Single :=
  ⟨UInt32.ofNat (FloatFormat.binary32.ofInt n)⟩

/-- The same number in 64 bits. -/
def toDouble (x : Single) : Double :=
  ⟨UInt64.ofNat (FloatFormat.binary32.convert .binary64 x.bits.toNat)⟩

end Single

namespace Double

def isNaN (x : Double) : Bool :=
  FloatFormat.binary64.isNaN x.bits.toNat

/-- IEEE equality. -/
def equal (x y : Double) : Bool :=
  FloatFormat.binary64.equal x.bits.toNat y.bits.toNat

/-- The nearest number to a whole number, ties to even. -/
def ofInt (n : Int) : Double :=
  ⟨UInt64.ofNat (FloatFormat.binary64.ofInt n)⟩

/-- The nearest number in 32 bits, ties to even. -/
def toSingle (x : Double) : Single :=
  ⟨UInt32.ofNat (FloatFormat.binary64.convert .binary32 x.bits.toNat)⟩

end Double

end BinaryPack
