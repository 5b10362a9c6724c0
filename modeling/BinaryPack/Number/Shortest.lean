import BinaryPack.Number.Ieee

/-! # Shortest decimal text

  The text of a floating-point number has the fewest digits that read back as
  the same number in its own format. Among the decimals of that length the
  nearest is taken, and of two equally near the larger. The digits are always
  written positionally, never with an exponent.

  The numbers that read back as a given one form an interval around it, which
  reaches half a last place to either side (a quarter below the smallest number
  of a binade) and holds its ends when the mantissa is even. The search walks
  down the decimal grids, and the first grid with a point in the interval wins.
  All arithmetic is exact.
-/

namespace BinaryPack

namespace Shortest

/-- The decimal number `digits * 10 ^ exponent`. -/
structure Decimal where
  digits : Nat
  exponent : Int
  deriving DecidableEq

/-- The interval of numbers that read back as `value`: `low`, `value` and
    `high` in units of `2 ^ exponent`. -/
structure Interval where
  low : Nat
  value : Nat
  high : Nat
  exponent : Int
  /-- Whether the ends read back as well. -/
  closed : Bool

/-- The interval of the positive number `mantissa * 2 ^ exponent`. Below the
    smallest number of a binade the neighbour is only half as far away. -/
def interval (f : FloatFormat) (mantissa : Nat) (exponent : Int) : Interval :=
  let narrow := mantissa = Nat.pow 2 f.fractionBits
  { low := 4 * mantissa - (if narrow then 1 else 2)
    value := 4 * mantissa
    high := 4 * mantissa + 2
    exponent := exponent - 2
    closed := mantissa % 2 = 0 }

/-- The point of the grid of multiples of `10 ^ grid` that stands for the
    interval, if there is one: of the two neighbours of the value those inside
    the interval, of both the nearer, of two equally near the larger. -/
def Interval.onGrid (i : Interval) (grid : Int) : Option Decimal :=
  let numerator := Nat.pow 2 i.exponent.toNat * Nat.pow 10 (-grid).toNat
  let denominator := Nat.pow 2 (-i.exponent).toNat * Nat.pow 10 grid.toNat
  let inside (point : Nat) : Bool :=
    let p := point * denominator
    if i.closed then i.low * numerator ≤ p && p ≤ i.high * numerator
    else i.low * numerator < p && p < i.high * numerator
  let below := i.value * numerator / denominator
  let rest := i.value * numerator % denominator
  match inside below, inside (below + 1) with
  | true, true => some ⟨if 2 * rest < denominator then below else below + 1, grid⟩
  | true, false => some ⟨below, grid⟩
  | false, true => some ⟨below + 1, grid⟩
  | false, false => none

/-- The first of the given number of grids, from `grid` downwards, with a point
    in the interval. -/
def Interval.search (i : Interval) : (grids : Nat) → (grid : Int) → Option Decimal
  | 0, _ => none
  | grids + 1, grid =>
    match i.onGrid grid with
    | some decimal => some decimal
    | none => i.search grids (grid - 1)

/-- The shortest decimal of the positive number `mantissa * 2 ^ exponent`. The
    search starts above the number's own size; the exact value is a decimal, so
    the grids end at the last at which one can be needed. -/
def decimal (f : FloatFormat) (mantissa : Nat) (exponent : Int) : Decimal :=
  let size : Int := mantissa.log2 + 1 + exponent
  let top : Int := size * 30103 / 100000 + 2
  match (interval f mantissa exponent).search (f.fractionBits + 8) top with
  | some d => d
  | none => ⟨mantissa * Nat.pow 2 exponent.toNat * Nat.pow 5 (-exponent).toNat, min exponent 0⟩

/-- A decimal in positional notation. -/
def positional (d : Decimal) : String :=
  let digits := Nat.toDigits 10 d.digits
  let point : Int := digits.length + d.exponent
  if 0 ≤ d.exponent then
    String.ofList (digits ++ List.replicate d.exponent.toNat '0')
  else if 0 < point then
    String.ofList (digits.take point.toNat ++ '.' :: digits.drop point.toNat)
  else
    String.ofList ('0' :: '.' :: List.replicate (-point).toNat '0' ++ digits)

/-- The text of a bit pattern. NaN shows no sign; zero shows its own. -/
def text (f : FloatFormat) (bits : Nat) : String :=
  match f.classify bits with
  | .nan => "NaN"
  | .infinite negative => (if negative then "-" else "") ++ "inf"
  | .finite negative mantissa exponent =>
    (if negative then "-" else "") ++
      if mantissa = 0 then "0" else positional (decimal f mantissa exponent)

end Shortest

/-- The shortest text that reads back as the number. -/
def Single.text (x : Single) : String :=
  Shortest.text .binary32 x.bits.toNat

/-- The shortest text that reads back as the number. -/
def Double.text (x : Double) : String :=
  Shortest.text .binary64 x.bits.toNat

end BinaryPack
