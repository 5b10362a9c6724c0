import BinaryPack.Bytes.LittleEndian

/-! # UTF-8

  Text is written as UTF-8 and read back from bytes that need not be well
  formed. Reading cuts the bytes into segments: a well-formed sequence is a
  character, and each longest run of bytes that begins a sequence without
  finishing it is one malformed segment. Lossy reading puts the replacement
  character U+FFFD for every malformed segment; strict reading refuses them.
-/

namespace BinaryPack

namespace Utf8

/-- The bytes of a text. -/
def encode (text : String) : Bytes :=
  text.toList.flatMap String.utf8EncodeChar

/-! ### Segments -/

/-- A sequence that has begun and still owes continuation bytes. -/
structure Pending where
  /-- The value bits read so far. -/
  bits : Nat
  /-- Continuation bytes owed after the next one. -/
  owed : Nat
  /-- The least value the next byte may have. -/
  low : UInt8
  /-- The greatest value the next byte may have. -/
  high : UInt8
  deriving DecidableEq

/-- The segments that a byte between characters completes, and the sequence it
    begins. The ranges of the second byte exclude overlong forms, surrogates
    and everything above U+10FFFF. -/
def start (b : UInt8) : List (Option Char) × Option Pending :=
  if b < 0x80 then ([some (Char.ofNat b.toNat)], none)
  else if b < 0xC2 then ([none], none)
  else if b < 0xE0 then ([], some ⟨b.toNat - 0xC0, 0, 0x80, 0xBF⟩)
  else if b < 0xF0 then
    ([], some ⟨b.toNat - 0xE0, 1, if b = 0xE0 then 0xA0 else 0x80, if b = 0xED then 0x9F else 0xBF⟩)
  else if b < 0xF5 then
    ([], some ⟨b.toNat - 0xF0, 2, if b = 0xF0 then 0x90 else 0x80, if b = 0xF4 then 0x8F else 0xBF⟩)
  else ([none], none)

/-- One byte: the segments it completes, and the sequence that is open after
    it. A byte that cannot continue the open sequence ends it as malformed and
    is then read afresh. -/
def step : Option Pending → UInt8 → List (Option Char) × Option Pending
  | none, b => start b
  | some p, b =>
    if p.low ≤ b ∧ b ≤ p.high then
      let bits := p.bits * 64 + (b.toNat - 0x80)
      match p.owed with
      | 0 => ([some (Char.ofNat bits)], none)
      | owed + 1 => ([], some ⟨bits, owed, 0x80, 0xBF⟩)
    else
      (none :: (start b).1, (start b).2)

/-- The segments from a given state on, after those already found, which stand
    in reverse. A sequence left open at the end is malformed. -/
def segmentsFrom (found : List (Option Char)) : Option Pending → Bytes → List (Option Char)
  | none, [] => found.reverse
  | some _, [] => (none :: found).reverse
  | state, b :: rest =>
    segmentsFrom ((step state b).1.reverse ++ found) (step state b).2 rest

/-- The segments of a run of bytes: characters, and `none` for each malformed
    stretch. -/
def segments (bytes : Bytes) : List (Option Char) :=
  segmentsFrom [] none bytes

/-! ### Reading text -/

/-- The text of a run of bytes, with U+FFFD for each malformed stretch. -/
def lossy (bytes : Bytes) : String :=
  String.ofList ((segments bytes).map fun segment => segment.getD '\uFFFD')

/-- The text of a run of bytes, if all of it is well formed. -/
def strict? (bytes : Bytes) : Option String :=
  ((segments bytes).mapM id).map String.ofList

end Utf8

end BinaryPack
