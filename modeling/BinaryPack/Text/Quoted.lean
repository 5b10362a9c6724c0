import BinaryPack.Text.Printable

/-! # Quoted text

  The text of a string inside a rendered value: in double quotes, with the
  common controls, the quote and the backslash written as two-character
  escapes and every other character without a visible form written by its code
  point in lower-case hexadecimal.
-/

namespace BinaryPack

namespace Quoted

/-- A number in base sixteen, lower case, without leading zeros. -/
def hexadecimal (n : Nat) : String :=
  String.ofList (Nat.toDigits 16 n)

/-- How one character stands between the quotes. -/
def escape (c : Char) : String :=
  if c = '\x00' then "\\0"
  else if c = '\t' then "\\t"
  else if c = '\n' then "\\n"
  else if c = '\r' then "\\r"
  else if c = '"' then "\\\""
  else if c = '\\' then "\\\\"
  else if Printable.isPrintable c then c.toString
  else "\\u\x7b" ++ hexadecimal c.toNat ++ "\x7d"

/-- A text in double quotes. -/
def encode (text : String) : String :=
  "\"" ++ String.join (text.toList.map escape) ++ "\""

end Quoted

end BinaryPack
