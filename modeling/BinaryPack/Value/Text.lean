import BinaryPack.Number.Shortest
import BinaryPack.Text.Quoted
import BinaryPack.Value.Basic

/-! # Text of a value

  Values are shown on one line. Texts and keys are quoted, bytes are only
  counted, and the members of a map are shown in ascending order of their keys.
-/

namespace BinaryPack

/-- The text of a scalar. -/
def Scalar.text : Scalar → String
  | .null => "null"
  | .bool value => if value then "true" else "false"
  | .int8 value => toString value.toInt
  | .int16 value => toString value.toInt
  | .int32 value => toString value.toInt
  | .int64 value => toString value.toInt
  | .uint8 value => toString value.toNat
  | .uint16 value => toString value.toNat
  | .uint32 value => toString value.toNat
  | .uint64 value => toString value.toNat
  | .float32 value => value.text
  | .float64 value => value.text
  | .string text => Quoted.encode text
  | .raw bytes => "<" ++ toString bytes.length ++ " raw bytes>"

namespace Value

/-- The members of a rendered map, given each with the text of its value. -/
def mapText (members : Members String) : String :=
  let member (m : String × String) := Quoted.encode m.1 ++ ": " ++ m.2
  "\x7b" ++ ", ".intercalate ((Members.sorted members).map member) ++ "\x7d"

mutual

/-- The text of a value. -/
def text : Value → String
  | .scalar s => s.text
  | .array items => "[" ++ ", ".intercalate (itemTexts items) ++ "]"
  | .map members => mapText (memberTexts members)

/-- The texts of the items of an array. -/
def itemTexts : List Value → List String
  | [] => []
  | item :: rest => text item :: itemTexts rest

/-- The members of a map, each with the text of its value. -/
def memberTexts : List (String × Value) → Members String
  | [] => []
  | (key, held) :: rest => (key, text held) :: memberTexts rest

end

end Value

end BinaryPack
