import BinaryPack.Value.Basic

/-! # Dotted paths

  A path is a text cut at every dot; each segment is the key of a member of the
  map reached so far. The empty path is the single segment "", and dots at the
  ends or next to each other make empty segments, so a key that contains a dot
  is reached by no path.
-/

namespace BinaryPack

namespace Path

/-- Cuts a run of characters at every dot. -/
def cut : List Char → List (List Char)
  | [] => [[]]
  | c :: rest =>
    if c = '.' then [] :: cut rest
    else
      match cut rest with
      | [] => [[c]]
      | segment :: segments => (c :: segment) :: segments

/-- The segments of a path; there is always at least one. -/
def segments (path : String) : List String :=
  (cut path.toList).map String.ofList

end Path

namespace Value

/-- The value reached from another one by following keys. -/
def walk : List String → Value → Option Value
  | [], value => some value
  | key :: rest, .map members => (Members.find? members key).bind (walk rest)
  | _ :: _, _ => none

end Value

namespace Members

/-- The value at a path, if every segment is a key of the map reached before
    it. -/
def lookup (members : Members Value) (path : String) : Option Value :=
  Value.walk (Path.segments path) (.map members)

/-- The value at a path, the absent value where there is none. -/
def get (members : Members Value) (path : String) : Value :=
  (members.lookup path).getD .null

/-- What an exact accessor finds at a path. -/
def getAs? {α : Type} (accessor : Value → Option α) (members : Members Value) (path : String) :
    Option α :=
  accessor (members.get path)

/-- What an exact accessor finds at a path, or a default. -/
def getAs {α : Type} (accessor : Value → Option α) (members : Members Value) (path : String)
    (default : α) : α :=
  (members.getAs? accessor path).getD default

/-- The map with the map held directly under a key changed, if there is one. -/
def updateAt? (members : Members Value) (key : String)
    (update : Members Value → Members Value) : Option (Members Value) :=
  match members.find? key with
  | some (.map inner) => some (members.insert key (.map (update inner)))
  | _ => none

end Members

end BinaryPack
