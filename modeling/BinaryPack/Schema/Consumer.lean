import BinaryPack.Decoder
import BinaryPack.Value.Visit

/-! # Consumers of the caller's own

  Beside schemas, a caller may bring a type that is read from an array or a map
  by asking for parts step by step.
-/

namespace BinaryPack

/-- A type of the caller's own that is read from an array or a map by asking for
    parts step by step. -/
structure Consumer (β : Type) where
  /-- What it reads, as messages say it. -/
  expected : String
  ofArray (n : Nat) : ArrayPull Value β n
  ofMap (n : Nat) : MapPull String Value β n

/-- What a consumer makes of a value. -/
def Consumer.fromValue {β : Type} (consumer : Consumer β) (value : Value) : Except Error β :=
  let result := match value.visit with
    | .items items => visitArray items (consumer.ofArray _)
    | .members members => visitMap members (consumer.ofMap _)
    | other => other.mismatch consumer.expected
  result.mapError fun mismatch => .invalidPack (.mismatch mismatch)

/-- What a consumer makes of the root of a pack. -/
def Consumer.fromPack {β : Type} (consumer : Consumer β) (buffer : Bytes) : Logged Error β := do
  let members ← decode buffer
  .ofExcept (consumer.fromValue (.map members))

end BinaryPack
