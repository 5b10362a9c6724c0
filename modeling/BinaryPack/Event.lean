import BinaryPack.Error

/-! # Events

  Decoding and marshalling report what they did, and binding reports members
  that are lost to a later one of the same name. Events are part of the result:
  a run gives a value or an error, and in either case the events up to its end,
  in order.
-/

namespace BinaryPack

/-- Something a run reports. -/
inductive Event where
  /-- A pack was decoded. -/
  | decoded (length members : Nat)
  /-- A pack was refused. -/
  | rejected (error : Error) (length : Nat)
  /-- Bytes after the root item were ignored. -/
  | trailing (count : Nat)
  /-- A member took the place of an earlier one of the given type. -/
  | duplicateKey (key replaced : String)
  /-- A pack was written. -/
  | marshalled (length : Nat)
  /-- A value was refused. -/
  | marshalFailed (error : Error)
  deriving DecidableEq

/-- How much detail an event is. -/
inductive Level where
  | debug
  | trace
  deriving DecidableEq

namespace Event

/-- The level of an event: what was lost or refused is worth more attention. -/
def level : Event → Level
  | .decoded .. | .trailing _ | .marshalled _ => .trace
  | .rejected .. | .duplicateKey .. | .marshalFailed _ => .debug

/-- The wording of an event. -/
def message : Event → String
  | .decoded .. => "decoded pack"
  | .rejected .. => "rejected pack"
  | .trailing _ => "ignoring bytes after root item"
  | .duplicateKey .. => "duplicate object key overwrites earlier member"
  | .marshalled _ => "marshalled pack"
  | .marshalFailed _ => "marshal failed"

end Event

/-! ### Runs with events -/

/-- The outcome of a run: its result and the events up to its end. -/
structure Logged (ε α : Type) where
  /-- What the run gives. -/
  result : Except ε α
  /-- What the run reported, in order. -/
  events : List Event

namespace Logged

variable {ε ε' α β : Type}

/-- A result without events. -/
def ofExcept (result : Except ε α) : Logged ε α :=
  ⟨result, []⟩

/-- One event. -/
def emit (event : Event) : Logged ε Unit :=
  ⟨.ok (), [event]⟩

/-- One run after another. Events of a failed run stay. -/
def andThen (first : Logged ε α) (second : α → Logged ε β) : Logged ε β :=
  match first.result with
  | .ok a => ⟨(second a).result, first.events ++ (second a).events⟩
  | .error e => ⟨.error e, first.events⟩

instance : Monad (Logged ε) where
  pure a := ⟨.ok a, []⟩
  bind := andThen

/-- The same run with its error seen as another one. -/
def mapError (f : ε → ε') (run : Logged ε α) : Logged ε' α :=
  ⟨run.result.mapError f, run.events⟩

end Logged

end BinaryPack
