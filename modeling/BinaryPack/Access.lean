import BinaryPack.Error
import BinaryPack.Value.Members

/-! # Consumers of sequences and maps

  Whoever reads a sequence or a map decides step by step what to ask for next. A
  consumer is such a strategy, written down as a program: it may ask how much is
  left and ask for the next part, and ends with an answer or a mismatch of its
  own. Parts are handed out in order, each once. Asking past the end gives
  nothing and does no harm.

  The type of a consumer says how many parts are left. So a loop that asks until
  nothing is left is a recursion on that number, and needs no other bound.

  What a consumer leaves behind is not lost in silence: an answer given with
  parts left over is refused with the full length.
-/

namespace BinaryPack

/-! ### Sequences -/

/-- A consumer of a sequence with a number of elements left, which are handed out
    as `ι`. -/
inductive ArrayPull (ι β : Type) : Nat → Type where
  /-- Ends. -/
  | answer {n : Nat} (result : Except Mismatch β) : ArrayPull ι β n
  /-- Asks how many elements are left, which need not be told. -/
  | left {n : Nat} (next : Option Nat → ArrayPull ι β n) : ArrayPull ι β n
  /-- Asks for the next element. -/
  | pull {n : Nat} (next : ι → ArrayPull ι β n) : ArrayPull ι β (n + 1)
  /-- Asks for the next element when there is none. -/
  | pullPast (next : ArrayPull ι β 0) : ArrayPull ι β 0

namespace ArrayPull

variable {ι α β : Type}

/-- Runs a consumer on the elements left, of whose number `hint` is told: its
    answer, and the elements it left. -/
def run (hint : Nat → Option Nat) :
    {n : Nat} → ArrayPull ι β n → (items : List ι) → items.length = n →
      Except Mismatch β × List ι
  | _, .answer result, items, _ => (result, items)
  | _, .left next, items, h => (next (hint items.length)).run hint items h
  | _, .pull next, item :: items, h => (next item).run hint items (Nat.succ.inj h)
  | _, .pullPast next, items, h => next.run hint items h

/-- Goes on with what a result holds, or ends with its mismatch. -/
def proceed {n : Nat} (result : Except Mismatch α) (next : α → ArrayPull ι β n) :
    ArrayPull ι β n :=
  match result with
  | .ok a => next a
  | .error mismatch => .answer (.error mismatch)

/-- A consumer that asks until nothing is left, and reads every element alike on
    top of those read already. -/
def each (read : ι → Except Mismatch α) (finish : List α → β) :
    (done : Array α) → (n : Nat) → ArrayPull ι β n
  | done, 0 => .pullPast (.answer (.ok (finish done.toList)))
  | done, n + 1 => .pull fun item => proceed (read item) fun a => each read finish (done.push a) n

/-- A consumer that reads every element alike. It makes room for as many as it is
    told of. -/
def collect (read : ι → Except Mismatch α) (finish : List α → β) (n : Nat) : ArrayPull ι β n :=
  .left fun told => each read finish (.emptyWithCapacity (told.getD 0)) n

end ArrayPull

/-- Lets a consumer loose on an array, which tells how many items are left. -/
def visitArray {ι β : Type} (items : List ι) (consumer : ArrayPull ι β items.length) :
    Except Mismatch β :=
  match consumer.run some items rfl with
  | (.ok answer, []) => .ok answer
  | (.ok _, _ :: _) => .error (.invalidLength items.length "fewer elements in array")
  | (.error mismatch, _) => .error mismatch

/-! ### Maps -/

/-- A consumer of a map with a number of entries left, whose keys are handed out
    as `κ` and whose values as `ι`. -/
inductive MapPull (κ ι β : Type) : Nat → Type where
  /-- Ends. -/
  | answer {n : Nat} (result : Except Mismatch β) : MapPull κ ι β n
  /-- Asks how many entries are left, which need not be told. -/
  | left {n : Nat} (next : Option Nat → MapPull κ ι β n) : MapPull κ ι β n
  /-- Asks for the next key. A value not asked for before is passed over. -/
  | pullKey {n : Nat} (next : κ → MapPull κ ι β n) : MapPull κ ι β (n + 1)
  /-- Asks for the next key when there is none. -/
  | pullPast (next : MapPull κ ι β 0) : MapPull κ ι β 0
  /-- Asks for the value of the last key, once. -/
  | pullValue {n : Nat} (next : Except Mismatch ι → MapPull κ ι β n) : MapPull κ ι β n

namespace MapPull

variable {κ ι α β σ : Type}

/-- Runs a consumer on the entries left, of whose number `hint` is told, and the
    value of the last key, if that has not been asked for: its answer, and the
    entries it left. -/
def run (hint : Nat → Option Nat) :
    {n : Nat} → MapPull κ ι β n → (entries : List (κ × ι)) → entries.length = n → Option ι →
      Except Mismatch β × List (κ × ι)
  | _, .answer result, entries, _, _ => (result, entries)
  | _, .left next, entries, h, pending => (next (hint entries.length)).run hint entries h pending
  | _, .pullKey next, (key, value) :: entries, h, _ =>
    (next key).run hint entries (Nat.succ.inj h) (some value)
  | _, .pullPast next, entries, h, pending => next.run hint entries h pending
  | _, .pullValue next, entries, h, some value => (next (.ok value)).run hint entries h none
  | _, .pullValue next, entries, h, none =>
    (next (.error .valueBeforeKey)).run hint entries h none

/-- Goes on with what a result holds, or ends with its mismatch. -/
def proceed {n : Nat} (result : Except Mismatch α) (next : α → MapPull κ ι β n) :
    MapPull κ ι β n :=
  match result with
  | .ok a => next a
  | .error mismatch => .answer (.error mismatch)

/-- A consumer that asks until nothing is left, and takes every entry alike: it
    reads the key, asks for the value, and puts both into a state. -/
def each (readKey : κ → Except Mismatch α) (put : σ → α → ι → Except Mismatch σ)
    (finish : σ → Except Mismatch β) : (state : σ) → (n : Nat) → MapPull κ ι β n
  | state, 0 => .pullPast (.answer (finish state))
  | state, n + 1 => .pullKey fun key => proceed (readKey key) fun a => .pullValue fun value =>
    proceed (value.bind (put state a)) fun state => each readKey put finish state n

end MapPull

/-- Lets a consumer loose on a map, which tells how many entries are left. -/
def visitMap {ι β : Type} (entries : Members ι) (consumer : MapPull String ι β entries.length) :
    Except Mismatch β :=
  match consumer.run some entries rfl none with
  | (.ok answer, []) => .ok answer
  | (.ok _, _ :: _) => .error (.invalidLength entries.length "fewer entries in map")
  | (.error mismatch, _) => .error mismatch

end BinaryPack
