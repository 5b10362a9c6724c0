import BinaryPack.Item.Binder
import BinaryPack.Item.Reader

/-! # Decoding packs

  A pack is a buffer whose root item is an object. A decoder limits the nesting
  of containers and, if asked to, the length of the buffer, and either ignores
  or refuses bytes after the root. Every run ends with one event that tells
  whether the pack was taken.
-/

namespace BinaryPack

/-- What a decoder allows. -/
structure Decoder where
  /-- How deeply containers may be nested, the root included. -/
  maxDepth : Nat := Value.defaultDepth
  /-- The greatest length of a buffer, if there is one. -/
  maxInputLength : Option Nat := none
  /-- Whether bytes after the root are ignored. -/
  allowTrailing : Bool := true
  deriving DecidableEq

namespace Decoder

/-- The bytes that open a pack of the first version, which is not supported. -/
def firstVersionMagic : Bytes := [0x50, 0x43, 0x4B]

/-- A shorter buffer cannot hold the header of a root. -/
def leastLength : Nat := 4

/-- What speaks against a buffer before any item is read. -/
def refusal? (d : Decoder) (buffer : Bytes) : Option InvalidPack :=
  if buffer.length < leastLength then some (.tooShort buffer.length)
  else
    match d.maxInputLength with
    | some limit =>
      if limit < buffer.length then some (.overLimit buffer.length limit) else magic
    | none => magic
where
  /-- The first version is known by its opening bytes. -/
  magic : Option InvalidPack :=
    if firstVersionMagic.isPrefixOf buffer then some .firstVersion else none

/-- Bytes after the root are ignored and reported, or refused. -/
def checkTrailing (d : Decoder) (count : Nat) : Logged InvalidPack Unit :=
  if count = 0 then pure ()
  else if d.allowTrailing then .emit (.trailing count)
  else .ofExcept (.error (.trailing count))

/-- The members of the root object of a buffer. -/
def decodeRoot (d : Decoder) (buffer : Bytes) : Logged InvalidPack (Members Value) := do
  if let some cause := d.refusal? buffer then
    .ofExcept (.error cause)
  else
    let (root, stop) ← .ofExcept ((Item.read d.maxDepth buffer 0).mapError .read)
    d.checkTrailing (buffer.length - stop)
    match root.itemType? with
    | some .object => root.bindObject.mapError .bind
    | other => .ofExcept (.error (.rootType other))

/-- The event that tells how decoding ended. -/
def closingEvent (length : Nat) : Except Error (Members Value) → Event
  | .ok members => .decoded length members.length
  | .error error => .rejected error length

/-- Decodes a pack. -/
def decode (d : Decoder) (buffer : Bytes) : Logged Error (Members Value) :=
  let run := (d.decodeRoot buffer).mapError .invalidPack
  ⟨run.result, run.events ++ [closingEvent buffer.length run.result]⟩

end Decoder

/-- Decodes a pack with the usual limits. -/
def decode (buffer : Bytes) : Logged Error (Members Value) :=
  Decoder.decode {} buffer

end BinaryPack
