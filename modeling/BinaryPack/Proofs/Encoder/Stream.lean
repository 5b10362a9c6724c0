import BinaryPack.Proofs.Encoder.Writing

/-! # Packs one after another in a buffer

  A buffer may take one pack after another, each written by a call of its own. A call
  does one of two things, and which of them does not depend on what the buffer holds:
  it puts the pack of its value at the end, or it fails and leaves the buffer as it was
  (`Encoder.marshalInto_cases`). Whatever a failed call had written until then, headers
  and finished containers alike, is gone.

  So after any sequence of calls the buffer holds what it held at first, and behind it
  the packs of the calls that succeeded, in their order (`Encoder.appendAll_atomic`).
-/

namespace BinaryPack

namespace Encoder

/-! ### One call -/

theorem append_eq_append_pack (buffer : Buffer) (bytes : Bytes) :
    buffer.append bytes = buffer ++ Buffer.append #[] bytes := by
  simp [Buffer.append]

/-- The pack of a value is what appending it to an empty buffer makes of the buffer. -/
theorem marshal_eq_of_marshalInto {e : Encoder} {v : Value} {run : Logged Error Unit}
    {buffer : Buffer} (h : e.marshalInto #[] v = (run, buffer)) :
    e.marshal v = ⟨run.result.map fun _ => buffer, run.events⟩ := by
  unfold marshal
  rw [h]

/-- A call appends the pack of its value to every buffer, or fails in the same way on
    every buffer and changes none. -/
theorem marshalInto_cases (e : Encoder) (v : Value) :
    (∃ pack events, e.marshal v = ⟨.ok pack, events⟩ ∧
      ∀ buffer, e.marshalInto buffer v = (⟨.ok (), events⟩, buffer ++ pack)) ∨
    (∃ cause events, e.marshal v = ⟨.error (.marshal cause), events⟩ ∧
      ∀ buffer, e.marshalInto buffer v = (⟨.error (.marshal cause), events⟩, buffer)) := by
  cases v with
  | scalar s =>
    -- A root that is no map is refused before anything is written.
    right
    exact ⟨.rootType s.typeName, [], rfl, fun _ => rfl⟩
  | array items =>
    right
    exact ⟨.rootType "array", [], rfl, fun _ => rfl⟩
  | map members =>
    rcases e.appendRoot_cases members with ⟨-, happends⟩ | ⟨-, cause, happends⟩
    · left
      have hinto : ∀ buffer, e.marshalInto buffer (.map members) = _ := happends
      refine ⟨Buffer.append #[] (Members.layout members), _,
        marshal_eq_of_marshalInto (hinto #[]), ?_⟩
      intro buffer
      rw [hinto, append_eq_append_pack]
    · right
      have hinto : ∀ buffer, e.marshalInto buffer (.map members) = _ := happends
      exact ⟨cause, _, marshal_eq_of_marshalInto (hinto #[]), hinto⟩

/-! ### Many calls -/

/-- A call that appends a value to a buffer. -/
structure Call where
  /-- The encoder that writes, with a limit of its own. -/
  encoder : Encoder
  /-- What is to be written. -/
  value : Value

namespace Call

/-- What a call comes to, and the buffer after it. -/
def run (call : Call) (buffer : Buffer) : Logged Error Unit × Buffer :=
  call.encoder.marshalInto buffer call.value

/-- The pack of a call by itself, if its value has one. -/
def pack (call : Call) : Except Error Buffer :=
  (call.encoder.marshal call.value).result

theorem run_cases (call : Call) :
    (∃ pack events, call.pack = .ok pack ∧
      ∀ buffer, call.run buffer = (⟨.ok (), events⟩, buffer ++ pack)) ∨
    (∃ error events, call.pack = .error error ∧
      ∀ buffer, call.run buffer = (⟨.error error, events⟩, buffer)) := by
  unfold pack run
  rcases call.encoder.marshalInto_cases call.value with
    ⟨pack, events, hmarshal, hrun⟩ | ⟨cause, events, hmarshal, hrun⟩
  · left
    exact ⟨pack, events, by rw [hmarshal], hrun⟩
  · right
    exact ⟨.marshal cause, events, by rw [hmarshal], hrun⟩

end Call

/-- The buffer after a sequence of calls, each made on what the one before it left. -/
def appendAll (buffer : Buffer) (calls : List Call) : Buffer :=
  calls.foldl (fun held call => (call.run held).2) buffer

/-- The packs of the calls that succeed. -/
def packs (calls : List Call) : List Buffer :=
  calls.filterMap fun call => call.pack.toOption

theorem appendAll_cons (buffer : Buffer) (call : Call) (calls : List Call) :
    appendAll buffer (call :: calls) = appendAll (call.run buffer).2 calls := rfl

theorem appendAll_concat (buffer : Buffer) (calls : List Call) (call : Call) :
    appendAll buffer (calls ++ [call]) = (call.run (appendAll buffer calls)).2 := by
  simp [appendAll]

/-- Behind what it held at first, the buffer holds the packs of the calls that succeeded. -/
theorem toList_appendAll (buffer : Buffer) (calls : List Call) :
    (appendAll buffer calls).toList = buffer.toList ++ (packs calls).flatMap Array.toList := by
  -- The buffer grows with every call that succeeds, so it is not fixed in the induction.
  induction calls generalizing buffer with
  | nil => simp [appendAll, packs]
  | cons call calls ih =>
    rw [appendAll_cons, ih]
    rcases call.run_cases with ⟨pack, events, hpack, hrun⟩ | ⟨error, events, hpack, hrun⟩
    · have hpacks : packs (call :: calls) = pack :: packs calls := by
        simp [packs, hpack, Except.toOption]
      rw [hpacks, hrun, Array.toList_append, List.flatMap_cons, List.append_assoc]
    · have hpacks : packs (call :: calls) = packs calls := by
        simp [packs, hpack, Except.toOption]
      rw [hpacks, hrun]

/-- **Appending is atomic.** In any sequence of calls on one buffer, with any limits, a
    call comes to what it would have come to on an empty buffer. One that fails leaves the
    buffer as it was before that call; one that succeeds appends the pack that its value
    has by itself, and nothing else. So in the end the buffer holds what it held at first,
    followed by the packs of the calls that succeeded, in order. -/
theorem appendAll_atomic (buffer : Buffer) (calls : List Call) :
    (∀ done call todo, calls = done ++ call :: todo →
      let held := appendAll buffer done
      let next := appendAll buffer (done ++ [call])
      (call.run held).1 = (call.run #[]).1 ∧
      (∀ error, (call.run held).1.result = .error error → next = held) ∧
      ((call.run held).1.result = .ok () →
        ∃ pack, (call.encoder.marshal call.value).result = .ok pack ∧ next = held ++ pack)) ∧
    (appendAll buffer calls).toList = buffer.toList ++ (packs calls).flatMap Array.toList := by
  refine ⟨?_, toList_appendAll buffer calls⟩
  intro done call todo _ held next
  -- What comes after the call is not part of what the call leaves.
  have hnext : next = (call.run held).2 := appendAll_concat buffer done call
  rw [hnext]
  rcases call.run_cases with ⟨pack, events, hpack, hrun⟩ | ⟨error, events, hpack, hrun⟩
  · rw [hrun held, hrun #[]]
    refine ⟨rfl, ?_, ?_⟩
    · intro error herror
      cases herror
    · intro _
      exact ⟨pack, hpack, rfl⟩
  · rw [hrun held, hrun #[]]
    refine ⟨rfl, ?_, ?_⟩
    · intro error' _
      rfl
    · intro hok
      cases hok

/-- Between two packs two calls fail: on a root that is no map, and on an array nested
    too deeply behind a member that was already written. -/
example :
    appendAll #[1, 2] [⟨⟨1⟩, .map []⟩, ⟨⟨1⟩, .scalar .null⟩,
        ⟨⟨1⟩, .map [("a", .scalar .null), ("b", .array [])]⟩, ⟨⟨2⟩, .map [("b", .array [])]⟩]
      = #[1, 2, 0x90, 0, 4, 0, 0, 0, 0,
          0x90, 0, 13, 1, 0, 0, 0, 0xA0, 2, 4, 0x62, 0, 0, 0, 0, 0] := by
  decide +kernel

end Encoder

end BinaryPack
