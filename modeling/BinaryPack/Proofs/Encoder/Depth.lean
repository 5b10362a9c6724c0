import BinaryPack.Proofs.Encoder.Writing

/-! # Writes within the limit on nesting

  A write that fails names one cause, the first that it meets. A value that is nested
  within the limit may still be refused for its keys or its lengths, but never for its
  depth (`Encoder.marshalMap_ne_tooDeep`), whatever else is wrong with it and wherever.

  The property is one of the causes that a write may have (`Write.FailsOnly`). It holds
  of a sequence of writes when it holds of each, so only the places where a cause is
  thrown are looked at.
-/

namespace BinaryPack

namespace Write

open Value

variable {α β : Type} {P : MarshalError → Prop}

/-- Every error in which a write may end has a property. -/
def FailsOnly (w : Write α) (P : MarshalError → Prop) : Prop :=
  ∀ buffer cause, (w.run.run buffer).1 = .error cause → P cause

/-! ### Causes of single steps -/

/-- A step that always succeeds has no causes. -/
theorem failsOnly_of_ok {w : Write α} (h : ∀ buffer, ∃ a, (w.run.run buffer).1 = .ok a) :
    FailsOnly w P := by
  intro buffer cause herror
  obtain ⟨a, hok⟩ := h buffer
  cases hok.symm.trans herror

theorem failsOnly_pure (a : α) : FailsOnly (pure a) P :=
  failsOnly_of_ok fun _ => ⟨a, rfl⟩

theorem failsOnly_get : FailsOnly get P :=
  failsOnly_of_ok fun buffer => ⟨buffer, rfl⟩

theorem failsOnly_set (buffer : Buffer) : FailsOnly (set buffer) P :=
  failsOnly_of_ok fun _ => ⟨(), rfl⟩

theorem failsOnly_put (bytes : Bytes) : FailsOnly (put bytes) P :=
  failsOnly_of_ok fun _ => ⟨(), rfl⟩

theorem failsOnly_throw {cause : MarshalError} (h : P cause) :
    FailsOnly (throw cause : Write α) P := by
  intro buffer cause' herror
  cases herror
  exact h

theorem FailsOnly.bind {w : Write α} {f : α → Write β} (h : FailsOnly w P)
    (h' : ∀ a, FailsOnly (f a) P) : FailsOnly (w >>= f) P := by
  intro buffer cause herror
  rw [run_bind] at herror
  split at herror
  · next a next hrun => exact h' a next cause herror
  · next cause' next hrun =>
    cases herror
    exact h buffer cause (by rw [hrun])

/-- What is thrown on a condition has the property if the condition is met. -/
theorem FailsOnly.guard {c : Prop} [Decidable c] {cause : MarshalError} {f : β → Write α}
    {w : Write α} (hcause : c → P cause) (h : ¬ c → FailsOnly w P) :
    FailsOnly (if c then throw cause >>= f else w) P := by
  split
  · next hc =>
    -- Nothing runs after a throw.
    have hthrow : (throw cause >>= f) = throw cause := rfl
    rw [hthrow]
    exact failsOnly_throw (hcause hc)
  · next hc => exact h hc

theorem failsOnly_liftM {x : Except MarshalError α} (h : ∀ cause, x = .error cause → P cause) :
    FailsOnly (liftM x) P := by
  intro buffer cause herror
  cases x with
  | ok a => cases herror
  | error cause' =>
    cases herror
    exact h cause rfl

/-! ### Depth -/

/-- A name is refused for its length or for its last byte. -/
theorem bytes_ne_tooDeep (name : ItemName) : name.bytes ≠ .error .tooDeep := by
  cases name with
  | unnamed => simp [ItemName.bytes]
  | key text =>
    simp only [ItemName.bytes]
    split
    · simp
    · split
      · split <;> simp
      · simp

theorem failsOnly_name (name : ItemName) : FailsOnly (liftM name.bytes) (· ≠ .tooDeep) := by
  refine failsOnly_liftM ?_
  intro cause herror hdeep
  rw [hdeep] at herror
  exact bytes_ne_tooDeep name herror

/-- Nothing but opening a container looks at the depth. -/
theorem failsOnly_openContainer (type : ItemType) (name : ItemName) (count : Nat) {depth : Nat}
    (hdepth : depth ≠ 0) : FailsOnly (openContainer type name count depth) (· ≠ .tooDeep) := by
  unfold openContainer
  refine .guard (fun hzero => absurd hzero hdepth) fun _ => ?_
  refine .guard (fun _ => by simp) fun _ => ?_
  refine (failsOnly_name name).bind fun bytes => ?_
  refine failsOnly_get.bind fun buffer => ?_
  exact (failsOnly_set _).bind fun _ => failsOnly_pure _

theorem failsOnly_closeContainer (start : Nat) :
    FailsOnly (closeContainer start) (· ≠ .tooDeep) := by
  unfold closeContainer
  refine failsOnly_get.bind fun buffer => ?_
  refine .guard (fun _ => by simp) fun _ => ?_
  exact failsOnly_set _

theorem failsOnly_container (type : ItemType) (name : ItemName) (count : Nat) {depth : Nat}
    {body : Write Unit} (hdepth : depth ≠ 0) (hbody : FailsOnly body (· ≠ .tooDeep)) :
    FailsOnly (container type name count depth body) (· ≠ .tooDeep) := by
  unfold container
  refine (failsOnly_openContainer type name count hdepth).bind fun start => ?_
  exact hbody.bind fun _ => failsOnly_closeContainer start

theorem failsOnly_scalar (name : ItemName) (s : Scalar) :
    FailsOnly (scalar name s) (· ≠ .tooDeep) := by
  unfold scalar
  split
  · refine (failsOnly_name name).bind fun bytes => ?_
    dsimp only
    split
    · exact (failsOnly_put _).bind fun _ => failsOnly_put _
    · refine .guard (fun _ => by simp) fun _ => ?_
      exact (failsOnly_put _).bind fun _ => failsOnly_put _
  · exact (failsOnly_name name).bind fun bytes => failsOnly_put _

mutual

/-- A value that is nested within the limit is not refused for its depth. -/
theorem failsOnly_item (name : ItemName) : ∀ {v : Value} {depth : Nat}, v.nesting ≤ depth →
    FailsOnly (item name v depth) (· ≠ .tooDeep)
  | .scalar s, _, _ => failsOnly_scalar name s
  | .array items, depth, h => by
    have hpos : nestingOfItems items + 1 ≤ depth := h
    have hbody : nestingOfItems items ≤ depth - 1 := Nat.le_sub_one_of_lt hpos
    exact failsOnly_container .array name items.length (Nat.ne_zero_of_lt hpos)
      (failsOnly_elements hbody)
  | .map members, depth, h => by
    have hpos : nestingOfMembers members + 1 ≤ depth := h
    have hbody : nestingOfMembers members ≤ depth - 1 := Nat.le_sub_one_of_lt hpos
    exact failsOnly_container .object name members.length (Nat.ne_zero_of_lt hpos)
      (failsOnly_namedElements hbody)

theorem failsOnly_elements : ∀ {items : List Value} {depth : Nat}, nestingOfItems items ≤ depth →
    FailsOnly (elements items depth) (· ≠ .tooDeep)
  | [], _, _ => failsOnly_pure ()
  | _ :: _, _, h => by
    obtain ⟨hitem, hrest⟩ := Nat.max_le.mp h
    exact (failsOnly_item .unnamed hitem).bind fun _ => failsOnly_elements hrest

theorem failsOnly_namedElements : ∀ {members : List (String × Value)} {depth : Nat},
    nestingOfMembers members ≤ depth → FailsOnly (namedElements members depth) (· ≠ .tooDeep)
  | [], _, _ => failsOnly_pure ()
  | (key, _) :: _, _, h => by
    obtain ⟨hitem, hrest⟩ := Nat.max_le.mp h
    exact (failsOnly_item (.key key) hitem).bind fun _ => failsOnly_namedElements hrest

end

end Write

namespace Encoder

/-- A map that is nested within the limit is not refused for its depth. -/
theorem marshalMap_ne_tooDeep {e : Encoder} {members : Members Value}
    (h : Value.nesting (.map members) ≤ e.maxDepth) :
    (e.marshalMap members).result ≠ .error (.marshal .tooDeep) := by
  have hcauses := Write.failsOnly_item .unnamed h #[]
  unfold marshalMap appendRoot
  split
  · next run buffer hroot =>
    split at hroot
    · cases hroot
      simp [Except.map]
    · next cause written hrun =>
      have hcause := hcauses cause (by rw [hrun])
      cases hroot
      intro hdeep
      cases hdeep
      exact hcause rfl

end Encoder

end BinaryPack
