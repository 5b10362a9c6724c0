import BinaryPack.Proofs.Traversal

/-! # Loops over containers

  An answer counts only if nothing is left of the container, so a visit succeeds just when
  the consumer answers with nothing left (`visitArray_eq_ok_iff`). A loop that goes on until
  nothing is left either takes every part or ends with the mismatch of the first part that
  is refused. So what it makes of a container is a run along the list of its parts
  (`visitArray_each`, `visitMap_each`), and it never leaves anything behind an answer.
-/

namespace BinaryPack

variable {κ ι α β σ : Type}

/-! ### Visits -/

theorem visitArray_eq_ok_iff {items : List ι} {consumer : ArrayPull ι β items.length} {x : β} :
    visitArray items consumer = .ok x ↔ consumer.run some items rfl = (.ok x, []) := by
  unfold visitArray
  constructor
  · intro h
    split at h
    · next answer hrun =>
      cases h
      exact hrun
    · cases h
    · cases h
  · intro h
    rw [h]

/-- A consumer that goes on with a result answers just when the result holds something. -/
theorem ArrayPull.run_proceed_eq_ok_iff {hint : Nat → Option Nat} {n : Nat}
    {result : Except Mismatch α} {next : α → ArrayPull ι β n} {items rest : List ι}
    {h : items.length = n} {x : β} :
    (proceed result next).run hint items h = (.ok x, rest) ↔
      ∃ a, result = .ok a ∧ (next a).run hint items h = (.ok x, rest) := by
  cases result with
  | error mismatch => simp [proceed, run]
  | ok a => simp [proceed]

/-! ### Loops over arrays -/

namespace ArrayPull

variable (hint : Nat → Option Nat) (read : ι → Except Mismatch α) (finish : List α → β)

/-- A loop takes every element, or ends with the mismatch of the first that is refused. -/
theorem run_each (items : List ι) {n : Nat} (h : items.length = n) (done : Array α) :
    (∃ xs, items.mapM read = .ok xs ∧
      (each read finish done n).run hint items h = (.ok (finish (done.toList ++ xs)), [])) ∨
    ∃ mismatch rest, items.mapM read = .error mismatch ∧
      (each read finish done n).run hint items h = (.error mismatch, rest) := by
  induction items generalizing n done with
  | nil =>
    subst h
    refine .inl ⟨[], rfl, ?_⟩
    rw [List.append_nil]
    rfl
  | cons item items ih =>
    subst h
    rw [List.mapM_cons]
    cases hread : read item with
    | error mismatch =>
      refine .inr ⟨mismatch, items, rfl, ?_⟩
      simp only [List.length_cons, each, run, proceed, hread]
    | ok a =>
      -- The element joins those read already, and the loop goes on with one less.
      obtain ⟨xs, hxs, hrun⟩ | ⟨mismatch, rest, hmismatch, hrun⟩ := ih rfl (done.push a)
      · refine .inl ⟨a :: xs, by rw [hxs]; rfl, ?_⟩
        simp only [List.length_cons, each, run, proceed, hread, hrun, Array.toList_push,
          List.append_assoc, List.singleton_append]
      · refine .inr ⟨mismatch, rest, by rw [hmismatch]; rfl, ?_⟩
        simp only [List.length_cons, each, run, proceed, hread, hrun]

variable {hint read finish}

/-- What a loop that starts with nothing makes of the elements is a run along them. -/
theorem fst_run_collect (items : List ι) {n : Nat} (h : items.length = n) :
    ((collect read finish n).run hint items h).1 = (items.mapM read).map finish := by
  show ((each read finish #[] n).run hint items h).1 = _
  obtain ⟨xs, hxs, hrun⟩ | ⟨mismatch, rest, hmismatch, hrun⟩ :=
    run_each hint read finish items h #[]
  · rw [hxs, hrun]
    rfl
  · rw [hmismatch, hrun]
    rfl

end ArrayPull

theorem visitArray_each (read : ι → Except Mismatch α) (finish : List α → β) (items : List ι) :
    visitArray items (.each read finish #[] _) = (items.mapM read).map finish := by
  unfold visitArray
  obtain ⟨xs, hxs, hrun⟩ | ⟨mismatch, rest, hmismatch, hrun⟩ :=
    ArrayPull.run_each some read finish items rfl #[]
  · rw [hxs, hrun]
    rfl
  · rw [hmismatch, hrun]
    rfl

theorem visitArray_collect (read : ι → Except Mismatch α) (finish : List α → β) (items : List ι) :
    visitArray items (.collect read finish _) = (items.mapM read).map finish :=
  visitArray_each read finish items

/-! ### Loops over maps -/

namespace MapPull

variable (hint : Nat → Option Nat) (readKey : κ → Except Mismatch α)
  (put : σ → α → ι → Except Mismatch σ) (finish : σ → Except Mismatch β)

/-- What a loop makes of one entry: it reads the key, and puts the entry into the state. -/
def putEntry (state : σ) (entry : κ × ι) : Except Mismatch σ :=
  readKey entry.1 >>= fun key => put state key entry.2

/-- A loop takes every entry, or ends with the mismatch of the first that is refused. -/
theorem run_each (entries : List (κ × ι)) {n : Nat} (h : entries.length = n)
    (pending : Option ι) (state : σ) :
    (∃ last, entries.foldlM (putEntry readKey put) state = .ok last ∧
      (each readKey put finish state n).run hint entries h pending = (finish last, [])) ∨
    ∃ mismatch rest, entries.foldlM (putEntry readKey put) state = .error mismatch ∧
      (each readKey put finish state n).run hint entries h pending = (.error mismatch, rest) := by
  induction entries generalizing n pending state with
  | nil =>
    subst h
    exact .inl ⟨state, rfl, rfl⟩
  | cons entry entries ih =>
    obtain ⟨key, value⟩ := entry
    subst h
    rw [List.foldlM_cons, putEntry]
    cases hkey : readKey key with
    | error mismatch =>
      refine .inr ⟨mismatch, entries, rfl, ?_⟩
      simp only [List.length_cons, each, run, proceed, hkey]
    | ok a =>
      cases hput : put state a value with
      | error mismatch =>
        refine .inr ⟨mismatch, entries, ?_, ?_⟩
        · simp only [bind, Except.bind, hput]
        · simp only [List.length_cons, each, run, proceed, hkey, Except.bind, hput]
      | ok next =>
        -- The value has been asked for, so none waits when the loop goes on.
        obtain ⟨last, hlast, hrun⟩ | ⟨mismatch, rest, hmismatch, hrun⟩ := ih rfl none next
        · refine .inl ⟨last, ?_, ?_⟩
          · simp only [bind, Except.bind, hput]
            exact hlast
          · simp only [List.length_cons, each, run, proceed, hkey, Except.bind, hput, hrun]
        · refine .inr ⟨mismatch, rest, ?_, ?_⟩
          · simp only [bind, Except.bind, hput]
            exact hmismatch
          · simp only [List.length_cons, each, run, proceed, hkey, Except.bind, hput, hrun]

/-- What a loop makes of the entries is a run along them. -/
theorem fst_run_each (entries : List (κ × ι)) {n : Nat} (h : entries.length = n) (state : σ) :
    ((each readKey put finish state n).run hint entries h none).1 =
      entries.foldlM (putEntry readKey put) state >>= finish := by
  obtain ⟨last, hlast, hrun⟩ | ⟨mismatch, rest, hmismatch, hrun⟩ :=
    run_each hint readKey put finish entries h none state
  · rw [hlast, hrun]
    rfl
  · rw [hmismatch, hrun]
    rfl

end MapPull

theorem visitMap_each (readKey : String → Except Mismatch α) (put : σ → α → ι → Except Mismatch σ)
    (finish : σ → Except Mismatch β) (state : σ) (entries : Members ι) :
    visitMap entries (.each readKey put finish state _) =
      entries.foldlM (MapPull.putEntry readKey put) state >>= finish := by
  unfold visitMap
  obtain ⟨last, hlast, hrun⟩ | ⟨mismatch, rest, hmismatch, hrun⟩ :=
    MapPull.run_each some readKey put finish entries rfl none state
  · rw [hlast, hrun]
    -- Nothing is left, so it is the answer alone that counts.
    show _ = finish last
    cases finish last <;> rfl
  · rw [hmismatch, hrun]
    rfl

end BinaryPack
