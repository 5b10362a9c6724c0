import BinaryPack.Proofs.Outcome
import BinaryPack.Schema.Reading
import Mathlib.Data.List.Forall2

/-! # Runs along a list

  A list that is converted or read element by element gives a list of results, one for each
  element, and succeeds just when all elements do (`mapM_eq_ok_iff`). The readers of the
  parts of a value are made in such a run as well, in one that never fails.
-/

namespace BinaryPack

variable {ε α β : Type}

/-- A run along a list succeeds just when every step does. -/
theorem mapM_eq_ok_iff {f : α → Except ε β} {xs : List α} {ys : List β} :
    xs.mapM f = .ok ys ↔ List.Forall₂ (fun x y => f x = .ok y) xs ys := by
  induction xs generalizing ys with
  | nil =>
    rw [List.mapM_nil, List.forall₂_nil_left_iff]
    constructor
    · intro h
      cases h
      rfl
    · intro h
      rw [h]
      rfl
  | cons x xs ih =>
    simp only [List.mapM_cons, bind_eq_ok_iff, List.forall₂_cons_left_iff]
    constructor
    · intro h
      obtain ⟨y, hy, ys', hys, hpure⟩ := h
      cases hpure
      exact ⟨y, ys', hy, ih.mp hys, rfl⟩
    · intro h
      obtain ⟨y, ys', hy, hys, rfl⟩ := h
      exact ⟨y, hy, ys', ih.mpr hys, rfl⟩

/-! ### Readers of parts -/

variable {ν : Type} (declarations : ν → Declaration ν)

theorem Schema.itemReaders_eq_map (items : List Value) :
    itemReaders declarations items = items.map (reader declarations) := by
  induction items with
  | nil => rfl
  | cons item rest ih => rw [itemReaders, List.map_cons, ih]

theorem Schema.memberReaders_eq_map (members : List (String × Value)) :
    memberReaders declarations members = members.map (Prod.map id (reader declarations)) := by
  induction members with
  | nil => rfl
  | cons member rest ih =>
    rw [memberReaders, List.map_cons, ih]
    rfl

end BinaryPack
