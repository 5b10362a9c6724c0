import BinaryPack.Datum.Conversion
import BinaryPack.Proofs.Access

/-! # Reading any value

  A scalar is handed over, shown, converted and taken by four tables, which agree row by
  row: what a scalar is handed over as is converted back to it, and what it is shown as is
  taken for it (`Scalar.converted_handed`, `Scalar.taken_shown`).

  A reader of any value makes an array of all elements, and a map of all entries in their
  order. How many of them it is told of makes no difference (`Value.fst_run_ofElements`,
  `Value.fst_run_ofEntries`).
-/

namespace BinaryPack

/-! ### Primitives -/

/-- A scalar that is handed over is converted to itself. -/
theorem Scalar.converted_handed (s : Scalar) : s.handed.converted = s := by
  cases s <;> rfl

/-- A scalar that is shown is taken for itself. -/
theorem Scalar.taken_shown (s : Scalar) : s.shown.taken = s := by
  cases s <;> rfl

/-- A scalar that is handed over is taken for itself. -/
theorem Scalar.taken_handed (s : Scalar) : s.handed.taken = s := by
  cases s <;> rfl

/-- A primitive is converted to the scalar that it is taken for. -/
theorem Primitive.converted_eq_taken (p : Primitive) : p.converted = p.taken := by
  cases p <;> rfl

/-! ### Parts -/

namespace Value

variable {κ ι : Type} {hint : Nat → Option Nat} {readKey : κ → Except Mismatch String}
  {read : ι → Except Mismatch Value}

/-- An entry whose parts are read joins the members. -/
theorem putEntry_of_eq_ok {key : κ} {text : String} {held : ι} {v : Value}
    (hkey : readKey key = .ok text) (hheld : read held = .ok v) (members : Members Value) :
    MapPull.putEntry readKey (putMember read) members (key, held) =
      .ok (members.insert text v) := by
  rw [MapPull.putEntry, hkey]
  show (read held).map _ = _
  rw [hheld]
  rfl

theorem fst_run_ofElements (items : List ι) {n : Nat} (h : items.length = n) :
    ((ofElements read n).run hint items h).1 = (items.mapM read).map Value.array :=
  ArrayPull.fst_run_collect items h

theorem visitArray_ofElements (items : List ι) :
    visitArray items (ofElements read _) = (items.mapM read).map Value.array :=
  visitArray_collect read Value.array items

theorem fst_run_ofEntries (entries : List (κ × ι)) {n : Nat} (h : entries.length = n) :
    ((ofEntries readKey read n).run hint entries h none).1 =
      (entries.foldlM (MapPull.putEntry readKey (putMember read)) []).map Value.map := by
  have hrun := MapPull.fst_run_each hint readKey (putMember read)
    (fun members => .ok (Value.map members)) entries h []
  exact hrun.trans (bind_pure_comp Value.map _)

theorem visitMap_ofEntries {readKey : String → Except Mismatch String} (entries : Members ι) :
    visitMap entries (ofEntries readKey read _) =
      (entries.foldlM (MapPull.putEntry readKey (putMember read)) []).map Value.map := by
  have hvisit := visitMap_each readKey (putMember read) (fun members => .ok (Value.map members)) []
    entries
  exact hvisit.trans (bind_pure_comp Value.map _)

end Value

end BinaryPack
