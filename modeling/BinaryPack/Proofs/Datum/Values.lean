import BinaryPack.Proofs.Datum.Conversion
import BinaryPack.Proofs.Datum.Packing
import BinaryPack.Proofs.Schema.Access
import BinaryPack.Proofs.Value.Visit

/-! # Values as host data

  A value is host data itself: it hands over what it holds, part by part, and whoever reads
  any value takes what a value shows, part by part. Both ways keep a value as it is
  (`Value.toDatum_lossless`), since each scalar goes under its own type, each item in its
  place, and each member under its own key. Only a map that held a key twice would lose
  something, and there is none.

  Each proof follows the value. What a loop makes of the parts is a run along them, and in
  the run every part comes back as it was.
-/

namespace BinaryPack

/-! ### Handing over -/

namespace Value

mutual

/-- A value that is handed over is converted to the same value. -/
theorem toValue_toDatum : ∀ {v : Value}, v.Distinct → v.toDatum.toValue = .ok v
  | .scalar s, _ => by
    rw [toDatum, Datum.toValue, s.converted_handed]
  | .array items, h => by
    rw [toDatum, Datum.toValue_seq, mapM_toValue_itemsToData h]
    rfl
  | .map members, h => by
    rw [toDatum, Datum.toValue, stepValues_membersToSteps h.2, MapBuilder.run_entryStep h.1]
    rfl

theorem mapM_toValue_itemsToData : ∀ {items : List Value}, DistinctItems items →
    (itemsToData items).mapM Datum.toValue = .ok items
  | [], _ => rfl
  | item :: rest, h => by
    rw [itemsToData, List.mapM_cons, toValue_toDatum h.1, mapM_toValue_itemsToData h.2]
    rfl

theorem stepValues_membersToSteps : ∀ {members : List (String × Value)}, DistinctMembers members →
    Datum.stepValues (membersToSteps members) = members.map MapBuilder.entryStep
  | [], _ => rfl
  | (key, held) :: rest, h => by
    rw [membersToSteps, Datum.stepValues, toValue_toDatum h.1, stepValues_membersToSteps h.2]
    rfl

end

/-! ### Taking back -/

mutual

/-- A value that is handed over is read as the same value. -/
theorem readValue_toDatum : ∀ {v : Value}, v.Distinct → v.toDatum.readValue = .ok v
  | .scalar s, _ => by
    rw [toDatum, Datum.readValue, s.taken_handed]
  | .array items, h => by
    rw [toDatum, Datum.readValue, Datum.readArray, fst_run_ofElements, mapM_readItems h]
    rfl
  | .map members, h => by
    -- No key overwrites another one.
    have hown : Members.insertAll [] members = members := Members.ofList_of_distinct h.1
    rw [toDatum, Datum.readValue, Datum.readMap, fst_run_ofEntries, foldlM_readSteps h.2, hown]
    rfl

theorem mapM_readItems : ∀ {items : List Value}, DistinctItems items →
    (Datum.readItems (itemsToData items)).mapM id = .ok items
  | [], _ => rfl
  | item :: rest, h => by
    rw [itemsToData, Datum.readItems, List.mapM_cons, readValue_toDatum h.1, mapM_readItems h.2]
    rfl

theorem foldlM_readSteps : ∀ {members : List (String × Value)}, DistinctMembers members →
    ∀ before : Members Value, (Datum.readSteps (membersToSteps members)).foldlM
      (MapPull.putEntry id (putMember id)) before = .ok (before.insertAll members)
  | [], _, _ => rfl
  | (key, held) :: rest, h, before => by
    rw [membersToSteps, Datum.readSteps, readValue_toDatum h.1]
    exact foldlM_readSteps h.2 (before.insert key held)

end

end Value

/-! ### Reading any value -/

namespace Schema

variable {ν : Type} (declarations : ν → Declaration ν)

mutual

/-- Read as any value, a value is itself. -/
theorem any_reader : ∀ {v : Value}, v.Distinct → (reader declarations v).any = .ok v
  | .scalar s, _ => by
    rw [reader, respond, Visit.readAny, s.taken_shown]
  | .array items, h => by
    rw [reader, respond, Visit.readAny, Value.visitArray_ofElements, mapM_any_itemReaders h]
    rfl
  | .map members, h => by
    have hown : Members.insertAll [] members = members := Members.ofList_of_distinct h.1
    rw [reader, respond, Visit.readAny, Value.visitMap_ofEntries, foldlM_any_memberReaders h.2,
      hown]
    rfl

theorem mapM_any_itemReaders : ∀ {items : List Value}, Value.DistinctItems items →
    (itemReaders declarations items).mapM Reader.any = .ok items
  | [], _ => rfl
  | item :: rest, h => by
    rw [itemReaders, List.mapM_cons, any_reader h.1, mapM_any_itemReaders h.2]
    rfl

theorem foldlM_any_memberReaders : ∀ {members : List (String × Value)},
    Value.DistinctMembers members → ∀ before : Members Value,
      (memberReaders declarations members).foldlM
        (MapPull.putEntry .ok (Value.putMember Reader.any)) before = .ok (before.insertAll members)
  | [], _, _ => rfl
  | (key, held) :: rest, h, before => by
    rw [memberReaders, List.foldlM_cons, Value.putEntry_of_eq_ok rfl (any_reader h.1)]
    exact foldlM_any_memberReaders h.2 (before.insert key held)

end

theorem read_value {v : Value} (h : v.Distinct) : read declarations .value v = .ok v.toDatum := by
  have hany := any_reader declarations h
  rw [reader_eq_respond] at hany
  rw [read_eq_answer, answer]
  show (respond declarations v (visitOf declarations v)).any.map _ = _
  rw [hany]
  rfl

end Schema

/-! ### Both ways -/

/-- **A value goes through host data unchanged.** Handing a value over as host data gives
    the same value, bit for bit. Whoever reads any value goes along the parts of what it
    reads, and gets the same value from a value and from data of any other kind that the
    value is handed over as.

    So it is with packs: if a map is written, in any order of its members at every depth,
    and is nested within the usual limit, then the data of the map has the same pack, and
    reading that gives the map back in the order in which it was written. -/
theorem Value.toDatum_lossless {ν : Type} (declarations : ν → Declaration ν) {v : Value}
    (hdistinct : v.Distinct) :
    v.toDatum.toValue = .ok v ∧ (Schema.reader declarations v).any = .ok v ∧
      Schema.fromValue declarations .value v = .ok v.toDatum ∧ v.toDatum.readValue = .ok v ∧
      ∀ (e : Encoder) (order : Members Value) (pack : Buffer), v.Reordered (.map order) →
        (e.marshalMap order).result = .ok pack → v.nesting ≤ defaultDepth →
          (toDatum (.map order)).toPack.result = .ok pack ∧
          (Schema.fromPack declarations .value pack.toList).result
            = .ok (toDatum (.map order)) := by
  refine ⟨toValue_toDatum hdistinct, Schema.any_reader declarations hdistinct, ?_,
    readValue_toDatum hdistinct, ?_⟩
  · rw [Schema.fromValue, Schema.read_value declarations hdistinct]
    rfl
  · intro e order pack horder hmarshal hnesting
    have horder' : Value.Distinct (.map order) := horder.distinct hdistinct
    obtain ⟨⟨hkeys, hlengths, -⟩, hpack⟩ := (Encoder.marshalMap_eq_ok_iff e order pack).mp hmarshal
    rw [horder.nesting_eq] at hnesting
    -- Within the usual limit every encoder that succeeds writes the same bytes.
    have husual : (marshal (.map order)).result = .ok pack := by
      rw [marshal_map]
      exact (Encoder.marshalMap_eq_ok_iff {} order pack).mpr ⟨⟨hkeys, hlengths, hnesting⟩, hpack⟩
    constructor
    · rw [Datum.toPack_of_toValue (toValue_toDatum horder')]
      exact husual
    · rw [Schema.fromPack_of_marshal declarations .value husual horder', Schema.fromValue,
        Schema.read_value declarations horder']
      rfl

/-- A signalling NaN, absent values in an array and a map, and a text beside its own bytes,
    written in another order at both depths. -/
theorem Value.toDatum_lossless_mixed :
    let items : List Value := [.null, .scalar (.raw [0x41]), .scalar (.string "A")]
    let members : Members Value := [("", .array items), ("k", .scalar (.float32 ⟨0x7FA00001⟩)),
      ("m", .map [("w", .scalar (.uint8 1)), ("n", .null)])]
    let order : Members Value := [("m", .map [("n", .null), ("w", .scalar (.uint8 1))]),
      ("k", .scalar (.float32 ⟨0x7FA00001⟩)), ("", .array items)]
    let pack : Buffer := #[0x90, 0, 51, 3, 0, 0, 0, 0x90, 2, 14, 0x6D, 0, 2, 0, 0, 0, 0x61, 2, 0x6E,
      0, 0, 0x21, 2, 0x77, 0, 1, 0x44, 2, 0x6B, 0, 1, 0, 0xA0, 0x7F, 0xA0, 1, 16, 0, 3, 0, 0, 0,
      0x61, 0, 0, 0xE0, 0, 1, 0x41, 0xD0, 0, 2, 0x41, 0]
    (toDatum (.map members)).toValue = .ok (.map members) ∧
      (Schema.reader Empty.elim (.map members)).any = .ok (.map members) ∧
      Schema.fromValue Empty.elim .value (.map members) = .ok (toDatum (.map members)) ∧
      (toDatum (.map order)).toPack.result = .ok pack ∧
      (Schema.fromPack Empty.elim .value pack.toList).result = .ok (toDatum (.map order)) := by
  intro items members order pack
  have hdistinct : Value.Distinct (.map members) := by
    simp [members, items, Value.Distinct, Value.DistinctMembers, Value.DistinctItems,
      Members.Distinct, Members.keys]
  have horder : Value.Reordered (.map members) (.map order) := by
    have hinner : Value.Reordered (.map [("w", .scalar (.uint8 1)), ("n", .null)])
        (.map [("n", .null), ("w", .scalar (.uint8 1))]) := .map (.swap _ _ [])
    have houter : ReorderedMembers members [members[2], members[1], members[0]] :=
      .of_perm (List.reverse_perm members).symm
    exact .map (houter.trans (.cons hinner (ReorderedMembers.refl _)))
  have hmarshal : (Encoder.marshalMap ⟨2⟩ order).result = .ok pack :=
    (Encoder.marshalMap_eq_ok_iff ⟨2⟩ order pack).mpr (by decide)
  obtain ⟨hvalue, hany, hread, -, hpacks⟩ := toDatum_lossless Empty.elim hdistinct
  obtain ⟨hpack, hback⟩ := hpacks ⟨2⟩ order pack horder hmarshal (by decide)
  exact ⟨hvalue, hany, hread, hpack, hback⟩

end BinaryPack
