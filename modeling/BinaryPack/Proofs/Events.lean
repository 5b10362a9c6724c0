import BinaryPack.Proofs.Item.Losses
import BinaryPack.Proofs.Truncation

/-! # Events of a decoding run

  A run reports at most three things, in this order: that bytes after the root are ignored;
  which members were lost in the root; and how the run ended (`Decoder.Report`).

  Bytes are ignored before the root is bound, so this is reported of roots of any type, also
  if the run is going to fail. Losses are reported while the root is bound. Since an item
  that was read is always bound, a run that fails has not come to that, and reports none.
-/

namespace BinaryPack

/-- Whether an event reports that a member was lost. -/
def Event.isLoss : Event → Bool
  | .duplicateKey .. => true
  | _ => false

namespace Item

theorem isLoss_of_mem_loss {earlier : List Item} {item : Item} {event : Event}
    (h : event ∈ loss earlier item) : event.isLoss := by
  unfold loss at h
  split at h
  · rw [List.mem_singleton.mp h]
    rfl
  · cases h

mutual

theorem isLoss_of_mem_lost : ∀ {item : Item} {event : Event}, event ∈ item.lost → event.isLoss
  | ⟨tag, name, data, children⟩, event, h => by
    unfold lost at h
    split at h
    · exact isLoss_of_mem_lostAmong h
    · exact isLoss_of_mem_lostBelow h
    · cases h

theorem isLoss_of_mem_lostBelow : ∀ {items : List Item} {event : Event},
    event ∈ lostBelow items → event.isLoss
  | item :: rest, event, h => by
    rw [lostBelow, List.mem_append] at h
    rcases h with hitem | hrest
    · exact isLoss_of_mem_lost hitem
    · exact isLoss_of_mem_lostBelow hrest

theorem isLoss_of_mem_lostAmong : ∀ {items earlier : List Item} {event : Event},
    event ∈ lostAmong earlier items → event.isLoss
  | item :: rest, earlier, event, h => by
    rw [lostAmong, List.mem_append, List.mem_append] at h
    rcases h with (hitem | hloss) | hrest
    · exact isLoss_of_mem_lost hitem
    · exact isLoss_of_mem_loss hloss
    · exact isLoss_of_mem_lostAmong hrest

end

end Item

namespace Decoder

/-! ### Bytes that are ignored -/

/-- A run that passes the checks made before reading, and reads a root of whatever type. -/
structure ReadsRoot (d : Decoder) (buffer : Bytes) (root : Item) (stop : Nat) : Prop where
  /-- The buffer is not too short. -/
  length : leastLength ≤ buffer.length
  /-- The buffer is not too long. -/
  limit : d.WithinLimit buffer
  /-- The buffer is not of the first version. -/
  version : ¬ firstVersionMagic <+: buffer
  /-- The reader takes the root. -/
  read : Item.read d.maxDepth buffer 0 = .ok (root, stop)

/-- A run that finds bytes after its root, and is allowed to ignore them. -/
structure Ignores (d : Decoder) (buffer : Bytes) (root : Item) (stop : Nat) : Prop where
  /-- The root is read. -/
  root : d.ReadsRoot buffer root stop
  /-- Bytes after the root may be there. -/
  allowed : d.allowTrailing
  /-- The root ends before the buffer does. -/
  trailing : stop ≠ buffer.length

/-! ### The report of a run -/

/-- The events of a run, in three parts. -/
structure Report (d : Decoder) (buffer : Bytes) (ignored lost : List Event) (closing : Event) :
    Prop where
  /-- The parts stand in this order. -/
  events : (d.decode buffer).events = ignored ++ lost ++ [closing]
  /-- Bytes that are ignored are counted. -/
  ignores : ∀ root stop, d.Ignores buffer root stop →
    ignored = [.trailing (buffer.length - stop)]
  /-- Without such bytes there is no such event. -/
  ignores_none : (¬ ∃ root stop, d.Ignores buffer root stop) → ignored = []
  /-- A run that succeeds reports what was lost in its root, and how many keys there are. -/
  accepted : ∀ members, (d.decode buffer).result = .ok members →
    ∃ root stop, d.Accepts buffer root stop ∧ lost = root.lost ∧
      closing = .decoded buffer.length members.keys.length ∧ members.Distinct
  /-- A run that fails reports no loss, and its error. -/
  rejected : ∀ error, (d.decode buffer).result = .error error →
    lost = [] ∧ closing = .rejected error buffer.length

/-! ### Events while the root is decoded -/

theorem events_checkTrailing (d : Decoder) (count : Nat) :
    (d.checkTrailing count).events =
      if d.allowTrailing ∧ count ≠ 0 then [.trailing count] else [] := by
  by_cases hcount : count = 0
  · simp [checkTrailing, hcount]
  · cases hallow : d.allowTrailing <;> simp [checkTrailing, hcount, hallow]

theorem ReadsRoot.refusal?_eq {d : Decoder} {buffer : Bytes} {root : Item} {stop : Nat}
    (h : d.ReadsRoot buffer root stop) : d.refusal? buffer = none :=
  (refusal?_eq_none_iff d buffer).mpr ⟨h.length, h.limit, h.version⟩

/-- A run that reads no root reports nothing before its end. -/
theorem events_decodeRoot_of_unread {d : Decoder} {buffer : Bytes}
    (h : ¬ ∃ root stop, d.ReadsRoot buffer root stop) : (d.decodeRoot buffer).events = [] := by
  unfold decodeRoot
  split
  · rfl
  · next hrefusal =>
    have hnone := Option.eq_none_iff_forall_ne_some.mpr hrefusal
    obtain ⟨hlength, hlimit, hversion⟩ := (refusal?_eq_none_iff d buffer).mp hnone
    cases hread : Item.read d.maxDepth buffer 0 with
    | error cause => rfl
    | ok found => exact absurd ⟨found.1, found.2, hlength, hlimit, hversion, hread⟩ h

/-- A run that reads a root reports the bytes it ignores, and, if it succeeds, the losses in
    the root. -/
theorem ReadsRoot.events_decodeRoot {d : Decoder} {buffer : Bytes} {root : Item} {stop : Nat}
    (h : d.ReadsRoot buffer root stop) :
    (d.decodeRoot buffer).events = (d.checkTrailing (buffer.length - stop)).events ++
      match (d.decodeRoot buffer).result with
      | .ok _ => root.lost
      | .error _ => [] := by
  have hread : (Logged.ofExcept ((Item.read d.maxDepth buffer 0).mapError InvalidPack.read)).result
      = .ok (root, stop) := by
    rw [Logged.result_ofExcept, h.read]
    rfl
  unfold decodeRoot
  rw [h.refusal?_eq]
  dsimp only
  rw [Logged.bind_of_ok hread]
  dsimp only [Logged.events_ofExcept, List.nil_append]
  cases htrailing : (d.checkTrailing (buffer.length - stop)).result with
  | error cause =>
    rw [Logged.bind_of_error htrailing]
    simp
  | ok u =>
    rw [Logged.bind_of_ok htrailing]
    dsimp only
    congr 1
    split
    · next htype =>
      obtain ⟨hvalid, -, -⟩ := Item.valid_of_read h.read
      obtain ⟨members, hbind⟩ := Item.bindObject_total (Item.bindable_of_valid hvalid)
      rw [Logged.events_mapError, Logged.result_mapError, hbind]
      exact Item.events_bindObject htype hbind
    · rfl

/-! ### Events of a whole run -/

theorem Accepts.readsRoot {d : Decoder} {buffer : Bytes} {root : Item} {stop : Nat}
    (h : d.Accepts buffer root stop) : d.ReadsRoot buffer root stop := by
  obtain ⟨hlength, hversion⟩ := refusal?_of_object h.read h.object
  exact ⟨hlength, h.limit, hversion, h.read⟩

/-- A run reads one root at most. -/
theorem ReadsRoot.unique {d : Decoder} {buffer : Bytes} {root root' : Item} {stop stop' : Nat}
    (h : d.ReadsRoot buffer root stop) (h' : d.ReadsRoot buffer root' stop') :
    root = root' ∧ stop = stop' := by
  have hread := h.read
  rw [h'.read] at hread
  cases hread
  exact ⟨rfl, rfl⟩

/-- A run closes with the number of keys of its map, or with its error. -/
theorem events_decode (d : Decoder) (buffer : Bytes) :
    (d.decode buffer).events = (d.decodeRoot buffer).events ++
      [closingEvent buffer.length (d.decode buffer).result] := rfl

/-- The decoded map holds no key twice, whatever names its pack has. -/
theorem distinct_of_decode {d : Decoder} {buffer : Bytes} {members : Members Value}
    (h : (d.decode buffer).result = .ok members) : members.Distinct := by
  obtain ⟨root, stop, haccepts, hbind⟩ := (result_decode_eq_ok_iff d buffer members).mp h
  exact (Item.distinct_of_bind (Item.bind_of_bindObject haccepts.object hbind)).1

/-- A run that reads no root reports its error alone. -/
theorem report_of_unread {d : Decoder} {buffer : Bytes}
    (h : ¬ ∃ root stop, d.ReadsRoot buffer root stop) :
    d.Report buffer [] [] (closingEvent buffer.length (d.decode buffer).result) where
  events := by
    rw [events_decode, events_decodeRoot_of_unread h]
    rfl
  ignores := by
    intro root stop hignores
    exact absurd ⟨root, stop, hignores.root⟩ h
  ignores_none := fun _ => rfl
  accepted := by
    intro members hresult
    obtain ⟨root, stop, haccepts, -⟩ := (result_decode_eq_ok_iff d buffer members).mp hresult
    exact absurd ⟨root, stop, haccepts.readsRoot⟩ h
  rejected := by
    intro error hresult
    rw [hresult]
    exact ⟨rfl, rfl⟩

/-- A run that reads a root reports the bytes that it ignores after the root, and the losses
    in the root unless it fails. -/
theorem ReadsRoot.report {d : Decoder} {buffer : Bytes} {root : Item} {stop : Nat}
    (h : d.ReadsRoot buffer root stop) :
    d.Report buffer (d.checkTrailing (buffer.length - stop)).events
      (match (d.decodeRoot buffer).result with
        | .ok _ => root.lost
        | .error _ => [])
      (closingEvent buffer.length (d.decode buffer).result) where
  events := by
    rw [events_decode, h.events_decodeRoot]
  ignores := by
    intro root' stop' hignores
    obtain ⟨-, rfl⟩ := h.unique hignores.root
    have hstop := (Item.valid_of_read h.read).2.2.2.1
    have htrailing := hignores.trailing
    rw [events_checkTrailing, if_pos ⟨hignores.allowed, by omega⟩]
  ignores_none := by
    intro hnone
    rw [events_checkTrailing, if_neg]
    intro hignored
    obtain ⟨hallowed, hcount⟩ := hignored
    exact hnone ⟨root, stop, h, hallowed, by omega⟩
  accepted := by
    intro members hresult
    have hdistinct := distinct_of_decode hresult
    obtain ⟨root', stop', haccepts, -⟩ := (result_decode_eq_ok_iff d buffer members).mp hresult
    obtain ⟨rfl, rfl⟩ := h.unique haccepts.readsRoot
    have hroot : (d.decodeRoot buffer).result = .ok members := mapError_eq_ok_iff.mp hresult
    rw [hroot, hresult]
    refine ⟨root, stop, haccepts, rfl, ?_, hdistinct⟩
    rw [closingEvent, Members.keys, List.length_map]
  rejected := by
    intro error hresult
    rw [hresult]
    refine ⟨?_, rfl⟩
    cases hroot : (d.decodeRoot buffer).result with
    | error cause => rfl
    | ok members =>
      have hok : (d.decode buffer).result = .ok members := mapError_eq_ok_iff.mpr hroot
      rw [hok] at hresult
      cases hresult

theorem exists_report (d : Decoder) (buffer : Bytes) :
    ∃ ignored lost closing, d.Report buffer ignored lost closing := by
  by_cases hroot : ∃ root stop, d.ReadsRoot buffer root stop
  · obtain ⟨root, stop, h⟩ := hroot
    exact ⟨_, _, _, h.report⟩
  · exact ⟨_, _, _, report_of_unread hroot⟩

/-- What is ignored is not a lost member. -/
theorem Report.countP_ignored {d : Decoder} {buffer : Bytes} {ignored lost : List Event}
    {closing : Event} (h : d.Report buffer ignored lost closing) :
    ignored.countP Event.isLoss = 0 := by
  by_cases hignores : ∃ root stop, d.Ignores buffer root stop
  · obtain ⟨root, stop, hroot⟩ := hignores
    rw [h.ignores root stop hroot]
    rfl
  · rw [h.ignores_none hignores]
    rfl

/-- **The events of a decoding run.** A run reports first, and only if it has passed the
    checks before reading, has read its root, and may ignore the bytes after it, how many
    of them there are; then, if it succeeds, the losses in the root, the ones within a child
    before the one that the child brings about; and last how it has ended. So a run that
    fails reports no loss. A run that succeeds reports as many as the objects of its pack,
    at all depths, have children more than they have keys. -/
theorem decode_events (d : Decoder) (buffer : Bytes) :
    (∃ ignored lost closing, d.Report buffer ignored lost closing) ∧
    (∀ error, (d.decode buffer).result = .error error →
      ∀ event ∈ (d.decode buffer).events, event.isLoss = false) ∧
    (∀ members, (d.decode buffer).result = .ok members →
      ∃ root stop, d.Accepts buffer root stop ∧
        (d.decode buffer).events.countP Event.isLoss = Item.surplusOf root.subitems) := by
  obtain ⟨ignored, lost, closing, hreport⟩ := d.exists_report buffer
  have hignored := hreport.countP_ignored
  refine ⟨⟨ignored, lost, closing, hreport⟩, ?_, ?_⟩
  · intro error hresult
    obtain ⟨rfl, rfl⟩ := hreport.rejected error hresult
    have hcount : (d.decode buffer).events.countP Event.isLoss = 0 := by
      rw [hreport.events, List.countP_append, List.countP_append, hignored]
      rfl
    intro event hevent
    have hnot := List.countP_eq_zero.mp hcount event hevent
    exact Bool.eq_false_iff.mpr hnot
  · intro members hresult
    obtain ⟨root, stop, haccepts, rfl, rfl, -⟩ := hreport.accepted members hresult
    obtain ⟨hvalid, -, -⟩ := Item.valid_of_read haccepts.read
    have hlost : root.lost.countP Event.isLoss = root.lost.length :=
      List.countP_eq_length.mpr fun event hevent => Item.isLoss_of_mem_lost hevent
    refine ⟨root, stop, haccepts, ?_⟩
    rw [hreport.events, List.countP_append, List.countP_append, hignored, hlost,
      Item.length_lost hvalid]
    rw [List.countP_singleton, Nat.zero_add]
    rfl

/-- A member that is lost within a map, the map itself, and a byte after the root. -/
example :
    let buffer : Bytes := [0x90, 0, 26, 2, 0, 0, 0, 0x90, 2, 13, 0x6B, 0, 2, 0, 0, 0, 0x21, 1, 0x61,
      5, 0x31, 2, 0x61, 0, 1, 0x61, 1, 0x6B, 0, 7]
    (Decoder.decode {} buffer).events = [.trailing 1, .duplicateKey "a" "uint8",
      .duplicateKey "k" "map", .decoded 30 1] := by
  decide +kernel

end Decoder

end BinaryPack
