import BinaryPack.Proofs.Schema.Access
import BinaryPack.Schema.Consumer
import Mathlib.Data.List.Induction

/-! # Visits of any consumer

  A consumer and the container that it visits are the two sides of a dialogue. What the
  consumer makes of the replies is its own affair (`ArrayPull.Concludes`,
  `MapPull.Concludes`). The replies depend only on what is left of the container and, for a
  map, on whether the value of the last key is still to be had (`ArrayReply.Gives`,
  `MapReply.Gives`). A visit is such a dialogue, and every consumer comes to an end with it
  (`ArrayPull.run_eq`, `MapPull.run_eq`).

  What one reply hands out is gone from what is left, so all replies together hand out the
  elements in order, each once. A consumer that ends before has left some, and then its
  answer does not count (`Settles`).
-/

namespace BinaryPack

/-! ### Dialogues -/

/-- Some replies in a row, each of which leads from one state to the next. -/
inductive Along {σ ρ : Type} (gives : σ → ρ → σ → Prop) : σ → List ρ → σ → Prop where
  | nil (s : σ) : Along gives s [] s
  | cons {s s' s'' : σ} {reply : ρ} {replies : List ρ} (h : gives s reply s')
    (hrest : Along gives s' replies s'') : Along gives s (reply :: replies) s''

section

variable {σ ρ : Type} {gives : σ → ρ → σ → Prop} {s s' : σ} {replies : List ρ}

theorem along_append_iff {more : List ρ} :
    Along gives s (replies ++ more) s' ↔
      ∃ between, Along gives s replies between ∧ Along gives between more s' := by
  constructor
  · intro h
    induction replies generalizing s with
    | nil => exact ⟨s, .nil s, h⟩
    | cons reply replies ih =>
      cases h with
      | cons hfirst hrest =>
        obtain ⟨between, hbefore, hmore⟩ := ih hrest
        exact ⟨between, .cons hfirst hbefore, hmore⟩
  · intro h
    obtain ⟨between, hbefore, hmore⟩ := h
    induction hbefore with
    | nil => exact hmore
    | cons hfirst _ ih => exact .cons hfirst (ih hmore)

/-- What every reply keeps is kept along all of them. -/
theorem Along.invariant {P : List ρ → σ → Prop} (h : Along gives s replies s') (hstart : P [] s)
    (hstep : ∀ before t reply t', P before t → gives t reply t' → P (before ++ [reply]) t') :
    P replies s' := by
  -- The invariant speaks of all replies so far, so the last one is taken off.
  induction replies using List.reverseRecOn generalizing s' with
  | nil =>
    cases h
    exact hstart
  | append_singleton replies reply ih =>
    obtain ⟨between, hbefore, hlast⟩ := along_append_iff.mp h
    cases hlast with
    | cons hreply hnil =>
      cases hnil
      exact hstep replies between reply _ (ih hbefore) hreply

end

/-- How a visit turns out when the consumer has ended: its answer counts if it has left
    nothing, and is refused with the full length otherwise. A mismatch of its own stays as
    it is. -/
structure Settles {β : Type} (result : Except Mismatch β) (finished : Prop) (length : Nat)
    (expected : String) (visit : Except Mismatch β) : Prop where
  ok_iff : ∀ x, visit = .ok x ↔ result = .ok x ∧ finished
  unfinished : ∀ x, result = .ok x → ¬ finished → visit = .error (.invalidLength length expected)
  own : ∀ mismatch, result = .error mismatch → visit = .error mismatch

variable {ι β : Type}

/-! ### Arrays -/

/-- What an array replies to a consumer. -/
inductive ArrayReply (ι : Type) where
  /-- How many elements are left. -/
  | left (n : Nat)
  /-- The next element, if there is one. -/
  | next (element : Option ι)

namespace ArrayReply

/-- The elements that a reply hands out. -/
def handed : ArrayReply ι → List ι
  | .left _ => []
  | .next element => element.toList

/-- What an array may reply with some elements left, and what is left then. -/
inductive Gives : List ι → ArrayReply ι → List ι → Prop where
  | left (items : List ι) : Gives items (.left items.length) items
  | next (item : ι) (items : List ι) : Gives (item :: items) (.next (some item)) items
  | past : Gives [] (.next none) []

/-- Elements are handed out in order, each once. -/
theorem handed_append {items rest : List ι} {replies : List (ArrayReply ι)}
    (h : Along Gives items replies rest) : replies.flatMap handed ++ rest = items := by
  induction h with
  | nil => rfl
  | cons hreply _ ih =>
    rw [List.flatMap_cons, List.append_assoc, ih]
    cases hreply with
    | left => rfl
    | next => rfl
    | past => rfl

end ArrayReply

namespace ArrayPull

/-- A consumer that gets some replies ends with a result. -/
inductive Concludes : {n : Nat} → ArrayPull ι β n → List (ArrayReply ι) → Except Mismatch β →
    Prop where
  | answer {n : Nat} (result : Except Mismatch β) :
    Concludes (.answer result : ArrayPull ι β n) [] result
  | left {n : Nat} {next : Option Nat → ArrayPull ι β n} {count : Nat}
    {replies : List (ArrayReply ι)} {result : Except Mismatch β}
    (h : Concludes (next (some count)) replies result) :
    Concludes (.left next) (.left count :: replies) result
  | pull {n : Nat} {next : ι → ArrayPull ι β n} {element : ι} {replies : List (ArrayReply ι)}
    {result : Except Mismatch β} (h : Concludes (next element) replies result) :
    Concludes (.pull next) (.next (some element) :: replies) result
  | pullPast {next : ArrayPull ι β 0} {replies : List (ArrayReply ι)} {result : Except Mismatch β}
    (h : Concludes next replies result) : Concludes (.pullPast next) (.next none :: replies) result

/-- Every consumer comes to an end. -/
theorem exists_dialogue {n : Nat} (consumer : ArrayPull ι β n) (items : List ι)
    (hlength : items.length = n) : ∃ replies result rest, consumer.Concludes replies result ∧
      Along ArrayReply.Gives items replies rest := by
  induction consumer generalizing items with
  | answer result => exact ⟨[], result, items, .answer result, .nil items⟩
  | left next ih =>
    obtain ⟨replies, result, rest, hconcludes, halong⟩ := ih (some items.length) items hlength
    exact ⟨_, result, rest, .left hconcludes, .cons (.left items) halong⟩
  | pull next ih =>
    cases items with
    | nil => cases hlength
    | cons item items =>
      obtain ⟨replies, result, rest, hconcludes, halong⟩ := ih item items (Nat.succ.inj hlength)
      exact ⟨_, result, rest, .pull hconcludes, .cons (.next item items) halong⟩
  | pullPast next ih =>
    cases List.length_eq_zero_iff.mp hlength
    obtain ⟨replies, result, rest, hconcludes, halong⟩ := ih [] rfl
    exact ⟨_, result, rest, .pullPast hconcludes, .cons .past halong⟩

variable {replies : List (ArrayReply ι)} {result : Except Mismatch β} {items rest : List ι}

/-- To run a consumer is to have the dialogue with it. -/
theorem run_eq {n : Nat} {consumer : ArrayPull ι β n}
    (hconcludes : consumer.Concludes replies result)
    (halong : Along ArrayReply.Gives items replies rest) (hlength : items.length = n) :
    consumer.run some items hlength = (result, rest) := by
  -- The consumer leads the dialogue; what it asks for leaves one kind of reply.
  induction hconcludes generalizing items with
  | answer result =>
    cases halong
    rw [run]
  | left _ ih =>
    obtain _ | ⟨hreply, hrest⟩ := halong
    cases hreply
    rw [run]
    exact ih hrest hlength
  | pull _ ih =>
    obtain _ | ⟨hreply, hrest⟩ := halong
    cases hreply
    exact ih hrest (Nat.succ.inj hlength)
  | pullPast _ ih =>
    obtain _ | ⟨hreply, hrest⟩ := halong
    cases hreply
    exact ih hrest rfl

theorem settles {consumer : ArrayPull ι β items.length}
    (hconcludes : consumer.Concludes replies result)
    (halong : Along ArrayReply.Gives items replies rest) :
    Settles result (rest = []) items.length "fewer elements in array"
      (visitArray items consumer) := by
  have hrun := run_eq hconcludes halong rfl
  unfold visitArray
  rw [hrun]
  cases result with
  | error mismatch => exact ⟨by simp, by simp, by simp⟩
  | ok answer => cases rest <;> exact ⟨by simp, by simp, by simp⟩

end ArrayPull

/-! ### Maps -/

/-- What is left of a map in a visit: the entries, and the value of the last key if it has not
    been asked for. -/
structure MapAccess (ι : Type) where
  entries : Members ι
  pending : Option ι

/-- What a map replies to a consumer. -/
inductive MapReply (ι : Type) where
  /-- How many entries are left. -/
  | left (n : Nat)
  /-- The next key, if there is one. -/
  | key (key : Option String)
  /-- A value, or why there is none. -/
  | value (value : Except Mismatch ι)

namespace MapReply

/-- The keys that a reply hands out. -/
def keys : MapReply ι → List String
  | .left _ | .value _ => []
  | .key text => text.toList

/-- What a map may reply in a visit, and what is left then. -/
inductive Gives : MapAccess ι → MapReply ι → MapAccess ι → Prop where
  | left (access : MapAccess ι) : Gives access (.left access.entries.length) access
  | key (key : String) (value : ι) (entries : Members ι) (pending : Option ι) :
    Gives ⟨(key, value) :: entries, pending⟩ (.key (some key)) ⟨entries, some value⟩
  | past (pending : Option ι) : Gives ⟨[], pending⟩ (.key none) ⟨[], pending⟩
  | value (entries : Members ι) (value : ι) :
    Gives ⟨entries, some value⟩ (.value (.ok value)) ⟨entries, none⟩
  | early (entries : Members ι) :
    Gives ⟨entries, none⟩ (.value (.error .valueBeforeKey)) ⟨entries, none⟩

/-- A reply that hands out no key and answers no request for a value. -/
def IsIdle : MapReply ι → Prop
  | .left _ | .key none => True
  | .key (some _) | .value _ => False

/-- A key was handed out after the `earlier` ones of some replies; since then there has been
    no other key, and no request for a value. -/
def Awaits (replies earlier : List (MapReply ι)) (key : String) : Prop :=
  ∃ between, replies = earlier ++ .key (some key) :: between ∧ ∀ reply ∈ between, reply.IsIdle

theorem awaits_concat_iff {replies earlier : List (MapReply ι)} {reply : MapReply ι}
    {key : String} : Awaits (replies ++ [reply]) earlier key ↔
      (earlier = replies ∧ reply = .key (some key)) ∨
        (reply.IsIdle ∧ Awaits replies earlier key) := by
  constructor
  · intro h
    obtain ⟨between, hreplies, hidle⟩ := h
    rcases List.eq_nil_or_concat between with rfl | ⟨before, last, rfl⟩
    · obtain ⟨hbefore, hlast⟩ := List.append_inj' hreplies rfl
      cases hlast
      exact .inl ⟨hbefore.symm, rfl⟩
    · rw [List.concat_eq_append, ← List.cons_append, ← List.append_assoc] at hreplies
      obtain ⟨hbefore, hlast⟩ := List.append_inj' hreplies rfl
      cases hlast
      refine .inr ⟨hidle reply (by simp), before, hbefore, ?_⟩
      intro other hother
      exact hidle other (by simp [hother])
  · intro h
    rcases h with ⟨rfl, rfl⟩ | ⟨hidle, between, rfl, hbetween⟩
    · exact ⟨[], rfl, fun _ hmem => absurd hmem List.not_mem_nil⟩
    · refine ⟨between ++ [reply], by simp, ?_⟩
      intro other hother
      rcases List.mem_append.mp hother with hbefore | hlast
      · exact hbetween other hbefore
      · exact List.mem_singleton.mp hlast ▸ hidle

variable {entries : Members ι} {replies before after : List (MapReply ι)} {reply : MapReply ι}
  {access access' : MapAccess ι}

/-- What a reply hands out is gone from what is left. -/
theorem Gives.passed (h : Gives access reply access') : ∃ passed,
    access.entries = passed ++ access'.entries ∧ Members.keys passed = reply.keys := by
  cases h with
  | left | past | value | early => exact ⟨[], rfl, rfl⟩
  | key key value entries => exact ⟨[(key, value)], rfl, rfl⟩

theorem Gives.eq_of_isIdle (h : Gives access reply access') (hidle : reply.IsIdle) :
    access' = access := by
  cases h with
  | left | past => rfl
  | key | value | early => exact hidle.elim

/-- How a map stands in a visit after some replies. -/
structure Reached (entries : Members ι) (replies : List (MapReply ι)) (access : MapAccess ι) :
    Prop where
  /-- Entries have been handed out from the first on. -/
  passed : ∃ passed, entries = passed ++ access.entries ∧
    Members.keys passed = replies.flatMap keys
  /-- The value that is still to be had is that of the last key. -/
  pending : ∀ value, access.pending = some value → ∃ earlier key, Awaits replies earlier key ∧
    entries[(earlier.flatMap keys).length]? = some (key, value)
  idle : access.pending = none → ∀ earlier key, ¬ Awaits replies earlier key

theorem reached_nil (entries : Members ι) : Reached entries [] ⟨entries, none⟩ where
  passed := ⟨[], rfl, rfl⟩
  pending := by
    intro value h
    cases h
  idle := by
    rintro - earlier key ⟨between, hnil, -⟩
    simp at hnil

/-- Every reply keeps the invariant. -/
theorem Reached.step (h : Reached entries replies access) (hgives : Gives access reply access') :
    Reached entries (replies ++ [reply]) access' := by
  obtain ⟨passed, hentries, hpassed⟩ := h.passed
  refine ⟨?_, ?_, ?_⟩
  · obtain ⟨more, hmore, hkeys⟩ := hgives.passed
    refine ⟨passed ++ more, by rw [hentries, hmore, List.append_assoc], ?_⟩
    rw [Members.keys, List.map_append, List.flatMap_append, List.flatMap_singleton, ← hpassed,
      ← hkeys]
    rfl
  · intro value hvalue
    by_cases hreply : reply.IsIdle
    · rw [hgives.eq_of_isIdle hreply] at hvalue
      obtain ⟨earlier, key, hawaits, hown⟩ := h.pending value hvalue
      exact ⟨earlier, key, awaits_concat_iff.mpr (.inr ⟨hreply, hawaits⟩), hown⟩
    · cases hgives with
      | left | past => exact absurd trivial hreply
      | value | early => cases hvalue
      | key key own rest pending =>
        cases hvalue
        refine ⟨replies, key, awaits_concat_iff.mpr (.inl ⟨rfl, rfl⟩), ?_⟩
        -- The key is that of the first entry that has not been handed out.
        have hlength : (replies.flatMap keys).length = passed.length := by
          rw [← hpassed, Members.keys, List.length_map]
        rw [hentries, hlength, List.getElem?_append_right (Nat.le_refl _), Nat.sub_self]
        rfl
  · intro hnone earlier key hawaits
    rcases awaits_concat_iff.mp hawaits with ⟨-, rfl⟩ | ⟨hreply, hbefore⟩
    · cases hgives
      cases hnone
    · rw [hgives.eq_of_isIdle hreply] at hnone
      exact h.idle hnone earlier key hbefore

theorem reached_of_along (h : Along Gives ⟨entries, none⟩ replies access) :
    Reached entries replies access :=
  h.invariant (reached_nil entries) fun _ _ _ _ hbefore hgives => hbefore.step hgives

/-- Keys are handed out in order, each once. -/
theorem keys_append (h : Along Gives ⟨entries, none⟩ replies access) :
    replies.flatMap keys ++ Members.keys access.entries = Members.keys entries := by
  obtain ⟨passed, hentries, hpassed⟩ := (reached_of_along h).passed
  rw [hentries, ← hpassed, Members.keys, Members.keys, Members.keys, List.map_append]

/-- A value that is asked for is that of the last key, if nothing has been asked for since, and
    else there is none. -/
theorem value_eq {answer : Except Mismatch ι}
    (h : Along Gives ⟨entries, none⟩ (before ++ .value answer :: after) access) :
    (∃ earlier key value, Awaits before earlier key ∧
      entries[(earlier.flatMap keys).length]? = some (key, value) ∧ answer = .ok value) ∨
    (∀ earlier key, ¬ Awaits before earlier key) ∧ answer = .error .valueBeforeKey := by
  obtain ⟨between, hbefore, hafter⟩ := along_append_iff.mp h
  have hreached := reached_of_along hbefore
  obtain _ | ⟨hreply, -⟩ := hafter
  cases hreply with
  | value rest value =>
    obtain ⟨earlier, key, hawaits, hown⟩ := hreached.pending value rfl
    exact .inl ⟨earlier, key, value, hawaits, hown, rfl⟩
  | early rest => exact .inr ⟨hreached.idle rfl, rfl⟩

end MapReply

namespace MapPull

/-- A consumer that gets some replies ends with a result. -/
inductive Concludes : {n : Nat} → MapPull String ι β n → List (MapReply ι) → Except Mismatch β →
    Prop where
  | answer {n : Nat} (result : Except Mismatch β) :
    Concludes (.answer result : MapPull String ι β n) [] result
  | left {n : Nat} {next : Option Nat → MapPull String ι β n} {count : Nat}
    {replies : List (MapReply ι)} {result : Except Mismatch β}
    (h : Concludes (next (some count)) replies result) :
    Concludes (.left next) (.left count :: replies) result
  | pullKey {n : Nat} {next : String → MapPull String ι β n} {key : String}
    {replies : List (MapReply ι)} {result : Except Mismatch β}
    (h : Concludes (next key) replies result) :
    Concludes (.pullKey next) (.key (some key) :: replies) result
  | pullPast {next : MapPull String ι β 0} {replies : List (MapReply ι)}
    {result : Except Mismatch β} (h : Concludes next replies result) :
    Concludes (.pullPast next) (.key none :: replies) result
  | pullValue {n : Nat} {next : Except Mismatch ι → MapPull String ι β n}
    {value : Except Mismatch ι} {replies : List (MapReply ι)} {result : Except Mismatch β}
    (h : Concludes (next value) replies result) :
    Concludes (.pullValue next) (.value value :: replies) result

/-- Every consumer comes to an end. -/
theorem exists_dialogue {n : Nat} (consumer : MapPull String ι β n) (access : MapAccess ι)
    (hlength : access.entries.length = n) :
    ∃ replies result access', consumer.Concludes replies result ∧
      Along MapReply.Gives access replies access' := by
  induction consumer generalizing access with
  | answer result => exact ⟨[], result, access, .answer result, .nil access⟩
  | left next ih =>
    obtain ⟨replies, result, access', hconcludes, halong⟩ :=
      ih (some access.entries.length) access hlength
    exact ⟨_, result, access', .left hconcludes, .cons (.left access) halong⟩
  | pullKey next ih =>
    obtain ⟨entries, pending⟩ := access
    cases entries with
    | nil => cases hlength
    | cons entry entries =>
      obtain ⟨key, value⟩ := entry
      obtain ⟨replies, result, access', hconcludes, halong⟩ :=
        ih key ⟨entries, some value⟩ (Nat.succ.inj hlength)
      exact ⟨_, result, access', .pullKey hconcludes,
        .cons (.key key value entries pending) halong⟩
  | pullPast next ih =>
    obtain ⟨entries, pending⟩ := access
    cases List.length_eq_zero_iff.mp hlength
    obtain ⟨replies, result, access', hconcludes, halong⟩ := ih ⟨[], pending⟩ rfl
    exact ⟨_, result, access', .pullPast hconcludes, .cons (.past pending) halong⟩
  | pullValue next ih =>
    obtain ⟨entries, pending⟩ := access
    cases pending with
    | none =>
      obtain ⟨replies, result, access', hconcludes, halong⟩ :=
        ih (.error .valueBeforeKey) ⟨entries, none⟩ hlength
      exact ⟨_, result, access', .pullValue hconcludes, .cons (.early entries) halong⟩
    | some value =>
      obtain ⟨replies, result, access', hconcludes, halong⟩ :=
        ih (.ok value) ⟨entries, none⟩ hlength
      exact ⟨_, result, access', .pullValue hconcludes, .cons (.value entries value) halong⟩

variable {replies : List (MapReply ι)} {result : Except Mismatch β}

/-- To run a consumer is to have the dialogue with it. -/
theorem run_eq {n : Nat} {consumer : MapPull String ι β n} {access access' : MapAccess ι}
    (hconcludes : consumer.Concludes replies result)
    (halong : Along MapReply.Gives access replies access') (hlength : access.entries.length = n) :
    consumer.run some access.entries hlength access.pending = (result, access'.entries) := by
  induction hconcludes generalizing access with
  | answer result =>
    cases halong
    rw [run]
  | left _ ih =>
    obtain _ | ⟨hreply, hrest⟩ := halong
    cases hreply
    rw [run]
    exact ih hrest hlength
  | pullKey _ ih =>
    obtain _ | ⟨hreply, hrest⟩ := halong
    cases hreply
    exact ih hrest (Nat.succ.inj hlength)
  | pullPast _ ih =>
    obtain _ | ⟨hreply, hrest⟩ := halong
    cases hreply
    exact ih hrest rfl
  | pullValue _ ih =>
    obtain _ | ⟨hreply, hrest⟩ := halong
    cases hreply with
    | value | early =>
      rw [run]
      exact ih hrest hlength

theorem settles {entries : Members ι} {consumer : MapPull String ι β entries.length}
    {access : MapAccess ι}
    (hconcludes : consumer.Concludes replies result)
    (halong : Along MapReply.Gives ⟨entries, none⟩ replies access) :
    Settles result (access.entries = []) entries.length "fewer entries in map"
      (visitMap entries consumer) := by
  have hrun := run_eq hconcludes halong rfl
  unfold visitMap
  rw [hrun]
  cases result with
  | error mismatch => exact ⟨by simp, by simp, by simp⟩
  | ok answer => cases access.entries <;> exact ⟨by simp, by simp, by simp⟩

end MapPull

namespace Schema

/-! ### Arrays of a fixed length -/

variable {ν : Type} {declarations : ν → Declaration ν}

/-- There are as many items as schemas, and each item is read as its own schema. -/
def ReadTuple (declarations : ν → Declaration ν) (schemas : List (Schema ν)) (items : List Value)
    (data : List Datum) : Prop :=
  items.length = schemas.length ∧
    List.Forall₂ (fun part x => read declarations part.1 part.2 = .ok x) (schemas.zip items) data

theorem readEach_itemReaders_iff {schemas : List (Schema ν)} {items : List Value}
    {data : List Datum} : ReadEach schemas (itemReaders declarations items) data ↔
      ReadTuple declarations schemas items data := by
  unfold ReadTuple
  constructor
  · intro h
    induction schemas generalizing items data with
    | nil =>
      cases items with
      | nil =>
        cases h
        exact ⟨rfl, .nil⟩
      | cons item items => cases h
    | cons schema schemas ih =>
      cases items with
      | nil => cases h
      | cons item items =>
        cases h with
        | cons hfirst hrest =>
          obtain ⟨hlength, hread⟩ := ih hrest
          exact ⟨congrArg (· + 1) hlength, .cons hfirst hread⟩
  · intro h
    obtain ⟨hlength, hread⟩ := h
    induction schemas generalizing items data with
    | nil =>
      rw [List.length_eq_zero_iff.mp hlength] at hread ⊢
      cases hread
      exact .nil
    | cons schema schemas ih =>
      cases items with
      | nil => cases hlength
      | cons item items =>
        cases hread with
        | cons hfirst hrest => exact .cons hfirst (ih (Nat.succ.inj hlength) hrest)

/-- There are data to be read just when each item can be read. -/
theorem exists_readTuple_iff {schemas : List (Schema ν)} {items : List Value} :
    (∃ data, ReadTuple declarations schemas items data) ↔ items.length = schemas.length ∧
      ∀ part ∈ schemas.zip items, ∃ x, read declarations part.1 part.2 = .ok x := by
  unfold ReadTuple
  generalize schemas.zip items = parts
  rw [exists_and_left]
  refine and_congr_right fun _ => ?_
  induction parts with
  | nil => simp
  | cons part parts ih =>
    rw [List.forall_mem_cons, ← ih]
    constructor
    · intro h
      obtain ⟨data, hdata⟩ := h
      cases hdata with
      | cons hfirst hrest => exact ⟨⟨_, hfirst⟩, _, hrest⟩
    · intro h
      obtain ⟨⟨x, hfirst⟩, data, hrest⟩ := h
      exact ⟨x :: data, .cons hfirst hrest⟩

theorem visitArray_positional_itemReaders_eq_ok_iff {expected : String}
    {finish : List Datum → Datum} {schemas : List (Schema ν)} {items : List Value} {x : Datum} :
    visitArray (itemReaders declarations items) (positional expected finish schemas [] _) = .ok x ↔
      ∃ data, ReadTuple declarations schemas items data ∧ x = finish data := by
  simp only [visitArray_positional_eq_ok_iff, readEach_itemReaders_iff]

/-- The content of a variant is read from the one entry of a map, under its name. -/
theorem read_tupleVariant_eq_ok_iff {name : ν} {type variant : String}
    {variants : List (String × Content ν)} {schemas : List (Schema ν)} {items : List Value}
    {x : Datum} (hdeclared : declarations name = .enumeration type variants)
    (hvariant : Members.find? variants variant = some (.tuple schemas)) :
    read declarations (.declared name) (.map [(variant, .array items)]) = .ok x ↔
      ∃ data, ReadTuple declarations schemas items data ∧ x = .tupleVariant type variant data := by
  have hcontent : findVariant variants variant = .ok (.tuple schemas) := by
    rw [findVariant, hvariant]
  rw [read_eq_answer, answer, hdeclared]
  show (findVariant variants variant >>= fun content =>
    (reader declarations (.array items)).read (.content type variant content)) = _ ↔ _
  rw [hcontent]
  exact visitArray_positional_itemReaders_eq_ok_iff

theorem read_sequence_eq_ok_iff {schema : Schema ν} {items : List Value} {x : Datum} :
    read declarations (.sequence schema) (.array items) = .ok x ↔
      ∃ data, List.Forall₂ (fun item x => read declarations schema item = .ok x) items data ∧
        x = .seq true data := by
  rw [read_eq_answer]
  refine visitArray_collect_eq_ok_iff.trans ?_
  simp only [readEach_replicate_iff, itemReaders_eq_map, List.forall₂_map_left_iff]
  rfl

end Schema

/-! ### All visits -/

/-- **Nothing that is handed over is dropped in silence.** Whatever a consumer asks for, the
    visit comes to an end. An array hands out its elements in order, each once, and the visit
    gives an answer just when the consumer does and has taken all of them. An answer with
    elements left is refused with the length of the whole array, and a mismatch of the
    consumer's own is passed on.

    It is the same with a map and its entries. A value that is asked for is that of the last
    key, once, and there is none if no key waits for it. Whoever reads a pack gets all these
    mismatches as an invalid pack. So a tuple, a structure of unnamed fields or such a
    variant is read from an array just when it has as many items as there are schemas and
    each is read, and a sequence when all items are. -/
theorem visit_outcome {ν : Type} (declarations : ν → Declaration ν) :
    (∀ (items : List ι) (consumer : ArrayPull ι β items.length),
      (∃ replies result rest, consumer.Concludes replies result ∧
        Along ArrayReply.Gives items replies rest) ∧
      ∀ replies result rest, consumer.Concludes replies result →
        Along ArrayReply.Gives items replies rest →
          replies.flatMap ArrayReply.handed ++ rest = items ∧
          Settles result (rest = []) items.length "fewer elements in array"
            (visitArray items consumer)) ∧
    (∀ (entries : Members ι) (consumer : MapPull String ι β entries.length),
      (∃ replies result access, consumer.Concludes replies result ∧
        Along MapReply.Gives ⟨entries, none⟩ replies access) ∧
      ∀ replies result access, consumer.Concludes replies result →
        Along MapReply.Gives ⟨entries, none⟩ replies access →
          replies.flatMap MapReply.keys ++ Members.keys access.entries = Members.keys entries ∧
          (∀ before answer after, replies = before ++ .value answer :: after →
            (∃ earlier key value, MapReply.Awaits before earlier key ∧
              entries[(earlier.flatMap MapReply.keys).length]? = some (key, value) ∧
              answer = .ok value) ∨
            (∀ earlier key, ¬ MapReply.Awaits before earlier key) ∧
              answer = .error .valueBeforeKey) ∧
          Settles result (access.entries = []) entries.length "fewer entries in map"
            (visitMap entries consumer)) ∧
    (∀ (consumer : Consumer β) (items : List Value) (members : Members Value),
      consumer.fromValue (.array items)
        = (visitArray items (consumer.ofArray _)).mapError (fun m => .invalidPack (.mismatch m)) ∧
      consumer.fromValue (.map members)
        = (visitMap members (consumer.ofMap _)).mapError (fun m => .invalidPack (.mismatch m))) ∧
    (∀ (schemas : List (Schema ν)) (items : List Value) (x : Datum),
      ((∃ data, Schema.ReadTuple declarations schemas items data) ↔
        items.length = schemas.length ∧
          ∀ part ∈ schemas.zip items, ∃ x, part.1.read declarations part.2 = .ok x) ∧
      ((Schema.tuple schemas).read declarations (.array items) = .ok x ↔
        ∃ data, Schema.ReadTuple declarations schemas items data ∧ x = .tuple data) ∧
      (∀ type, (Schema.tupleStruct type schemas).read declarations (.array items) = .ok x ↔
        ∃ data, Schema.ReadTuple declarations schemas items data ∧ x = .tupleStruct type data) ∧
      (∀ name type variants variant, declarations name = .enumeration type variants →
        Members.find? variants variant = some (.tuple schemas) →
          ((Schema.declared name).read declarations (.map [(variant, .array items)]) = .ok x ↔
            ∃ data, Schema.ReadTuple declarations schemas items data ∧
              x = .tupleVariant type variant data)) ∧
      ∀ schema, (Schema.sequence schema).read declarations (.array items) = .ok x ↔
        ∃ data, List.Forall₂ (fun item x => schema.read declarations item = .ok x) items data ∧
          x = .seq true data) := by
  refine ⟨?_, ?_, fun consumer items members => ⟨rfl, rfl⟩, ?_⟩
  · intro items consumer
    refine ⟨consumer.exists_dialogue items rfl, ?_⟩
    intro replies result rest hconcludes halong
    exact ⟨ArrayReply.handed_append halong, ArrayPull.settles hconcludes halong⟩
  · intro entries consumer
    refine ⟨consumer.exists_dialogue _ rfl, ?_⟩
    intro replies result access hconcludes halong
    refine ⟨MapReply.keys_append halong, ?_, MapPull.settles hconcludes halong⟩
    rintro before answer after rfl
    exact MapReply.value_eq halong
  · intro schemas items x
    refine ⟨Schema.exists_readTuple_iff, ?_, ?_, ?_, fun schema => Schema.read_sequence_eq_ok_iff⟩
    · rw [Schema.read_eq_answer]
      exact Schema.visitArray_positional_itemReaders_eq_ok_iff
    · intro type
      rw [Schema.read_eq_answer]
      exact Schema.visitArray_positional_itemReaders_eq_ok_iff
    · intro name type variants variant hdeclared hvariant
      exact Schema.read_tupleVariant_eq_ok_iff hdeclared hvariant

/-- The value of a key is there to be had once. -/
example : visitMap [("k", 1)]
    (.pullKey fun _ => .pullValue fun _ => .pullValue fun again => .answer again)
      = .error .valueBeforeKey :=
  rfl

end BinaryPack
