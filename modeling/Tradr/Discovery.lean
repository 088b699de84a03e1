import Mathlib.Data.List.Destutter
import Mathlib.Data.List.Sort
import Tradr.Link

/-!
# The Peer List

Every discovery source reports what it sees as observations, each under an identifier that is
the source's own. The peer list keeps the last observation of each identifier and merges those
which name the same device.

## Main definitions

* `Candidate`, `PeerObservation`, `DiscoveryEvent`: what a source reports.
* `PeerList.apply`, `PeerList.peers`: what is kept of it, and the merged view.
* `PeerList.fold`: the list after events of one source.

## Main results

* `PeerList.mem_insert`, `mem_remove`: the observations after an event.
* `PeerList.Shows.insert`, `Shows.remove`, `Shows.observeAll`: a list that shows one
  observation for each entry of a table shows the table after a change that is reported.
-/

namespace Tradr

/-! ### Candidates -/

/-- Why an address is refused. -/
inductive CandidateError
  | empty
  | controlCharacter (c : Char)
  | misleadingDisplay (c : Char)
  deriving DecidableEq, Repr

/-- The first rule an address breaks. -/
def candidateRefusal (address : Text) : Option CandidateError :=
  if address = [] then some .empty
  else
    match address.find? isControl with
    | some c => some (.controlCharacter c)
    | none => (address.find? isMisleadingDisplayCharacter).map .misleadingDisplay

/-- An address of a peer, with the transport that can dial it. -/
structure Candidate where
  transport : Text
  address : Text
  valid : candidateRefusal address = none
  deriving DecidableEq

/-- A candidate, when the text may be an address. -/
def Candidate.new (transport address : Text) : Except CandidateError Candidate :=
  match h : candidateRefusal address with
  | none => .ok ⟨transport, address, h⟩
  | some e => .error e

theorem Candidate.new_eq {address : Text} (transport : Text) (h : candidateRefusal address = none) :
    Candidate.new transport address = .ok ⟨transport, address, h⟩ := by
  unfold Candidate.new
  split
  · rfl
  · rename_i e he
    rw [h] at he
    cases he

/-- An address passes when all its characters do. -/
theorem candidateRefusal_eq_none {address : Text} : candidateRefusal address = none ↔
    address ≠ [] ∧ ∀ c ∈ address, isControl c = false ∧ isMisleadingDisplayCharacter c = false := by
  unfold candidateRefusal
  split_ifs with hempty
  · simp [hempty]
  · rcases hcontrol : address.find? isControl with _ | c
    · rw [List.find?_eq_none] at hcontrol
      simp only [Option.map_eq_none_iff, List.find?_eq_none, ne_eq, hempty, not_false_eq_true,
        true_and]
      constructor
      · intro h c hc
        exact ⟨by simpa using hcontrol c hc, by simpa using h c hc⟩
      · intro h c hc
        simpa using (h c hc).2
    · refine iff_of_false nofun ?_
      rintro ⟨-, h⟩
      have hc := List.find?_some hcontrol
      rw [(h c (List.mem_of_find?_eq_some hcontrol)).1] at hc
      cases hc

/-- The order in which candidates are kept. -/
def Candidate.le (a b : Candidate) : Bool :=
  (compareLex (compareOn Candidate.transport) (compareOn Candidate.address) a b).isLE

/-- Candidates sorted, and each once. -/
def sortedCandidates (candidates : List Candidate) : List Candidate :=
  (candidates.mergeSort Candidate.le).destutter (· ≠ ·)

/-- Dropping repetitions drops no value. -/
theorem mem_destutter_ne {α : Type} [DecidableEq α] {a : α} {l : List α} :
    a ∈ l.destutter (· ≠ ·) ↔ a ∈ l := by
  have hfrom : ∀ (l : List α) (b : α), a ∈ l.destutter' (· ≠ ·) b ↔ a = b ∨ a ∈ l := by
    intro l
    induction l with
    | nil => simp
    | cons c l ih =>
        intro b
        by_cases hbc : b = c
        · rw [List.destutter'_cons_neg _ (by simpa using hbc), ih b, List.mem_cons, hbc]
          tauto
        · rw [List.destutter'_cons_pos _ (by simpa using hbc), List.mem_cons, ih c, List.mem_cons]
  cases l with
  | nil => rfl
  | cons b l => rw [List.destutter_cons', hfrom, List.mem_cons]

theorem mem_sortedCandidates {candidate : Candidate} {candidates : List Candidate} :
    candidate ∈ sortedCandidates candidates ↔ candidate ∈ candidates := by
  unfold sortedCandidates
  rw [mem_destutter_ne, List.mem_mergeSort]

/-! ### Observations -/

/-- The most bytes an observation key may have. -/
def observationKeyMaxLen : ℕ := 128

/-- A key that means something to the source that made it. -/
structure ObservationKey where
  value : Text
  valid : validateBoundedString value observationKeyMaxLen = none
  deriving DecidableEq

/-- What one source calls one peer. -/
structure ObservationId where
  source : Text
  key : ObservationKey
  deriving DecidableEq

/-- The identifier as text. -/
def ObservationId.display (id : ObservationId) : Text := id.source ++ '/' :: id.key.value

/-- The order of identifiers: by source, then by key. -/
def ObservationId.le (a b : ObservationId) : Bool :=
  (compareLex (compareOn ObservationId.source)
    (compareOn fun id : ObservationId => id.key.value) a b).isLE

/-- What one source currently knows of one peer. -/
structure PeerObservation where
  id : ObservationId
  deviceId : Option DeviceId
  candidates : List Candidate
  displayName : Option DisplayName
  capabilities : UInt16
  deriving DecidableEq

/-- An observation of some candidates; the rest is unknown. -/
def PeerObservation.new (id : ObservationId) (candidates : List Candidate) : PeerObservation :=
  ⟨id, none, sortedCandidates candidates, none, 0⟩

/-- What a source reports: what it sees, or that it no longer does. -/
inductive DiscoveryEvent
  | observed (observation : PeerObservation)
  | lost (id : ObservationId)
  deriving DecidableEq

/-- The identifier an event is about. -/
def DiscoveryEvent.id : DiscoveryEvent → ObservationId
  | .observed observation => observation.id
  | .lost id => id

/-! ### The list -/

/-- Every observation of every source, by identifier. -/
structure PeerList where
  observations : List PeerObservation

/-- An event of one source claimed to be of another. -/
inductive PeerListError
  | sourceMismatch (claimed actual : Text)
  deriving DecidableEq

/-- A peer: all observations that name one device, or one that names none. -/
structure Peer where
  deviceId : Option DeviceId
  observations : List PeerObservation

/-- All addresses of a peer. -/
def Peer.candidates (peer : Peer) : List Candidate :=
  sortedCandidates (peer.observations.flatMap PeerObservation.candidates)

namespace PeerList

/-- No observations. -/
def new : PeerList := ⟨[]⟩

/-- Keep an observation in place of an earlier one with its identifier. -/
def insert (list : PeerList) (observation : PeerObservation) : PeerList :=
  ⟨(list.observations.filter fun o => o.id ≠ observation.id).orderedInsert
    (fun a b => a.id.le b.id) observation⟩

/-- Drop an observation. -/
def remove (list : PeerList) (id : ObservationId) : PeerList :=
  ⟨list.observations.filter fun o => o.id ≠ id⟩

/-- Apply an event of a source. -/
def apply (list : PeerList) (source : Text) (event : DiscoveryEvent) :
    Except PeerListError PeerList :=
  if event.id.source ≠ source then .error (.sourceMismatch event.id.source source)
  else
    match event with
    | .observed observation => .ok (list.insert observation)
    | .lost id => .ok (list.remove id)

/-- The order of devices. -/
def deviceLe (a b : DeviceId) : Bool := (compare a.bytes.val b.bytes.val).isLE

/-- The devices that are named, in order. -/
def devices (list : PeerList) : List DeviceId :=
  ((list.observations.filterMap PeerObservation.deviceId).mergeSort deviceLe).destutter (· ≠ ·)

/-- Every peer: those identified, by device, then the others, by observation. -/
def peers (list : PeerList) : List Peer :=
  list.devices.map (fun device =>
    ⟨some device, list.observations.filter fun o => o.deviceId = some device⟩) ++
  (list.observations.filter fun o => o.deviceId = none).map fun o => ⟨none, [o]⟩

/-- Apply events of one source, one after the other. -/
def fold (source : Text) : PeerList → List DiscoveryEvent → Except PeerListError PeerList
  | list, [] => .ok list
  | list, event :: events =>
    match list.apply source event with
    | .error e => .error e
    | .ok list => fold source list events

theorem mem_insert {list : PeerList} {observation o : PeerObservation} :
    o ∈ (list.insert observation).observations ↔
      o = observation ∨ o ∈ list.observations ∧ o.id ≠ observation.id := by
  unfold insert
  rw [(List.perm_orderedInsert _ _ _).mem_iff, List.mem_cons, List.mem_filter,
    decide_eq_true_iff]

theorem mem_remove {list : PeerList} {id : ObservationId} {o : PeerObservation} :
    o ∈ (list.remove id).observations ↔ o ∈ list.observations ∧ o.id ≠ id := by
  unfold remove
  rw [List.mem_filter, decide_eq_true_iff]

/-- An event is applied when it is of its source. -/
theorem apply_eq {list : PeerList} {source : Text} {event : DiscoveryEvent}
    (h : event.id.source = source) : list.apply source event = .ok
      (match event with
      | .observed observation => list.insert observation
      | .lost id => list.remove id) := by
  unfold apply
  rw [if_neg (not_not.mpr h)]
  cases event <;> rfl

/-- After an event every observation was there before or is the one reported, and is of the
source when it is new. -/
theorem mem_of_apply {list list' : PeerList} {source : Text} {event : DiscoveryEvent}
    (h : list.apply source event = .ok list') {o : PeerObservation}
    (ho : o ∈ list'.observations) : o ∈ list.observations ∨ event = .observed o ∧
      o.id.source = source := by
  unfold apply at h
  split_ifs at h with hsource
  rw [not_not] at hsource
  cases event with
  | observed observation =>
      obtain rfl := Except.ok.inj h
      rcases mem_insert.mp ho with rfl | ⟨ho, -⟩
      · exact .inr ⟨rfl, hsource⟩
      · exact .inl ho
  | lost id =>
      obtain rfl := Except.ok.inj h
      exact .inl (mem_remove.mp ho).1

/-- The observations of a peer are those of the list, with the device of the peer. -/
theorem mem_of_mem_peers {list : PeerList} {peer : Peer} (h : peer ∈ list.peers)
    {o : PeerObservation} (ho : o ∈ peer.observations) :
    o ∈ list.observations ∧ o.deviceId = peer.deviceId := by
  rcases List.mem_append.mp h with h | h
  · obtain ⟨device, -, rfl⟩ := List.mem_map.mp h
    obtain ⟨ho, hdevice⟩ := List.mem_filter.mp ho
    exact ⟨ho, of_decide_eq_true hdevice⟩
  · obtain ⟨o', ho', rfl⟩ := List.mem_map.mp h
    obtain ⟨ho', hdevice⟩ := List.mem_filter.mp ho'
    obtain rfl := List.mem_singleton.mp ho
    exact ⟨ho', of_decide_eq_true hdevice⟩

/-- A peer that no observation identifies has one. -/
theorem observations_of_head? {list : PeerList} {peer : Peer} (h : peer ∈ list.peers)
    (hdevice : peer.deviceId = none) {o : PeerObservation}
    (hhead : peer.observations.head? = some o) : peer.observations = [o] := by
  rcases List.mem_append.mp h with h | h
  · obtain ⟨device, -, rfl⟩ := List.mem_map.mp h
    cases hdevice
  · obtain ⟨o', -, rfl⟩ := List.mem_map.mp h
    obtain rfl := Option.some.inj hhead
    rfl

/-! ### A list that shows a table -/

/-- At most one observation has each identifier. -/
def Keyed (list : PeerList) : Prop := (list.observations.map PeerObservation.id).Nodup

theorem Keyed.remove {list : PeerList} (h : list.Keyed) (id : ObservationId) :
    (list.remove id).Keyed :=
  h.sublist (List.filter_sublist.map _)

theorem Keyed.insert {list : PeerList} (h : list.Keyed) (observation : PeerObservation) :
    (list.insert observation).Keyed := by
  have hperm := (List.perm_orderedInsert (fun a b : PeerObservation => a.id.le b.id) observation
    (list.remove observation.id).observations).map PeerObservation.id
  unfold Keyed PeerList.insert
  refine hperm.nodup_iff.mpr (List.nodup_cons.mpr ⟨?_, h.remove observation.id⟩)
  intro hmem
  obtain ⟨o, ho, hid⟩ := List.mem_map.mp hmem
  exact (mem_remove.mp ho).2 hid

variable {E : Type} {view : E → PeerObservation} {entries entries' : List E} {list : PeerList}

/-- A list shows the entries of a table: one observation for each, and no other. -/
structure Shows (view : E → PeerObservation) (entries : List E) (list : PeerList) : Prop where
  keyed : list.Keyed
  mem : ∀ o, o ∈ list.observations ↔ ∃ e ∈ entries, view e = o

/-- The new list shows no entries. -/
theorem shows_new (view : E → PeerObservation) : Shows view [] new :=
  ⟨List.nodup_nil, by simp [new]⟩

/-- An entry that is new or has changed is observed. -/
theorem Shows.insert (h : Shows view entries list) {entry : E} (hentry : entry ∈ entries')
    (hothers : ∀ e, (view e).id ≠ (view entry).id → (e ∈ entries' ↔ e ∈ entries))
    (hunique : ∀ e ∈ entries', (view e).id = (view entry).id → view e = view entry) :
    Shows view entries' (list.insert (view entry)) := by
  refine ⟨h.keyed.insert _, ?_⟩
  intro o
  rw [mem_insert, h.mem]
  constructor
  · rintro (rfl | ⟨⟨e, he, rfl⟩, hne⟩)
    · exact ⟨entry, hentry, rfl⟩
    · exact ⟨e, (hothers e hne).mpr he, rfl⟩
  · rintro ⟨e, he, rfl⟩
    by_cases hid : (view e).id = (view entry).id
    · exact .inl (hunique e he hid)
    · exact .inr ⟨⟨e, (hothers e hid).mp he, rfl⟩, hid⟩

/-- An entry that is gone is lost. -/
theorem Shows.remove (h : Shows view entries list) {id : ObservationId}
    (hothers : ∀ e, e ∈ entries' ↔ e ∈ entries ∧ (view e).id ≠ id) :
    Shows view entries' (list.remove id) := by
  refine ⟨h.keyed.remove id, ?_⟩
  intro o
  rw [mem_remove, h.mem]
  constructor
  · rintro ⟨⟨e, he, rfl⟩, hne⟩
    exact ⟨e, (hothers e).mpr ⟨he, hne⟩, rfl⟩
  · rintro ⟨e, he, rfl⟩
    obtain ⟨he, hne⟩ := (hothers e).mp he
    exact ⟨⟨e, he, rfl⟩, hne⟩

/-- Events of one source after others. -/
theorem fold_append (source : Text) (list : PeerList) (events more : List DiscoveryEvent) :
    fold source list (events ++ more) =
      match fold source list events with
      | .error e => .error e
      | .ok list => fold source list more := by
  induction events generalizing list with
  | nil => rfl
  | cons event events ih =>
      rw [List.cons_append, fold, fold]
      rcases list.apply source event with e | list'
      · rfl
      · exact ih list'

/-- Observing entries one after the other. -/
theorem fold_observed {source : Text} (hsource : ∀ e ∈ entries, (view e).id.source = source)
    (hkeyed : (entries.map fun e => (view e).id).Nodup) (hlist : list.Keyed) :
    ∃ list', fold source list (entries.map fun e => .observed (view e)) = .ok list' ∧
      list'.Keyed ∧ ∀ o, o ∈ list'.observations ↔ (∃ e ∈ entries, view e = o) ∨
        o ∈ list.observations ∧ ∀ e ∈ entries, o.id ≠ (view e).id := by
  induction entries generalizing list with
  | nil => exact ⟨list, rfl, hlist, by simp⟩
  | cons e entries ih =>
      rw [List.map_cons, List.nodup_cons] at hkeyed
      have hsource' : (DiscoveryEvent.observed (view e)).id.source = source :=
        hsource e List.mem_cons_self
      have happly : list.apply source (.observed (view e)) = .ok (list.insert (view e)) :=
        apply_eq hsource'
      obtain ⟨list', hfold, hkeyed', hmem⟩ :=
        ih (fun e' he' => hsource e' (List.mem_cons_of_mem _ he')) hkeyed.2 (hlist.insert (view e))
      refine ⟨list', ?_, hkeyed', ?_⟩
      · rw [List.map_cons, fold, happly]
        exact hfold
      · intro o
        rw [hmem, mem_insert]
        constructor
        · rintro (⟨e', he', rfl⟩ | ⟨rfl | ⟨ho, hne⟩, hnone⟩)
          · exact .inl ⟨e', List.mem_cons_of_mem _ he', rfl⟩
          · exact .inl ⟨e, List.mem_cons_self, rfl⟩
          · refine .inr ⟨ho, ?_⟩
            intro e' he'
            rcases List.mem_cons.mp he' with rfl | he'
            · exact hne
            · exact hnone e' he'
        · rintro (⟨e', he', rfl⟩ | ⟨ho, hnone⟩)
          · rcases List.mem_cons.mp he' with rfl | he'
            · refine .inr ⟨.inl rfl, ?_⟩
              intro e'' he'' hid
              exact hkeyed.1 (List.mem_map.mpr ⟨e'', he'', hid.symm⟩)
            · exact .inl ⟨e', he', rfl⟩
          · exact .inr ⟨.inr ⟨ho, hnone e List.mem_cons_self⟩,
              fun e' he' => hnone e' (List.mem_cons_of_mem _ he')⟩

/-- All entries of a table with the identifiers of the former are observed. -/
theorem Shows.observeAll {source : Text} (h : Shows view entries list)
    (hsource : ∀ e ∈ entries', (view e).id.source = source)
    (hkeyed : (entries'.map fun e => (view e).id).Nodup)
    (hids : ∀ e ∈ entries, ∃ e' ∈ entries', (view e').id = (view e).id) :
    ∃ list', fold source list (entries'.map fun e => .observed (view e)) = .ok list' ∧
      Shows view entries' list' := by
  obtain ⟨list', hfold, hkeyed', hmem⟩ := fold_observed hsource hkeyed h.keyed
  refine ⟨list', hfold, hkeyed', ?_⟩
  intro o
  rw [hmem, or_iff_left]
  rintro ⟨ho, hnone⟩
  obtain ⟨e, he, rfl⟩ := (h.mem o).mp ho
  obtain ⟨e', he', hid⟩ := hids e he
  exact hnone e' he' hid.symm

end PeerList

end Tradr
