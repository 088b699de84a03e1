import Tradr.Advertisement
import Tradr.PeerMerging
import Tradr.Pinning
import Tradr.Table

/-!
# The BLE Source

The source that finds peers over BLE turns a stream of scan reports into events. It tracks
a handle as long as reports for it keep coming with an identifier that one of the device's
secrets gives: a handle that is new or reports something else is observed, and one that
was not heard of for half a minute is lost. One report may lead to several events, which
wait in a queue and are handed out one a call.

The scanner, the secrets and the clock are inputs, read report by report.

## Main definitions

* `BleSource.takeReport`, `BleSource.nextEvent`: what one report does, and one call.
* `Alternates`: the order in which a handle's events may come.
* `BleSource.InStep`: the tracked handles are what the events so far and those that wait
  leave.

## Main results

* `BleSource.InStep.takeReport`: one report keeps the two in step.
* `sources_merge`: the peer list does not depend on how the sources' events are
  interleaved, and the source's events leave exactly its tracked handles.
-/

namespace Tradr

/-! ### The radio -/

/-- The kinds of a failure of the radio. -/
inductive RadioErrorKind
  | unsupported
  | permissionDenied
  | notConnected
  | other (name : Text)
  deriving DecidableEq, Repr

/-- Why the radio fails. -/
inductive BleError
  | unsupported
  | permissionDenied
  | adapterUnavailable
  | io (kind : RadioErrorKind)
  | closed
  deriving DecidableEq, Repr

/-- Why a source fails. -/
inductive DiscoveryError
  | closed
  | io (kind : RadioErrorKind)
  deriving DecidableEq, Repr

/-- A failure of the radio at the boundary of the source. -/
def narrowBleError : BleError → DiscoveryError
  | .closed => .closed
  | .unsupported => .io .unsupported
  | .permissionDenied => .io .permissionDenied
  | .adapterUnavailable => .io .notConnected
  | .io kind => .io kind

/-- A report of the scanner: the handle of what it saw, and the service data. -/
structure ScanReport where
  handle : ObservationKey
  serviceData : Bytes serviceDataLen

/-- The transport of a peer that was found over BLE. -/
def bleGatt : Text := "ble-gatt".toList

/-- The seconds after which an observation that is not refreshed is lost. -/
def bleObservationTtlSecs : ℕ := 30

/-- What the next report comes to: the scanner's answer and, at that moment, the monotonic
clock in nanoseconds, the wall clock and the secrets. -/
structure ScanInput where
  result : Except BleError ScanReport
  monotonic : ℕ
  wall : UnixTime
  secrets : List BroadcastSecret

/-- Whole seconds from an earlier reading of the monotonic clock; none when it is later. -/
def secsSince (now earlier : ℕ) : ℕ := (now - earlier) / 1000000000

/-- A key of an observation, when the text may be one. -/
def ObservationKey.new (s : Text) : Except BoundedStringError ObservationKey :=
  match h : validateBoundedString s observationKeyMaxLen with
  | none => .ok ⟨s, h⟩
  | some e => .error e

@[simp] theorem ObservationKey.new_value (key : ObservationKey) :
    ObservationKey.new key.value = .ok key := by
  unfold ObservationKey.new
  split
  · rfl
  · rename_i h
    rw [key.valid] at h
    cases h

/-- A key is a text that may be an address. -/
theorem ObservationKey.candidateRefusal_value (key : ObservationKey) :
    candidateRefusal key.value = none := by
  have hvalid := key.valid
  unfold validateBoundedString at hvalid
  unfold candidateRefusal
  split_ifs at hvalid ⊢ with hempty hlong
  rcases hcontrol : key.value.find? isControl with _ | c
  · rw [hcontrol] at hvalid
    have hnone := Option.map_eq_none_iff.mp hvalid
    dsimp only
    rw [hnone]
    rfl
  · rw [hcontrol] at hvalid
    cases hvalid

/-! ### The source -/

/-- What is known of a handle. -/
structure TrackedHandle where
  lastSeen : ℕ
  lastObservation : PeerObservation

/-- The source: the handles it tracks, sorted, and the events that wait. -/
structure BleSource where
  tracked : List (ObservationKey × TrackedHandle)
  pendingEvents : List DiscoveryEvent

namespace BleSource

/-- A source that has seen nothing. -/
def new : BleSource := ⟨[], []⟩

/-- What the source calls a handle. -/
def idOf (key : ObservationKey) : ObservationId := ⟨bleSourceId, key⟩

/-- The handles that were not heard of for too long. -/
def expired (src : BleSource) (now : ℕ) : List ObservationKey :=
  (src.tracked.filter fun t => secsSince now t.2.lastSeen ≥ bleObservationTtlSecs).map Prod.fst

/-- Stop tracking a handle. -/
def lose (src : BleSource) (key : ObservationKey) : BleSource :=
  ⟨Table.delete Prod.fst src.tracked key, src.pendingEvents ++ [.lost (idOf key)]⟩

/-- Stop tracking all handles that were not heard of for too long. -/
def expire (src : BleSource) (now : ℕ) : BleSource := (src.expired now).foldl lose src

/-- The order of the handles. -/
def keyLe (a b : ObservationKey × TrackedHandle) : Bool :=
  (compare a.1.value b.1.value).isLE

/-- Track what a handle reports: nothing is said when it is what was said last. -/
def observe (src : BleSource) (now : ℕ) (key : ObservationKey)
    (observation : PeerObservation) : BleSource :=
  match Table.get Prod.fst src.tracked key with
  | some (_, tracked) =>
    if tracked.lastObservation = observation then
      { src with
        tracked := Table.update Prod.fst src.tracked key fun t =>
          (t.1, { t.2 with lastSeen := now }) }
    else
      ⟨Table.update Prod.fst src.tracked key fun t => (t.1, ⟨now, observation⟩),
        src.pendingEvents ++ [.observed observation]⟩
  | none =>
    ⟨src.tracked.orderedInsert (fun a b => keyLe a b) (key, ⟨now, observation⟩),
      src.pendingEvents ++ [.observed observation]⟩

variable (blake3 : Blake3Kdf)

/-- Take in one report; nothing when the call panics. -/
def takeReport (src : BleSource) (report : ScanReport) (input : ScanInput) :
    Option BleSource :=
  let src := src.expire input.monotonic
  match Advertisement.fromServiceData report.serviceData.val with
  | none => none
  | some (.error _) => some src
  | some (.ok ad) =>
    if input.secrets.any fun s => (s.matchesAt blake3 ad.eid input.wall).isSome then
      match ObservationKey.new report.handle.value, Candidate.new bleGatt report.handle.value with
      | .ok key, .ok candidate =>
        some (src.observe input.monotonic key
          { PeerObservation.new (idOf key) [candidate] with capabilities := ad.capabilities })
      | _, _ => none
    else some src

/-- What a call of `next_event` comes to. -/
inductive NextEvent
  | event (event : DiscoveryEvent) (src : BleSource) (rest : List ScanInput)
  | failed (error : DiscoveryError) (src : BleSource) (rest : List ScanInput)
  | waiting (src : BleSource)
  | panicked

/-- One call: an event that waits, or reports until one leads to an event or the scanner
fails. Every way through the loop's body ends by looking for an event that waits, as its
beginning does. -/
def nextEvent : List ScanInput → BleSource → NextEvent
  | [], src =>
    match src.pendingEvents with
    | event :: pending => .event event { src with pendingEvents := pending } []
    | [] => .waiting src
  | input :: inputs, src =>
    match src.pendingEvents with
    | event :: pending => .event event { src with pendingEvents := pending } (input :: inputs)
    | [] =>
      match input.result with
      | .error e => .failed (narrowBleError e) src inputs
      | .ok report =>
        match src.takeReport blake3 report input with
        | none => .panicked
        | some src => nextEvent inputs src

end BleSource

/-! ### What the events say -/

/-- What an event leaves of its observation. -/
def DiscoveryEvent.leaves : DiscoveryEvent → Option PeerObservation
  | .observed observation => some observation
  | .lost _ => none

/-- The events of one handle, after what was last known of it: an observation comes only
when it says something else than the last, and a loss only when there is something to
lose. -/
def Alternates : Option PeerObservation → List DiscoveryEvent → Prop
  | _, [] => True
  | last, .observed observation :: events =>
    last ≠ some observation ∧ Alternates (some observation) events
  | last, .lost _ :: events => last ≠ none ∧ Alternates none events

theorem alternates_cons {last : Option PeerObservation} {event : DiscoveryEvent}
    {events : List DiscoveryEvent} :
    Alternates last (event :: events) ↔ last ≠ event.leaves ∧ Alternates event.leaves events := by
  cases event <;> rfl

/-- One more event alternates when it changes what is known. -/
theorem alternates_concat {last : Option PeerObservation} {event : DiscoveryEvent}
    {events : List DiscoveryEvent} :
    Alternates last (events ++ [event]) ↔ Alternates last events ∧
      events.foldl (fun _ event => event.leaves) last ≠ event.leaves := by
  induction events generalizing last with
  | nil => rw [List.nil_append, alternates_cons]; exact and_comm
  | cons first events ih =>
      rw [List.cons_append, alternates_cons, alternates_cons, ih, List.foldl_cons, and_assoc]

namespace BleSource

/-- What the source's events leave under an identifier. -/
def known (id : ObservationId) (events : List DiscoveryEvent) : Option PeerObservation :=
  PeerList.standing id (events.map fun event => (bleSourceId, event))

/-- The events of a handle. -/
def eventsOf (key : ObservationKey) (events : List DiscoveryEvent) : List DiscoveryEvent :=
  events.filter fun event => event.id = idOf key

/-- One more event decides what is known under its own identifier. -/
theorem known_concat (key : ObservationKey) (events : List DiscoveryEvent)
    (event : DiscoveryEvent) :
    known (idOf key) (events ++ [event]) =
      if event.id = idOf key then event.leaves else known (idOf key) events := by
  unfold known PeerList.standing
  rw [List.map_append, List.foldl_append]
  simp only [List.map_cons, List.map_nil, List.foldl_cons, List.foldl_nil, PeerList.effect]
  by_cases h : event.id = idOf key
  · rw [if_pos ⟨by rw [h]; rfl, h⟩, if_pos h]
    cases event <;> rfl
  · rw [if_neg fun hc => h hc.2, if_neg h]

theorem eventsOf_concat (key : ObservationKey) (events : List DiscoveryEvent)
    (event : DiscoveryEvent) :
    eventsOf key (events ++ [event]) =
      eventsOf key events ++ if event.id = idOf key then [event] else [] := by
  rw [eventsOf, List.filter_append]
  refine congrArg (eventsOf key events ++ ·) ?_
  split_ifs with h <;> simp [h]

/-- What is known of a handle is what its last event leaves. -/
theorem known_eq_foldl (key : ObservationKey) (events : List DiscoveryEvent) :
    known (idOf key) events =
      (eventsOf key events).foldl (fun _ event => event.leaves) none := by
  induction events using List.reverseRecOn with
  | nil => rfl
  | append_singleton events event ih =>
      rw [known_concat, eventsOf_concat, List.foldl_append, ← ih]
      split_ifs <;> rfl

/-- The tracked handles are what the events told so far and those that wait leave, and the
events of each handle alternate. -/
structure InStep (src : BleSource) (told : List DiscoveryEvent) : Prop where
  keyed : Table.Keyed Prod.fst src.tracked
  named : ∀ t ∈ src.tracked, t.2.lastObservation.id = idOf t.1
  source : ∀ event ∈ told ++ src.pendingEvents, event.id.source = bleSourceId
  known_iff : ∀ key o, known (idOf key) (told ++ src.pendingEvents) = some o ↔
    ∃ t ∈ src.tracked, t.1 = key ∧ t.2.lastObservation = o
  alternates : ∀ key, Alternates none (eventsOf key (told ++ src.pendingEvents))

theorem inStep_new : InStep new [] where
  keyed := List.nodup_nil
  named _ ht := absurd ht List.not_mem_nil
  source _ he := absurd he List.not_mem_nil
  known_iff _ _ := iff_of_false nofun fun ⟨_, ht, _⟩ => List.not_mem_nil ht
  alternates _ := trivial

variable {src : BleSource} {told : List DiscoveryEvent}

/-- An event that changes what is known of a handle, with the handles tracked after it. -/
theorem InStep.tell (h : InStep src told) {key : ObservationKey} {event : DiscoveryEvent}
    {tracked : List (ObservationKey × TrackedHandle)} (hid : event.id = idOf key)
    (hnews : known (idOf key) (told ++ src.pendingEvents) ≠ event.leaves)
    (hkeyed : Table.Keyed Prod.fst tracked)
    (hnamed : ∀ t ∈ tracked, t.2.lastObservation.id = idOf t.1)
    (hown : ∀ o, event.leaves = some o ↔ ∃ t ∈ tracked, t.1 = key ∧ t.2.lastObservation = o)
    (hothers : ∀ t, t.1 ≠ key → (t ∈ tracked ↔ t ∈ src.tracked)) :
    InStep ⟨tracked, src.pendingEvents ++ [event]⟩ told where
  keyed := hkeyed
  named := hnamed
  source e he := by
    rw [← List.append_assoc] at he
    rcases List.mem_append.mp he with he | he
    · exact h.source e he
    · rw [List.mem_singleton.mp he, hid]
      rfl
  known_iff key' o := by
    rw [← List.append_assoc, known_concat, hid]
    by_cases hkey : key = key'
    · rw [if_pos (congrArg idOf hkey), hown, hkey]
    · rw [if_neg fun hc => hkey (congrArg ObservationId.key hc), h.known_iff]
      constructor
      · rintro ⟨t, ht, rfl, rfl⟩
        exact ⟨t, (hothers t (Ne.symm hkey)).mpr ht, rfl, rfl⟩
      · rintro ⟨t, ht, rfl, rfl⟩
        exact ⟨t, (hothers t (Ne.symm hkey)).mp ht, rfl, rfl⟩
  alternates key' := by
    rw [← List.append_assoc, eventsOf_concat, hid]
    by_cases hkey : idOf key = idOf key'
    · rw [if_pos hkey]
      refine alternates_concat.mpr ⟨h.alternates key', ?_⟩
      rwa [← known_eq_foldl, ← hkey]
    · rw [if_neg hkey, List.append_nil]
      exact h.alternates key'

/-- A handle that is tracked may be lost. -/
theorem InStep.lose (h : InStep src told) {key : ObservationKey}
    (hkey : key ∈ src.tracked.map Prod.fst) : InStep (src.lose key) told := by
  obtain ⟨t, ht, rfl⟩ := List.mem_map.mp hkey
  have hknown := (h.known_iff t.1 t.2.lastObservation).mpr ⟨t, ht, rfl, rfl⟩
  refine h.tell rfl ?_ (Table.keyed_delete h.keyed t.1)
    (fun t' ht' => h.named t' (Table.mem_delete.mp ht').1) (fun o => ?_) fun t' hne => ?_
  · rw [hknown]
    exact Option.some_ne_none _
  · refine iff_of_false nofun ?_
    rintro ⟨t', ht', hkey', -⟩
    exact (Table.mem_delete.mp ht').2 hkey'
  · rw [Table.mem_delete]
    exact and_iff_left hne

/-- Handles that are tracked may be lost one after the other. -/
theorem InStep.foldl_lose (h : InStep src told) {keys : List ObservationKey}
    (hnodup : keys.Nodup) (hkeys : ∀ key ∈ keys, key ∈ src.tracked.map Prod.fst) :
    InStep (keys.foldl BleSource.lose src) told := by
  induction keys generalizing src with
  | nil => exact h
  | cons key keys ih =>
      rw [List.nodup_cons] at hnodup
      refine ih (h.lose (hkeys key List.mem_cons_self)) hnodup.2 fun key' hkey' => ?_
      obtain ⟨t, ht, rfl⟩ := List.mem_map.mp (hkeys key' (List.mem_cons_of_mem _ hkey'))
      have hne : t.1 ≠ key := fun heq => hnodup.1 (heq ▸ hkey')
      exact List.mem_map_of_mem (Table.mem_delete.mpr ⟨ht, hne⟩)

theorem InStep.expire (h : InStep src told) (now : ℕ) : InStep (src.expire now) told :=
  h.foldl_lose (h.keyed.sublist List.filter_sublist)
    fun _ hkey => (List.filter_sublist.map Prod.fst).subset hkey

/-- A handle that was heard of again is tracked as before. -/
theorem InStep.refresh (h : InStep src told) (key : ObservationKey) (now : ℕ) :
    InStep { src with
      tracked := Table.update Prod.fst src.tracked key fun t =>
        (t.1, { t.2 with lastSeen := now }) } told where
  keyed := Table.keyed_update h.keyed fun _ _ _ => rfl
  named t ht := by
    obtain ⟨t', ht', rfl⟩ := Table.mem_update.mp ht
    split_ifs <;> exact h.named t' ht'
  source := h.source
  known_iff key' o := by
    rw [h.known_iff]
    constructor
    · rintro ⟨t, ht, rfl, rfl⟩
      refine ⟨_, Table.mem_update.mpr ⟨t, ht, rfl⟩, ?_⟩
      split_ifs <;> exact ⟨rfl, rfl⟩
    · rintro ⟨t', ht', rfl, rfl⟩
      obtain ⟨t, ht, rfl⟩ := Table.mem_update.mp ht'
      refine ⟨t, ht, ?_⟩
      split_ifs <;> exact ⟨rfl, rfl⟩
  alternates := h.alternates

/-- What a handle reports is tracked, and told when it is news. -/
theorem InStep.observe (h : InStep src told) {key : ObservationKey}
    {observation : PeerObservation} (hid : observation.id = idOf key) (now : ℕ) :
    InStep (src.observe now key observation) told := by
  unfold BleSource.observe
  rcases hget : Table.get Prod.fst src.tracked key with _ | ⟨key', tracked⟩
  · have hnew := Table.get_eq_none.mp hget
    have hperm := List.perm_orderedInsert (fun a b => keyLe a b = true) (key, ⟨now, observation⟩)
      src.tracked
    have hmem : ∀ t, t ∈ src.tracked.orderedInsert (fun a b => keyLe a b = true)
        (key, ⟨now, observation⟩) ↔ t = (key, ⟨now, observation⟩) ∨ t ∈ src.tracked := by
      intro t
      rw [hperm.mem_iff, List.mem_cons]
    refine h.tell hid ?_ ?_ (fun t ht => ?_) (fun o => ?_) fun t hne => ?_
    · intro hknown
      obtain ⟨t, ht, hkey, -⟩ := (h.known_iff key observation).mp hknown
      exact hnew t ht hkey
    · refine (hperm.map Prod.fst).nodup_iff.mpr (List.nodup_cons.mpr ⟨fun hkey => ?_, h.keyed⟩)
      obtain ⟨t, ht, heq⟩ := List.mem_map.mp hkey
      exact hnew t ht heq
    · rcases (hmem t).mp ht with rfl | ht
      · exact hid
      · exact h.named t ht
    · constructor
      · intro ho
        obtain rfl := Option.some.inj ho
        exact ⟨_, (hmem _).mpr (.inl rfl), rfl, rfl⟩
      · rintro ⟨t, ht, hkey, rfl⟩
        rcases (hmem t).mp ht with rfl | ht
        · rfl
        · exact absurd hkey (hnew t ht)
    · rw [hmem]
      exact or_iff_right fun heq => hne (congrArg Prod.fst heq)
  · obtain ⟨hmem, rfl⟩ := Table.mem_of_get hget
    dsimp only
    split_ifs with hsame
    · exact h.refresh key' now
    · have hknown := (h.known_iff key' tracked.lastObservation).mpr ⟨_, hmem, rfl, rfl⟩
      refine h.tell hid ?_ (Table.keyed_update h.keyed fun _ _ _ => rfl) (fun t ht => ?_)
        (fun o => ?_) fun t hne => ?_
      · rw [hknown]
        exact fun heq => hsame (Option.some.inj heq)
      · obtain ⟨t', ht', rfl⟩ := Table.mem_update.mp ht
        split_ifs with hkey
        · rw [hkey]
          exact hid
        · exact h.named t' ht'
      · constructor
        · intro ho
          obtain rfl := Option.some.inj ho
          exact ⟨_, Table.mem_update.mpr ⟨_, hmem, (if_pos rfl).symm⟩, rfl, rfl⟩
        · rintro ⟨t, ht, hkey, rfl⟩
          obtain ⟨t', -, rfl⟩ := Table.mem_update.mp ht
          split_ifs at hkey ⊢ with hk
          · rfl
          · exact absurd hkey hk
      · rw [Table.mem_update]
        constructor
        · rintro ⟨t', ht', rfl⟩
          split_ifs at hne ⊢ with hk
          · exact absurd hk hne
          · exact ht'
        · intro ht
          exact ⟨t, ht, (if_neg hne).symm⟩

variable {blake3 : Blake3Kdf}

/-- **One report** never makes the source panic, and keeps handles and events in step. -/
theorem InStep.takeReport (h : InStep src told) (report : ScanReport) (input : ScanInput) :
    ∃ src', src.takeReport blake3 report input = some src' ∧ InStep src' told := by
  have hexpire := h.expire input.monotonic
  unfold BleSource.takeReport
  dsimp only
  rcases had : Advertisement.fromServiceData report.serviceData.val with _ | _ | ad
  · exact absurd had (Advertisement.fromServiceData_ne_panicked _)
  · exact ⟨_, rfl, hexpire⟩
  · dsimp only
    split_ifs
    · rw [ObservationKey.new_value, Candidate.new_eq bleGatt report.handle.candidateRefusal_value]
      exact ⟨_, rfl, hexpire.observe rfl input.monotonic⟩
    · exact ⟨_, rfl, hexpire⟩

/-- What a call of `next_event` may come to for a source that is in step, with some reports
to come and some events that wait: there are fewer of either afterwards. -/
def NextEvent.Fine (told : List DiscoveryEvent) (reports waits : ℕ) : NextEvent → Prop
  | .event e src rest => InStep src (told ++ [e]) ∧
      (rest.length < reports ∨ rest.length = reports ∧ src.pendingEvents.length < waits)
  | .failed _ src rest => InStep src told ∧ rest.length < reports
  | .waiting src => InStep src told ∧ src.pendingEvents = []
  | .panicked => False

theorem NextEvent.Fine.more {reports reports' waits waits' : ℕ} {next : NextEvent}
    (h : next.Fine told reports waits) (hlt : reports < reports') :
    next.Fine told reports' waits' := by
  cases next with
  | event e src rest =>
      refine ⟨h.1, .inl ?_⟩
      rcases h.2 with hrest | ⟨hrest, -⟩
      · exact hrest.trans hlt
      · exact hrest.trans_lt hlt
  | failed => exact ⟨h.1, h.2.trans hlt⟩
  | waiting => exact h
  | panicked => exact h

/-- An event that waits is handed out. -/
theorem InStep.pop {event : DiscoveryEvent} {pending : List DiscoveryEvent}
    (h : InStep src told) (hpending : src.pendingEvents = event :: pending) :
    InStep { src with pendingEvents := pending } (told ++ [event]) := by
  have happend : (told ++ [event]) ++ pending = told ++ src.pendingEvents := by
    rw [hpending, List.append_assoc]
    rfl
  obtain ⟨hkeyed, hnamed, hsource, hknown, halternates⟩ := h
  rw [← happend] at hsource
  simp only [← happend] at hknown halternates
  exact ⟨hkeyed, hnamed, hsource, hknown, halternates⟩

/-- **One call** keeps handles and events in step. -/
theorem InStep.nextEvent (h : InStep src told) (inputs : List ScanInput) :
    (nextEvent blake3 inputs src).Fine told inputs.length src.pendingEvents.length := by
  induction inputs generalizing src with
  | nil =>
      unfold BleSource.nextEvent
      rcases hpending : src.pendingEvents with _ | ⟨event, pending⟩
      · exact ⟨h, hpending⟩
      · exact ⟨h.pop hpending, .inr ⟨rfl, Nat.lt_succ_self _⟩⟩
  | cons input inputs ih =>
      unfold BleSource.nextEvent
      rcases hpending : src.pendingEvents with _ | ⟨event, pending⟩
      · rcases hresult : input.result with e | report
        · exact ⟨h, Nat.lt_succ_self _⟩
        · obtain ⟨src', htake, h'⟩ : ∃ src', src.takeReport blake3 report input = some src' ∧
              InStep src' told := h.takeReport report input
          simp only [htake]
          exact (ih h').more (Nat.lt_succ_self _)
      · exact ⟨h.pop hpending, .inr ⟨rfl, Nat.lt_succ_self _⟩⟩

/-! ### Runs -/

/-- A source, the reports to come and the events it has told. -/
structure Run where
  src : BleSource
  inputs : List ScanInput
  told : List DiscoveryEvent

variable (blake3) in
/-- Some calls one after the other, until the source waits for a report that is not to
come; nothing when one panics. -/
def Run.calls : ℕ → Run → Option Run
  | 0, r => some r
  | n + 1, r =>
    match nextEvent blake3 r.inputs r.src with
    | .event e src rest => calls n ⟨src, rest, r.told ++ [e]⟩
    | .failed _ src rest => calls n ⟨src, rest, r.told⟩
    | .waiting src => some ⟨src, [], r.told⟩
    | .panicked => none

/-- **Any calls** keep handles and events in step. -/
theorem Run.inStep_calls {r : Run} (h : InStep r.src r.told) (n : ℕ) :
    ∃ r', r.calls blake3 n = some r' ∧ InStep r'.src r'.told := by
  induction n generalizing r with
  | zero => exact ⟨r, rfl, h⟩
  | succ n ih =>
      have hfine : (nextEvent blake3 r.inputs r.src).Fine r.told _ _ := h.nextEvent r.inputs
      rw [Run.calls]
      generalize BleSource.nextEvent blake3 r.inputs r.src = next at hfine ⊢
      cases next with
      | event e src rest => exact ih hfine.1
      | failed e src rest => exact ih hfine.1
      | waiting src => exact ⟨_, rfl, hfine.1⟩
      | panicked => exact hfine.elim

/-- **Enough calls** read all reports and tell all events. -/
theorem Run.exists_drained (r : Run) (h : InStep r.src r.told) :
    ∃ n r', r.calls blake3 n = some r' ∧ r'.inputs = [] ∧ r'.src.pendingEvents = [] ∧
      InStep r'.src r'.told :=
  match hnext : BleSource.nextEvent blake3 r.inputs r.src with
  | .event e src rest =>
    have hfine : (NextEvent.event e src rest).Fine r.told _ _ := hnext ▸ h.nextEvent r.inputs
    have ⟨n, r', hcalls, hr'⟩ := exists_drained ⟨src, rest, r.told ++ [e]⟩ hfine.1
    ⟨n + 1, r', by rw [Run.calls, hnext]; exact hcalls, hr'⟩
  | .failed e src rest =>
    have hfine : (NextEvent.failed e src rest).Fine r.told _ _ := hnext ▸ h.nextEvent r.inputs
    have ⟨n, r', hcalls, hr'⟩ := exists_drained ⟨src, rest, r.told⟩ hfine.1
    ⟨n + 1, r', by rw [Run.calls, hnext]; exact hcalls, hr'⟩
  | .waiting src =>
    have hfine : (NextEvent.waiting src).Fine r.told _ _ := hnext ▸ h.nextEvent r.inputs
    ⟨1, ⟨src, [], r.told⟩, by rw [Run.calls, hnext], rfl, hfine.2, hfine.1⟩
  | .panicked => (hnext ▸ h.nextEvent r.inputs : NextEvent.panicked.Fine r.told _ _).elim
termination_by (r.inputs.length, r.src.pendingEvents.length)
decreasing_by
  · rcases hfine.2 with hlt | ⟨heq, hlt⟩
    · exact .left _ _ hlt
    · rw [heq]
      exact .right _ hlt
  · exact .left _ _ hfine.2

/-- A front part of alternating events alternates. -/
theorem alternates_of_append {last : Option PeerObservation} {events more : List DiscoveryEvent}
    (h : Alternates last (events ++ more)) : Alternates last events := by
  induction events generalizing last with
  | nil => trivial
  | cons event events ih =>
      rw [List.cons_append, alternates_cons] at h
      exact alternates_cons.mpr ⟨h.1, ih h.2⟩

/-- What the events of a source say: each is accepted by the peer list, they leave exactly
the handles of the source, and those of each handle alternate. -/
structure Tells (src : BleSource) (events : List DiscoveryEvent) : Prop where
  accepted : ∀ event ∈ events, event.id.source = bleSourceId
  mem_iff : ∀ o, o ∈ (PeerList.new.applyEach
      (events.map fun event => (bleSourceId, event))).observations ↔
    ∃ t ∈ src.tracked, t.2.lastObservation = o
  keyed : (src.tracked.map Prod.fst).Nodup
  named : ∀ t ∈ src.tracked, t.2.lastObservation.id = idOf t.1
  alternates : ∀ key, Alternates none (eventsOf key events)

/-- The events told and those that wait say what the source tracks. -/
theorem InStep.tells (h : InStep src told) : Tells src (told ++ src.pendingEvents) where
  accepted := h.source
  mem_iff o := by
    rw [PeerList.mem_applyEach]
    change known o.id (told ++ src.pendingEvents) = some o ↔ _
    by_cases hsource : o.id.source = bleSourceId
    · have hid : o.id = idOf o.id.key := by
        rw [idOf, ← hsource]
      rw [hid, h.known_iff]
      constructor
      · rintro ⟨t, ht, -, hobservation⟩
        exact ⟨t, ht, hobservation⟩
      · rintro ⟨t, ht, rfl⟩
        refine ⟨t, ht, ?_, rfl⟩
        rw [h.named t ht]
        rfl
    · refine iff_of_false (fun hknown => ?_) ?_
      · rw [known, ← PeerList.standing_filter, List.filter_eq_nil_iff.mpr] at hknown
        · cases hknown
        · intro event hevent
          obtain ⟨e, -, rfl⟩ := List.mem_map.mp hevent
          simpa using Ne.symm hsource
      · rintro ⟨t, ht, rfl⟩
        rw [h.named t ht] at hsource
        exact hsource rfl
  keyed := h.keyed
  named := h.named
  alternates := h.alternates

end BleSource

open BleSource in
/-- **The sources merge without interfering.** The peers do not depend on how the sources'
events are interleaved; they partition the observations by device and are in order; an
event that names another source is refused and changes nothing; and the events of the BLE
source, in the order told, leave exactly its handles, and those of each handle alternate. -/
theorem sources_merge (blake3 : Blake3Kdf) :
    (∀ before sequences events events', IsInterleaving sequences events →
      IsInterleaving sequences events' →
      (PeerList.new.applyEach (before ++ events)).peers =
        (PeerList.new.applyEach (before ++ events')).peers) ∧
    (∀ events, (PeerList.new.applyEach events).Merged) ∧
    (∀ (list : PeerList) (source : Text) (event : DiscoveryEvent), event.id.source ≠ source →
      list.apply source event = .error (.sourceMismatch event.id.source source) ∧
        list.applyOne (source, event) = list) ∧
    (∀ inputs n, ∃ r, Run.calls blake3 n ⟨new, inputs, []⟩ = some r ∧
      Tells r.src (r.told ++ r.src.pendingEvents) ∧
      ∀ key, Alternates none (eventsOf key r.told)) ∧
    ∀ inputs, ∃ n r, Run.calls blake3 n ⟨new, inputs, []⟩ = some r ∧ r.inputs = [] ∧
      Tells r.src r.told := by
  refine ⟨fun before sequences events events' h h' => ?_, fun events => ?_, fun list source event h => ?_,
    fun inputs n => ?_, fun inputs => ?_⟩
  · rw [PeerList.applyEach_eq_of_interleavings (h.append_left before) (h'.append_left before)]
  · exact (PeerList.ordered_new.applyEach events).merged
  · exact PeerList.apply_of_mismatch h
  · obtain ⟨r, hcalls, h⟩ := Run.inStep_calls (r := ⟨new, inputs, []⟩) inStep_new n
    refine ⟨r, hcalls, h.tells, fun key => ?_⟩
    have halternates := h.alternates key
    rw [eventsOf, List.filter_append] at halternates
    exact alternates_of_append halternates
  · obtain ⟨n, r, hcalls, hinputs, hpending, h⟩ := Run.exists_drained ⟨new, inputs, []⟩ inStep_new
    have htells := h.tells
    rw [hpending, List.append_nil] at htells
    exact ⟨n, r, hcalls, hinputs, htells⟩

end Tradr
