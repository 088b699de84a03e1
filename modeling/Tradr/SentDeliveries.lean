import Tradr.BrokrLifeCycle
import Tradr.KeyStore

/-!
# Sent Deliveries

The sender keeps a journal of what it handed to the Brokr, and tells the state of a
delivery from the Brokr's outbox: what the outbox lists has the state it is listed with, and
what it does not list counts as waiting for thirty days and as expired from then on. The
journal remembers the last state it saw, but is not asked for it. The Brokr drops a delivery
thirty days after it was collected, and the journal drops it when the next one is recorded,
so that in between a delivery that was collected is reported as expired.

## Main definitions

* `SentDeliveries.record`, `SentDeliveries.mergeWithAt`, `SentDeliveries.updateStates`: the
  journal.
* `Outgoing.step`: a sender and its Brokr.

## Main results

* `BrokrServer.Settled.effect`: what was collected stays so for as long as it is listed.
* `Outgoing.reportsDelivered_iff`: a delivery seen as delivered stays so exactly as long as
  the Brokr lists it, or until the journal has dropped it.
-/

namespace Tradr

/-! ### The journal -/

/-- A delivery in the journal, with the state it was last seen in. -/
structure SentRecord where
  id : Text
  recipientDeviceId : DeviceId
  names : List Text
  sentAt : UnixTime
  state : Option OutboxState
  collectedAt : Option ℤ
  deriving DecidableEq

/-- What the sender is told of a delivery. -/
structure DeliveryStatus where
  id : Text
  recipientDeviceId : DeviceId
  names : List Text
  sentAt : UnixTime
  state : OutboxState
  collectedAt : Option ℤ
  deriving DecidableEq

namespace SentDeliveries

/-- Thirty days, in seconds. -/
def thirtyDays : ℤ := 30 * 24 * 3600

/-- Sixty days, in seconds. -/
def sixtyDays : ℤ := 60 * 24 * 3600

/-- Subtraction of 64-bit numbers that stops at the bounds. -/
def saturatingSub (a b : ℤ) : ℤ := max (-2 ^ 63) (min (2 ^ 63 - 1) (a - b))

/-- The seconds since a delivery was sent. -/
def elapsed (nowSecs : ℤ) (sentAt : UnixTime) : ℤ := saturatingSub nowSecs sentAt.secs.toInt

/-- A record is kept unless it was collected thirty days ago, or sent thirty days ago and
seen as delivered, or sent sixty days ago. -/
def retained (nowSecs : ℤ) (r : SentRecord) : Bool :=
  if r.collectedAt.any fun ms => thirtyDays < saturatingSub nowSecs (ms.tdiv 1000) then false
  else if r.state = some .delivered ∧ thirtyDays < elapsed nowSecs r.sentAt then false
  else if sixtyDays < elapsed nowSecs r.sentAt then false
  else true

/-- Record a new delivery, pruning old ones. -/
def record (entries : List SentRecord) (id : Text) (recipientDeviceId : DeviceId)
    (names : List Text) (sentAt clock : UnixTime) : List SentRecord :=
  entries.filter (retained (max sentAt.secs.toInt clock.secs.toInt)) ++
    [⟨id, recipientDeviceId, names, sentAt, some .waiting, none⟩]

/-- The state of a record, given what the Brokr lists. -/
def statusOf (outbox : List OutboxItem) (now : UnixTime) (r : SentRecord) : DeliveryStatus :=
  match outbox.find? fun e => e.id = r.id with
  | some e => ⟨r.id, r.recipientDeviceId, r.names, r.sentAt, e.state, e.collectedAt⟩
  | none =>
    let state := if thirtyDays < elapsed now.secs.toInt r.sentAt then .expired else .waiting
    ⟨r.id, r.recipientDeviceId, r.names, r.sentAt, state, none⟩

/-- Merge the records with what the Brokr lists. -/
def mergeWithAt (entries : List SentRecord) (outbox : List OutboxItem) (now : UnixTime) :
    List DeliveryStatus :=
  entries.map (statusOf outbox now)

/-- Note a state in the first record of its delivery. -/
def noteStatus (entries : List SentRecord) (status : DeliveryStatus) : List SentRecord :=
  match entries with
  | [] => []
  | r :: rest =>
    if r.id = status.id then
      { r with state := some status.state, collectedAt := status.collectedAt } :: rest
    else r :: noteStatus rest status

/-- Note the states that the Brokr lists. -/
def updateStates (entries : List SentRecord) (outbox : List OutboxItem) (clock : UnixTime) :
    List SentRecord :=
  (mergeWithAt entries outbox clock).foldl noteStatus entries

/-- A delivery is reported as delivered only when the Brokr lists it so. -/
theorem delivered_of_statusOf {outbox : List OutboxItem} {now : UnixTime} {r : SentRecord}
    (h : (statusOf outbox now r).state = .delivered) :
    ∃ e ∈ outbox, e.id = r.id ∧ e.state = .delivered := by
  unfold statusOf at h
  split at h
  · rename_i e he
    exact ⟨e, List.mem_of_find?_eq_some he, by simpa using List.find?_some he, h⟩
  · dsimp only at h
    split_ifs at h

/-- A delivery is reported as the Brokr lists it. -/
theorem statusOf_listed {outbox : List OutboxItem} {r : SentRecord}
    (hall : ∀ e ∈ outbox, e.id = r.id → e.state = .delivered) (hex : ∃ e ∈ outbox, e.id = r.id)
    (now : UnixTime) : (statusOf outbox now r).state = .delivered := by
  unfold statusOf
  split
  · rename_i e he
    exact hall e (List.mem_of_find?_eq_some he) (by simpa using List.find?_some he)
  · rename_i hnone
    obtain ⟨e, he, hid⟩ := hex
    exact absurd (decide_eq_true hid) (List.find?_eq_none.mp hnone e he)

/-- A status is one of a record. -/
theorem statusOf_id (outbox : List OutboxItem) (now : UnixTime) (r : SentRecord) :
    (statusOf outbox now r).id = r.id := by
  unfold statusOf
  split
  · rfl
  · rfl

end SentDeliveries

/-! ### What was collected -/

namespace BrokrServer

variable {cfg : BrokrConfig} {s : BrokrServer}

/-- A delivery with this identifier was recorded, and is listed as collected or not at all. -/
structure Settled (s : BrokrServer) (id : Text) : Prop where
  drawn : id ∈ s.drawn
  apart : ∀ u ∈ s.uploads, u.deliveryId ≠ id
  collected : ∀ r ∈ s.db.deliveries, r.id = id → r.collectedAt.isSome

/-- **What was collected stays so** for as long as it is listed. -/
theorem Settled.effect {s' : BrokrServer} {a : BrokrAction} {id : Text} (hs : s.Sound)
    (h : Effect cfg s a s') (hset : s.Settled id) : s'.Settled id := by
  refine ⟨(drawn_and_now h).1 hset.drawn, ?_, ?_⟩
  · rintro v hv rfl
    rcases upload_origin h hv with ⟨u, hu, he⟩ | hnew
    · exact hset.apart u hu he
    · exact hnew hset.drawn
  · cases h with
    | quiet hrows _ _ _ _ => exact hrows ▸ hset.collected
    | recorded u h now hu hphase hheader hnow =>
        intro r hr hid
        rcases List.mem_append.mp hr with hr | hr
        · exact hset.collected r hr hid
        · obtain rfl := List.mem_singleton.mp hr
          exact absurd hid (hset.apart u hu)
    | collected d caller now hd hrecipient hnow =>
        intro r hr hid
        obtain ⟨r₀, hr₀, rfl⟩ := BrokrDb.mem_markDeliveryCollected.mp hr
        split_ifs with hc
        · rfl
        · rw [if_neg hc] at hid
          exact hset.collected r₀ hr₀ hid
    | swept now hnow =>
        intro r hr hid
        have heq := BrokrDb.sweepDeliveries_deliveries hs.keyed s.files now
        have hr : r ∈ (s.db.sweepDeliveries s.files now).1.deliveries := hr
        rw [heq, List.mem_filter, List.mem_map] at hr
        obtain ⟨⟨r₀, hr₀, rfl⟩, -⟩ := hr
        have hkept : (BrokrDb.expire now r₀).collectedAt = r₀.collectedAt ∧
            (BrokrDb.expire now r₀).id = r₀.id := by
          unfold BrokrDb.expire
          split_ifs
          · exact ⟨rfl, rfl⟩
          · exact ⟨rfl, rfl⟩
        rw [hkept.1]
        exact hset.collected r₀ hr₀ (hkept.2.symm.trans hid)
    | began | took | ended | aborted | dropped => exact hset.collected

end BrokrServer

/-! ### A sender and its Brokr -/

/-- A sender with its journal and the Brokr it hands deliveries to; `observed` is what the
sender has seen as delivered so far. -/
structure Outgoing where
  brokr : BrokrServer
  entries : List SentRecord
  observed : List Text

/-- What happens: something at the Brokr, a delivery is recorded, or the Brokr is asked for
the outbox, to note its states or to report them. The Brokr's clock and the sender's are
not the same. -/
inductive OutgoingAction
  | brokr (a : BrokrAction)
  | record (id : Text) (recipientDeviceId : DeviceId) (names : List Text)
    (sentAt clock : UnixTime)
  | updateStates (brokrNow : ℤ) (clock : UnixTime)
  | mergeWith (brokrNow : ℤ) (now : UnixTime)

namespace Outgoing

variable (cfg : BrokrConfig) (sender : Text)

/-- A sender with a journal, before anything is uploaded. -/
def start (now : ℤ) (entries : List SentRecord) : Outgoing := ⟨.new now, entries, []⟩

/-- The outbox as the Brokr answers it. -/
def outbox (w : Outgoing) (brokrNow : ℤ) : List OutboxItem :=
  w.brokr.db.getOutboxDeliveries sender brokrNow

/-- One of these; a report is what is seen of it. -/
def step (w : Outgoing) : OutgoingAction → Option (List DeliveryStatus) × Outgoing
  | .brokr a => (none, { w with brokr := (w.brokr.step cfg a).2 })
  | .record id recipientDeviceId names sentAt clock =>
    (none, { w with
      entries := SentDeliveries.record w.entries id recipientDeviceId names sentAt clock })
  | .updateStates brokrNow clock =>
    let outbox := w.outbox sender brokrNow
    (none, { w with
      entries := SentDeliveries.updateStates w.entries outbox clock
      observed := w.observed ++ ((SentDeliveries.mergeWithAt w.entries outbox clock).filter
        fun status => status.state = .delivered).map DeliveryStatus.id })
  | .mergeWith brokrNow now =>
    (some (SentDeliveries.mergeWithAt w.entries (w.outbox sender brokrNow) now), w)

/-- The Brokr draws no identifier twice, and its clock does not go back. -/
def Admissible (w : Outgoing) : OutgoingAction → Prop
  | .brokr a => w.brokr.Admissible a
  | _ => True

/-- A report says delivered of everything that was seen as delivered before. -/
def ReportsDelivered (w : Outgoing) : OutgoingAction → Prop
  | .mergeWith brokrNow now =>
    ∀ status ∈ SentDeliveries.mergeWithAt w.entries (w.outbox sender brokrNow) now,
      status.id ∈ w.observed → status.state = .delivered
  | _ => True

/-- When a report is made, the Brokr still lists everything that was seen as delivered
before and that the journal still holds. -/
def StillListed (w : Outgoing) : OutgoingAction → Prop
  | .mergeWith brokrNow _ => ∀ r ∈ w.entries, r.id ∈ w.observed →
    ∃ e ∈ w.outbox sender brokrNow, e.id = r.id
  | _ => True

variable {cfg sender}

/-- Everything that was seen as delivered is settled. -/
structure Inv (w : Outgoing) : Prop where
  sound : w.brokr.Sound
  settled : ∀ id ∈ w.observed, w.brokr.Settled id

/-- An entry of the outbox is a row. -/
theorem mem_outbox {w : Outgoing} {brokrNow : ℤ} {e : OutboxItem}
    (h : e ∈ w.outbox sender brokrNow) :
    ∃ r ∈ w.brokr.db.deliveries, r.id = e.id ∧ r.stateAt brokrNow = e.state := by
  obtain ⟨r, hr, rfl⟩ := List.mem_map.mp h
  rw [List.mem_mergeSort] at hr
  exact ⟨r, List.mem_of_mem_filter hr, rfl, rfl⟩

/-- A row is listed as delivered exactly when it was collected. -/
theorem stateAt_eq_delivered {r : DeliveryRow} {now : ℤ} :
    r.stateAt now = .delivered ↔ r.collectedAt.isSome = true := by
  unfold DeliveryRow.stateAt
  split_ifs with hc
  · simp [hc]
  · simp [hc]
  · simp [hc]

/-- What the Brokr lists as delivered is settled. -/
theorem settled_of_listed {w : Outgoing} {brokrNow : ℤ} {e : OutboxItem} (hs : w.brokr.Sound)
    (he : e ∈ w.outbox sender brokrNow) (hstate : e.state = .delivered) :
    w.brokr.Settled e.id := by
  obtain ⟨r, hr, hid, hrow⟩ := mem_outbox he
  rw [← hid]
  refine ⟨hs.drawn r hr, hs.apart r hr, fun r' hr' hid' => ?_⟩
  obtain rfl := hs.keyed.eq hr' hr hid'
  exact stateAt_eq_delivered.mp (hrow.trans hstate)

/-- **Every action keeps what was seen as delivered settled.** -/
theorem inv_step {w : Outgoing} {a : OutgoingAction} (ha : w.Admissible a) (h : w.Inv) :
    (w.step cfg sender a).2.Inv := by
  cases a with
  | brokr a =>
      have heff := BrokrServer.effect_step cfg ha
      exact ⟨h.sound.effect heff, fun id hid => (h.settled id hid).effect h.sound heff⟩
  | record id recipientDeviceId names sentAt clock => exact ⟨h.sound, h.settled⟩
  | updateStates brokrNow clock =>
      refine ⟨h.sound, fun id hid => ?_⟩
      rcases List.mem_append.mp hid with hid | hid
      · exact h.settled id hid
      · obtain ⟨status, hstatus, rfl⟩ := List.mem_map.mp hid
        obtain ⟨hmem, hstate⟩ := List.mem_filter.mp hstatus
        obtain ⟨r, -, rfl⟩ := List.mem_map.mp hmem
        obtain ⟨e, he, hid, hdelivered⟩ :=
          SentDeliveries.delivered_of_statusOf (of_decide_eq_true hstate)
        rw [SentDeliveries.statusOf_id, ← hid]
        exact settled_of_listed h.sound he hdelivered
  | mergeWith brokrNow now => exact h

/-- **A report says delivered of everything that was seen as delivered exactly when all of
it is still listed.** -/
theorem reportsDelivered_iff_stillListed {w : Outgoing} (h : w.Inv) (a : OutgoingAction) :
    w.ReportsDelivered sender a ↔ w.StillListed sender a := by
  cases a with
  | mergeWith brokrNow now =>
      constructor
      · intro hreport r hr hid
        have hstate := hreport _ (List.mem_map_of_mem hr) (by rwa [SentDeliveries.statusOf_id])
        obtain ⟨e, he, heid, -⟩ := SentDeliveries.delivered_of_statusOf hstate
        exact ⟨e, he, heid⟩
      · intro hlisted status hstatus hid
        obtain ⟨r, hr, rfl⟩ := List.mem_map.mp hstatus
        rw [SentDeliveries.statusOf_id] at hid
        refine SentDeliveries.statusOf_listed (fun e he heid => ?_) (hlisted r hr hid) now
        obtain ⟨row, hrow, hrowid, hstate⟩ := mem_outbox he
        rw [← hstate, stateAt_eq_delivered]
        exact (h.settled r.id hid).collected row hrow (hrowid.trans heid)
  | brokr | record | updateStates => exact Iff.rfl

/-- **A delivery once seen delivered stays delivered for the sender exactly as long as the
Brokr lists it**, or the journal has dropped it: over every run of the Brokr, of records, of
updates and of reports. -/
theorem reportsDelivered_iff {now : ℤ} {entries : List SentRecord} {acts : List OutgoingAction}
    (h : Machine.Allows (step cfg sender) Admissible (start now entries) acts) :
    Machine.Allows (step cfg sender) (ReportsDelivered sender) (start now entries) acts ↔
      Machine.Allows (step cfg sender) (StillListed sender) (start now entries) acts :=
  Machine.allows_congr (step cfg sender) (I := Inv)
    ⟨BrokrServer.sound_new now, fun _ hid => absurd hid List.not_mem_nil⟩
    (fun _ _ ha hinv => inv_step ha hinv) (fun _ a hinv => reportsDelivered_iff_stillListed hinv a)
    h

/-! ### A delivery that was purged -/

instance (w : Outgoing) (a : OutgoingAction) : Decidable (w.Admissible a) :=
  match a with
  | .brokr a => inferInstanceAs (Decidable (w.brokr.Admissible a))
  | .record _ _ _ _ _ | .updateStates _ _ | .mergeWith _ _ => inferInstanceAs (Decidable True)

instance (w : Outgoing) (a : OutgoingAction) : Decidable (w.ReportsDelivered sender a) :=
  match a with
  | .mergeWith _ _ => inferInstanceAs (Decidable (∀ _ ∈ _, _ ∈ w.observed → _))
  | .brokr _ | .record _ _ _ _ _ | .updateStates _ _ => inferInstanceAs (Decidable True)

instance (w : Outgoing) (a : OutgoingAction) : Decidable (w.StillListed sender a) :=
  match a with
  | .mergeWith _ _ => inferInstanceAs (Decidable (∀ _ ∈ _, _ ∈ w.observed → _))
  | .brokr _ | .record _ _ _ _ _ | .updateStates _ _ => inferInstanceAs (Decidable True)

/-- One delivery is uploaded, recorded, collected and seen as delivered. -/
def seenDelivered : List OutgoingAction :=
  BrokrServer.oneUpload.map .brokr ++
    [.record ['x'] ⟨.replicate 16 2⟩ [['f']] ⟨0⟩ ⟨0⟩,
      .brokr (.delete (some (BrokrServer.deviceOf 2)) ['x'] 4), .updateStates 5 ⟨0⟩]

/-- A day later it is still listed, and still reported as delivered. -/
theorem reportsDelivered_iff_next_day :
    Machine.Allows (step BrokrServer.oneDay (BrokrServer.deviceOf 1))
      (ReportsDelivered (BrokrServer.deviceOf 1)) (start 0 [])
      (seenDelivered ++ [.mergeWith 86400000 ⟨86400⟩]) :=
  (reportsDelivered_iff (by decide +kernel)).mpr (by decide +kernel)

/-- **A delivery that was seen as delivered is reported as expired**, once the Brokr has
dropped it and before the journal has. -/
theorem delivered_is_reported_expired :
    let acts := seenDelivered ++ [.brokr (.sweep 2592000004)]
    let w := (Machine.run (step BrokrServer.oneDay (BrokrServer.deviceOf 1)) (start 0 []) acts).2
    Machine.Allows (step BrokrServer.oneDay (BrokrServer.deviceOf 1)) Admissible (start 0 []) acts ∧
      w.observed = [['x']] ∧
      ((w.step BrokrServer.oneDay (BrokrServer.deviceOf 1)
        (.mergeWith 2592000005 ⟨2592001⟩)).1.map fun statuses =>
          statuses.map fun status => (status.id, status.state)) = some [(['x'], .expired)] := by
  decide +kernel

end Outgoing

end Tradr
