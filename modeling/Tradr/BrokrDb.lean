import Mathlib.Data.List.Lex
import Tradr.DataPlane
import Tradr.Table

/-!
# The Brokr's Database

The Brokr is a mailbox: devices register with it, and an envelope that cannot be delivered
directly waits there for its recipient. Its database holds the devices with the tags that
say who may write to whom, and one row for every delivery. A row is never waiting again
once it was collected or has expired, and is dropped thirty days after.

Times are milliseconds, and identifiers are hexadecimal text.

## Main results

* `sweepDeliveries_deliveries`: what a sweep does to the rows, all at once.
* `mem_markDeliveryCollected`: what an acknowledgement does to the rows.
-/

namespace Tradr

/-- Lowercase, as it is taken of hexadecimal text. -/
def toLowerCase (s : Text) : Text := s.map Char.toLower

/-- The lowercase digits are lowercase. -/
theorem toLowerCase_hexText (bs : List UInt8) : toLowerCase (hexText bs) = hexText bs := by
  have hdigit : ∀ v < 16, (hexChars.getD v '0').toLower = hexChars.getD v '0' := by decide
  induction bs with
  | nil => rfl
  | cons b bs ih =>
      have hhigh := hdigit (b.toNat / 16) (by have := b.toNat_lt; omega)
      have hlow := hdigit (b.toNat % 16) (by omega)
      unfold toLowerCase hexText hexByte at ih ⊢
      rw [List.flatMap_cons, List.map_append, ih, List.map_cons, List.map_cons, List.map_nil, hhigh,
        hlow]

/-- A registered device. -/
structure DeviceRow where
  deviceId : Text
  identityPub : Text
  accountTag : Text
  registeredAt : ℤ
  lastSeen : ℤ
  deriving DecidableEq

/-- A delivery. -/
structure DeliveryRow where
  id : Text
  senderDeviceId : Text
  recipientDeviceId : Text
  size : ℕ
  uploadedAt : ℤ
  expiresAt : ℤ
  collectedAt : Option ℤ
  expiredAt : Option ℤ
  deriving DecidableEq

/-- The rows that deliveries are about. -/
structure BrokrDb where
  devices : List DeviceRow
  deviceLinkTags : List (Text × Text)
  deliveries : List DeliveryRow
  deriving DecidableEq

/-- The files of the deliveries directory, by name. -/
abbrev Files := Text → Option (List UInt8)

/-- Remove a file, if it is there. -/
def Files.rm (files : Files) (name : Text) : Files := Function.update files name none

/-- Thirty days. -/
def thirtyDaysMs : ℤ := 30 * 24 * 60 * 60 * 1000

/-- A row that was neither collected nor swept. -/
def DeliveryRow.pending (r : DeliveryRow) : Bool := r.collectedAt.isNone && r.expiredAt.isNone

/-- What the outbox says of a delivery. -/
inductive OutboxState
  | waiting
  | delivered
  | expired
  deriving DecidableEq, Repr

/-- What the outbox says of a delivery at a time. -/
def DeliveryRow.stateAt (r : DeliveryRow) (now : ℤ) : OutboxState :=
  if r.collectedAt.isSome then .delivered
  else if r.expiredAt.isSome ∨ r.expiresAt ≤ now then .expired
  else .waiting

/-- A delivery in the recipient's inbox. -/
structure InboxItem where
  id : Text
  senderDeviceId : Text
  size : ℕ
  uploadedAt : ℤ
  deriving DecidableEq

/-- A delivery in the sender's outbox. -/
structure OutboxItem where
  id : Text
  recipientDeviceId : Text
  size : ℕ
  uploadedAt : ℤ
  state : OutboxState
  collectedAt : Option ℤ
  deriving DecidableEq

/-- Whether a sender may write to a recipient, and whether that one is registered. -/
structure Relation where
  allowed : Bool
  recipientExists : Bool
  deriving DecidableEq

/-- Rows are listed by the time they were uploaded, and by identifier. -/
def uploadedBefore (a b : DeliveryRow) : Bool :=
  a.uploadedAt < b.uploadedAt ∨ a.uploadedAt = b.uploadedAt ∧ ¬List.Lex (· < ·) b.id a.id

namespace BrokrDb

/-- Register a device: its tags are replaced as a whole. -/
def upsertDevice (db : BrokrDb) (deviceId identityPub accountTag : Text) (linkTags : List Text)
    (now : ℤ) : BrokrDb :=
  { db with
    devices := Table.delete DeviceRow.deviceId db.devices deviceId ++
      [⟨deviceId, identityPub, accountTag, now, now⟩]
    deviceLinkTags := (db.deviceLinkTags.filter fun t => t.1 ≠ deviceId) ++
      linkTags.dedup.map fun tag => (deviceId, tag) }

/-- A sender may write to a recipient with the same account tag, or with a link tag in
common. -/
def areDevicesRelated (db : BrokrDb) (senderDeviceId recipientDeviceId : Text) : Relation :=
  match Table.get DeviceRow.deviceId db.devices (toLowerCase recipientDeviceId) with
  | none => ⟨false, false⟩
  | some recipient =>
    match Table.get DeviceRow.deviceId db.devices (toLowerCase senderDeviceId) with
    | none => ⟨false, true⟩
    | some sender =>
      if toLowerCase sender.accountTag = toLowerCase recipient.accountTag then ⟨true, true⟩
      else
        ⟨db.deviceLinkTags.any fun t₁ => db.deviceLinkTags.any fun t₂ =>
          t₁.2 = t₂.2 ∧ t₁.1 = toLowerCase senderDeviceId ∧ t₂.1 = toLowerCase recipientDeviceId,
          true⟩

/-- The size of all pending deliveries together. -/
def getWaitingDeliveriesTotalSize (db : BrokrDb) : ℕ :=
  ((db.deliveries.filter DeliveryRow.pending).map DeliveryRow.size).sum

/-- The number of pending deliveries of a sender. -/
def getSenderPendingCount (db : BrokrDb) (senderDeviceId : Text) : ℕ :=
  (db.deliveries.filter fun r =>
    r.senderDeviceId = toLowerCase senderDeviceId ∧ r.pending).length

/-- Record a delivery. -/
def insertDelivery (db : BrokrDb) (id senderDeviceId recipientDeviceId : Text) (size : ℕ)
    (uploadedAt expiresAt : ℤ) : BrokrDb :=
  { db with
    deliveries := db.deliveries ++
      [⟨id, toLowerCase senderDeviceId, toLowerCase recipientDeviceId, size, uploadedAt, expiresAt,
        none, none⟩] }

/-- The deliveries that wait for a recipient. -/
def getInboxDeliveries (db : BrokrDb) (recipientDeviceId : Text) (now : ℤ) : List InboxItem :=
  ((db.deliveries.filter fun r =>
    r.recipientDeviceId = toLowerCase recipientDeviceId ∧ r.pending ∧ now < r.expiresAt).mergeSort
      uploadedBefore).map fun r => ⟨r.id, r.senderDeviceId, r.size, r.uploadedAt⟩

/-- The row of a delivery. -/
def getDelivery (db : BrokrDb) (id : Text) : Option DeliveryRow :=
  Table.get DeliveryRow.id db.deliveries id

/-- Mark a delivery as collected, unless it is already. -/
def markDeliveryCollected (db : BrokrDb) (id : Text) (now : ℤ) : BrokrDb :=
  { db with
    deliveries := Table.update DeliveryRow.id db.deliveries id fun r =>
      if r.collectedAt.isNone then { r with collectedAt := some now } else r }

/-- The deliveries of a sender and what became of them. -/
def getOutboxDeliveries (db : BrokrDb) (senderDeviceId : Text) (now : ℤ) : List OutboxItem :=
  ((db.deliveries.filter fun r => r.senderDeviceId = toLowerCase senderDeviceId).mergeSort
    uploadedBefore).map fun r =>
      ⟨r.id, r.recipientDeviceId, r.size, r.uploadedAt, r.stateAt now, r.collectedAt⟩

/-- The deliveries that have expired since the last sweep. -/
def expiredRows (db : BrokrDb) (now : ℤ) : List DeliveryRow :=
  db.deliveries.filter fun r => r.pending ∧ r.expiresAt ≤ now

/-- Note that a delivery has expired, and delete its body. -/
def expireRow (s : BrokrDb × Files) (row : DeliveryRow) : BrokrDb × Files :=
  ({ s.1 with
      deliveries := Table.update DeliveryRow.id s.1.deliveries row.id fun r =>
        { r with expiredAt := some row.expiresAt } },
    s.2.rm row.id)

/-- A row is dropped thirty days after it was collected or has expired. -/
def outdated (now : ℤ) (r : DeliveryRow) : Bool :=
  r.collectedAt.any (· ≤ now - thirtyDaysMs) || r.expiredAt.any (· ≤ now - thirtyDaysMs)

/-- Sweep the deliveries. -/
def sweepDeliveries (db : BrokrDb) (files : Files) (now : ℤ) : BrokrDb × Files :=
  let (db, files) := (db.expiredRows now).foldl expireRow (db, files)
  ({ db with deliveries := db.deliveries.filter fun r => ¬outdated now r }, files)

/-! ### What the statements do to the rows -/

/-- A row that a sweep is to note as expired. -/
def due (now : ℤ) (r : DeliveryRow) : Bool := r.pending ∧ r.expiresAt ≤ now

/-- A row after the sweep has noted what has expired. -/
def expire (now : ℤ) (r : DeliveryRow) : DeliveryRow :=
  if due now r then { r with expiredAt := some r.expiresAt } else r

/-- Noting rows one after the other is noting them all at once. -/
theorem foldl_expireRow {rows : List DeliveryRow} (h : Table.Keyed DeliveryRow.id rows)
    (t : BrokrDb × Files) :
    (rows.foldl expireRow t).1.deliveries = t.1.deliveries.map (fun r =>
        (Table.get DeliveryRow.id rows r.id).elim r fun e =>
          { r with expiredAt := some e.expiresAt }) ∧
      ∀ name, (rows.foldl expireRow t).2 name =
        if (Table.get DeliveryRow.id rows name).isSome then none else t.2 name := by
  induction rows generalizing t with
  | nil => simp [Table.get]
  | cons row rows ih =>
      rw [Table.Keyed, List.map_cons, List.nodup_cons] at h
      obtain ⟨hrow, hrest⟩ := h
      obtain ⟨hrows, hfiles⟩ := ih hrest (expireRow t row)
      have hget : ∀ name, Table.get DeliveryRow.id (row :: rows) name =
          if row.id = name then some row else Table.get DeliveryRow.id rows name := by
        intro name
        by_cases hn : row.id = name <;> simp [Table.get, hn]
      have hnone : Table.get DeliveryRow.id rows row.id = none :=
        Table.get_eq_none.mpr fun r hr he => hrow (List.mem_map.mpr ⟨r, hr, he⟩)
      rw [List.foldl_cons]
      constructor
      · rw [hrows, expireRow, Table.update, List.map_map]
        refine List.map_congr_left fun r _ => ?_
        simp only [Function.comp_apply, hget]
        by_cases hid : r.id = row.id
        · simp [hid, hnone]
        · simp [hid, Ne.symm hid]
      · intro name
        rw [hfiles, hget, expireRow, Files.rm]
        by_cases hn : row.id = name
        · subst hn
          simp
        · simp [hn, Function.update_of_ne (Ne.symm hn)]

/-- The row of an identifier among those that have expired. -/
theorem get_expiredRows {db : BrokrDb} (h : Table.Keyed DeliveryRow.id db.deliveries) (now : ℤ)
    {r : DeliveryRow} (hr : r ∈ db.deliveries) :
    Table.get DeliveryRow.id (db.expiredRows now) r.id = if due now r then some r else none := by
  have hkeyed : Table.Keyed DeliveryRow.id (db.expiredRows now) := h.sublist List.filter_sublist
  split_ifs with hdue
  · exact (Table.get_eq_some hkeyed).mpr ⟨List.mem_filter.mpr ⟨hr, hdue⟩, rfl⟩
  · refine Table.get_eq_none.mpr fun q hq he => hdue ?_
    obtain ⟨hq, hdue⟩ := List.mem_filter.mp hq
    rwa [h.eq hq hr he] at hdue

/-- **What a sweep does to the rows**, all at once. -/
theorem sweepDeliveries_deliveries {db : BrokrDb} (h : Table.Keyed DeliveryRow.id db.deliveries)
    (files : Files) (now : ℤ) :
    (db.sweepDeliveries files now).1.deliveries =
      (db.deliveries.map (expire now)).filter fun r => ¬outdated now r := by
  have hkeyed : Table.Keyed DeliveryRow.id (db.expiredRows now) := h.sublist List.filter_sublist
  have hrows := (foldl_expireRow hkeyed (db, files)).1
  have hmap : db.deliveries.map (fun r => (Table.get DeliveryRow.id (db.expiredRows now) r.id).elim
      r fun e => { r with expiredAt := some e.expiresAt }) = db.deliveries.map (expire now) := by
    refine List.map_congr_left fun r hr => ?_
    rw [get_expiredRows h now hr, expire]
    split_ifs <;> rfl
  rw [hmap] at hrows
  simp only [sweepDeliveries, hrows]

/-- A sweep deletes the bodies of the rows that have expired, and no others. -/
theorem sweepDeliveries_files {db : BrokrDb} (h : Table.Keyed DeliveryRow.id db.deliveries)
    (files : Files) (now : ℤ) :
    (∀ r ∈ db.deliveries, (db.sweepDeliveries files now).2 r.id =
        if due now r then none else files r.id) ∧
      ∀ name, (∀ r ∈ db.deliveries, r.id ≠ name) →
        (db.sweepDeliveries files now).2 name = files name := by
  have hkeyed : Table.Keyed DeliveryRow.id (db.expiredRows now) := h.sublist List.filter_sublist
  have hfiles := (foldl_expireRow hkeyed (db, files)).2
  constructor
  · intro r hr
    refine (hfiles r.id).trans ?_
    rw [get_expiredRows h now hr]
    split_ifs <;> simp_all
  · intro name hname
    refine (hfiles name).trans ?_
    have hnone : Table.get DeliveryRow.id (db.expiredRows now) name = none :=
      Table.get_eq_none.mpr fun r hr => hname r (List.mem_filter.mp hr).1
    simp [hnone]

/-- **What an acknowledgement does to the rows.** -/
theorem mem_markDeliveryCollected {db : BrokrDb} {id : Text} {now : ℤ} {r' : DeliveryRow} :
    r' ∈ (db.markDeliveryCollected id now).deliveries ↔ ∃ r ∈ db.deliveries,
      r' = if r.id = id ∧ r.collectedAt = none then { r with collectedAt := some now } else r := by
  rw [markDeliveryCollected, Table.mem_update]
  refine exists_congr fun r => and_congr_right fun _ => ?_
  by_cases hid : r.id = id <;> simp [hid]

end BrokrDb

end Tradr
