import Tradr.BrokrServer

/-!
# The Life Cycle of a Delivery

A delivery waits until it is collected or expires, and then stays so until its row is
dropped, thirty days after. While it waits its body is there, with the size that was
recorded and a header that names the recorded sender and recipient; afterwards it is not.

Collecting does not check that the delivery still waits, as downloading does: the recipient
of a delivery that has expired can still acknowledge it, and it becomes a delivered one. The
life cycle is as described over every run in which no delivery is acknowledged after it has
expired.

## Main results

* `BrokrServer.Sound.effect`: rows, bodies and uploads fit together at every moment.
* `BrokrServer.Follows.step`: what becomes of a row.
* `BrokrServer.lifeCycle_of_allows`: the life cycle, over whole runs.
* `BrokrServer.expired_delivery_is_collected`: acknowledging late breaks it.
-/

namespace Tradr

/-- The bytes are the body of a delivery: they have its size, and their header names its
sender and its recipient. -/
structure BodyOf (r : DeliveryRow) (bytes : List UInt8) : Prop where
  length_eq : bytes.length = r.size
  headerLen_le : headerLen ≤ bytes.length
  sender : toLowerCase (readUploadHeader (bytes.take headerLen)).senderDeviceId = r.senderDeviceId
  recipient : toLowerCase (readUploadHeader (bytes.take headerLen)).recipientDeviceId =
    r.recipientDeviceId

/-- The file of an upload that has not failed holds what was received, and the header was
read from it. -/
structure FileOf (u : Upload) (bytes : List UInt8) : Prop where
  length_eq : bytes.length = u.bytesReceived
  headerChunks : u.header = none → u.headerChunks = bytes
  header : ∀ h, u.header = some h →
    headerLen ≤ bytes.length ∧ h = readUploadHeader (bytes.take headerLen)

/-- A chunk that is written keeps the file of its upload. -/
theorem FileOf.takeChunk {cfg : BrokrConfig} {u : Upload} {bytes : List UInt8} (h : FileOf u bytes)
    (db : BrokrDb) (chunk : List UInt8)
    (hphase : ∀ n m, (u.takeChunk cfg db chunk).phase ≠ .failing n m) :
    FileOf (u.takeChunk cfg db chunk) (bytes ++ chunk) := by
  have hlen : (bytes ++ chunk).length = u.bytesReceived + chunk.length := by
    rw [List.length_append, h.length_eq]
  rcases u.takeChunk_cases cfg db chunk with ⟨n, m, hfail⟩ | ⟨g, hheader, heq⟩ |
    ⟨hheader, -, heq⟩ | ⟨g, hheader, hcompletes, -, heq⟩
  · exact absurd hfail (hphase n m)
  · rw [heq]
    obtain ⟨hle, hg⟩ := h.header g hheader
    refine ⟨hlen, fun hnone => absurd (hheader.symm.trans hnone) (by simp), fun g' hg' => ?_⟩
    obtain rfl := Option.some.inj (hheader.symm.trans hg')
    rw [List.take_append_of_le_length hle]
    exact ⟨by rw [List.length_append]; omega, hg⟩
  · rw [heq]
    refine ⟨hlen, fun _ => by rw [h.headerChunks hheader], fun g' hg' => ?_⟩
    exact absurd (hheader.symm.trans hg') (by simp)
  · rw [heq]
    refine ⟨hlen, fun hnone => absurd hnone (by simp), fun g' hg' => ?_⟩
    obtain rfl := Option.some.inj hg'
    unfold Upload.completes at hcompletes
    split_ifs at hcompletes with hcond
    rw [h.headerChunks hheader] at hcond hcompletes
    exact ⟨hcond.2, (Option.some.inj hcompletes).symm⟩

namespace BrokrServer

variable {cfg : BrokrConfig} {s : BrokrServer}

/-- Rows, bodies and uploads fit together. -/
structure Sound (s : BrokrServer) : Prop where
  uploads : s.UploadsOk
  keyed : Table.Keyed DeliveryRow.id s.db.deliveries
  drawn : ∀ r ∈ s.db.deliveries, r.id ∈ s.drawn
  apart : ∀ r ∈ s.db.deliveries, ∀ u ∈ s.uploads, u.deliveryId ≠ r.id
  body : ∀ r ∈ s.db.deliveries, r.pending → ∃ bytes, s.files r.id = some bytes ∧ BodyOf r bytes
  gone : ∀ r ∈ s.db.deliveries, ¬r.pending → s.files r.id = none
  expired : ∀ r ∈ s.db.deliveries, ∀ t ∈ r.expiredAt, t = r.expiresAt ∧ t ≤ s.now
  file : ∀ u ∈ s.uploads, (∀ n m, u.phase ≠ .failing n m) →
    ∃ bytes, s.files u.deliveryId = some bytes ∧ FileOf u bytes

/-- A Brokr that was just deployed is sound. -/
theorem sound_new (now : ℤ) : (new now).Sound where
  uploads := ⟨List.nodup_nil, by simp [new], by simp [new]⟩
  keyed := List.nodup_nil
  drawn := by simp [new]
  apart := by simp [new]
  body := by simp [new]
  gone := by simp [new]
  expired := by simp [new]
  file := by simp [new]

namespace Sound

/-- Only the rows, the files, the uploads and the identifiers matter, and time passes. -/
theorem of_eq {s' : BrokrServer} (hs : s.Sound) (hrows : s'.db.deliveries = s.db.deliveries)
    (hfiles : s'.files = s.files) (huploads : s'.uploads = s.uploads)
    (hdrawn : s'.drawn = s.drawn) (hnow : s.now ≤ s'.now) : s'.Sound := by
  constructor
  · exact hs.uploads.of_eq huploads hdrawn
  · rw [hrows]
    exact hs.keyed
  · rw [hrows, hdrawn]
    exact hs.drawn
  · rw [hrows, huploads]
    exact hs.apart
  · rw [hrows, hfiles]
    exact hs.body
  · rw [hrows, hfiles]
    exact hs.gone
  · rw [hrows]
    exact fun r hr t ht => ⟨(hs.expired r hr t ht).1, (hs.expired r hr t ht).2.trans hnow⟩
  · rw [huploads, hfiles]
    exact hs.file

/-- A new upload. -/
theorem concat {u : Upload} (hs : s.Sound) (hid : u.deliveryId ∉ s.drawn)
    (hphase : u.phase = .receiving) (hfile : FileOf u []) :
    Sound { s with
      files := Function.update s.files u.deliveryId (some [])
      uploads := s.uploads ++ [u]
      drawn := u.deliveryId :: s.drawn } := by
  have hrow : ∀ r ∈ s.db.deliveries, r.id ≠ u.deliveryId := fun r hr he =>
    hid (he ▸ hs.drawn r hr)
  have hfiles : ∀ name, name ≠ u.deliveryId →
      Function.update s.files u.deliveryId (some []) name = s.files name :=
    fun name hne => Function.update_of_ne hne _ _
  refine ⟨(hs.uploads.concat hid hphase).of_eq rfl rfl, hs.keyed,
    fun r hr => List.mem_cons_of_mem _ (hs.drawn r hr), fun r hr v hv => ?_,
    fun r hr hpending => ?_, fun r hr hgone => (hfiles _ (hrow r hr)).trans (hs.gone r hr hgone),
    hs.expired, fun v hv hnot => ?_⟩
  · rcases List.mem_append.mp hv with hv | hv
    · exact hs.apart r hr v hv
    · rw [List.mem_singleton.mp hv]
      exact (hrow r hr).symm
  · obtain ⟨bytes, hbytes, hbody⟩ := hs.body r hr hpending
    exact ⟨bytes, (hfiles _ (hrow r hr)).trans hbytes, hbody⟩
  · rcases List.mem_append.mp hv with hv | hv
    · obtain ⟨bytes, hbytes, hv'⟩ := hs.file v hv hnot
      have hne : v.deliveryId ≠ u.deliveryId := fun he => hid (he ▸ hs.uploads.drawn v hv)
      exact ⟨bytes, (hfiles _ hne).trans hbytes, hv'⟩
    · obtain rfl := List.mem_singleton.mp hv
      exact ⟨[], Function.update_self _ _ _, hfile⟩

/-- Changing an upload and its file. -/
theorem setUpload {u u' : Upload} (hs : s.Sound) (hu : u ∈ s.uploads)
    (hid : u'.deliveryId = u.deliveryId) {files : Files}
    (hfiles : ∀ name, name ≠ u.deliveryId → files name = s.files name)
    (hend : u'.phase = .ending → ∃ h, u'.header = some h ∧ u'.bytesReceived = h.totalLen)
    (hfile : (∀ n m, u'.phase ≠ .failing n m) →
      ∃ bytes, files u.deliveryId = some bytes ∧ FileOf u' bytes) :
    ({ s with files }.setUpload u').Sound where
  uploads := UploadsOk.setUpload (hs.uploads.of_eq rfl rfl) hu hid hend
  keyed := hs.keyed
  drawn := hs.drawn
  apart r hr v hv := by
    obtain ⟨q, hq, rfl⟩ := Table.mem_update.mp hv
    split_ifs
    · rw [hid]
      exact hs.apart r hr u hu
    · exact hs.apart r hr q hq
  body r hr hpending := by
    obtain ⟨bytes, hbytes, hbody⟩ := hs.body r hr hpending
    exact ⟨bytes, (hfiles _ (hs.apart r hr u hu).symm).trans hbytes, hbody⟩
  gone r hr hgone := (hfiles _ (hs.apart r hr u hu).symm).trans (hs.gone r hr hgone)
  expired := hs.expired
  file v hv := by
    obtain ⟨q, hq, rfl⟩ := Table.mem_update.mp hv
    split_ifs with hqid
    · rw [hid]
      exact hfile
    · intro hphase
      obtain ⟨bytes, hbytes, hq'⟩ := hs.file q hq hphase
      exact ⟨bytes, (hfiles _ (hid ▸ hqid)).trans hbytes, hq'⟩

/-- An upload ends without a delivery. -/
theorem dropUpload {u : Upload} (hs : s.Sound) (hu : u ∈ s.uploads) :
    (s.dropUpload u.deliveryId).Sound := by
  have hfiles : ∀ name, name ≠ u.deliveryId →
      s.files.rm u.deliveryId name = s.files name := fun name hne => Function.update_of_ne hne _ _
  refine ⟨(hs.uploads.delete u.deliveryId).of_eq rfl rfl, hs.keyed, hs.drawn,
    fun r hr v hv => hs.apart r hr v (Table.mem_delete.mp hv).1, fun r hr hpending => ?_,
    fun r hr hgone => ?_, hs.expired, fun v hv hphase => ?_⟩
  · obtain ⟨bytes, hbytes, hbody⟩ := hs.body r hr hpending
    exact ⟨bytes, (hfiles _ (hs.apart r hr u hu).symm).trans hbytes, hbody⟩
  · exact (hfiles _ (hs.apart r hr u hu).symm).trans (hs.gone r hr hgone)
  · obtain ⟨hv, hne⟩ := Table.mem_delete.mp hv
    obtain ⟨bytes, hbytes, hfile⟩ := hs.file v hv hphase
    exact ⟨bytes, (hfiles _ hne).trans hbytes, hfile⟩

/-- An upload becomes a delivery. -/
theorem recordPut {u : Upload} {h : UploadHeader} {now : ℤ} (hs : s.Sound) (hu : u ∈ s.uploads)
    (hphase : u.phase = .ending) (hheader : u.header = some h) (hnow : s.now ≤ now) :
    (s.recordPut cfg u h now).Sound := by
  obtain ⟨bytes, hbytes, hfile⟩ := hs.file u hu (by simp [hphase])
  obtain ⟨hle, hread⟩ := hfile.header h hheader
  have hbody : BodyOf ⟨u.deliveryId, toLowerCase h.senderDeviceId,
      toLowerCase h.recipientDeviceId, u.bytesReceived, now,
      now + cfg.deliveryTtlDays * 24 * 60 * 60 * 1000, none, none⟩ bytes :=
    ⟨hfile.length_eq, hle, by rw [← hread], by rw [← hread]⟩
  have hrows : ∀ r ∈ (s.recordPut cfg u h now).db.deliveries, r ∈ s.db.deliveries ∨
      r = ⟨u.deliveryId, toLowerCase h.senderDeviceId, toLowerCase h.recipientDeviceId,
        u.bytesReceived, now, now + cfg.deliveryTtlDays * 24 * 60 * 60 * 1000, none, none⟩ :=
    fun r hr => (List.mem_append.mp hr).imp_right List.mem_singleton.mp
  refine ⟨(hs.uploads.delete u.deliveryId).of_eq rfl rfl,
    Table.keyed_concat hs.keyed fun q hq => (hs.apart q hq u hu).symm, fun r hr => ?_,
    fun r hr v hv => ?_, fun r hr hpending => ?_, fun r hr hgone => ?_, fun r hr t ht => ?_,
    fun v hv => hs.file v (Table.mem_delete.mp hv).1⟩
  · rcases hrows r hr with hr | rfl
    · exact hs.drawn r hr
    · exact hs.uploads.drawn u hu
  · obtain ⟨hv, hne⟩ := Table.mem_delete.mp hv
    rcases hrows r hr with hr | rfl
    · exact hs.apart r hr v hv
    · exact hne
  · rcases hrows r hr with hr | rfl
    · exact hs.body r hr hpending
    · exact ⟨bytes, hbytes, hbody⟩
  · rcases hrows r hr with hr | rfl
    · exact hs.gone r hr hgone
    · exact absurd rfl hgone
  · rcases hrows r hr with hr | rfl
    · exact ⟨(hs.expired r hr t ht).1, (hs.expired r hr t ht).2.trans hnow⟩
    · exact absurd ht (by simp)

/-- A delivery is acknowledged. -/
theorem markCollected {d : DeliveryRow} {now : ℤ} (hs : s.Sound) (hd : d ∈ s.db.deliveries)
    (hnow : s.now ≤ now) :
    Sound { s with
      db := s.db.markDeliveryCollected d.id now
      files := s.files.rm d.id
      now } := by
  have hrows : ∀ r' ∈ (s.db.markDeliveryCollected d.id now).deliveries, ∃ r ∈ s.db.deliveries,
      r'.id = r.id ∧ r'.expiredAt = r.expiredAt ∧ r'.expiresAt = r.expiresAt ∧
        (r.id ≠ d.id ∧ r' = r ∨ r.id = d.id ∧ ¬r'.pending) := by
    intro r' hr'
    obtain ⟨r, hr, rfl⟩ := BrokrDb.mem_markDeliveryCollected.mp hr'
    refine ⟨r, hr, ?_⟩
    by_cases hid : r.id = d.id
    · rcases hc : r.collectedAt with _ | t
      · simp [hid, DeliveryRow.pending]
      · simp [hid, DeliveryRow.pending, hc]
    · simp [hid]
  have hfiles : ∀ name, name ≠ d.id → s.files.rm d.id name = s.files name :=
    fun name hne => Function.update_of_ne hne _ _
  refine ⟨hs.uploads.of_eq rfl rfl, ?_, fun r' hr' => ?_, fun r' hr' u hu => ?_,
    fun r' hr' hpending => ?_, fun r' hr' hgone => ?_, fun r' hr' t ht => ?_,
    fun u hu hphase => ?_⟩
  · refine Table.keyed_update hs.keyed fun r _ _ => ?_
    split_ifs <;> rfl
  · obtain ⟨r, hr, hid, -⟩ := hrows r' hr'
    rw [hid]
    exact hs.drawn r hr
  · obtain ⟨r, hr, hid, -⟩ := hrows r' hr'
    rw [hid]
    exact hs.apart r hr u hu
  · obtain ⟨r, hr, -, -, -, ⟨hne, rfl⟩ | ⟨-, hnot⟩⟩ := hrows r' hr'
    · obtain ⟨bytes, hbytes, hbody⟩ := hs.body r' hr hpending
      exact ⟨bytes, (hfiles _ hne).trans hbytes, hbody⟩
    · exact absurd hpending hnot
  · obtain ⟨r, hr, hid, -, -, ⟨hne, rfl⟩ | ⟨hd, -⟩⟩ := hrows r' hr'
    · exact (hfiles _ hne).trans (hs.gone r' hr hgone)
    · rw [hid, hd]
      exact Function.update_self _ _ _
  · obtain ⟨r, hr, -, hexpired, hexpires, -⟩ := hrows r' hr'
    rw [hexpired] at ht
    rw [hexpires]
    exact ⟨(hs.expired r hr t ht).1, (hs.expired r hr t ht).2.trans hnow⟩
  · obtain ⟨bytes, hbytes, hfile⟩ := hs.file u hu hphase
    exact ⟨bytes, (hfiles _ (hs.apart d hd u hu)).trans hbytes, hfile⟩

/-- The deliveries are swept. -/
theorem sweep {now : ℤ} (hs : s.Sound) (hnow : s.now ≤ now) :
    Sound { s with
      db := (s.db.sweepDeliveries s.files now).1
      files := (s.db.sweepDeliveries s.files now).2
      now } := by
  obtain ⟨hfiles, hothers⟩ := BrokrDb.sweepDeliveries_files hs.keyed s.files now
  have heq := BrokrDb.sweepDeliveries_deliveries hs.keyed s.files now
  have hrows : ∀ r' ∈ (s.db.sweepDeliveries s.files now).1.deliveries, ∃ r ∈ s.db.deliveries,
      r'.id = r.id ∧ (BrokrDb.due now r ∧ r' = { r with expiredAt := some r.expiresAt } ∨
        ¬BrokrDb.due now r ∧ r' = r) := by
    intro r' hr'
    rw [heq] at hr'
    obtain ⟨r, hr, rfl⟩ := List.mem_map.mp (List.mem_filter.mp hr').1
    refine ⟨r, hr, ?_⟩
    unfold BrokrDb.expire
    split_ifs with hdue
    · exact ⟨rfl, .inl ⟨hdue, rfl⟩⟩
    · exact ⟨rfl, .inr ⟨hdue, rfl⟩⟩
  refine ⟨hs.uploads.of_eq rfl rfl, ?_, fun r' hr' => ?_, fun r' hr' u hu => ?_,
    fun r' hr' hpending => ?_, fun r' hr' hgone => ?_, fun r' hr' t ht => ?_,
    fun u hu hphase => ?_⟩
  · change Table.Keyed DeliveryRow.id (s.db.sweepDeliveries s.files now).1.deliveries
    rw [heq]
    refine Table.Keyed.sublist ?_ List.filter_sublist
    rw [Table.Keyed, List.map_map]
    have hid : DeliveryRow.id ∘ BrokrDb.expire now = DeliveryRow.id := by
      funext r
      simp only [Function.comp_apply, BrokrDb.expire]
      split_ifs <;> rfl
    rw [hid]
    exact hs.keyed
  · obtain ⟨r, hr, hid, -⟩ := hrows r' hr'
    rw [hid]
    exact hs.drawn r hr
  · obtain ⟨r, hr, hid, -⟩ := hrows r' hr'
    rw [hid]
    exact hs.apart r hr u hu
  · obtain ⟨r, hr, hid, ⟨-, rfl⟩ | ⟨hdue, rfl⟩⟩ := hrows r' hr'
    · exact absurd hpending (by simp [DeliveryRow.pending])
    · obtain ⟨bytes, hbytes, hbody⟩ := hs.body r' hr hpending
      exact ⟨bytes, (hfiles r' hr).trans ((if_neg hdue).trans hbytes), hbody⟩
  · obtain ⟨r, hr, hid, ⟨hdue, rfl⟩ | ⟨hdue, rfl⟩⟩ := hrows r' hr'
    · exact (hfiles r hr).trans (if_pos hdue)
    · exact (hfiles r' hr).trans ((if_neg hdue).trans (hs.gone r' hr hgone))
  · obtain ⟨r, hr, hid, ⟨hdue, rfl⟩ | ⟨hdue, rfl⟩⟩ := hrows r' hr'
    · obtain rfl := Option.some.inj ht
      refine ⟨rfl, ?_⟩
      simp only [BrokrDb.due, decide_eq_true_eq] at hdue
      exact hdue.2
    · exact ⟨(hs.expired r' hr t ht).1, (hs.expired r' hr t ht).2.trans hnow⟩
  · obtain ⟨bytes, hbytes, hfile⟩ := hs.file u hu hphase
    have hname := hothers u.deliveryId fun r hr => (hs.apart r hr u hu).symm
    exact ⟨bytes, hname.trans hbytes, hfile⟩

/-- **Rows, bodies and uploads fit together at every moment.** -/
theorem effect {s' : BrokrServer} {a : BrokrAction} (hs : s.Sound) (h : Effect cfg s a s') :
    s'.Sound := by
  cases h with
  | quiet hrows hfiles huploads hdrawn hnow => exact hs.of_eq hrows hfiles huploads hdrawn hnow
  | began u hid hnew =>
      refine hs.concat hid (by rw [hnew]) ?_
      rw [hnew]
      exact ⟨rfl, fun _ => rfl, fun _ h => absurd h (by simp)⟩
  | took u chunk hu hphase =>
      have hmem := (mem_of_upload hu).1
      refine hs.setUpload hmem (u.takeChunk_deliveryId cfg s.db chunk)
        (fun name hne => Function.update_of_ne hne _ _)
        (fun h => absurd h (Upload.phase_takeChunk_ne_ending hphase)) fun hnot => ?_
      obtain ⟨bytes, hbytes, hfile⟩ := hs.file u hmem (by simp [hphase])
      exact ⟨bytes ++ chunk, by rw [Function.update_self, hbytes]; rfl,
        hfile.takeChunk s.db chunk hnot⟩
  | ended u hu hphase =>
      obtain ⟨bytes, hbytes, hfile⟩ := hs.file u hu (by simp [hphase])
      refine hs.setUpload hu u.endBody_deliveryId (fun name _ => rfl) (fun h => ?_)
        fun hnot => ⟨bytes, hbytes, ?_⟩ <;>
      rcases u.endBody_cases with ⟨n, m, hfail⟩ | ⟨-, header, hheader, hlen, heq⟩
      · rw [hfail] at h
        exact absurd h (by simp)
      · rw [heq]
        exact ⟨header, hheader, hlen⟩
      · exact absurd hfail (hnot n m)
      · rw [heq]
        exact ⟨hfile.length_eq, hfile.headerChunks, hfile.header⟩
  | aborted u n m hu hphase =>
      have hid : (u.fail n m).deliveryId = u.deliveryId := rfl
      exact hs.setUpload hu hid (fun name _ => rfl)
        (fun h => absurd h (by simp [Upload.fail])) fun hnot => absurd rfl (hnot _ _)
  | dropped u hu => exact hs.dropUpload hu
  | recorded u h now hu hphase hheader hnow => exact hs.recordPut hu hphase hheader hnow
  | collected d caller now hd _ hnow => exact hs.markCollected (Table.mem_of_get hd).1 hnow
  | swept now hnow => exact hs.sweep hnow

end Sound

/-! ### What becomes of a row -/

/-- The delivery an action acknowledges, and when. -/
def acknowledges (s : BrokrServer) : BrokrAction → Option (DeliveryRow × ℤ)
  | .delete (some callerDeviceId) id now =>
    ((s.db.getDelivery id).filter fun r =>
      toLowerCase r.recipientDeviceId = toLowerCase callerDeviceId).map (·, now)
  | _ => none

/-- A delivery that is acknowledged has not expired. -/
def AcksInTime (s : BrokrServer) (a : BrokrAction) : Prop :=
  ∀ x ∈ acknowledges s a, x.1.stateAt x.2 ≠ .expired

instance (s : BrokrServer) (a : BrokrAction) : Decidable (s.AcksInTime a) :=
  inferInstanceAs (Decidable (∀ x ∈ acknowledges s a, _))

/-- Deliveries were collected before they expired. -/
def Timely (s : BrokrServer) : Prop :=
  ∀ r ∈ s.db.deliveries, ∀ c ∈ r.collectedAt, c < r.expiresAt

/-- There is neither a row nor an upload with the identifier. -/
def Absent (s : BrokrServer) (id : Text) : Prop :=
  (∀ r ∈ s.db.deliveries, r.id ≠ id) ∧ ∀ u ∈ s.uploads, u.deliveryId ≠ id

/-- What one action does to a row: nothing, or it is collected while it waits, or noted as
expired, or dropped thirty days after. -/
inductive RowStep (s s' : BrokrServer) (r : DeliveryRow) : Prop
  | same (h : r ∈ s'.db.deliveries)
  | collected (now : ℤ) (hnow : s.now ≤ now) (hlt : now < r.expiresAt)
      (hnone : r.collectedAt = none)
      (h : { r with collectedAt := some now } ∈ s'.db.deliveries)
  | expired (h : { r with expiredAt := some r.expiresAt } ∈ s'.db.deliveries)
  | dropped (h : ∀ q ∈ s'.db.deliveries, q.id ≠ r.id)
      (e : ℤ) (he : e ∈ r.collectedAt ∨ r.collectedAt = none ∧ e = r.expiresAt)
      (hlate : e + thirtyDaysMs ≤ s'.now)

/-- A sweep notes what has expired and drops what has ended long ago. -/
theorem rowStep_sweep {now : ℤ} {s' : BrokrServer} (hs : s.Sound) (ht : s.Timely)
    (hrows : s'.db.deliveries = (s.db.sweepDeliveries s.files now).1.deliveries)
    (hnow : s'.now = now) {r : DeliveryRow} (hr : r ∈ s.db.deliveries) : RowStep s s' r := by
  have heq := BrokrDb.sweepDeliveries_deliveries hs.keyed s.files now
  have hmem : ∀ q, q ∈ s'.db.deliveries ↔
      (∃ r ∈ s.db.deliveries, BrokrDb.expire now r = q) ∧ ¬BrokrDb.outdated now q := by
    intro q
    rw [hrows, heq, List.mem_filter, List.mem_map, decide_eq_true_eq]
  have hexpire : (BrokrDb.expire now r).collectedAt = r.collectedAt ∧
      ∀ t ∈ (BrokrDb.expire now r).expiredAt, t = r.expiresAt := by
    unfold BrokrDb.expire
    split_ifs
    · exact ⟨rfl, fun t ht => (Option.some.inj ht).symm⟩
    · exact ⟨rfl, fun t ht => (hs.expired r hr t ht).1⟩
  by_cases hout : BrokrDb.outdated now (BrokrDb.expire now r) = true
  · have hdropped : ∀ q ∈ s'.db.deliveries, q.id ≠ r.id := by
      intro q hq hid
      obtain ⟨⟨r₂, hr₂, rfl⟩, hnot⟩ := (hmem q).mp hq
      have hsame : r₂ = r := hs.keyed.eq hr₂ hr (by
        rw [← hid]
        unfold BrokrDb.expire
        split_ifs <;> rfl)
      rw [hsame] at hnot
      exact hnot hout
    simp only [BrokrDb.outdated, Bool.or_eq_true, Option.any_eq_true, decide_eq_true_eq,
      hexpire.1] at hout
    have hend : ∃ t, t ≤ now - thirtyDaysMs ∧ (t ∈ r.collectedAt ∨ t = r.expiresAt) := by
      rcases hout with ⟨t, ht, hle⟩ | ⟨t, ht, hle⟩
      · exact ⟨t, hle, .inl ht⟩
      · exact ⟨t, hle, .inr (hexpire.2 t ht)⟩
    obtain ⟨t, hle, hend⟩ := hend
    have hlate : t + thirtyDaysMs ≤ s'.now := by
      omega
    rcases hc : r.collectedAt with _ | c
    · rw [hc] at hend
      exact .dropped hdropped t (.inr ⟨hc, hend.resolve_left (by simp)⟩) hlate
    · refine .dropped hdropped c (.inl hc) (le_trans ?_ hlate)
      have hlt := ht r hr c hc
      rw [hc] at hend
      rcases hend with hct | rfl
      · rw [Option.some.inj hct]
      · omega
  · have hq := (hmem _).mpr ⟨⟨r, hr, rfl⟩, hout⟩
    unfold BrokrDb.expire at hq
    split_ifs at hq
    · exact .expired hq
    · exact .same hq

/-- **What one action does to a row.** -/
theorem rowStep {s' : BrokrServer} {a : BrokrAction} (hs : s.Sound) (ht : s.Timely)
    (h : Effect cfg s a s') (hacks : s.AcksInTime a) {r : DeliveryRow}
    (hr : r ∈ s.db.deliveries) : RowStep s s' r := by
  cases h with
  | quiet hrows _ _ _ _ => exact .same (hrows ▸ hr)
  | collected d caller now hd hrecipient hnow =>
      have hack : acknowledges s (.delete (some caller) d.id now) = some (d, now) := by
        simp only [acknowledges, hd, Option.filter_some, decide_eq_true hrecipient, if_true,
          Option.map_some]
      have hstate := hacks (d, now) hack
      by_cases hrd : r.id = d.id ∧ r.collectedAt = none
      · obtain rfl := hs.keyed.eq hr (Table.mem_of_get hd).1 hrd.1
        have hlt : now < r.expiresAt := by
          by_contra hge
          exact hstate (by simp [DeliveryRow.stateAt, hrd.2, not_lt.mp hge])
        exact .collected now hnow hlt hrd.2
          (BrokrDb.mem_markDeliveryCollected.mpr ⟨r, hr, (if_pos hrd).symm⟩)
      · exact .same (BrokrDb.mem_markDeliveryCollected.mpr ⟨r, hr, (if_neg hrd).symm⟩)
  | swept now hnow => exact rowStep_sweep hs ht rfl rfl hr
  | recorded => exact .same (List.mem_append_left _ hr)
  | began | took | ended | aborted | dropped => exact .same hr

/-- A row after an action has the identifier of a row before, or it is new and has that of
an upload. -/
theorem row_origin {s' : BrokrServer} {a : BrokrAction} (hs : s.Sound) (h : Effect cfg s a s')
    {r' : DeliveryRow} (hr' : r' ∈ s'.db.deliveries) :
    (∃ r ∈ s.db.deliveries, r.id = r'.id) ∨
      (∃ u ∈ s.uploads, u.deliveryId = r'.id) ∧ r'.collectedAt = none := by
  cases h with
  | quiet hrows _ _ _ _ => exact .inl ⟨r', hrows ▸ hr', rfl⟩
  | recorded u h now hu hphase hheader hnow =>
      rcases List.mem_append.mp hr' with hr' | hr'
      · exact .inl ⟨r', hr', rfl⟩
      · obtain rfl := List.mem_singleton.mp hr'
        exact .inr ⟨⟨u, hu, rfl⟩, rfl⟩
  | collected d caller now hd hrecipient hnow =>
      obtain ⟨r, hr, rfl⟩ := BrokrDb.mem_markDeliveryCollected.mp hr'
      refine .inl ⟨r, hr, ?_⟩
      split_ifs <;> rfl
  | swept now hnow =>
      have hr' : r' ∈ (s.db.sweepDeliveries s.files now).1.deliveries := hr'
      rw [BrokrDb.sweepDeliveries_deliveries hs.keyed] at hr'
      obtain ⟨r, hr, rfl⟩ := List.mem_map.mp (List.mem_filter.mp hr').1
      refine .inl ⟨r, hr, ?_⟩
      unfold BrokrDb.expire
      split_ifs <;> rfl
  | began | took | ended | aborted | dropped => exact .inl ⟨r', hr', rfl⟩

/-- An upload after an action has the identifier of an upload before, or one that was not
drawn before. -/
theorem upload_origin {s' : BrokrServer} {a : BrokrAction} (h : Effect cfg s a s') {v : Upload}
    (hv : v ∈ s'.uploads) :
    (∃ u ∈ s.uploads, u.deliveryId = v.deliveryId) ∨ v.deliveryId ∉ s.drawn := by
  have hset : ∀ {files : Files} {u u' : Upload}, u ∈ s.uploads → u'.deliveryId = u.deliveryId →
      v ∈ ({ s with files }.setUpload u').uploads →
      ∃ u ∈ s.uploads, u.deliveryId = v.deliveryId := by
    intro files u u' hu hid hv
    obtain ⟨q, hq, rfl⟩ := Table.mem_update.mp hv
    split_ifs
    · exact ⟨u, hu, hid.symm⟩
    · exact ⟨q, hq, rfl⟩
  cases h with
  | quiet _ _ huploads _ _ => exact .inl ⟨v, huploads ▸ hv, rfl⟩
  | began u hid hnew =>
      rcases List.mem_append.mp hv with hv | hv
      · exact .inl ⟨v, hv, rfl⟩
      · rw [List.mem_singleton.mp hv]
        exact .inr hid
  | took u chunk hu hphase =>
      exact .inl (hset (mem_of_upload hu).1 (u.takeChunk_deliveryId cfg s.db chunk) hv)
  | ended u hu hphase => exact .inl (hset hu u.endBody_deliveryId hv)
  | aborted u n m hu hphase =>
      have hid : (u.fail n m).deliveryId = u.deliveryId := rfl
      exact .inl (hset hu hid hv)
  | dropped u hu => exact .inl ⟨v, (Table.mem_delete.mp hv).1, rfl⟩
  | recorded u h now hu hphase hheader hnow =>
      exact .inl ⟨v, (Table.mem_delete.mp hv).1, rfl⟩
  | collected | swept => exact .inl ⟨v, hv, rfl⟩

/-- Identifiers stay drawn, and time passes. -/
theorem drawn_and_now {s' : BrokrServer} {a : BrokrAction} (h : Effect cfg s a s') :
    s.drawn ⊆ s'.drawn ∧ s.now ≤ s'.now := by
  cases h with
  | quiet _ _ _ hdrawn hnow => exact ⟨hdrawn ▸ List.Subset.refl _, hnow⟩
  | began u hid hnew => exact ⟨List.subset_cons_self _ _, le_rfl⟩
  | recorded u h now hu hphase hheader hnow => exact ⟨List.Subset.refl _, hnow⟩
  | collected d caller now hd hrecipient hnow => exact ⟨List.Subset.refl _, hnow⟩
  | swept now hnow => exact ⟨List.Subset.refl _, hnow⟩
  | took | ended | aborted | dropped => exact ⟨List.Subset.refl _, le_rfl⟩

/-- What has been absent since its identifier was drawn stays absent. -/
theorem Absent.effect {s' : BrokrServer} {a : BrokrAction} {id : Text} (hs : s.Sound)
    (h : Effect cfg s a s') (hid : id ∈ s.drawn) (habsent : s.Absent id) : s'.Absent id := by
  constructor
  · rintro r' hr' rfl
    rcases row_origin hs h hr' with ⟨r, hr, he⟩ | ⟨⟨u, hu, he⟩, -⟩
    · exact habsent.1 r hr he
    · exact habsent.2 u hu he
  · rintro v hv rfl
    rcases upload_origin h hv with ⟨u, hu, he⟩ | hnew
    · exact habsent.2 u hu he
    · exact hnew hid

/-- Deliveries are collected before they expire. -/
theorem Timely.effect {s' : BrokrServer} {a : BrokrAction} (hs : s.Sound) (ht : s.Timely)
    (h : Effect cfg s a s') (hacks : s.AcksInTime a) : s'.Timely := by
  intro r' hr' c hc
  have hs' := hs.effect h
  rcases row_origin hs h hr' with ⟨r, hr, hid⟩ | ⟨-, hnone⟩
  · cases rowStep hs ht h hacks hr with
    | same hsame =>
        obtain rfl := hs'.keyed.eq hr' hsame hid.symm
        exact ht r' hr c hc
    | collected now _ hlt _ hcollected =>
        obtain rfl := hs'.keyed.eq hr' hcollected hid.symm
        obtain rfl := Option.some.inj hc
        exact hlt
    | expired hexpired =>
        obtain rfl := hs'.keyed.eq hr' hexpired hid.symm
        exact ht r hr c hc
    | dropped hdropped => exact absurd hid.symm (hdropped r' hr')
  · rw [hnone] at hc
    exact absurd hc (by simp)

/-- What a row can become: it keeps all but the times at which it ended, and those once
they are set; and it is collected only before it expires. -/
structure Becomes (r : DeliveryRow) (t : ℤ) (r' : DeliveryRow) : Prop where
  eq : r' = { r with collectedAt := r'.collectedAt, expiredAt := r'.expiredAt }
  collected : ∀ c ∈ r.collectedAt, r'.collectedAt = some c
  late : r.collectedAt = none → ∀ c ∈ r'.collectedAt, t ≤ c ∧ c < r.expiresAt
  expired : ∀ e ∈ r.expiredAt, r'.expiredAt = some e

/-- The time at which a delivery ends, as a row shows it: when it was collected, and else
when it expires or is collected before. -/
def EndsAt (r : DeliveryRow) (t e : ℤ) : Prop :=
  e ∈ r.collectedAt ∨ r.collectedAt = none ∧ (e = r.expiresAt ∨ t ≤ e ∧ e < r.expiresAt)

/-- What has become of a row that was there at a time. -/
structure Follows (r : DeliveryRow) (t : ℤ) (s : BrokrServer) : Prop where
  drawn : r.id ∈ s.drawn
  now : t ≤ s.now
  outcome : (∃ r' ∈ s.db.deliveries, Becomes r t r') ∨
    s.Absent r.id ∧ ∃ e, EndsAt r t e ∧ e + thirtyDaysMs ≤ s.now

/-- **What becomes of a row.** -/
theorem Follows.effect {s' : BrokrServer} {a : BrokrAction} {r : DeliveryRow} {t : ℤ}
    (hs : s.Sound) (ht : s.Timely) (hf : Follows r t s) (h : Effect cfg s a s')
    (hacks : s.AcksInTime a) : Follows r t s' := by
  obtain ⟨hdrawn, hnow⟩ := drawn_and_now h
  refine ⟨hdrawn hf.drawn, hf.now.trans hnow, ?_⟩
  rcases hf.outcome with ⟨r', hr', hb⟩ | ⟨habsent, e, he, hlate⟩
  · have hid : r'.id = r.id := by rw [hb.eq]
    have hexpires : r'.expiresAt = r.expiresAt := by rw [hb.eq]
    cases rowStep hs ht h hacks hr' with
    | same hsame => exact .inl ⟨r', hsame, hb⟩
    | collected now hle hlt hnone hmem =>
        refine .inl ⟨_, hmem, ⟨by rw [hb.eq], fun c hc => ?_, fun _ c hc => ?_, hb.expired⟩⟩
        · exact absurd (hnone.symm.trans (hb.collected c hc)) (by simp)
        · obtain rfl := Option.some.inj hc
          exact ⟨hf.now.trans hle, hexpires ▸ hlt⟩
    | expired hmem =>
        refine .inl ⟨_, hmem, ⟨by rw [hb.eq], hb.collected, hb.late, fun e he => ?_⟩⟩
        exact congrArg some (hs.expired r' hr' e (hb.expired e he)).1.symm
    | dropped hdropped e he hlate =>
        refine .inr ⟨⟨fun q hq => hid ▸ hdropped q hq, fun v hv hvid => ?_⟩, e, ?_, hlate⟩
        · rcases upload_origin h hv with ⟨u, hu, hu'⟩ | hnew
          · exact hs.apart r' hr' u hu (hu'.trans (hvid.trans hid.symm))
          · exact hnew (hvid ▸ hf.drawn)
        · rcases hc : r.collectedAt with _ | c
          · refine .inr ⟨hc, ?_⟩
            rcases he with he | ⟨-, rfl⟩
            · exact .inr (hb.late hc e he)
            · exact .inl hexpires
          · have hc' := hb.collected c hc
            rcases he with he | ⟨hnone, -⟩
            · exact .inl (hc.trans (hc'.symm.trans he))
            · exact absurd (hnone.symm.trans hc') (by simp)
  · exact .inr ⟨habsent.effect hs h hf.drawn, e, he, hlate.trans hnow⟩

/-- A row that has ended says the same at all later times. -/
theorem Becomes.stateAt {r r' : DeliveryRow} {t t' : ℤ} (hb : Becomes r t r') (hle : t ≤ t')
    (hexpired : ∀ e ∈ r.expiredAt, e = r.expiresAt ∧ e ≤ t) (hended : r.stateAt t ≠ .waiting) :
    r'.stateAt t' = r.stateAt t := by
  have hexpires : r'.expiresAt = r.expiresAt := by rw [hb.eq]
  rcases hc : r.collectedAt with _ | c
  · have hover : r.expiresAt ≤ t := by
      rcases he : r.expiredAt with _ | e
      · by_contra hlt
        exact hended (by simp [DeliveryRow.stateAt, hc, he, hlt])
      · obtain ⟨rfl, hle⟩ := hexpired e he
        exact hle
    have hnone : r'.collectedAt = none := by
      rcases hc' : r'.collectedAt with _ | c
      · rfl
      · obtain ⟨hge, hlt⟩ := hb.late hc c hc'
        omega
    simp [DeliveryRow.stateAt, hc, hnone, hexpires, hover, hover.trans hle]
  · simp [DeliveryRow.stateAt, hc, hb.collected c hc]

/-! ### Whole runs -/

/-- What the outbox says of a delivery, if its row is there. -/
def outboxState (s : BrokrServer) (id : Text) : Option OutboxState :=
  (s.db.getDelivery id).map fun r => r.stateAt s.now

/-- A body was served: it is that of a delivery to the caller that waits. -/
def ServedTo (s : BrokrServer) (caller : Option Text) (id : Text) (now : ℤ) (size : ℕ)
    (bytes : List UInt8) : Prop :=
  ∃ c r, caller = some c ∧ s.db.getDelivery id = some r ∧
    toLowerCase r.recipientDeviceId = toLowerCase c ∧ r.stateAt now = .waiting ∧ size = r.size ∧
    BodyOf r bytes

/-- The life cycle of deliveries, from one moment to a later one: what has ended stays as it
is until it is dropped, and a row is dropped no earlier than thirty days after it ended; a
delivery that waits has its body, and one that was collected or swept has none; and a body
is served only to the recipient of a delivery that waits. -/
structure LifeCycle (cfg : BrokrConfig) (s s' : BrokrServer) : Prop where
  terminal : ∀ id state, s.outboxState id = some state → state ≠ .waiting →
    s'.outboxState id = some state ∨ s'.outboxState id = none
  dropped : ∀ r ∈ s.db.deliveries, s'.outboxState r.id = none →
    ∃ e, EndsAt r s.now e ∧ e + thirtyDaysMs ≤ s'.now
  body : ∀ r ∈ s.db.deliveries, r.stateAt s.now = .waiting →
    ∃ bytes, s.files r.id = some bytes ∧ BodyOf r bytes
  noBody : ∀ r ∈ s.db.deliveries, r.collectedAt.isSome ∨ r.expiredAt.isSome →
    s.files r.id = none
  served : ∀ caller id now size bytes,
    (s.step cfg (.get caller id now)).1 = some (.body size bytes) →
    s.ServedTo caller id now size bytes

/-- A body is served only to the recipient of a delivery that waits. -/
theorem servedTo_of_get (hs : s.Sound) {caller : Option Text} {id : Text} {now : ℤ} {size : ℕ}
    {bytes : List UInt8} (h : s.get caller id now = .body size bytes) :
    s.ServedTo caller id now size bytes := by
  unfold get at h
  rcases caller with _ | c
  · exact absurd h (by simp [unauthorized])
  · dsimp only at h
    rcases hd : s.db.getDelivery id with _ | r
    · rw [hd] at h
      exact absurd h (by simp [notFound])
    · rw [hd] at h
      dsimp only at h
      split_ifs at h with hcond
      · exact absurd h (by simp [notFound])
      · simp only [not_or, not_not, Option.not_isSome_iff_eq_none, not_le] at hcond
        obtain ⟨hrecipient, hcollected, hexpired, hlt⟩ := hcond
        obtain ⟨hmem, rfl⟩ := Table.mem_of_get hd
        obtain ⟨bytes', hbytes, hbody⟩ := hs.body r hmem (by
          simp [DeliveryRow.pending, hcollected, hexpired])
        rw [hbytes] at h
        obtain ⟨rfl, rfl⟩ := BrokrReply.body.inj h
        refine ⟨c, r, rfl, hd, hrecipient, ?_, rfl, hbody⟩
        simp [DeliveryRow.stateAt, hcollected, hexpired, not_le.mpr hlt]

/-- Rows, bodies and uploads fit together, and deliveries are collected in time, over every
run in which they are acknowledged in time. -/
theorem soundAndTimely_of_allows {actions : List BrokrAction} (hs : s.Sound) (ht : s.Timely)
    (h : Machine.Allows (step cfg) (fun s a => s.Admissible a ∧ s.AcksInTime a) s actions) :
    ((Machine.run (step cfg) s actions).2).Sound ∧
      ((Machine.run (step cfg) s actions).2).Timely :=
  Machine.run_invariant_of_allows (step cfg) (I := fun _ s => s.Sound ∧ s.Timely) ⟨hs, ht⟩
    (fun _ _ _ ha hst => ⟨hst.1.effect (effect_step cfg ha.1),
      hst.2.effect hst.1 (effect_step cfg ha.1) ha.2⟩) h

/-- What becomes of a row over a run in which deliveries are acknowledged in time. -/
theorem follows_of_allows {actions : List BrokrAction} (hs : s.Sound) (ht : s.Timely)
    (h : Machine.Allows (step cfg) (fun s a => s.Admissible a ∧ s.AcksInTime a) s actions)
    {r : DeliveryRow} (hr : r ∈ s.db.deliveries) :
    Follows r s.now (Machine.run (step cfg) s actions).2 := by
  have hstart : Follows r s.now s :=
    ⟨hs.drawn r hr, le_rfl, .inl ⟨r, hr, rfl, fun _ hc => hc,
      fun hnone c hc => absurd (hnone.symm.trans hc) (by simp), fun _ he => he⟩⟩
  have hrun := Machine.run_invariant_of_allows (step cfg)
    (I := fun _ s' => (s'.Sound ∧ s'.Timely) ∧ Follows r s.now s') ⟨⟨hs, ht⟩, hstart⟩
    (fun _ _ _ ha hst => ⟨⟨hst.1.1.effect (effect_step cfg ha.1),
      hst.1.2.effect hst.1.1 (effect_step cfg ha.1) ha.2⟩,
      hst.2.effect hst.1.1 hst.1.2 (effect_step cfg ha.1) ha.2⟩) h
  exact hrun.2

/-- The life cycle over a run from any moment at which all is in order. -/
theorem lifeCycle_between {actions : List BrokrAction} (hs : s.Sound) (ht : s.Timely)
    (h : Machine.Allows (step cfg) (fun s a => s.Admissible a ∧ s.AcksInTime a) s actions) :
    LifeCycle cfg s (Machine.run (step cfg) s actions).2 where
  terminal id state hstate hended := by
    obtain ⟨r, hget, rfl⟩ := Option.map_eq_some_iff.mp hstate
    obtain ⟨hr, rfl⟩ := Table.mem_of_get hget
    have hf := follows_of_allows hs ht h hr
    have hs' := (soundAndTimely_of_allows hs ht h).1
    rcases hf.outcome with ⟨r', hr', hb⟩ | ⟨habsent, -⟩
    · left
      have hid : r'.id = r.id := by rw [hb.eq]
      rw [outboxState, BrokrDb.getDelivery, (Table.get_eq_some hs'.keyed).mpr ⟨hr', hid⟩,
        Option.map_some, hb.stateAt hf.now (hs.expired r hr) hended]
    · right
      rw [outboxState, BrokrDb.getDelivery, Table.get_eq_none.mpr habsent.1, Option.map_none]
  dropped r hr hnone := by
    have hs' := (soundAndTimely_of_allows hs ht h).1
    rcases (follows_of_allows hs ht h hr).outcome with ⟨r', hr', hb⟩ | ⟨-, hend⟩
    · have hid : r'.id = r.id := by rw [hb.eq]
      rw [outboxState, BrokrDb.getDelivery, (Table.get_eq_some hs'.keyed).mpr ⟨hr', hid⟩] at hnone
      exact absurd hnone (by simp)
    · exact hend
  body r hr hwaiting := by
    refine hs.body r hr ?_
    unfold DeliveryRow.stateAt at hwaiting
    split_ifs at hwaiting with hc he
    rw [not_or] at he
    simp_all [DeliveryRow.pending]
  noBody r hr hended := by
    refine hs.gone r hr ?_
    rcases hended with h | h <;> simp_all [DeliveryRow.pending, Option.isSome_iff_ne_none]
  served caller id now size bytes hserved := servedTo_of_get hs (Option.some.inj hserved)

/-- **The life cycle of deliveries**: over every run in which no delivery is acknowledged
after it has expired, it holds from every moment to every later one. -/
theorem lifeCycle_of_allows {now : ℤ} {before after : List BrokrAction}
    (h : Machine.Allows (step cfg) (fun s a => s.Admissible a ∧ s.AcksInTime a) (new now)
      (before ++ after)) :
    LifeCycle cfg (Machine.run (step cfg) (new now) before).2
      (Machine.run (step cfg) (new now) (before ++ after)).2 := by
  obtain ⟨hbefore, hafter⟩ := (Machine.allows_append _ _ _ _).mp h
  have hok := soundAndTimely_of_allows (sound_new now) (by simp [Timely, new]) hbefore
  rw [Machine.run_append]
  exact lifeCycle_between hok.1 hok.2 hafter

/-! ### A late acknowledgement -/

/-- One delivery is uploaded, and kept for a day. -/
def oneUpload : List BrokrAction :=
  [.register (deviceOf 1) [] ['a', 'a'] [] 1, .register (deviceOf 2) [] ['a', 'a'] [] 2,
    .put (some (deviceOf 1)) (some octetStream) ['x'], .putChunk ['x'] smallBody, .putEnd ['x'],
    .putClosed ['x'] false 3]

/-- A deployment that keeps deliveries for a day. -/
def oneDay : BrokrConfig := ⟨1, 1000, 1000, 10⟩

/-- The delivery is collected in time, and swept a month later. -/
theorem lifeCycle_of_allows_one :
    LifeCycle oneDay (Machine.run (step oneDay) (new 0) (oneUpload ++
        [.delete (some (deviceOf 2)) ['x'] 4])).2
      (Machine.run (step oneDay) (new 0) (oneUpload ++ [.delete (some (deviceOf 2)) ['x'] 4] ++
        [.sweep 2592000004])).2 :=
  lifeCycle_of_allows (by decide +kernel)

/-- **A delivery that has expired is collected**: its recipient acknowledges it after it was
swept, and the outbox, which said expired, says delivered. -/
theorem expired_delivery_is_collected :
    let s := (Machine.run (step oneDay) (new 0) (oneUpload ++ [.sweep 86400003])).2
    let s' := (Machine.run (step oneDay) (new 0) (oneUpload ++ [.sweep 86400003] ++
      [.delete (some (deviceOf 2)) ['x'] 86400004])).2
    Machine.Allows (step oneDay) Admissible (new 0) (oneUpload ++ [.sweep 86400003] ++
        [.delete (some (deviceOf 2)) ['x'] 86400004]) ∧
      s.outboxState ['x'] = some .expired ∧ s'.outboxState ['x'] = some .delivered ∧
      ¬LifeCycle oneDay s s' := by
  have hexpired : (Machine.run (step oneDay) (new 0) (oneUpload ++ [.sweep 86400003])).2.outboxState
      ['x'] = some .expired := by decide +kernel
  have hdelivered : (Machine.run (step oneDay) (new 0) (oneUpload ++ [.sweep 86400003] ++
      [.delete (some (deviceOf 2)) ['x'] 86400004])).2.outboxState ['x'] = some .delivered := by
    decide +kernel
  refine ⟨by decide +kernel, hexpired, hdelivered, fun h => ?_⟩
  rcases h.terminal ['x'] .expired hexpired (by simp) with h | h
  · exact absurd (hdelivered.symm.trans h) (by simp)
  · exact absurd (hdelivered.symm.trans h) (by simp)

end BrokrServer

end Tradr
