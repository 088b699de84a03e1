import Tradr.BrokrServer

/-!
# The Limits of the Brokr

A header is accepted when the pending deliveries leave room for it, in the storage and in
what its sender may have pending. The delivery counts as pending only once it is recorded,
after its whole body has arrived; in between, other headers are checked against the same
room. The limits therefore hold over every run in which each header that is accepted would
still be accepted if the uploads under way were counted, and may be exceeded otherwise.

## Main results

* `BrokrServer.load_effect`: what one action adds to the load, uploads under way included.
* `BrokrServer.withinLimits_of_allows`: the limits hold when uploads under way leave room.
* `BrokrServer.concurrent_uploads_exceed_limits`: they do not hold otherwise.
-/

namespace Tradr

/-- How much a sender's delivery of a size weighs. -/
abbrev Weight := Text → ℕ → ℕ

/-- Storage weighs the size. -/
def Weight.storage : Weight := fun _ size => size

/-- What one sender has pending weighs one each. -/
def Weight.ofSender (d : Text) : Weight := fun sender _ => if sender = d then 1 else 0

/-- The weight of a row. -/
def DeliveryRow.load (c : Weight) (r : DeliveryRow) : ℕ :=
  if r.pending then c r.senderDeviceId r.size else 0

/-- The weight of a header. -/
def UploadHeader.load (c : Weight) (h : UploadHeader) : ℕ :=
  c (toLowerCase h.senderDeviceId) h.totalLen

/-- The weight of an upload that has not failed, once its header is known. -/
def Upload.load (c : Weight) (u : Upload) : ℕ :=
  match u.phase with
  | .failing _ _ => 0
  | _ => u.header.elim 0 (UploadHeader.load c)

/-- The pending deliveries of a sender. -/
def BrokrDb.pendingOf (db : BrokrDb) (d : Text) : ℕ :=
  (db.deliveries.filter fun r => r.senderDeviceId = d ∧ r.pending).length

namespace BrokrServer

variable {cfg : BrokrConfig} {c : Weight}

/-- The limits hold. -/
def WithinLimits (cfg : BrokrConfig) (s : BrokrServer) : Prop :=
  s.db.getWaitingDeliveriesTotalSize ≤ cfg.storageMaxBytes ∧
    ∀ d, s.db.pendingOf d ≤ cfg.maxPendingPerSender

/-- What the uploads under way will weigh. -/
def reserved (c : Weight) (s : BrokrServer) : ℕ := (s.uploads.map (Upload.load c)).sum

/-- What the rows and the uploads under way weigh. -/
def load (c : Weight) (s : BrokrServer) : ℕ :=
  (s.db.deliveries.map (DeliveryRow.load c)).sum + s.reserved c

/-- The header that an action completes and that is accepted. -/
def accepts (cfg : BrokrConfig) (s : BrokrServer) : BrokrAction → Option UploadHeader
  | .putChunk id chunk =>
    match s.upload id with
    | none => none
    | some u =>
      if u.phase = .receiving then
        (u.completes chunk).filter fun h => validateHeader cfg s.db u.callerDeviceId h = none
      else none
  | _ => none

/-- A header that is accepted would be accepted too if the uploads under way were
counted. -/
def LeavesRoom (cfg : BrokrConfig) (s : BrokrServer) (a : BrokrAction) : Prop :=
  ∀ h ∈ accepts cfg s a,
    s.db.getWaitingDeliveriesTotalSize + s.reserved .storage + h.totalLen ≤
        cfg.storageMaxBytes ∧
      s.db.getSenderPendingCount h.senderDeviceId +
          s.reserved (.ofSender (toLowerCase h.senderDeviceId)) <
        cfg.maxPendingPerSender

instance (cfg : BrokrConfig) (s : BrokrServer) (a : BrokrAction) :
    Decidable (s.LeavesRoom cfg a) :=
  inferInstanceAs (Decidable (∀ h ∈ accepts cfg s a, _))

/-- The storage that is taken, as a load. -/
theorem load_storage (s : BrokrServer) :
    s.load .storage = s.db.getWaitingDeliveriesTotalSize + s.reserved .storage := by
  rw [load, BrokrDb.getWaitingDeliveriesTotalSize, Table.sum_filter]
  rfl

/-- What a sender has pending, as a load. -/
theorem load_ofSender (s : BrokrServer) (d : Text) :
    s.load (.ofSender d) = s.db.pendingOf d + s.reserved (.ofSender d) := by
  have hcount : s.db.pendingOf d = ((s.db.deliveries.filter fun r =>
      r.senderDeviceId = d ∧ r.pending).map fun _ => 1).sum := by
    simp [BrokrDb.pendingOf]
  rw [load, hcount, Table.sum_filter]
  congr 3
  funext r
  simp only [DeliveryRow.load, Weight.ofSender, decide_eq_true_eq]
  split_ifs <;> simp_all

/-- A failed upload weighs nothing. -/
theorem load_of_failing {u : Upload} {n : ℕ} {m : String} (h : u.phase = .failing n m) :
    u.load c = 0 := by
  rw [Upload.load, h]

/-- An upload that has not failed weighs what its header says. -/
theorem load_of_receiving {u : Upload} (h : u.phase = .receiving) :
    u.load c = u.header.elim 0 (UploadHeader.load c) := by
  rw [Upload.load, h]

/-- What a chunk adds to the weight of an upload: the header it completes, if that is
accepted. -/
theorem load_takeChunk {u : Upload} (hu : u.phase = .receiving) (db : BrokrDb)
    (chunk : List UInt8) :
    (u.takeChunk cfg db chunk).load c ≤ u.load c +
      ((u.completes chunk).filter fun h =>
        validateHeader cfg db u.callerDeviceId h = none).elim 0 (UploadHeader.load c) := by
  rcases u.takeChunk_cases cfg db chunk with ⟨n, m, hfail⟩ | ⟨_, _, heq⟩ | ⟨_, _, heq⟩ |
    ⟨h, hheader, hcompletes, hvalid, heq⟩
  · rw [load_of_failing hfail]
    exact Nat.zero_le _
  · rw [heq]
    exact Nat.le_add_right _ _
  · rw [heq]
    exact Nat.le_add_right _ _
  · have hfilter : (u.completes chunk).filter (fun h =>
        validateHeader cfg db u.callerDeviceId h = none) = some h := by
      rw [hcompletes]
      simp [hvalid]
    rw [heq, hfilter, load_of_receiving hu, load_of_receiving (by exact hu), hheader]
    simp

/-- The end of a body adds no weight. -/
theorem load_endBody {u : Upload} (hu : u.phase = .receiving) :
    u.endBody.load c ≤ u.load c := by
  rcases u.endBody_cases with ⟨n, m, hfail⟩ | ⟨-, h, hheader, -, heq⟩
  · rw [load_of_failing hfail]
    exact Nat.zero_le _
  · rw [heq, load_of_receiving hu]
    exact le_rfl

/-- Changing an upload changes the load by its weight. -/
theorem load_setUpload {s : BrokrServer} (hs : s.UploadsOk) {u u' : Upload} (hu : u ∈ s.uploads)
    (hid : u'.deliveryId = u.deliveryId) :
    (s.setUpload u').load c + u.load c = s.load c + u'.load c := by
  have hsum := Table.sum_update (f := fun _ => u') (Upload.load c) hs.keyed hu hid.symm
  simp only [load, reserved, setUpload]
  omega

/-- An upload that ends takes its weight along. -/
theorem load_dropUpload {s : BrokrServer} (hs : s.UploadsOk) {u : Upload} (hu : u ∈ s.uploads) :
    (s.dropUpload u.deliveryId).load c + u.load c = s.load c := by
  have hsum := Table.sum_delete (Upload.load c) hs.keyed hu rfl
  simp only [load, reserved, dropUpload]
  omega

/-- A delivery that is recorded weighs what its upload did. -/
theorem load_recordPut {s : BrokrServer} (hs : s.UploadsOk) {u : Upload} (hu : u ∈ s.uploads)
    {h : UploadHeader} (hheader : u.header = some h) (hphase : u.phase = .ending) (now : ℤ) :
    (s.recordPut cfg u h now).load c = s.load c := by
  obtain ⟨h', hheader', hlen⟩ := hs.ending u hu hphase
  obtain rfl := Option.some.inj (hheader.symm.trans hheader')
  have hsum := Table.sum_delete (Upload.load c) hs.keyed hu rfl
  have hu : u.load c = c (toLowerCase h.senderDeviceId) h.totalLen := by
    rw [Upload.load, hphase, hheader]
    rfl
  have hrow : DeliveryRow.load c ⟨u.deliveryId, toLowerCase h.senderDeviceId,
      toLowerCase h.recipientDeviceId, u.bytesReceived, now,
      now + cfg.deliveryTtlDays * 24 * 60 * 60 * 1000, none, none⟩ =
      c (toLowerCase h.senderDeviceId) h.totalLen := by
    rw [DeliveryRow.load, hlen]
    rfl
  simp only [load, reserved, recordPut, BrokrDb.insertDelivery, List.map_append, List.sum_append,
    List.map_cons, List.map_nil, List.sum_cons, List.sum_nil, hrow]
  omega

/-- A delivery that was collected weighs nothing any more. -/
theorem load_markDeliveryCollected (db : BrokrDb) (id : Text) (now : ℤ) :
    ((db.markDeliveryCollected id now).deliveries.map (DeliveryRow.load c)).sum ≤
      (db.deliveries.map (DeliveryRow.load c)).sum := by
  refine Table.sum_update_le _ (fun r => ?_) _ _
  split_ifs
  · exact Nat.zero_le _
  · exact le_rfl

/-- A sweep only takes weight away. -/
theorem load_sweepDeliveries (db : BrokrDb) (files : Files) (now : ℤ) :
    ((db.sweepDeliveries files now).1.deliveries.map (DeliveryRow.load c)).sum ≤
      (db.deliveries.map (DeliveryRow.load c)).sum := by
  have hfold : ∀ (rows : List DeliveryRow) (t : BrokrDb × Files),
      ((rows.foldl BrokrDb.expireRow t).1.deliveries.map (DeliveryRow.load c)).sum ≤
        (t.1.deliveries.map (DeliveryRow.load c)).sum := by
    intro rows
    induction rows with
    | nil => exact fun t => le_rfl
    | cons row rows ih =>
        intro t
        refine (ih _).trans (Table.sum_update_le _ (fun r => ?_) _ _)
        have hzero : DeliveryRow.load c { r with expiredAt := some row.expiresAt } = 0 := by
          simp [DeliveryRow.load, DeliveryRow.pending]
        rw [hzero]
        exact Nat.zero_le _
  exact (Table.sum_filter_le _ _ _).trans (hfold _ _)

/-- **What one action adds to the load**: the header it completes, if that is accepted. -/
theorem load_effect {s s' : BrokrServer} {a : BrokrAction} (hs : s.UploadsOk)
    (h : Effect cfg s a s') :
    s'.load c ≤ s.load c + (accepts cfg s a).elim 0 (UploadHeader.load c) := by
  have hless : s'.load c ≤ s.load c →
      s'.load c ≤ s.load c + (accepts cfg s a).elim 0 (UploadHeader.load c) :=
    fun h => h.trans (Nat.le_add_right _ _)
  cases h with
  | quiet hrows _ huploads _ _ =>
      refine hless ?_
      rw [load, load, reserved, reserved, hrows, huploads]
  | began u hid hnew =>
      refine hless ?_
      have hzero : u.load c = 0 := by
        rw [hnew]
        rfl
      simp [load, reserved, hzero]
  | took u chunk hu hphase =>
      have hkept : UploadsOk { s with
          files := Function.update s.files u.deliveryId ((s.files u.deliveryId).map (· ++ chunk)) } :=
        hs.of_eq rfl rfl
      have hset := load_setUpload (c := c) hkept (mem_of_upload hu).1
        (u.takeChunk_deliveryId cfg s.db chunk)
      have htake : (u.takeChunk cfg s.db chunk).load c ≤ _ := load_takeChunk hphase s.db chunk
      have hsame : load c { s with
        files := Function.update s.files u.deliveryId ((s.files u.deliveryId).map (· ++ chunk)) } =
        s.load c := rfl
      have haccepts : accepts cfg s (.putChunk u.deliveryId chunk) =
          (u.completes chunk).filter fun h =>
            validateHeader cfg s.db u.callerDeviceId h = none := by
        simp only [accepts, hu, hphase, if_true]
      rw [haccepts]
      omega
  | ended u hu hphase =>
      refine hless ?_
      have hset := load_setUpload (c := c) hs hu u.endBody_deliveryId
      have hend := load_endBody (c := c) hphase
      omega
  | aborted u n m hu hphase =>
      refine hless ?_
      have hid : (u.fail n m).deliveryId = u.deliveryId := rfl
      have hset := load_setUpload (c := c) hs hu hid
      have hfail : (u.fail n m).load c = 0 := rfl
      omega
  | dropped u hu => exact hless (Nat.le.intro (load_dropUpload hs hu))
  | recorded u h now hu hphase hheader hnow =>
      refine hless ?_
      rw [load_recordPut hs hu hheader hphase]
  | collected d caller now hd _ _ =>
      exact hless (Nat.add_le_add_right (load_markDeliveryCollected _ _ _) _)
  | swept now _ => exact hless (Nat.add_le_add_right (load_sweepDeliveries _ _ _) _)

/-! ### Whole runs -/

/-- The limits hold with the uploads under way counted. -/
structure Roomy (cfg : BrokrConfig) (s : BrokrServer) : Prop where
  uploads : s.UploadsOk
  storage : s.load .storage ≤ cfg.storageMaxBytes
  pending : ∀ d, s.load (.ofSender d) ≤ cfg.maxPendingPerSender

/-- A Brokr that was just deployed has room. -/
theorem roomy_new (cfg : BrokrConfig) (now : ℤ) : (new now).Roomy cfg where
  uploads := ⟨List.nodup_nil, by simp [new], by simp [new]⟩
  storage := Nat.zero_le _
  pending _ := Nat.zero_le _

/-- A Brokr with room is within its limits. -/
theorem Roomy.withinLimits {s : BrokrServer} (hs : s.Roomy cfg) : s.WithinLimits cfg := by
  have hstorage := hs.storage
  rw [load_storage] at hstorage
  refine ⟨by omega, fun d => ?_⟩
  have hpending := hs.pending d
  rw [load_ofSender] at hpending
  omega

/-- **An action that leaves room keeps room.** -/
theorem Roomy.step {s : BrokrServer} (hs : s.Roomy cfg) {a : BrokrAction} (ha : s.Admissible a)
    (hroom : s.LeavesRoom cfg a) : (s.step cfg a).2.Roomy cfg := by
  have hload : ∀ c, (s.step cfg a).2.load c ≤
      s.load c + (accepts cfg s a).elim 0 (UploadHeader.load c) := fun c => load_effect hs.uploads (effect_step cfg ha)
  rcases haccepts : accepts cfg s a with _ | h
  · simp only [haccepts, Option.elim_none, Nat.add_zero] at hload
    exact ⟨hs.uploads.effect (effect_step cfg ha), (hload _).trans hs.storage,
      fun d => (hload _).trans (hs.pending d)⟩
  · obtain ⟨hstorage, hpending⟩ := hroom h haccepts
    simp only [haccepts, Option.elim_some] at hload
    refine ⟨hs.uploads.effect (effect_step cfg ha), (hload _).trans ?_, fun d => (hload _).trans ?_⟩
    · rw [load_storage]
      exact hstorage
    · by_cases hd : toLowerCase h.senderDeviceId = d
      · subst hd
        have hone : UploadHeader.load (.ofSender (toLowerCase h.senderDeviceId)) h = 1 :=
          if_pos rfl
        rw [load_ofSender, hone]
        exact hpending
      · have hzero : UploadHeader.load (.ofSender d) h = 0 := if_neg hd
        rw [hzero, Nat.add_zero]
        exact hs.pending d

/-- **The limits hold when uploads under way leave room**: over every run in which each
header that is accepted would be accepted too if the uploads under way were counted, the
limits hold at every moment. -/
theorem withinLimits_of_allows {now : ℤ} {actions : List BrokrAction}
    (h : Machine.Allows (step cfg) (fun s a => s.Admissible a ∧ s.LeavesRoom cfg a) (new now)
      actions) :
    ((Machine.run (step cfg) (new now) actions).2).WithinLimits cfg := by
  have hroomy := Machine.run_invariant_of_allows (step cfg) (I := fun _ s => s.Roomy cfg)
    (roomy_new cfg now) (fun _ _ _ ha hs => hs.step ha.1 ha.2) h
  exact hroomy.withinLimits

/-! ### Two uploads at once -/

/-- Two devices of one account register, and the first uploads two deliveries to the second;
the bodies arrive at the same time. -/
def twoUploads : List BrokrAction :=
  [.register (deviceOf 1) [] ['a', 'a'] [] 1, .register (deviceOf 2) [] ['a', 'a'] [] 2,
    .put (some (deviceOf 1)) (some octetStream) ['x'],
    .put (some (deviceOf 1)) (some octetStream) ['y'],
    .putChunk ['x'] smallBody, .putChunk ['y'] smallBody, .putEnd ['x'], .putEnd ['y'],
    .putClosed ['x'] false 3, .putClosed ['y'] false 4]

/-- Where both uploads have room, they are recorded within the limits. -/
theorem withinLimits_of_allows_two :
    ((Machine.run (step ⟨30, 1000, 212, 2⟩) (new 0) twoUploads).2).WithinLimits
      ⟨30, 1000, 212, 2⟩ :=
  withinLimits_of_allows (by decide +kernel)

/-- **Uploads that arrive at the same time exceed the limits**: each is checked before the
other is recorded. -/
theorem concurrent_uploads_exceed_limits :
    Machine.Allows (step ⟨30, 1000, 150, 1⟩) Admissible (new 0) twoUploads ∧
      ((Machine.run (step ⟨30, 1000, 150, 1⟩) (new 0) twoUploads).2).db.getWaitingDeliveriesTotalSize
        = 212 ∧
      ((Machine.run (step ⟨30, 1000, 150, 1⟩) (new 0) twoUploads).2).db.pendingOf (deviceOf 1)
        = 2 ∧
      ¬((Machine.run (step ⟨30, 1000, 150, 1⟩) (new 0) twoUploads).2).WithinLimits
        ⟨30, 1000, 150, 1⟩ := by
  refine ⟨by decide +kernel, by decide +kernel, by decide +kernel, fun h => ?_⟩
  exact absurd h.1 (by decide +kernel)

end BrokrServer

end Tradr
