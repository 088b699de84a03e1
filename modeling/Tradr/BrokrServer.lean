import Tradr.BigEndian
import Tradr.BrokrDb
import Tradr.Machine

/-!
# The Brokr

The Brokr serves many requests at once, on one thread: a request runs undisturbed from one
point where it waits to the next. Only an upload waits. Its body arrives in chunks, which
are written to a file as they come; the header is checked as soon as it is complete, and the
delivery is recorded after the body has ended and the file was closed.

The system is a machine whose actions are these stretches. A session is resolved before,
so that a request comes with the device it was made by, or with none.

## Main definitions

* `BrokrServer.step`: what one stretch of a request, or a sweep, does and answers.
* `BrokrServer.Admissible`: identifiers are drawn at random and the clock does not go back.

## Main results

* `BrokrServer.effect_step`: the ways in which an action changes the Brokr.
* `BrokrServer.UploadsOk.effect`: uploads under way keep their identifiers apart, and those
  whose body has ended have the length of their header.
-/

open BigEndian

namespace Tradr

/-- The limits, set at deployment. -/
structure BrokrConfig where
  deliveryTtlDays : ℕ
  deliveryMaxBytes : ℕ
  storageMaxBytes : ℕ
  maxPendingPerSender : ℕ

/-- The answer to a request. -/
inductive BrokrReply
  | error (status : ℕ) (message : String)
  | stored (id : Text)
  | acknowledged
  | inbox (items : List InboxItem)
  | outbox (items : List OutboxItem)
  | body (contentLength : ℕ) (bytes : List UInt8)
  deriving DecidableEq

/-- The outer header of an upload, as far as the Brokr reads it. -/
structure UploadHeader where
  version : UInt8
  recipientDeviceId : Text
  senderDeviceId : Text
  totalLen : ℕ
  deriving DecidableEq

/-- Where an upload is: its body arrives, or has ended and the file is being closed. -/
inductive UploadPhase
  | receiving
  | ending
  | failing (status : ℕ) (message : String)
  deriving DecidableEq

/-- An upload under way. -/
structure Upload where
  deliveryId : Text
  callerDeviceId : Text
  bytesReceived : ℕ
  headerChunks : List UInt8
  header : Option UploadHeader
  phase : UploadPhase
  deriving DecidableEq

/-- The bytes of an envelope's header. -/
def headerLen : ℕ := 106

/-- Read the header. -/
def readUploadHeader (headerBuf : List UInt8) : UploadHeader where
  version := headerBuf.headD 0
  recipientDeviceId := hexText ((headerBuf.drop 1).take 16)
  senderDeviceId := hexText ((headerBuf.drop 17).take 16)
  totalLen := ofBE ((headerBuf.drop 98).take 8)

/-- Check the header of an upload: why it is refused, if it is. -/
def validateHeader (cfg : BrokrConfig) (db : BrokrDb) (callerDeviceId : Text)
    (h : UploadHeader) : Option (ℕ × String) :=
  if h.version ≠ 1 then some (400, "Unsupported envelope version")
  else if toLowerCase h.senderDeviceId ≠ toLowerCase callerDeviceId then
    some (400, "Sender device ID does not match session")
  else if cfg.deliveryMaxBytes < h.totalLen ∨ h.totalLen < headerLen then
    some (400, "Delivery exceeds maximum allowed size")
  else
    let related := db.areDevicesRelated h.senderDeviceId h.recipientDeviceId
    if ¬related.recipientExists ∨ ¬related.allowed then
      some (403, "Recipient is not eligible for delivery")
    else if cfg.storageMaxBytes < db.getWaitingDeliveriesTotalSize + h.totalLen then
      some (413, "Storage limit exceeded")
    else if cfg.maxPendingPerSender ≤ db.getSenderPendingCount h.senderDeviceId then
      some (429, "Sender pending limit reached")
    else none

namespace Upload

/-- Give up an upload. -/
def fail (u : Upload) (status : ℕ) (message : String) : Upload :=
  { u with phase := .failing status message }

/-- A body must not be longer than the header says. -/
def checkLength (u : Upload) (h : UploadHeader) : Upload :=
  if h.totalLen < u.bytesReceived then u.fail 400 "Body length exceeds total_len" else u

/-- The header that a chunk completes. -/
def completes (u : Upload) (chunk : List UInt8) : Option UploadHeader :=
  if u.header.isNone ∧ headerLen ≤ (u.headerChunks ++ chunk).length then
    some (readUploadHeader ((u.headerChunks ++ chunk).take headerLen))
  else none

/-- Take in a chunk of the body. -/
def takeChunk (u : Upload) (cfg : BrokrConfig) (db : BrokrDb) (chunk : List UInt8) : Upload :=
  let u' := { u with bytesReceived := u.bytesReceived + chunk.length }
  match u.header with
  | some h => u'.checkLength h
  | none =>
    let u' := { u' with headerChunks := u.headerChunks ++ chunk }
    match u.completes chunk with
    | none => u'
    | some h =>
      let u' := { u' with header := some h }
      match validateHeader cfg db u.callerDeviceId h with
      | some (status, message) => u'.fail status message
      | none => u'.checkLength h

/-- The body has ended. -/
def endBody (u : Upload) : Upload :=
  match u.header with
  | none => u.fail 400 "Body length does not match total_len"
  | some h =>
    if u.bytesReceived = h.totalLen then { u with phase := .ending }
    else u.fail 400 "Body length does not match total_len"

end Upload

/-- The Brokr: its database and its files, the uploads under way, and what was seen of the
sources of randomness and time. -/
structure BrokrServer where
  db : BrokrDb
  files : Files
  uploads : List Upload
  drawn : List Text
  now : ℤ

/-- One stretch of a request, or a sweep. -/
inductive BrokrAction
  | register (deviceId identityPub accountTag : Text) (linkTags : List Text) (now : ℤ)
  | put (caller contentType : Option Text) (deliveryId : Text)
  | putChunk (deliveryId : Text) (chunk : List UInt8)
  | putEnd (deliveryId : Text)
  | putAbort (deliveryId : Text) (err : String)
  | putClosed (deliveryId : Text) (fileStreamError : Bool) (now : ℤ)
  | inbox (caller : Option Text) (now : ℤ)
  | get (caller : Option Text) (id : Text) (now : ℤ)
  | delete (caller : Option Text) (id : Text) (now : ℤ)
  | outbox (caller : Option Text) (now : ℤ)
  | sweep (now : ℤ)

namespace BrokrServer

/-- A Brokr that was just deployed. -/
def new (now : ℤ) : BrokrServer := ⟨⟨[], [], []⟩, fun _ => none, [], [], now⟩

/-- The answer to a request that comes without a session. -/
def unauthorized : BrokrReply := .error 401 "Unauthorized"

/-- The answer to a request for what is not there. -/
def notFound : BrokrReply := .error 404 "Not found"

/-- The upload with an identifier. -/
def upload (s : BrokrServer) (id : Text) : Option Upload :=
  Table.get Upload.deliveryId s.uploads id

/-- Change an upload. -/
def setUpload (s : BrokrServer) (u : Upload) : BrokrServer :=
  { s with uploads := Table.update Upload.deliveryId s.uploads u.deliveryId fun _ => u }

/-- An upload ends without a delivery. -/
def dropUpload (s : BrokrServer) (id : Text) : BrokrServer :=
  { s with
    files := s.files.rm id
    uploads := Table.delete Upload.deliveryId s.uploads id }

/-- Start an upload. -/
def beginPut (s : BrokrServer) (caller contentType : Option Text) (deliveryId : Text) :
    Option BrokrReply × BrokrServer :=
  match caller with
  | none => (some unauthorized, s)
  | some callerDeviceId =>
    if contentType.any fun t => "application/octet-stream".toList <+: toLowerCase t then
      (none, { s with
        files := Function.update s.files deliveryId (some [])
        uploads := s.uploads ++ [⟨deliveryId, callerDeviceId, 0, [], none, .receiving⟩]
        drawn := deliveryId :: s.drawn })
    else (some (.error 400 "Expected application/octet-stream"), s)

/-- A chunk of a body is written to the file and taken in. -/
def putChunk (cfg : BrokrConfig) (s : BrokrServer) (id : Text) (chunk : List UInt8) :
    BrokrServer :=
  match s.upload id with
  | none => s
  | some u =>
    if u.phase = .receiving then
      { s with
        files := Function.update s.files id ((s.files id).map (· ++ chunk)) }.setUpload
          (u.takeChunk cfg s.db chunk)
    else s

/-- A body has ended, or could not be read to its end. -/
def endPut (s : BrokrServer) (id : Text) (finish : Upload → Upload) : BrokrServer :=
  match s.upload id with
  | none => s
  | some u => if u.phase = .receiving then s.setUpload (finish u) else s

/-- Record the delivery of an upload. -/
def recordPut (cfg : BrokrConfig) (s : BrokrServer) (u : Upload) (h : UploadHeader) (now : ℤ) :
    BrokrServer :=
  { s with
    db := s.db.insertDelivery u.deliveryId h.senderDeviceId h.recipientDeviceId u.bytesReceived now
      (now + cfg.deliveryTtlDays * 24 * 60 * 60 * 1000)
    uploads := Table.delete Upload.deliveryId s.uploads u.deliveryId
    now }

/-- The file of an upload was closed: the delivery is recorded, or the file removed. -/
def putClosed (cfg : BrokrConfig) (s : BrokrServer) (id : Text) (fileStreamError : Bool)
    (now : ℤ) : Option BrokrReply × BrokrServer :=
  match s.upload id with
  | none => (none, s)
  | some u =>
    match u.phase, u.header with
    | .failing status message, _ => (some (.error status message), s.dropUpload id)
    | .ending, some h =>
      if fileStreamError then
        (some (.error 500 "Failed to write delivery file"), s.dropUpload id)
      else (some (.stored id), s.recordPut cfg u h now)
    | _, _ => (none, s)

/-- Download a delivery. -/
def get (s : BrokrServer) (caller : Option Text) (id : Text) (now : ℤ) : BrokrReply :=
  match caller with
  | none => unauthorized
  | some callerDeviceId =>
    match s.db.getDelivery id with
    | none => notFound
    | some delivery =>
      if toLowerCase delivery.recipientDeviceId ≠ toLowerCase callerDeviceId ∨
          delivery.collectedAt.isSome ∨ delivery.expiredAt.isSome ∨ delivery.expiresAt ≤ now then
        notFound
      else
        match s.files id with
        | none => notFound
        | some bytes => .body delivery.size bytes

/-- Acknowledge a delivery. -/
def delete (s : BrokrServer) (caller : Option Text) (id : Text) (now : ℤ) :
    BrokrReply × BrokrServer :=
  match caller with
  | none => (unauthorized, s)
  | some callerDeviceId =>
    match s.db.getDelivery id with
    | none => (notFound, s)
    | some delivery =>
      if toLowerCase delivery.recipientDeviceId ≠ toLowerCase callerDeviceId then (notFound, s)
      else
        (.acknowledged, { s with
          db := s.db.markDeliveryCollected id now
          files := s.files.rm id })

/-- The clock was read. -/
def tick (s : BrokrServer) (now : ℤ) : BrokrServer := { s with now }

/-- Perform one stretch of a request, or a sweep: what is answered, and the Brokr after. -/
def step (cfg : BrokrConfig) (s : BrokrServer) :
    BrokrAction → Option BrokrReply × BrokrServer
  | .register deviceId identityPub accountTag linkTags now =>
    (none, { s with
      db := s.db.upsertDevice deviceId identityPub accountTag linkTags now
      now })
  | .put caller contentType deliveryId => s.beginPut caller contentType deliveryId
  | .putChunk id chunk => (none, s.putChunk cfg id chunk)
  | .putEnd id => (none, s.endPut id Upload.endBody)
  | .putAbort id err => (none, s.endPut id fun u => u.fail 400 ("Stream read error: " ++ err))
  | .putClosed id fileStreamError now => s.putClosed cfg id fileStreamError now
  | .inbox caller now =>
    (some (caller.elim unauthorized fun c => .inbox (s.db.getInboxDeliveries c now)), s.tick now)
  | .get caller id now => (some (s.get caller id now), s.tick now)
  | .delete caller id now =>
    (some (s.delete caller id now).1, (s.delete caller id now).2.tick now)
  | .outbox caller now =>
    (some (caller.elim unauthorized fun c => .outbox (s.db.getOutboxDeliveries c now)), s.tick now)
  | .sweep now =>
    let (db, files) := s.db.sweepDeliveries s.files now
    (none, { s with db, files, now })

/-- The time an action reads from the clock. -/
def reading : BrokrAction → Option ℤ
  | .register _ _ _ _ now => some now
  | .putClosed _ _ now => some now
  | .inbox _ now => some now
  | .get _ _ now => some now
  | .delete _ _ now => some now
  | .outbox _ now => some now
  | .sweep now => some now
  | _ => none

/-- The identifier an action draws. -/
def drawing : BrokrAction → Option Text
  | .put _ _ deliveryId => some deliveryId
  | _ => none

/-- An identifier is not drawn twice, and the clock does not go back. -/
def Admissible (s : BrokrServer) (a : BrokrAction) : Prop :=
  (∀ now ∈ reading a, s.now ≤ now) ∧ ∀ id ∈ drawing a, id ∉ s.drawn

instance (s : BrokrServer) (a : BrokrAction) : Decidable (s.Admissible a) :=
  inferInstanceAs (Decidable (_ ∧ _))

/-! ### Uploads under way -/

/-- The uploads under way are told apart by their identifiers, and one whose body has ended
has the length of its header. -/
structure UploadsOk (s : BrokrServer) : Prop where
  keyed : Table.Keyed Upload.deliveryId s.uploads
  drawn : ∀ u ∈ s.uploads, u.deliveryId ∈ s.drawn
  ending : ∀ u ∈ s.uploads, u.phase = .ending →
    ∃ h, u.header = some h ∧ u.bytesReceived = h.totalLen

end BrokrServer

namespace Upload

variable {u : Upload} {cfg : BrokrConfig} {db : BrokrDb} {chunk : List UInt8}

@[simp] theorem checkLength_deliveryId (u : Upload) (h : UploadHeader) :
    (u.checkLength h).deliveryId = u.deliveryId := by
  unfold checkLength
  split_ifs <;> rfl

/-- What a chunk does to an upload: it gives it up, or it adds to the body, and perhaps
completes a header that is accepted. -/
theorem takeChunk_cases (u : Upload) (cfg : BrokrConfig) (db : BrokrDb) (chunk : List UInt8) :
    (∃ n m, (u.takeChunk cfg db chunk).phase = .failing n m) ∨
      (∃ h, u.header = some h ∧ u.takeChunk cfg db chunk =
        { u with bytesReceived := u.bytesReceived + chunk.length }) ∨
      (u.header = none ∧ u.completes chunk = none ∧ u.takeChunk cfg db chunk =
        { u with
          bytesReceived := u.bytesReceived + chunk.length
          headerChunks := u.headerChunks ++ chunk }) ∨
      ∃ h, u.header = none ∧ u.completes chunk = some h ∧
        validateHeader cfg db u.callerDeviceId h = none ∧ u.takeChunk cfg db chunk =
        { u with
          bytesReceived := u.bytesReceived + chunk.length
          headerChunks := u.headerChunks ++ chunk
          header := some h } := by
  have hcheck : ∀ (v : Upload) (h : UploadHeader),
      (∃ n m, (v.checkLength h).phase = .failing n m) ∨ v.checkLength h = v := by
    intro v h
    unfold checkLength
    split_ifs
    · exact .inl ⟨_, _, rfl⟩
    · exact .inr rfl
  rcases hheader : u.header with _ | h
  · rcases hcompletes : u.completes chunk with _ | h
    · refine .inr (.inr (.inl ⟨rfl, rfl, ?_⟩))
      simp only [takeChunk, hheader, hcompletes]
    · rcases hvalid : validateHeader cfg db u.callerDeviceId h with _ | ⟨n, m⟩
      · have heq : u.takeChunk cfg db chunk = checkLength
            { u with
              bytesReceived := u.bytesReceived + chunk.length
              headerChunks := u.headerChunks ++ chunk
              header := some h } h := by
          simp only [takeChunk, hheader, hcompletes, hvalid]
        rw [heq]
        rcases hcheck _ h with hfail | hsame
        · exact .inl hfail
        · exact .inr (.inr (.inr ⟨h, rfl, rfl, hvalid, hsame⟩))
      · refine .inl ⟨n, m, ?_⟩
        simp only [takeChunk, hheader, hcompletes, hvalid, fail]
  · have heq : u.takeChunk cfg db chunk = checkLength
        { u with bytesReceived := u.bytesReceived + chunk.length } h := by
      simp only [takeChunk, hheader]
    rw [heq]
    rcases hcheck _ h with hfail | hsame
    · exact .inl hfail
    · exact .inr (.inl ⟨h, rfl, hsame.trans (by rw [hheader])⟩)

@[simp] theorem takeChunk_deliveryId (u : Upload) (cfg : BrokrConfig) (db : BrokrDb)
    (chunk : List UInt8) : (u.takeChunk cfg db chunk).deliveryId = u.deliveryId := by
  unfold takeChunk
  repeat' split
  all_goals simp [fail]

/-- An upload whose body still arrives does not end by a chunk. -/
theorem phase_takeChunk_ne_ending (h : u.phase = .receiving) :
    (u.takeChunk cfg db chunk).phase ≠ .ending := by
  rcases u.takeChunk_cases cfg db chunk with ⟨n, m, hfail⟩ | ⟨_, _, heq⟩ | ⟨_, _, heq⟩ |
    ⟨_, _, _, _, heq⟩
  · rw [hfail]
    simp
  all_goals
    rw [heq]
    simp [h]

@[simp] theorem endBody_deliveryId (u : Upload) : u.endBody.deliveryId = u.deliveryId := by
  unfold endBody
  repeat' split
  all_goals rfl

/-- A body that ends with the length of its header makes an upload that can be recorded. -/
theorem endBody_cases (u : Upload) :
    (∃ n m, u.endBody.phase = .failing n m) ∨
      u.endBody.phase = .ending ∧ ∃ h, u.header = some h ∧ u.bytesReceived = h.totalLen ∧
        u.endBody = { u with phase := .ending } := by
  unfold endBody
  rcases hheader : u.header with _ | h
  · exact .inl ⟨_, _, rfl⟩
  · dsimp only
    split_ifs with hlen
    · exact .inr ⟨rfl, h, rfl, hlen, rfl⟩
    · exact .inl ⟨_, _, rfl⟩

end Upload

namespace BrokrServer

variable {s : BrokrServer} {cfg : BrokrConfig} {u u' : Upload} {id : Text}

/-- An upload that is found is under way, under its identifier. -/
theorem mem_of_upload (h : s.upload id = some u) : u ∈ s.uploads ∧ u.deliveryId = id :=
  Table.mem_of_get h

/-- The ways in which an action changes the Brokr. -/
inductive Effect (cfg : BrokrConfig) (s : BrokrServer) : BrokrAction → BrokrServer → Prop
  | quiet {a : BrokrAction} {s' : BrokrServer} (hrows : s'.db.deliveries = s.db.deliveries)
      (hfiles : s'.files = s.files) (huploads : s'.uploads = s.uploads)
      (hdrawn : s'.drawn = s.drawn) (hnow : s.now ≤ s'.now) : Effect cfg s a s'
  | began {a : BrokrAction} (u : Upload) (hid : u.deliveryId ∉ s.drawn)
      (hnew : u = ⟨u.deliveryId, u.callerDeviceId, 0, [], none, .receiving⟩) :
      Effect cfg s a { s with
        files := Function.update s.files u.deliveryId (some [])
        uploads := s.uploads ++ [u]
        drawn := u.deliveryId :: s.drawn }
  | took (u : Upload) (chunk : List UInt8) (hu : s.upload u.deliveryId = some u)
      (hphase : u.phase = .receiving) :
      Effect cfg s (.putChunk u.deliveryId chunk) ({ s with
        files := Function.update s.files u.deliveryId
          ((s.files u.deliveryId).map (· ++ chunk)) }.setUpload (u.takeChunk cfg s.db chunk))
  | ended {a : BrokrAction} (u : Upload) (hu : u ∈ s.uploads) (hphase : u.phase = .receiving) :
      Effect cfg s a (s.setUpload u.endBody)
  | aborted {a : BrokrAction} (u : Upload) (status : ℕ) (message : String) (hu : u ∈ s.uploads)
      (hphase : u.phase = .receiving) : Effect cfg s a (s.setUpload (u.fail status message))
  | dropped {a : BrokrAction} (u : Upload) (hu : u ∈ s.uploads) :
      Effect cfg s a (s.dropUpload u.deliveryId)
  | recorded {a : BrokrAction} (u : Upload) (h : UploadHeader) (now : ℤ) (hu : u ∈ s.uploads)
      (hphase : u.phase = .ending) (hheader : u.header = some h) (hnow : s.now ≤ now) :
      Effect cfg s a (s.recordPut cfg u h now)
  | collected (d : DeliveryRow) (callerDeviceId : Text) (now : ℤ)
      (hd : s.db.getDelivery d.id = some d)
      (hrecipient : toLowerCase d.recipientDeviceId = toLowerCase callerDeviceId)
      (hnow : s.now ≤ now) :
      Effect cfg s (.delete (some callerDeviceId) d.id now) { s with
        db := s.db.markDeliveryCollected d.id now
        files := s.files.rm d.id
        now }
  | swept {a : BrokrAction} (now : ℤ) (hnow : s.now ≤ now) :
      Effect cfg s a { s with
        db := (s.db.sweepDeliveries s.files now).1
        files := (s.db.sweepDeliveries s.files now).2
        now }

variable (cfg) in
/-- **What an action does.** -/
theorem effect_step {a : BrokrAction} (ha : s.Admissible a) :
    Effect cfg s a (s.step cfg a).2 := by
  have hsame : ∀ {a}, Effect cfg s a s := .quiet rfl rfl rfl rfl le_rfl
  cases a with
  | register _ _ _ _ now => exact .quiet rfl rfl rfl rfl (ha.1 now rfl)
  | put caller contentType id =>
      rcases caller with _ | caller
      · exact hsame
      · rw [step, beginPut]
        split_ifs
        · exact .began ⟨id, caller, 0, [], none, .receiving⟩ (ha.2 id rfl) rfl
        · exact hsame
  | putChunk id chunk =>
      rw [step, putChunk]
      rcases hu : s.upload id with _ | u
      · exact hsame
      · dsimp only
        split_ifs with hphase
        · obtain ⟨-, rfl⟩ := mem_of_upload hu
          exact .took u chunk hu hphase
        · exact hsame
  | putEnd id =>
      rw [step, endPut]
      rcases hu : s.upload id with _ | u
      · exact hsame
      · dsimp only
        split_ifs with hphase
        · exact .ended u (mem_of_upload hu).1 hphase
        · exact hsame
  | putAbort id err =>
      rw [step, endPut]
      rcases hu : s.upload id with _ | u
      · exact hsame
      · dsimp only
        split_ifs with hphase
        · exact .aborted u _ _ (mem_of_upload hu).1 hphase
        · exact hsame
  | putClosed id fileStreamError now =>
      rw [step, putClosed]
      rcases hu : s.upload id with _ | u
      · exact hsame
      · obtain ⟨hmem, rfl⟩ := mem_of_upload hu
        dsimp only
        split
        · exact .dropped u hmem
        · rename_i h hphase hheader
          split_ifs
          · exact .dropped u hmem
          · exact .recorded u h now hmem hphase hheader (ha.1 now rfl)
        · exact hsame
  | inbox _ now => exact .quiet rfl rfl rfl rfl (ha.1 now rfl)
  | get _ _ now => exact .quiet rfl rfl rfl rfl (ha.1 now rfl)
  | delete caller id now =>
      have htick : Effect cfg s (.delete caller id now) (s.tick now) :=
        .quiet rfl rfl rfl rfl (ha.1 now rfl)
      rw [step]
      unfold delete
      rcases caller with _ | caller
      · exact htick
      · dsimp only
        rcases hd : s.db.getDelivery id with _ | d
        · exact htick
        · obtain ⟨-, rfl⟩ := Table.mem_of_get hd
          dsimp only
          split_ifs with hrecipient
          · exact htick
          · exact .collected d caller now hd (not_not.mp hrecipient) (ha.1 now rfl)
  | outbox _ now => exact .quiet rfl rfl rfl rfl (ha.1 now rfl)
  | sweep now => exact .swept now (ha.1 now rfl)

namespace UploadsOk

/-- Changing an upload that does not end, or that ends with its length. -/
theorem setUpload (hs : s.UploadsOk) (hu : u ∈ s.uploads) (hid : u'.deliveryId = u.deliveryId)
    (hend : u'.phase = .ending → ∃ h, u'.header = some h ∧ u'.bytesReceived = h.totalLen) :
    (s.setUpload u').UploadsOk where
  keyed := Table.keyed_update hs.keyed fun r _ hr => hr.symm
  drawn v hv := by
    obtain ⟨r, hr, rfl⟩ := Table.mem_update.mp hv
    split_ifs
    · rw [hid]
      exact hs.drawn u hu
    · exact hs.drawn r hr
  ending v hv := by
    obtain ⟨r, hr, rfl⟩ := Table.mem_update.mp hv
    split_ifs
    · exact hend
    · exact hs.ending r hr

/-- Uploads end. -/
theorem delete (hs : s.UploadsOk) (id : Text) :
    UploadsOk { s with uploads := Table.delete Upload.deliveryId s.uploads id } where
  keyed := Table.keyed_delete hs.keyed id
  drawn v hv := hs.drawn v (Table.mem_delete.mp hv).1
  ending v hv := hs.ending v (Table.mem_delete.mp hv).1

/-- Only the uploads and the identifiers matter. -/
theorem of_eq {s' : BrokrServer} (hs : s.UploadsOk) (huploads : s'.uploads = s.uploads)
    (hdrawn : s'.drawn = s.drawn) : s'.UploadsOk := by
  constructor
  · rw [huploads]
    exact hs.keyed
  · rw [huploads, hdrawn]
    exact hs.drawn
  · rw [huploads]
    exact hs.ending

/-- A new upload. -/
theorem concat (hs : s.UploadsOk) (hid : u.deliveryId ∉ s.drawn) (hu : u.phase = .receiving) :
    UploadsOk { s with uploads := s.uploads ++ [u], drawn := u.deliveryId :: s.drawn } where
  keyed := Table.keyed_concat hs.keyed fun q hq he => hid (he ▸ hs.drawn q hq)
  drawn v hv := by
    rcases List.mem_append.mp hv with hv | hv
    · exact List.mem_cons_of_mem _ (hs.drawn v hv)
    · rw [List.mem_singleton.mp hv]
      exact List.mem_cons_self
  ending v hv := by
    rcases List.mem_append.mp hv with hv | hv
    · exact hs.ending v hv
    · rw [List.mem_singleton.mp hv, hu]
      simp

/-- **Uploads stay in order**, whatever happens. -/
theorem effect {s' : BrokrServer} {a : BrokrAction} (hs : s.UploadsOk)
    (h : Effect cfg s a s') : s'.UploadsOk := by
  cases h with
  | quiet _ _ huploads hdrawn _ => exact hs.of_eq huploads hdrawn
  | began u hid hnew =>
      exact (hs.concat hid (by rw [hnew])).of_eq rfl rfl
  | took u chunk hu hphase =>
      exact UploadsOk.setUpload (hs.of_eq rfl rfl) (mem_of_upload hu).1 (u.takeChunk_deliveryId cfg s.db chunk)
        fun h => absurd h (Upload.phase_takeChunk_ne_ending hphase)
  | ended u hu hphase =>
      refine hs.setUpload hu u.endBody_deliveryId fun h => ?_
      rcases u.endBody_cases with ⟨n, m, hfail⟩ | ⟨-, header, hheader, hlen, heq⟩
      · rw [hfail] at h
        exact absurd h (by simp)
      · rw [heq]
        exact ⟨header, hheader, hlen⟩
  | aborted u n m hu hphase =>
      exact hs.setUpload hu rfl fun h => absurd h (by simp [Upload.fail])
  | dropped u hu => exact (hs.delete u.deliveryId).of_eq rfl rfl
  | recorded u h now hu hphase hheader hnow => exact (hs.delete u.deliveryId).of_eq rfl rfl
  | collected => exact hs.of_eq rfl rfl
  | swept => exact hs.of_eq rfl rfl

end UploadsOk

/-! ### A small body -/

/-- A device identifier of sixteen equal bytes. -/
def deviceOf (b : UInt8) : Text := hexText (List.replicate 16 b)

/-- The smallest body, from the first device to the second. -/
def smallBody : List UInt8 :=
  1 :: (List.replicate 16 2 ++ List.replicate 16 1 ++ List.replicate 65 0 ++
    toBE 8 106)

/-- The content type of an upload. -/
def octetStream : Text := "application/octet-stream".toList

end BrokrServer

end Tradr
