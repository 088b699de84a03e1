import Tradr.Machine
import Tradr.Resumption
import Tradr.Sanitization
import Tradr.Streams

/-!
# Receiving a File

The receiving side of a file transfer session: open the partial file, derive from its
size which chunks are already there, request the missing chunks, verify every piece
before it is written, sync, record it, and move the finished file into place; on any
error remove what was staged.

The session is a machine that performs one effect a step (one filesystem call, one write
to a stream, or the frames and the slice of one piece read from the peer), so that a
session killed between any two effects is a run that stops early. The peer is the byte
string it sends on the data stream and how that stream ends; the send streams fail when
their fault script says so.

## Main definitions

* `ReceivePhase`: where a session stands, with the variables live there.
* `Receiver.step`: one effect of a session.
* `Receiver.run`: a session after a number of effects, with what it verified on the way.

## Main results

* `RecvStream.readFrame_of_unit`, `RecvStream.readFrame_eq_ok`: a frame is read exactly when
  it stands whole at the front of the stream.
* `RecvStream.readFrame_of_prefix`: part of a frame is read as that frame or not at all.
-/

namespace Tradr

/-! ### Errors -/

/-- What the peer did that the protocol does not allow. -/
inductive Violation
  | incompleteFrame
  | transferIdMismatch (expected got : TransferId)
  | itemIdMismatch (expected got : ItemId)
  | payloadTooLong (payloadLen bound : ℕ)
  | chunkIndexOutOfBounds (index totalChunks : ℕ)
  | offsetBeyondItem
  | resumption (e : ResumptionError)
  | tooManyIgnorable
  | unexpectedMessage (message : MessageType)
  | refused (why : Refusal)
  | destination (e : SanitizationError)
  deriving DecidableEq

/-- Why a transfer session failed. -/
inductive TransferSessionError
  | transport (e : TransportError)
  | proto (e : TransferFrameError)
  | vfs (e : VfsError)
  | streamClosed
  | protocolViolation (v : Violation)
  | verificationFailed
  deriving DecidableEq

/-- A stream failure as a session error: a closed stream has its own. -/
def TransferSessionError.ofTransport : TransportError → TransferSessionError
  | .closed => .streamClosed
  | other => .transport other

/-! ### Content verification -/

/-- Why a slice was not verified. -/
inductive VerificationError
  | mismatch
  | malformed
  deriving DecidableEq, Repr

/-- Verifies a slice as a range of the content a hash commits to: hash, offset, length
and slice to the bytes of the range. -/
structure ContentVerifier where
  verify : ContentHash → ℕ → ℕ → List UInt8 → Except VerificationError (List UInt8)

/-! ### Reading from the peer -/

/-- Read exactly `n` bytes, or find the stream ended before. -/
def RecvStream.readExact (s : RecvStream) (n : ℕ) :
    Except TransferSessionError (List UInt8) × RecvStream :=
  if n ≤ s.bytes.length then (.ok (s.bytes.take n), { s with bytes := s.bytes.drop n })
  else
    (match s.ending with
      | none => .error .streamClosed
      | some e => .error (.ofTransport e),
      { s with bytes := [] })

/-- Read one frame, refusing a bad length before its payload. -/
def RecvStream.readFrame (s : RecvStream) (maxFrameSize : UInt32) :
    Except TransferSessionError Frame × RecvStream :=
  match s.readExact lenPrefixLen with
  | (.error e, s) => (.error e, s)
  | (.ok lenBytes, s) =>
    let announced := BigEndian.ofBE lenBytes
    if announced = 0 then (.error (.proto (.framing .empty)), s)
    else if announced > maxFrameSize.toNat then
      (.error (.proto (.framing (.oversized announced maxFrameSize))), s)
    else
      match s.readExact announced with
      | (.error e, s) => (.error e, s)
      | (.ok body, s) =>
        match (((FrameDecoder.new maxFrameSize).feed (lenBytes ++ body)).nextFrame).1 with
        | .error e => (.error (.proto (.framing e)), s)
        | .ok none => (.error (.protocolViolation .incompleteFrame), s)
        | .ok (some frame) => (.ok frame, s)

section ReadFrame

open BigEndian

/-- A whole frame at the front is read, and nothing behind it. -/
theorem RecvStream.readFrame_of_unit {s : RecvStream} {limit : UInt32} {f : Frame} {n : ℕ}
    (h : frameVerdict limit s.bytes = .unit f n) :
    s.readFrame limit = (.ok f, { s with bytes := s.bytes.drop n }) := by
  obtain ⟨hlt, hle, hn, hlim, rfl⟩ := frameVerdict_eq_unit h
  have hbody : s.bytes.take lenPrefixLen ++
      (s.bytes.drop lenPrefixLen).take (ofBE (s.bytes.take lenPrefixLen)) = s.bytes.take n := by
    rw [hn, List.take_add]
  have hnext : ((FrameDecoder.new limit).feed (s.bytes.take n)).nextFrame.1 =
      .ok (some ⟨s.bytes.getD lenPrefixLen 0,
        (s.bytes.drop (lenPrefixLen + 1)).take (n - (lenPrefixLen + 1))⟩) := by
    have heq := FrameDecoder.nextFrame_eq limit (s.bytes.take n)
    rw [frameVerdict_take h] at heq
    exact congrArg Prod.fst heq
  rw [readFrame, readExact, if_pos (by omega)]
  dsimp only
  rw [if_neg (by omega), if_neg (by omega), readExact]
  dsimp only
  rw [if_pos (by rw [List.length_drop]; omega)]
  dsimp only
  rw [hbody, hnext, List.drop_drop, ← hn]

/-- Reading more bytes than will arrive fails. -/
theorem RecvStream.readExact_of_lt {s : RecvStream} {n : ℕ} (h : s.bytes.length < n) :
    ∃ e, s.readExact n = (.error e, { s with bytes := [] }) := by
  rw [readExact, if_neg (by omega)]
  rcases s.ending with _ | e
  · exact ⟨_, rfl⟩
  · exact ⟨_, rfl⟩

/-- Without a whole frame at the front, none is read. -/
theorem RecvStream.readFrame_of_not_unit {s : RecvStream} {limit : UInt32}
    (h : ∀ f n, frameVerdict limit s.bytes ≠ .unit f n) :
    ∃ e s', s.readFrame limit = (.error e, s') := by
  unfold readFrame
  by_cases hlen : s.bytes.length < lenPrefixLen
  · obtain ⟨e, he⟩ := readExact_of_lt hlen
    exact ⟨e, _, by rw [he]⟩
  rw [readExact, if_pos (by omega)]
  dsimp only
  by_cases h0 : ofBE (s.bytes.take lenPrefixLen) = 0
  · exact ⟨_, _, by rw [if_pos h0]⟩
  by_cases hlim : ofBE (s.bytes.take lenPrefixLen) > limit.toNat
  · exact ⟨_, _, by rw [if_neg h0, if_pos hlim]⟩
  rw [if_neg h0, if_neg hlim]
  by_cases hbody : s.bytes.length < lenPrefixLen + ofBE (s.bytes.take lenPrefixLen)
  · obtain ⟨e, he⟩ := readExact_of_lt (s := { s with bytes := s.bytes.drop lenPrefixLen })
      (n := ofBE (s.bytes.take lenPrefixLen)) (by rw [List.length_drop]; omega)
    exact ⟨e, _, by rw [he]⟩
  · simp only [frameVerdict, if_neg hlen, if_neg h0, if_neg hlim, if_neg hbody] at h
    exact absurd rfl (h _ _)

/-- Only a whole frame at the front is read. -/
theorem RecvStream.readFrame_eq_ok {s s' : RecvStream} {limit : UInt32} {f : Frame}
    (h : s.readFrame limit = (.ok f, s')) :
    ∃ n, frameVerdict limit s.bytes = .unit f n ∧ s' = { s with bytes := s.bytes.drop n } := by
  by_cases hunit : ∃ g n, frameVerdict limit s.bytes = .unit g n
  · obtain ⟨g, n, hv⟩ := hunit
    rw [readFrame_of_unit hv] at h
    obtain ⟨hf, hs⟩ := Prod.mk.inj h
    obtain rfl := Except.ok.inj hf
    exact ⟨n, hv, hs.symm⟩
  · have hnot : ∀ g n, frameVerdict limit s.bytes ≠ .unit g n := fun g n hv => hunit ⟨g, n, hv⟩
    obtain ⟨e, t, he⟩ := readFrame_of_not_unit hnot
    rw [h] at he
    cases (Prod.mk.inj he).1

/-- **Part of a frame is read as that frame or not at all**, whatever limits the two sides
have. -/
theorem RecvStream.readFrame_of_prefix {s s' : RecvStream} {limit limit' : UInt32} {f : Frame}
    {typeCode : UInt8} {payload enc : List UInt8}
    (henc : encodeFrame typeCode payload limit' = .ok enc) (hs : s.bytes <+: enc)
    (h : s.readFrame limit = (.ok f, s')) : f = ⟨typeCode, payload⟩ := by
  obtain ⟨n, hv, -⟩ := readFrame_eq_ok h
  obtain ⟨rest, rfl⟩ := hs
  obtain ⟨-, -, -, hlim, -⟩ := frameVerdict_eq_unit hv
  have hlong := (frameParser limit).unit_append hv rest
  have hlen : lenPrefixLen ≤ s.bytes.length := by
    have h1 := (frameVerdict_eq_unit hv).1
    have h2 := (frameVerdict_eq_unit hv).2.1
    omega
  have hsame : encodeFrame typeCode payload limit = .ok (s.bytes ++ rest) := by
    obtain ⟨hle, heq⟩ := encodeFrame_eq_ok_iff.mp henc
    refine encodeFrame_eq_ok_iff.mpr ⟨?_, heq⟩
    have htake : s.bytes.take lenPrefixLen = toBE 4 (1 + payload.length) := by
      rw [← take_lenPrefix_append hlen rest, heq,
        List.take_append_of_le_length (by simp [lenPrefixLen, frameHeaderLen]),
        List.take_of_length_le (by simp [lenPrefixLen, frameHeaderLen])]
    have hlim' : limit'.toNat < 256 ^ 4 := limit'.toNat_lt
    rw [htake, ofBE_toBE (by omega)] at hlim
    exact hlim
  have hfull := frameParser_encodeFrame hsame []
  rw [List.append_nil, hlong] at hfull
  injection hfull

end ReadFrame

/-! ### The session -/

/-- What the receiving side needs to know about the Item it expects. -/
structure ReceiveRequest where
  destRelPath : RelPath
  totalBytes : UInt64
  contentHash : ContentHash
  transferId : TransferId
  itemId : ItemId
  maxFrameSize : UInt32

/-- The code outside the session: protobuf, hash trees and Unicode normalisation. -/
structure ReceiveEnv where
  codec : TransferCodec
  verifier : ContentVerifier
  nfc : Text → Text

/-- Unassigned frames tolerated in a row. -/
def maxConsecutiveIgnorableFrames : ℕ := 16

/-- How often a placement that lost a race is tried again. -/
def maxPlacementAttempts : ℕ := 32

/-- Chunks requested at once. -/
def chunkRequestBatch : ℕ := 64

/-- The variables of the loop over pieces: the open file, the progress, the unassigned
frames seen in a row, and how many of the pieces requested have arrived. -/
structure Reception (H : Type*) where
  handle : H
  resumption : ItemResumption
  ignorable : ℕ
  received : ℕ
  count : ℕ

/-- Where a session stands. -/
inductive ReceivePhase (H : Type*)
  | creatingDir
  | opening
  | deriving (handle : H)
  | requesting (handle : H) (resumption : ItemResumption) (ignorable : ℕ)
  | receiving (r : Reception H)
  | storing (r : Reception H) (header : ChunkDataHeader) (verified : List UInt8)
  | syncing (r : Reception H) (header : ChunkDataHeader) (verified : List UInt8)
  | probing (sanitized candidate : RelPath) (counter attempts : ℕ)
  | renaming (sanitized candidate : RelPath) (attempts : ℕ)
  | finishing (path : RelPath)
  | reporting (path : RelPath)
  | abandoning
  | reportingFailure
  | cleaningFile (why : TransferSessionError)
  | cleaningDir (why : TransferSessionError)
  | done (result : Except TransferSessionError RelPath)

/-- The answer of a session that has ended. -/
def ReceivePhase.result? {H : Type*} :
    ReceivePhase H → Option (Except TransferSessionError RelPath)
  | .done result => some result
  | _ => none

/-- Only an ended session has an answer. -/
theorem ReceivePhase.result?_eq_some {H : Type*} {phase : ReceivePhase H}
    {result : Except TransferSessionError RelPath} :
    phase.result? = some result ↔ phase = .done result := by
  unfold ReceivePhase.result?
  split
  · rw [Option.some_inj, ReceivePhase.done.injEq]
  · rename_i h
    constructor
    · intro hn
      exact absurd hn (by simp)
    · intro hd
      exact absurd hd (h result)

/-- What a step lets an observer see: the pieces that passed verification. -/
inductive ReceiveEvent
  | silent
  | verified (offset len : ℕ) (slice bytes : List UInt8)
  deriving DecidableEq, Repr

/-- A session and the world it acts on. -/
structure Receiver (σ H : Type*) where
  phase : ReceivePhase H
  store : σ
  dataRecv : RecvStream
  dataSend : SendStream
  controlSend : SendStream

/-! ### One piece -/

/-- A piece that passed: its header, the length this side expects, the slice and the
bytes it verified to. -/
structure Piece where
  header : ChunkDataHeader
  len : ℕ
  slice : List UInt8
  bytes : List UInt8

/-- The most payload a peer may announce for one piece. -/
def maxPayloadBound (req : ReceiveRequest) : ℕ :=
  max req.maxFrameSize.toNat (2 * 1024 * 1024)

/-- The checks on a header before its slice is read. -/
def checkHeader (req : ReceiveRequest) (header : ChunkDataHeader) :
    Except TransferSessionError Unit :=
  if header.transferId ≠ req.transferId then
    .error (.protocolViolation (.transferIdMismatch req.transferId header.transferId))
  else if header.itemId ≠ req.itemId then
    .error (.protocolViolation (.itemIdMismatch req.itemId header.itemId))
  else if header.payloadLen.toNat > maxPayloadBound req then
    .error (.protocolViolation
      (.payloadTooLong header.payloadLen.toNat (maxPayloadBound req)))
  else .ok ()

/-- The checks on where a piece belongs, and the length it must have there: computed
locally, from no claim of the peer. -/
def expectedLen (req : ReceiveRequest) (totalChunks : ℕ) (header : ChunkDataHeader) :
    Except TransferSessionError ℕ :=
  if header.chunkIndex.toNat ≥ totalChunks then
    .error (.protocolViolation
      (.chunkIndexOutOfBounds header.chunkIndex.toNat totalChunks))
  else if header.offset ≥ req.totalBytes.toNat then
    .error (.protocolViolation .offsetBeyondItem)
  else
    .ok (min (req.totalBytes.toNat - header.offset)
      (referenceChunkSizeBytes - header.offsetInChunk.toNat))

/-- Read the slice a header announces and verify it. -/
def receiveSlice (env : ReceiveEnv) (req : ReceiveRequest) (totalChunks : ℕ)
    (header : ChunkDataHeader) (recv : RecvStream) :
    Except TransferSessionError Piece × RecvStream :=
  match recv.readExact header.payloadLen.toNat with
  | (.error e, recv) => (.error e, recv)
  | (.ok slice, recv) =>
    match expectedLen req totalChunks header with
    | .error e => (.error e, recv)
    | .ok len =>
      match env.verifier.verify req.contentHash header.offset len slice with
      | .error _ => (.error .verificationFailed, recv)
      | .ok bytes => (.ok ⟨header, len, slice, bytes⟩, recv)

/-- Read one frame and, when it announces one, its piece; `none` for a frame to skip. -/
def receivePiece (env : ReceiveEnv) (req : ReceiveRequest) (totalChunks : ℕ)
    (recv : RecvStream) : Except TransferSessionError (Option Piece) × RecvStream :=
  match recv.readFrame req.maxFrameSize with
  | (.error e, recv) => (.error e, recv)
  | (.ok frame, recv) =>
    match classify frame.typeCode .data with
    | .known .chunkData =>
      match decodeChunkDataHeaderFrame env.codec frame with
      | .error e => (.error (.proto e), recv)
      | .ok header =>
        match checkHeader req header with
        | .error e => (.error e, recv)
        | .ok () =>
          match receiveSlice env req totalChunks header recv with
          | (.error e, recv) => (.error e, recv)
          | (.ok piece, recv) => (.ok (some piece), recv)
    | .ignorable => (.ok none, recv)
    | .known other => (.error (.protocolViolation (.unexpectedMessage other)), recv)
    | .refused why => (.error (.protocolViolation (.refused why)), recv)

/-! ### Progress from the size of the partial file -/

/-- Count a chunk that lies wholly inside the partial file as verified. -/
def deriveChunk (r : ItemResumption) (index : ℕ) : Except ResumptionError ItemResumption :=
  match r.chunkSize index with
  | .error e => .error e
  | .ok chunkSz =>
    match r.recordPiece index 0 chunkSz with
    | (.error e, _) => .error e
    | (.ok _, r) =>
      match r.markVerified index with
      | (.error e, _) => .error e
      | (.ok (), r) => .ok r

/-- Count the chunks from `index` on, `n` of them. -/
def deriveChunks : ℕ → ℕ → ItemResumption → Except ResumptionError ItemResumption
  | 0, _, r => .ok r
  | n + 1, index, r =>
    match deriveChunk r index with
    | .error e => .error e
    | .ok r => deriveChunks n (index + 1) r

/-- The progress a partial file of this size stands for: its full chunks, and the last
one when the file is as long as the item. -/
def deriveFromSize (r : ItemResumption) (sizeBytes : ℕ) :
    Except ResumptionError ItemResumption :=
  let fullChunks := min (sizeBytes / referenceChunkSizeBytes) r.totalChunks
  match deriveChunks fullChunks 0 r with
  | .error e => .error e
  | .ok r =>
    if fullChunks < r.totalChunks ∧ sizeBytes ≥ r.totalBytes then
      deriveChunk r (r.totalChunks - 1)
    else .ok r

/-- The progress a session starts with: nothing when the file's size is not known or
makes no sense. -/
def deriveResumption (itemId : ItemId) (totalBytes : ℕ) (meta? : Except VfsError Metadata) :
    ItemResumption :=
  match meta? with
  | .error _ => .new itemId totalBytes
  | .ok m =>
    match deriveFromSize (.new itemId totalBytes) m.sizeBytes with
    | .error _ => .new itemId totalBytes
    | .ok r => r

/-! ### One step of a session -/

namespace Receiver

section Step

variable {σ H : Type*} (vfs : Vfs σ H) (env : ReceiveEnv) (req : ReceiveRequest)

/-- The partial file of the session. -/
def partialFile (req : ReceiveRequest) : RelPath :=
  partialFileRelPath req.transferId req.itemId

/-- A new session against a peer. -/
def start (store : σ) (dataRecv : RecvStream) (dataSend controlSend : SendStream) :
    Receiver σ H :=
  ⟨.creatingDir, store, dataRecv, dataSend, controlSend⟩

/-- Go on in another phase. -/
def goto (w : Receiver σ H) (phase : ReceivePhase H) : Receiver σ H :=
  { w with phase }

/-- Give up: remove what was staged first. -/
def fail (w : Receiver σ H) (why : TransferSessionError) : Receiver σ H :=
  w.goto (.cleaningFile why)

/-- Create the directory of the partial file; a failure here is not cleaned up. -/
def stepCreatingDir (w : Receiver σ H) : Receiver σ H :=
  let (res, store) := vfs.createDir w.store (partialDirRelPath req.transferId)
  match res with
  | .error e => { w with store, phase := .done (.error (.vfs e)) }
  | .ok () => { w with store, phase := .opening }

/-- Open the partial file. -/
def stepOpening (w : Receiver σ H) : Receiver σ H :=
  let (res, store) := vfs.openWrite w.store (partialFile req)
  match res with
  | .error e => { w with store, phase := .cleaningFile (.vfs e) }
  | .ok handle => { w with store, phase := .deriving handle }

/-- Derive the progress from the size of the partial file. -/
def stepDeriving (w : Receiver σ H) (handle : H) : Receiver σ H :=
  let (res, store) := vfs.stat w.store (partialFile req)
  { w with
    store
    phase := .requesting handle (deriveResumption req.itemId req.totalBytes.toNat res) 0 }

/-- Every chunk is there: start placing the file. -/
def startPlacing (w : Receiver σ H) : Receiver σ H :=
  match sanitizeDestinationPath env.nfc req.destRelPath.value with
  | .error e => w.fail (.protocolViolation (.destination e))
  | .ok sanitized => w.goto (.probing sanitized sanitized 2 0)

/-- The head of the request loop. -/
def stepRequesting (w : Receiver σ H) (handle : H) (resumption : ItemResumption)
    (ignorable : ℕ) : Receiver σ H :=
  if resumption.isItemComplete then startPlacing env req w
  else
    match resumption.nextChunkRequest chunkRequestBatch with
    | none => w.goto .abandoning
    | some (fromChunk, count) =>
      match encodeChunkRequestFrame env.codec ⟨req.transferId, req.itemId, fromChunk, count⟩
          req.maxFrameSize with
      | .error e => w.fail (.proto e)
      | .ok frame =>
        match w.dataSend.writeAll frame with
        | (.error e, dataSend) => { w with dataSend }.fail (.ofTransport e)
        | (.ok (), dataSend) =>
          { w with dataSend, phase := .receiving ⟨handle, resumption, ignorable, 0, count⟩ }

/-- Read one frame, and the piece it announces. -/
def stepReceiving (w : Receiver σ H) (r : Reception H) : ReceiveEvent × Receiver σ H :=
  match receivePiece env req r.resumption.totalChunks w.dataRecv with
  | (.error e, dataRecv) => (.silent, { w with dataRecv }.fail e)
  | (.ok none, dataRecv) =>
    (.silent,
      if r.ignorable + 1 > maxConsecutiveIgnorableFrames then
        { w with dataRecv }.fail (.protocolViolation .tooManyIgnorable)
      else { w with dataRecv, phase := .receiving { r with ignorable := r.ignorable + 1 } })
  | (.ok (some p), dataRecv) =>
    (.verified p.header.offset p.len p.slice p.bytes,
      { w with dataRecv, phase := .storing { r with ignorable := 0 } p.header p.bytes })

/-- Write the verified bytes where they belong. -/
def stepStoring (w : Receiver σ H) (r : Reception H) (header : ChunkDataHeader)
    (verified : List UInt8) : Receiver σ H :=
  let (res, store) := vfs.writeAt w.store r.handle header.offset verified
  match res with
  | .error e => { w with store, phase := .cleaningFile (.vfs e) }
  | .ok () => { w with store, phase := .syncing r header verified }

/-- Record a piece that is on durable storage. -/
def recordVerified (r : ItemResumption) (header : ChunkDataHeader) (verified : List UInt8) :
    Except ResumptionError ItemResumption :=
  match r.recordPiece header.chunkIndex.toNat header.offsetInChunk.toNat
      (verified.length % UInt32.size) with
  | (.error e, _) => .error e
  | (.ok false, r) => .ok r
  | (.ok true, r) =>
    match r.markVerified header.chunkIndex.toNat with
    | (.error e, _) => .error e
    | (.ok (), r) => .ok r

/-- Flush, record the piece and go on with the loops. -/
def stepSyncing (w : Receiver σ H) (r : Reception H) (header : ChunkDataHeader)
    (verified : List UInt8) : Receiver σ H :=
  let (res, store) := vfs.sync w.store r.handle
  match res with
  | .error e => { w with store, phase := .cleaningFile (.vfs e) }
  | .ok () =>
    match recordVerified r.resumption header verified with
    | .error e =>
      { w with store, phase := .cleaningFile (.protocolViolation (.resumption e)) }
    | .ok resumption =>
      if resumption.isItemComplete ∨ r.received + 1 ≥ r.count then
        { w with store, phase := .requesting r.handle resumption r.ignorable }
      else
        { w with store, phase := .receiving { r with resumption, received := r.received + 1 } }

/-- Ask whether a candidate name is taken. -/
def stepProbing (w : Receiver σ H) (sanitized candidate : RelPath) (counter attempts : ℕ) :
    Receiver σ H :=
  let (res, store) := vfs.stat w.store candidate
  match res with
  | .error .notFound => { w with store, phase := .renaming sanitized candidate attempts }
  | .error e => { w with store, phase := .cleaningFile (.vfs e) }
  | .ok _ =>
    match RelPath.new (collisionName sanitized.value counter) with
    | .error _ => { w with store, phase := .cleaningFile (.vfs (.io .invalidInput)) }
    | .ok next => { w with store, phase := .probing sanitized next (counter + 1) attempts }

/-- Move the partial file to a name that was free; start over when it no longer is. -/
def stepRenaming (w : Receiver σ H) (sanitized candidate : RelPath) (attempts : ℕ) :
    Receiver σ H :=
  let (res, store) := vfs.renameNoReplace w.store (partialFile req) candidate
  match res with
  | .ok () => { w with store, phase := .finishing candidate }
  | .error .alreadyExists =>
    if attempts + 1 ≥ maxPlacementAttempts then
      { w with store, phase := .cleaningFile (.vfs .alreadyExists) }
    else { w with store, phase := .probing sanitized sanitized 2 (attempts + 1) }
  | .error e => { w with store, phase := .cleaningFile (.vfs e) }

/-- Close the data stream, and go on when that worked. -/
def stepFinish (w : Receiver σ H) (next : ReceivePhase H) : Receiver σ H :=
  match w.dataSend.finish with
  | (.error e, dataSend) => { w with dataSend }.fail (.ofTransport e)
  | (.ok (), dataSend) => { w with dataSend, phase := next }

/-- Tell the peer how the item ended, and go on when that worked. -/
def stepReport (w : Receiver σ H) (finalPath : Option RelPath) (next : ReceivePhase H) :
    Receiver σ H :=
  match encodeItemCompleteFrame env.codec
      ⟨req.transferId, req.itemId, finalPath.isSome, finalPath⟩ req.maxFrameSize with
  | .error e => w.fail (.proto e)
  | .ok frame =>
    match w.controlSend.writeAll frame with
    | (.error e, controlSend) => { w with controlSend }.fail (.ofTransport e)
    | (.ok (), controlSend) => { w with controlSend, phase := next }

/-- Remove the partial file; one that is not there is fine. -/
def stepCleaningFile (w : Receiver σ H) (why : TransferSessionError) : Receiver σ H :=
  let (res, store) := vfs.remove w.store (partialFile req)
  match res with
  | .ok () | .error .notFound => { w with store, phase := .cleaningDir why }
  | .error .wrongKind => { w with store, phase := .done (.error why) }
  | .error e => { w with store, phase := .done (.error (.vfs e)) }

/-- Remove the directory of the partial file; one that is not empty is fine. -/
def stepCleaningDir (w : Receiver σ H) (why : TransferSessionError) : Receiver σ H :=
  let (res, store) := vfs.remove w.store (partialDirRelPath req.transferId)
  match res with
  | .ok () | .error .notFound | .error .wrongKind =>
    { w with store, phase := .done (.error why) }
  | .error e => { w with store, phase := .done (.error (.vfs e)) }

/-- One effect of a session. -/
def step (w : Receiver σ H) : ReceiveEvent × Receiver σ H :=
  match w.phase with
  | .creatingDir => (.silent, stepCreatingDir vfs req w)
  | .opening => (.silent, stepOpening vfs req w)
  | .deriving handle => (.silent, stepDeriving vfs req w handle)
  | .requesting handle resumption ignorable =>
    (.silent, stepRequesting env req w handle resumption ignorable)
  | .receiving r => stepReceiving env req w r
  | .storing r header verified => (.silent, stepStoring vfs w r header verified)
  | .syncing r header verified => (.silent, stepSyncing vfs w r header verified)
  | .probing sanitized candidate counter attempts =>
    (.silent, stepProbing vfs w sanitized candidate counter attempts)
  | .renaming sanitized candidate attempts =>
    (.silent, stepRenaming vfs req w sanitized candidate attempts)
  | .finishing path => (.silent, stepFinish w (.reporting path))
  | .reporting path => (.silent, stepReport env req w (some path) (.done (.ok path)))
  | .abandoning => (.silent, stepFinish w .reportingFailure)
  | .reportingFailure =>
    (.silent, stepReport env req w none (.cleaningFile .verificationFailed))
  | .cleaningFile why => (.silent, stepCleaningFile vfs req w why)
  | .cleaningDir why => (.silent, stepCleaningDir vfs req w why)
  | .done _ => (.silent, w)

/-- A session after `n` effects, with the events on the way. -/
def run (w : Receiver σ H) (n : ℕ) : List ReceiveEvent × Receiver σ H :=
  Machine.run (fun w (_ : Unit) => step vfs env req w) w (List.replicate n ())

end Step

/-- The pieces that passed verification in a run: where each belongs, and its bytes. -/
def verifiedLog (events : List ReceiveEvent) : List (ℕ × List UInt8) :=
  events.filterMap fun
    | .silent => none
    | .verified offset _ _ bytes => some (offset, bytes)

end Receiver

end Tradr
