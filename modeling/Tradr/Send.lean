import Tradr.Receive

/-!
# Sending a File

The sending side of a file transfer session. Before the session the content is read once to
compute its hash and the outboard of its hash tree (`prepareItem`). In the session the file
is stated and opened; then the requests of the receiving side are answered one by one, each
chunk read in full, cut out of the hash tree as a slice and sent behind its header, until the
receiving side closes the data stream; at last its completion signal is awaited on the
control stream.

As on the receiving side, the session is a machine that performs one effect a step. The hash
tree is third-party code (`Bao`).

## Main definitions

* `prepareItem`: hash a file.
* `SendPhase`: where a session stands, with the variables live there.
* `Sender.step`: one effect of a session.
-/

namespace Tradr

/-! ### The hash tree -/

/-- Why no slice was cut out. -/
inductive SliceError
  | outOfRange
  | extraction
  deriving DecidableEq, Repr

/-- The hash tree library: the outboard and the hash of a content, the length an outboard
says its content has, and the slice of a range that a window of the content covers. -/
structure Bao (O : Type) where
  outboard : List UInt8 → O × ContentHash
  contentLen : O → Option ℕ
  extract : List UInt8 → ℕ → O → ℕ → ℕ → Option (List UInt8)

/-- Cut the slice of a range out of a window. -/
def sliceFromWindow {O : Type} (bao : Bao O) (window : List UInt8) (windowOffset : ℕ)
    (outboard : O) (offset len : ℕ) : Except SliceError (List UInt8) :=
  if UInt64.size ≤ offset + len then .error .outOfRange
  else if UInt64.size ≤ windowOffset + window.length then .error .outOfRange
  else if offset < windowOffset ∨ offset + len > windowOffset + window.length then
    .error .outOfRange
  else
    match bao.contentLen outboard with
    | none => .error .extraction
    | some contentLen =>
      if offset + len > contentLen then .error .outOfRange
      else
        match bao.extract window windowOffset outboard offset len with
        | none => .error .extraction
        | some slice => .ok slice

/-! ### Preparing an item -/

/-- Why a sending session failed. -/
inductive SendError
  | session (e : TransferSessionError)
  | sourceChanged
  | slice (e : SliceError)
  | header (e : ChunkDataError)
  | unassigned
  deriving DecidableEq

/-- An item whose hash is known and whose outboard lies on disk. -/
structure PreparedItem (O : Type) where
  size : ℕ
  hash : ContentHash
  spool : O

variable {σ H O : Type}

/-- Read a file from `done` on to its end, in reads of the size of a chunk. -/
def readToEnd (vfs : Vfs σ H) (reader : H) : ℕ → List UInt8 → σ →
    Option (Except VfsError (List UInt8)) × σ
  | 0, _, s => (none, s)
  | fuel + 1, done, s =>
    match vfs.readAt s reader done.length referenceChunkSizeBytes with
    | (.error e, s) => (some (.error e), s)
    | (.ok bytes, s) =>
      if bytes = [] then (some (.ok done), s) else readToEnd vfs reader fuel (done ++ bytes) s

/-- Hash a file and spool its outboard; `none` if `fuel` reads do not reach its end. -/
def prepareItem (bao : Bao O) (vfs : Vfs σ H) (relPath : RelPath) (fuel : ℕ) (s : σ) :
    Option (Except SendError (PreparedItem O)) × σ :=
  match vfs.openRead s relPath with
  | (.error e, s) => (some (.error (.session (.vfs e))), s)
  | (.ok reader, s) =>
    match readToEnd vfs reader fuel [] s with
    | (none, s) => (none, s)
    | (some (.error e), s) => (some (.error (.session (.vfs e))), s)
    | (some (.ok content), s) =>
      (some (.ok ⟨content.length, (bao.outboard content).2, (bao.outboard content).1⟩), s)

/-! ### The session -/

/-- What the sending side needs to know about the item it is sending. -/
structure SendRequest (O : Type) where
  relPath : RelPath
  transferId : TransferId
  itemId : ItemId
  maxFrameSize : UInt32
  item : PreparedItem O

/-- Where a session stands. -/
inductive SendPhase (H : Type)
  | checking
  | opening
  | awaiting (reader : H) (ignorable : ℕ)
  | sending (reader : H) (chunks : List ℕ)
  | filling (reader : H) (chunk : ℕ) (chunks : List ℕ) (window : List UInt8)
  | heading (reader : H) (chunk : ℕ) (chunks : List ℕ) (window : List UInt8)
  | slicing (reader : H) (chunks : List ℕ) (slice : List UInt8)
  | completing
  | done (result : Except SendError Bool)

/-- The answer of a session that has ended. -/
def SendPhase.result? {H : Type} : SendPhase H → Option (Except SendError Bool)
  | .done result => some result
  | _ => none

/-- Only an ended session has an answer. -/
theorem SendPhase.eq_done_of_result? {H : Type} {phase : SendPhase H}
    {result : Except SendError Bool} (h : phase.result? = some result) : phase = .done result := by
  unfold SendPhase.result? at h
  split at h
  · rw [Option.some.inj h]
  · cases h

/-- A session and the world it acts on. -/
structure Sender (σ H : Type) where
  phase : SendPhase H
  store : σ
  dataRecv : RecvStream
  controlRecv : RecvStream
  dataSend : SendStream

/-- What a session is given. -/
structure SendEnv (σ H O : Type) where
  vfs : Vfs σ H
  codec : SendCodec
  bao : Bao O

namespace Sender

variable (env : SendEnv σ H O) (req : SendRequest O)

/-- A new session against a peer. -/
def start (store : σ) (dataRecv controlRecv : RecvStream) (dataSend : SendStream) : Sender σ H :=
  ⟨.checking, store, dataRecv, controlRecv, dataSend⟩

/-- Give up. -/
def fail (w : Sender σ H) (why : SendError) : Sender σ H :=
  { w with phase := .done (.error why) }

/-- The file must still have the size it was prepared with. -/
def stepChecking (w : Sender σ H) : Sender σ H :=
  match env.vfs.stat w.store req.relPath with
  | (.error e, store) => { w with store }.fail (.session (.vfs e))
  | (.ok metadata, store) =>
    if metadata.sizeBytes ≠ req.item.size then { w with store }.fail .sourceChanged
    else { w with store, phase := .opening }

/-- Open the file. -/
def stepOpening (w : Sender σ H) : Sender σ H :=
  match env.vfs.openRead w.store req.relPath with
  | (.error e, store) => { w with store }.fail (.session (.vfs e))
  | (.ok reader, store) => { w with store, phase := .awaiting reader 0 }

/-- The chunks of a request for a run of them; a run that leaves the indices is none. -/
def requestedChunks (fromChunk count : ℕ) : List ℕ :=
  if fromChunk + count < UInt64.size then List.range' fromChunk count else []

/-- What a frame on the data stream asks for. -/
def stepFrame (w : Sender σ H) (reader : H) (ignorable : ℕ) (frame : Frame) : Sender σ H :=
  match classify frame.typeCode .data with
  | .known .chunkRequest =>
    match decodeChunkRequestFrame env.codec frame with
    | .error e => w.fail (.session (.proto e))
    | .ok r => { w with phase := .sending reader (requestedChunks r.fromChunk r.count) }
  | .known .chunkRerequest =>
    match decodeChunkRerequestFrame env.codec frame with
    | .error e => w.fail (.session (.proto e))
    | .ok r => { w with phase := .sending reader (r.chunks.map UInt64.toNat) }
  | .known .flowControl => { w with phase := .awaiting reader 0 }
  | .ignorable =>
    if ignorable + 1 > maxConsecutiveIgnorableFrames then
      w.fail (.session (.protocolViolation .tooManyIgnorable))
    else { w with phase := .awaiting reader (ignorable + 1) }
  | .refused why => w.fail (.session (.protocolViolation (.refused why)))
  | .known other => w.fail (.session (.protocolViolation (.unexpectedMessage other)))

/-- The head of the request loop: a frame, or the end of the requests. -/
def stepAwaiting (w : Sender σ H) (reader : H) (ignorable : ℕ) : Sender σ H :=
  match w.dataRecv.readFrame req.maxFrameSize with
  | (.error .streamClosed, dataRecv) => { w with dataRecv, phase := .completing }
  | (.error e, dataRecv) => { w with dataRecv }.fail (.session e)
  | (.ok frame, dataRecv) => stepFrame env { w with dataRecv } reader ignorable frame

/-- Where a chunk starts. -/
def chunkOffset (chunk : ℕ) : ℕ :=
  min (chunk * referenceChunkSizeBytes) (UInt64.size - 1)

/-- How long a chunk is. -/
def chunkLen (req : SendRequest O) (chunk : ℕ) : ℕ :=
  min (req.item.size - chunkOffset chunk) referenceChunkSizeBytes

/-- The next chunk of a request; one beyond the item is passed over. -/
def stepSending (w : Sender σ H) (reader : H) : List ℕ → Sender σ H
  | [] => { w with phase := .awaiting reader 0 }
  | chunk :: chunks =>
    if chunkOffset chunk ≥ req.item.size then { w with phase := .sending reader chunks }
    else { w with phase := .filling reader chunk chunks [] }

/-- Read on until the chunk is complete; a file that ends before was changed. -/
def stepFilling (w : Sender σ H) (reader : H) (chunk : ℕ) (chunks : List ℕ)
    (window : List UInt8) : Sender σ H :=
  if window.length < chunkLen req chunk then
    match env.vfs.readAt w.store reader (chunkOffset chunk + window.length)
        (chunkLen req chunk - window.length) with
    | (.error e, store) => { w with store }.fail (.session (.vfs e))
    | (.ok bytes, store) =>
      if bytes = [] then { w with store }.fail .sourceChanged
      else { w with store, phase := .filling reader chunk chunks (window ++ bytes) }
  else { w with phase := .heading reader chunk chunks window }

/-- The header of a slice. -/
def sliceHeader (req : SendRequest O) (chunk : ℕ) (slice : List UInt8) :
    Except ChunkDataError ChunkDataHeader :=
  ChunkDataHeader.new req.transferId req.itemId (UInt64.ofNat chunk)
    (UInt32.ofNat slice.length)
    (decide (chunkOffset chunk + chunkLen req chunk ≥ req.item.size)) 0

/-- Cut the slice of a chunk out and frame its header. -/
def cutSlice (chunk : ℕ) (window : List UInt8) : Except SendError (List UInt8 × List UInt8) := do
  let slice ← (sliceFromWindow env.bao window (chunkOffset chunk) req.item.spool
    (chunkOffset chunk) (chunkLen req chunk)).mapError .slice
  let header ← (sliceHeader req chunk slice).mapError .header
  let frame ← (encodeChunkDataHeaderFrame env.codec header req.maxFrameSize).mapError
    fun e => .session (.proto e)
  return (frame, slice)

/-- Send the header of a slice that was cut out. -/
def sendHeader (w : Sender σ H) (reader : H) (chunks : List ℕ) :
    Except SendError (List UInt8 × List UInt8) → Sender σ H
  | .error e => w.fail e
  | .ok (frame, slice) =>
    match w.dataSend.writeAll frame with
    | (.error e, dataSend) => { w with dataSend }.fail (.session (.ofTransport e))
    | (.ok (), dataSend) => { w with dataSend, phase := .slicing reader chunks slice }

/-- Cut the slice out and send its header. -/
def stepHeading (w : Sender σ H) (reader : H) (chunk : ℕ) (chunks : List ℕ)
    (window : List UInt8) : Sender σ H :=
  sendHeader w reader chunks (cutSlice env req chunk window)

/-- Send the slice. -/
def stepSlicing (w : Sender σ H) (reader : H) (chunks : List ℕ) (slice : List UInt8) :
    Sender σ H :=
  match w.dataSend.writeAll slice with
  | (.error e, dataSend) => { w with dataSend }.fail (.session (.ofTransport e))
  | (.ok (), dataSend) => { w with dataSend, phase := .sending reader chunks }

/-- What the frame on the control stream says about the item. -/
def completion (codec : SendCodec) (frame : Frame) : Except SendError Bool :=
  match classify frame.typeCode .control with
  | .known .itemComplete =>
    match decodeItemCompleteFrame codec frame with
    | .error e => .error (.session (.proto e))
    | .ok item => if item.verified then .ok true else .error (.session .verificationFailed)
  | .refused why => .error (.session (.protocolViolation (.refused why)))
  | .known other => .error (.session (.protocolViolation (.unexpectedMessage other)))
  | .ignorable => .error .unassigned

/-- Await the completion signal on the control stream. -/
def stepCompleting (w : Sender σ H) : Sender σ H :=
  match w.controlRecv.readFrame req.maxFrameSize with
  | (.error e, controlRecv) => { w with controlRecv }.fail (.session e)
  | (.ok frame, controlRecv) =>
    { w with controlRecv, phase := .done (completion env.codec frame) }

/-- One effect of a session. -/
def step (w : Sender σ H) : Sender σ H :=
  match w.phase with
  | .checking => stepChecking env req w
  | .opening => stepOpening env req w
  | .awaiting reader ignorable => stepAwaiting env req w reader ignorable
  | .sending reader chunks => stepSending req w reader chunks
  | .filling reader chunk chunks window => stepFilling env req w reader chunk chunks window
  | .heading reader chunk chunks window => stepHeading env req w reader chunk chunks window
  | .slicing reader chunks slice => stepSlicing w reader chunks slice
  | .completing => stepCompleting env req w
  | .done _ => w

end Sender

end Tradr
