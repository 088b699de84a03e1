import Mathlib.Data.Char
import Mathlib.Data.List.Lex
import Mathlib.Data.List.Sort
import Tradr.BrowseWire
import Tradr.Eff
import Tradr.Sanitization
import Tradr.Streams

/-!
# The Browse Handler

The serving side of the Browse plane: requests are decoded from the receiving half of a
stream and answered on the sending half, each by calls on the filesystem boundary. The
handlers follow the source call by call, for an arbitrary `Vfs`.

A handler runs in a `World`: the store, the transfer identifiers the generator will draw,
the two halves of the stream and the bytes that were read and not yet decoded. The bytes
of an upload come from that buffer first and then straight from the stream.

Two loops of the source are not bounded by their input, the search for a free name and
the recursive removal; `fuel` bounds them, and `exhausted` says that they went on.
-/

namespace Tradr

namespace Browse

open Eff

/-- Everything a handler can touch. -/
structure World (σ : Type) where
  store : σ
  ids : List TransferId
  send : SendStream
  buffer : List UInt8
  recv : ScheduledRecv

/-- Why a filesystem call or a loop of them ended without an answer. -/
inductive VfsStop
  | failed (e : VfsError)
  | exhausted
  deriving DecidableEq, Repr

/-- Why a request could not be served. -/
inductive BrowseFailure
  | refused (reason : RefusalReason)
  | stream (e : TransportError)
  | exhausted
  deriving DecidableEq, Repr

/-- What a handler is given besides the stream. -/
structure BrowseContext (σ H : Type) where
  codec : ProtoBrowseCodec
  vfs : Vfs σ H
  maxFrameSize : UInt32
  fuel : ℕ

/-- The same context on a filesystem that records the calls made on it. -/
def BrowseContext.recorded {σ H : Type} (ctx : BrowseContext σ H)
    (push : VfsOp H → List (VfsOp H) → List (VfsOp H)) : BrowseContext (Recorded σ H) H where
  codec := ctx.codec
  vfs := recording push ctx.vfs
  maxFrameSize := ctx.maxFrameSize
  fuel := ctx.fuel

/-- The refusal that answers a filesystem error. -/
def refusalFor : VfsError → RefusalReason
  | .notFound => .notFound
  | .alreadyExists => .alreadyExists
  | .outsideRoot | .denyListed | .unsupportedEntry | .readOnly => .notAllowed
  | .wrongKind => .wrongKind
  | .io _ => .failed

/-- The failure that answers a filesystem call without an answer. -/
def VfsStop.toFailure : VfsStop → BrowseFailure
  | .failed e => .refused (refusalFor e)
  | .exhausted => .exhausted

variable {σ H A : Type}

/-! ### Primitives -/

/-- A call on the filesystem boundary. -/
def call (op : σ → Except VfsError A × σ) : Eff (World σ) VfsStop A := fun w =>
  ((op w.store).1.mapError .failed, { w with store := (op w.store).2 })

/-- A filesystem failure is a refusal. -/
def refusing (m : Eff (World σ) VfsStop A) : Eff (World σ) BrowseFailure A :=
  m.mapError VfsStop.toFailure

/-- Write bytes to the sending half. -/
def writeAll (bytes : List UInt8) : Eff (World σ) BrowseFailure Unit := fun w =>
  ((w.send.writeAll bytes).1.mapError .stream, { w with send := (w.send.writeAll bytes).2 })

/-- Close the sending half. -/
def finish : Eff (World σ) BrowseFailure Unit := fun w =>
  (w.send.finish.1.mapError .stream, { w with send := w.send.finish.2 })

/-- Read from the receiving half. -/
def read (room : ℕ) : Eff (World σ) BrowseFailure (List UInt8) := fun w =>
  ((w.recv.read room).1.mapError .stream, { w with recv := (w.recv.read room).2 })

/-- Take bytes from the front of the buffer. -/
def takeBuffered (n : ℕ) : Eff (World σ) BrowseFailure Unit :=
  modify fun w => { w with buffer := w.buffer.drop n }

variable (ctx : BrowseContext σ H)

/-- Encode a response and write it; a response that does not fit is a stream failure. -/
def respond (msg : BrowseMessage) : Eff (World σ) BrowseFailure Unit :=
  match ctx.codec.encodeFrame msg ctx.maxFrameSize with
  | .error _ => fail (.stream (.io .invalidData))
  | .ok encoded => writeAll encoded

/-- Acknowledge a modifying operation. -/
def sendAck : Eff (World σ) BrowseFailure Unit :=
  respond ctx (.ack ⟨[]⟩)

/-! ### Upload paths -/

/-- The item identifier of every upload. -/
def uploadItemId : ItemId := ⟨"upload".toList, by decide⟩

/-- A fresh staging directory and file under the partial root. -/
def staging : Eff (World σ) VfsStop (RelPath × RelPath) := fun w =>
  match w.ids with
  | [] => (.error (.failed (.io .other)), w)
  | transferId :: ids =>
    (.ok (partialDirRelPath transferId, partialFileRelPath transferId uploadItemId),
      { w with ids })

/-- What it draws from the identifiers, and those that remain. -/
def drawStaging : List TransferId → Except VfsStop (RelPath × RelPath) × List TransferId
  | [] => (.error (.failed (.io .other)), [])
  | transferId :: ids =>
    (.ok (partialDirRelPath transferId, partialFileRelPath transferId uploadItemId), ids)

theorem staging_eq (w : World σ) :
    staging w = ((drawStaging w.ids).1, { w with ids := (drawStaging w.ids).2 }) := by
  rcases w with ⟨s, _ | ⟨i, ids⟩, send, buffer, recv⟩
  · rfl
  · rfl

/-- Try the numbered names from `counter` on until one is free. -/
def freeNameFrom (path : RelPath) : ℕ → ℕ → Eff (World σ) VfsStop RelPath
  | 0, _ => fail .exhausted
  | fuel + 1, counter =>
    match RelPath.new (collisionName path.value counter) with
    | .error _ => fail (.failed (.io .invalidInput))
    | .ok candidate => do
      match ← attempt (call (ctx.vfs.stat · candidate)) with
      | .ok _ => freeNameFrom path fuel (counter + 1)
      | .error (.failed .notFound) => pure candidate
      | .error e => fail e

/-- The path itself if it is free, and else the first numbered name that is. -/
def freeName (path : RelPath) : Eff (World σ) VfsStop RelPath := do
  match ← attempt (call (ctx.vfs.stat · path)) with
  | .ok _ => freeNameFrom ctx path ctx.fuel 2
  | .error (.failed .notFound) => pure path
  | .error e => fail e

/-! ### Removing a directory -/

/-- The path of an entry of a directory. -/
def childPath (dir : RelPath) (name : Text) : Eff (World σ) VfsStop RelPath :=
  match RelPath.new (if dir.value = [] then name else dir.value ++ '/' :: name) with
  | .error _ => fail (.failed .outsideRoot)
  | .ok child => pure child

/-- Do something for each of a list, in order. -/
def forEach {E B : Type} (f : B → Eff (World σ) E Unit) : List B → Eff (World σ) E Unit
  | [] => pure ()
  | b :: bs => do
    f b
    forEach f bs

/-- Remove a directory with everything a listing shows below it. -/
def removeDirRecursive : ℕ → RelPath → Eff (World σ) VfsStop Unit
  | 0, _ => fail .exhausted
  | fuel + 1, path => do
    let entries ← call (ctx.vfs.list · path)
    forEach (fun (entry : DirEntry) => do
      let child ← childPath path entry.name
      match entry.kind with
      | .directory => removeDirRecursive fuel child
      | .file => call (ctx.vfs.remove · child)) entries
    call (ctx.vfs.remove · path)

/-! ### Uploads -/

/-- The most bytes of one read or write of a file. -/
def ioChunkSize : ℕ := 64 * 1024

/-- How often a numbered name is tried for the placement of an upload. -/
def maxPlacementAttempts : ℕ := 32

/-- The part of an upload's bytes that still comes from the stream. -/
def receiveRest (writer : H) (size : ℕ) : ℕ → ℕ → Eff (World σ) BrowseFailure Unit
  | 0, _ => pure ()
  | fuel + 1, written =>
    if written < size then do
      let chunk ← read (min (size - written) ioChunkSize)
      if chunk = [] then fail (.stream .closed)
      else
        refusing (call (ctx.vfs.writeAt · writer written chunk))
        receiveRest writer size fuel (written + chunk.length)
    else pure ()

/-- The part of an upload's bytes that was read before. -/
def writeBuffered (writer : H) (buffered : List UInt8) : Eff (World σ) BrowseFailure Unit :=
  if buffered = [] then pure ()
  else do
    refusing (call (ctx.vfs.writeAt · writer 0 buffered))
    takeBuffered buffered.length

/-- The bytes of an upload: what the buffer holds of them, and the rest from the stream. -/
def receiveContent (writer : H) (size : ℕ) : Eff (World σ) BrowseFailure Unit := do
  let buffered ← gets fun w : World σ => w.buffer.take size
  writeBuffered ctx writer buffered
  receiveRest ctx writer size (size - buffered.length) buffered.length

/-- Move the staged file to a numbered name, as long as the names are taken meanwhile. -/
def placeRenaming (requested stagingFile : RelPath) :
    ℕ → RelPath → Eff (World σ) BrowseFailure Unit
  | 0, _ => fail (.refused .alreadyExists)
  | tries + 1, target => do
    match ← attempt (call (ctx.vfs.renameNoReplace · stagingFile target)) with
    | .ok () => pure ()
    | .error (.failed .alreadyExists) =>
      if tries = 0 then fail (.refused .alreadyExists)
      else
        let target ← refusing (freeName ctx requested)
        placeRenaming requested stagingFile tries target
    | .error e => fail e.toFailure

/-- Move the staged file to its destination. -/
def place (req : WriteFile) (target stagingFile : RelPath) : Eff (World σ) BrowseFailure Unit :=
  match req.mode with
  | .createNew => refusing (call (ctx.vfs.renameNoReplace · stagingFile target))
  | .overwrite => refusing (call (ctx.vfs.rename · stagingFile target))
  | .renameIfExists => placeRenaming ctx req.path stagingFile maxPlacementAttempts target

/-- Receive an upload into its staging file, place it and acknowledge it. -/
def writeStagedContent (req : WriteFile) (target stagingDir stagingFile : RelPath) :
    Eff (World σ) BrowseFailure Unit := do
  let writer ← refusing (call (ctx.vfs.openWrite · stagingFile))
  receiveContent ctx writer req.size.toNat
  refusing (call (ctx.vfs.sync · writer))
  place ctx req target stagingFile
  refusing (call (ctx.vfs.remove · stagingDir))
  sendAck ctx

/-- Where an upload goes, under the rule of its mode. -/
def uploadTarget (req : WriteFile) : Eff (World σ) BrowseFailure RelPath :=
  match req.mode with
  | .createNew => do
    match ← attempt (call (ctx.vfs.stat · req.path)) with
    | .ok _ => fail (.refused .alreadyExists)
    | .error (.failed .notFound) => pure req.path
    | .error e => fail e.toFailure
  | .overwrite => do
    match ← attempt (call (ctx.vfs.stat · req.path)) with
    | .ok metadata =>
      if metadata.kind = .directory then fail (.refused .wrongKind) else pure req.path
    | .error (.failed .notFound) => pure req.path
    | .error e => fail e.toFailure
  | .renameIfExists => refusing (freeName ctx req.path)

/-- Remove what may or may not be there. -/
def removeIfPresent (path : RelPath) : Eff (World σ) VfsStop Unit := do
  match ← attempt (call (ctx.vfs.remove · path)) with
  | .ok () => pure ()
  | .error (.failed .notFound) => pure ()
  | .error e => fail e

/-- Remove the staging file and its directory after a failure, and fail with it. -/
def cleanup (stagingDir stagingFile : RelPath) (failure : BrowseFailure) :
    Eff (World σ) BrowseFailure BrowseFailure := do
  refusing (removeIfPresent ctx stagingFile)
  refusing (removeIfPresent ctx stagingDir)
  pure failure

/-- Serve a `WriteFile`. -/
def handleWriteFile (req : WriteFile) : Eff (World σ) BrowseFailure Unit := do
  let target ← uploadTarget ctx req
  let (stagingDir, stagingFile) ← refusing staging
  refusing (call (ctx.vfs.createDir · stagingDir))
  recover (writeStagedContent ctx req target stagingDir stagingFile)
    (cleanup ctx stagingDir stagingFile)

/-! ### The other requests -/

/-- How many entries a listing has at most when the request names no limit. -/
def defaultListLimit : ℕ := 500

/-- One page of a sorted listing, after the entry the cursor names. -/
def listingPage (req : ListDir) (sorted : List DirEntry) : DirListing :=
  let startIdx :=
    if req.cursor = [] then 0
    else
      match sorted.findIdx? fun e => e.name = req.cursor with
      | some i => i + 1
      | none => 0
  let limit := if req.limit = 0 then defaultListLimit else req.limit.toNat
  let endIdx := startIdx + limit
  let page := (sorted.drop startIdx).take limit
  let nextCursor :=
    if endIdx < sorted.length then ((page.getLast?.map DirEntry.name).getD []) else []
  ⟨page, nextCursor, sorted.length⟩

/-- Serve a `ListDir`. -/
def handleListDir (req : ListDir) : Eff (World σ) BrowseFailure Unit := do
  let entries ← refusing (call (ctx.vfs.list · req.path))
  let sorted := entries.insertionSort fun a b => a.name ≤ b.name
  respond ctx (.dirListing (listingPage req sorted))

/-- Serve a `Stat`. -/
def handleStat (req : Stat) : Eff (World σ) BrowseFailure Unit := do
  let metadata ← refusing (call (ctx.vfs.stat · req.path))
  let name := ((req.path.value.splitOn '/').getLast?).getD []
  respond ctx
    (.statResult ⟨⟨name, metadata.kind, metadata.sizeBytes, metadata.modified⟩⟩)

/-- How many bytes a `ReadFile` asks for; a length of zero reads to the end. -/
def bytesToRead (req : ReadFile) (totalSize : ℕ) : ℕ :=
  if req.length = 0 ∨ min (req.offset.toNat + req.length.toNat) (UInt64.size - 1) > totalSize then
    totalSize - req.offset.toNat
  else req.length.toNat

/-- Send the bytes of an open file from `offset` on. -/
def sendContent (reader : H) : ℕ → ℕ → ℕ → Eff (World σ) BrowseFailure Unit
  | 0, _, _ => pure ()
  | fuel + 1, offset, remaining =>
    if remaining > 0 then do
      let bytes ← mapError (fun _ => .stream (.io .other))
        (call (ctx.vfs.readAt · reader offset (min remaining ioChunkSize)))
      if bytes = [] then pure ()
      else
        writeAll bytes
        sendContent reader fuel (offset + bytes.length) (remaining - bytes.length)
    else pure ()

/-- Serve a `ReadFile`. -/
def handleReadFile (req : ReadFile) : Eff (World σ) BrowseFailure Unit := do
  let metadata ← refusing (call (ctx.vfs.stat · req.path))
  if metadata.kind ≠ .file then fail (.refused .wrongKind)
  else
    let reader ← refusing (call (ctx.vfs.openRead · req.path))
    let remaining := bytesToRead req metadata.sizeBytes
    respond ctx (.readFileBegin ⟨metadata.sizeBytes, .zeroes, 64 * 1024⟩)
    sendContent ctx reader remaining req.offset.toNat remaining
    finish

/-- The parent of a directory to create exists; at the top there is nothing to check. -/
def parentIsDir (path : RelPath) : Eff (World σ) BrowseFailure Bool :=
  let parent := (splitParent path.value).1.dropLast
  if parent = [] then pure true
  else
    match RelPath.new parent with
    | .error _ => fail (.refused .failed)
    | .ok parentPath => do
      match ← attempt (call (ctx.vfs.stat · parentPath)) with
      | .ok metadata => pure (metadata.kind = .directory)
      | .error _ => pure false

/-- Whether a directory may be created where it is asked for. -/
def mkdirPermitted (req : Mkdir) : Eff (World σ) BrowseFailure Bool :=
  if req.parents then pure true else parentIsDir ctx req.path

/-- Serve a `Mkdir`. -/
def handleMkdir (req : Mkdir) : Eff (World σ) BrowseFailure Unit := do
  match ← attempt (call (ctx.vfs.stat · req.path)) with
  | .ok metadata =>
    if metadata.kind = .directory then sendAck ctx else fail (.refused .alreadyExists)
  | .error (.failed .notFound) =>
    let permitted ← mkdirPermitted ctx req
    if permitted then
      refusing (call (ctx.vfs.createDir · req.path))
      sendAck ctx
    else fail (.refused .notFound)
  | .error e => fail e.toFailure

/-- Remove a file or a directory; one with entries only when asked to. -/
def deleteEntry (req : Delete) : EntryKind → Eff (World σ) BrowseFailure Unit
  | .file => refusing (call (ctx.vfs.remove · req.path))
  | .directory => do
    let entries ← refusing (call (ctx.vfs.list · req.path))
    if entries = [] then refusing (call (ctx.vfs.remove · req.path))
    else if req.recursive then refusing (removeDirRecursive ctx ctx.fuel req.path)
    else fail (.refused .wrongKind)

/-- Serve a `Delete`. -/
def handleDelete (req : Delete) : Eff (World σ) BrowseFailure Unit := do
  let metadata ← refusing (call (ctx.vfs.stat · req.path))
  deleteEntry ctx req metadata.kind
  sendAck ctx

/-- The destination is the source itself or below it. -/
def intoItself (req : Rename) : Bool :=
  req.target.value = req.source.value ∨ (req.source.value ++ ['/']) <+: req.target.value

/-- Serve a `Rename`. -/
def handleRename (req : Rename) : Eff (World σ) BrowseFailure Unit := do
  if intoItself req then fail (.refused .notAllowed)
  else
    match ← attempt (call (ctx.vfs.stat · req.target)) with
    | .ok _ => fail (.refused .alreadyExists)
    | .error (.failed .notFound) =>
      refusing (call (ctx.vfs.renameNoReplace · req.source req.target))
      sendAck ctx
    | .error e => fail e.toFailure

/-- Serve one message; a response is no request. -/
def handleMessage : BrowseMessage → Eff (World σ) BrowseFailure Unit
  | .listDir req => handleListDir ctx req
  | .stat req => handleStat ctx req
  | .readFile req => handleReadFile ctx req
  | .writeFile req => handleWriteFile ctx req
  | .mkdir req => handleMkdir ctx req
  | .delete req => handleDelete ctx req
  | .rename req => handleRename ctx req
  | _ => fail (.refused .failed)

/-! ### The stream -/

/-- How the handler of a stream ended: with a result, or inside a bounded loop. -/
inductive StreamEnd
  | returned (result : Except TransportError Unit)
  | exhausted
  deriving DecidableEq

/-- What follows a request that could not be served: a refusal is answered on the stream,
which is then closed. -/
def answerFailure (failure : BrowseFailure) (w : World σ) : StreamEnd × World σ :=
  match failure with
  | .stream e => (.returned (.error e), w)
  | .exhausted => (.exhausted, w)
  | .refused reason =>
    match ctx.codec.encodeFrame (.refused ⟨[], reason⟩) ctx.maxFrameSize with
    | .error _ => (.returned (.error (.io .invalidData)), w)
    | .ok encoded =>
      match w.send.writeAll encoded with
      | (.error e, send) => (.returned (.error e), { w with send })
      | (.ok (), send) => (.returned send.finish.1, { w with send := send.finish.2 })

/-- Decode and serve the messages in the buffer until more bytes are needed. -/
def drain : ℕ → World σ → Option StreamEnd × World σ
  | 0, w => (none, w)
  | fuel + 1, w =>
    if w.buffer = [] then (none, w)
    else
      match ctx.codec.decodeFrame w.buffer with
      | .error _ => (some (.returned (.error .closed)), w)
      | .ok none => (none, w)
      | .ok (some (msg, consumed)) =>
        match handleMessage ctx msg { w with buffer := w.buffer.drop consumed } with
        | (.ok (), w) => drain fuel w
        | (.error failure, w) =>
          (some (answerFailure ctx failure w).1, (answerFailure ctx failure w).2)

/-- The room of the read buffer, twice the maximum frame size. -/
def bufferSize : ℕ :=
  ctx.maxFrameSize.toNat * 2

/-- One turn of the stream: read what arrives into the free part of the buffer and serve
what it completes. Nothing read is the end of the stream. -/
def turn (w : World σ) : Option StreamEnd × World σ :=
  match w.recv.read (bufferSize ctx - w.buffer.length) with
  | (.error e, recv) => (some (.returned (.error e)), { w with recv })
  | (.ok bytes, recv) =>
    if bytes = [] then (some (.returned (.ok ())), { w with recv })
    else
      drain ctx (w.buffer.length + bytes.length) { w with buffer := w.buffer ++ bytes, recv }

/-- Serve a stream turn by turn; `none` if `fuel` turns do not reach its end. -/
def handleBrowseStream : ℕ → World σ → Option StreamEnd × World σ
  | 0, w => (none, w)
  | fuel + 1, w =>
    match turn ctx w with
    | (some result, w) => (some result, w)
    | (none, w) => handleBrowseStream fuel w

end Browse

end Tradr
