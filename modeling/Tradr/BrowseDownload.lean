import Tradr.Browse
import Tradr.FileStore
import Tradr.FrameReaders

/-!
# Downloading a File

The asking side of a `ReadFile`: send the request, read the answer, look for a free name,
make its directory, open the file there and write what the stream delivers until it ends.
The answer announces a size; the content has no other end than that of the stream.

The served file is read by the Browse handler. Its reads are logged (`tapped`), so that what
a download holds can be compared with what was read, also of a file that changes meanwhile.

## Main definitions

* `Download.executeDownloadFile`: the asking side, call by call.
* `Download.CompletesOrFails`: what a download should come to.
* `Download.Lands`: all that arrives gets into the file.

## Main results

* `Download.receiveContent_spec`: the file holds a front part of what arrives.
* `Download.serve_written`: what the serving side writes for a `ReadFile`.
* `Download.completesOrFails_iff`: a download completes or fails if and only if, once its file
  came into being, as much content as announced arrives and gets into it.
-/

namespace Tradr

/-! ### Files that are written piece by piece -/

/-- A store of files that says of a failed write how far it went, and finds the files that
are there. -/
structure WriteStore {σ H : Type*} (vfs : Vfs σ H) (N : Type*) extends FileStore vfs N where
  writeAt_error : ∀ {s h off bs e}, Valid s → (vfs.writeAt s h off bs).1 = .error e →
    ∃ k, data (vfs.writeAt s h off bs).2 (node h) =
      ByteFile.overlay (data s (node h)) off (bs.take k)
  stat_notFound : ∀ {s p}, Valid s → (vfs.stat s p).1 = .error .notFound → file s p = none

/-- A file that is there is not reported missing. -/
theorem PosixVfs.statSync_of_file {t : Tree} (h : WellFormed t) {path : RelPath} {ino : ℕ}
    (hfile : fileAt t path = some ino) : statSync t path ≠ .error .notFound := by
  have hnode := fileAt_eq_some.mp hfile
  intro hres
  unfold statSync at hres
  by_cases hden : isDeniedForWrite path.components = true
  · rw [checkDenyList, if_pos hden] at hres
    cases hres
  rw [checkDenyList, if_neg hden, Fallible.ok_bind, h.resolveDir hnode, Fallible.ok_bind,
    hnode] at hres
  cases hres

/-- The POSIX backend is such a store. -/
def PosixVfs.writeStore : WriteStore vfs ℕ where
  toFileStore := fileStore
  writeAt_error _ he := by cases he
  stat_notFound := by
    intro t p h hres
    change fileAt t p = none
    rcases hfile : fileAt t p with _ | ino
    · rfl
    · exact absurd hres (statSync_of_file h hfile)

namespace Download

variable {σ τ H G N : Type}

/-! ### The asking side -/

/-- What a download works on: the store of the destination and the two halves of the Browse
stream. -/
structure Client (σ : Type) where
  store : σ
  send : SendStream
  recv : ScheduledRecv

/-- Why no frame of an answer could be read. -/
inductive AnswerError
  | transport (e : TransportError)
  | streamClosed
  | empty
  | oversized (announced : ℕ) (maxFrameSize : UInt32)
  | decoder (e : FrameError)
  | incomplete
  | refusedFrame (e : BrowseDomainError)
  deriving DecidableEq

/-- Why a download failed; `exhausted` is the search for a free name that goes on. -/
inductive DownloadError
  | encode (e : BrowseDomainError)
  | write (e : TransportError)
  | answer (e : AnswerError)
  | refused (reason : RefusalReason)
  | noAnswer
  | decode (e : BrowseDomainError)
  | resolve (e : VfsError)
  | parent (e : RelPathError)
  | createDir (e : VfsError)
  | openWrite (e : VfsError)
  | read (e : TransportError)
  | writeAt (e : VfsError)
  | sync (e : VfsError)
  | exhausted
  deriving DecidableEq

/-- What a download is given: the protobuf layer, the destination, the frame bounds of the
channel and of the session, what to fetch and where to put it. -/
structure Request (σ H : Type) where
  proto : BrowseProto
  vfs : Vfs σ H
  maxFrameSize : UInt32
  negotiatedFrameBound : UInt32
  shareId : ShareId
  path : RelPath
  dest : RelPath
  fuel : ℕ

/-- The message that asks for the whole file. -/
def Request.readFile (req : Request σ H) : ReadFile :=
  ⟨req.shareId, req.path, 0, 0⟩

/-- Read the length of a frame; `none` if the stream ends before its first byte. -/
def readPrefix (r : ScheduledRecv) (got : List UInt8) (room : ℕ) :
    Except AnswerError (Option (List UInt8)) × ScheduledRecv :=
  if room = 0 then (.ok (some got), r)
  else
    match r.read room with
    | (.error e, r) =>
      if e = .closed ∧ got = [] then (.ok none, r) else (.error (.transport e), r)
    | (.ok chunk, r) =>
      if chunk = [] then
        if got = [] then (.ok none, r) else (.error .streamClosed, r)
      else readPrefix r (got ++ chunk) (room - chunk.length)
termination_by room
decreasing_by
  rename_i hroom hne
  have := List.length_pos_iff.mpr hne
  omega

/-- How an answer sees a read that failed. -/
def ofReadFailure : ReadFailure → AnswerError
  | .eof => .streamClosed
  | .transport e => .transport e

/-- Read a frame, or find that the stream ended. -/
def readFrameOrEof (r : ScheduledRecv) (maxFrameSize : UInt32) :
    Except AnswerError (Option Frame) × ScheduledRecv :=
  match readPrefix r [] 4 with
  | (.error e, r) => (.error e, r)
  | (.ok none, r) => (.ok none, r)
  | (.ok (some lenBytes), r) =>
    let announced := BigEndian.ofBE lenBytes
    if announced = 0 then (.error .empty, r)
    else if announced > maxFrameSize.toNat then (.error (.oversized announced maxFrameSize), r)
    else
      match r.readExact announced with
      | (.error e, r) => (.error (ofReadFailure e), r)
      | (.ok body, r) =>
        match (((FrameDecoder.new maxFrameSize).feed (lenBytes ++ body)).nextFrame).1 with
        | .error e => (.error (.decoder e), r)
        | .ok none => (.error .incomplete, r)
        | .ok (some frame) => (.ok (some frame), r)

/-- What a peer answers. -/
inductive Answer
  | frame (f : Frame)
  | refused (reason : RefusalReason)
  | ended
  deriving DecidableEq

/-- Read an answer; a refusal is told apart by its type. -/
def readAnswer (proto : BrowseProto) (r : ScheduledRecv) (maxFrameSize : UInt32) :
    Except AnswerError Answer × ScheduledRecv :=
  match readFrameOrEof r maxFrameSize with
  | (.error e, r) => (.error e, r)
  | (.ok none, r) => (.ok .ended, r)
  | (.ok (some frame), r) =>
    if frame.typeCode = MessageType.refused.code then
      match decodeTypedFrame .refused proto.refused refusedFromWire frame with
      | .error e => (.error (.refusedFrame e), r)
      | .ok refused => (.ok (.refused refused.reason), r)
    else (.ok (.frame frame), r)

/-- Read the frame that answers a request. -/
def readAnswerFrame (proto : BrowseProto) (r : ScheduledRecv) (maxFrameSize : UInt32) :
    Except DownloadError Frame × ScheduledRecv :=
  match readAnswer proto r maxFrameSize with
  | (.error e, r) => (.error (.answer e), r)
  | (.ok (.frame frame), r) => (.ok frame, r)
  | (.ok (.refused reason), r) => (.error (.refused reason), r)
  | (.ok .ended, r) => (.error .noAnswer, r)

/-- A request that could not be written may have been refused meanwhile. -/
def readRefusalOrWriteError (proto : BrowseProto) (r : ScheduledRecv) (maxFrameSize : UInt32)
    (writeErr : TransportError) : DownloadError × ScheduledRecv :=
  match readAnswer proto r maxFrameSize with
  | (.ok (.refused reason), r) => (.refused reason, r)
  | (_, r) => (.write writeErr, r)

/-- Send the request and close the sending half; that the closing fails does not matter. -/
def sendRequest (req : Request σ H) : Eff (Client σ) DownloadError Unit := fun w =>
  match encodeTypedFrame .readFile req.proto.readFile readFileToWire req.readFile
      req.negotiatedFrameBound with
  | .error e => (.error (.encode e), w)
  | .ok frame =>
    match w.send.writeAll frame with
    | (.error e, send) =>
      let (err, recv) := readRefusalOrWriteError req.proto w.recv req.maxFrameSize e
      (.error err, { w with send, recv })
    | (.ok (), send) => (.ok (), { w with send := send.finish.2 })

/-- Read the announcement of the content. -/
def readBegin (req : Request σ H) : Eff (Client σ) DownloadError ReadFileBegin := fun w =>
  match readAnswerFrame req.proto w.recv req.maxFrameSize with
  | (.error e, recv) => (.error e, { w with recv })
  | (.ok frame, recv) =>
    ((decodeTypedFrame .readFileBegin req.proto.readFileBegin readFileBeginFromWire
      frame).mapError .decode, { w with recv })

/-- A call on the destination. -/
def call {A : Type} (op : σ → Except VfsError A × σ) (g : VfsError → DownloadError) :
    Eff (Client σ) DownloadError A := fun w =>
  ((op w.store).1.mapError g, { w with store := (op w.store).2 })

theorem call_of_ok {A : Type} {op : σ → Except VfsError A × σ} {g : VfsError → DownloadError}
    {w : Client σ} {a : A} {s : σ} (h : op w.store = (.ok a, s)) :
    call op g w = (.ok a, { w with store := s }) := by
  unfold call
  rw [h]
  rfl

theorem call_of_error {A : Type} {op : σ → Except VfsError A × σ}
    {g : VfsError → DownloadError} {w : Client σ} {e : VfsError} {s : σ}
    (h : op w.store = (.error e, s)) : call op g w = (.error (g e), { w with store := s }) := by
  unfold call
  rw [h]
  rfl

/-- Try the numbered names from `counter` on until one is free. -/
def resolveFrom (vfs : Vfs σ H) (path : RelPath) : ℕ → ℕ → Eff (Client σ) DownloadError RelPath
  | 0, _ => Eff.fail .exhausted
  | fuel + 1, counter =>
    match RelPath.new (collisionName path.value counter) with
    | .error _ => Eff.fail (.resolve (.io .invalidInput))
    | .ok candidate => fun w =>
      match vfs.stat w.store candidate with
      | (.ok _, store) => resolveFrom vfs path fuel (counter + 1) { w with store }
      | (.error .notFound, store) => (.ok candidate, { w with store })
      | (.error e, store) => (.error (.resolve e), { w with store })

/-- The path itself if it is free, and else the first numbered name that is. -/
def resolveCollision (req : Request σ H) : Eff (Client σ) DownloadError RelPath := fun w =>
  match req.vfs.stat w.store req.dest with
  | (.ok _, store) => resolveFrom req.vfs req.dest req.fuel 2 { w with store }
  | (.error .notFound, store) => (.ok req.dest, { w with store })
  | (.error e, store) => (.error (.resolve e), { w with store })

/-- Make the directory a file goes to, unless that is the top. -/
def createParent (req : Request σ H) (target : RelPath) : Eff (Client σ) DownloadError Unit :=
  let parent := (splitParent target.value).1.dropLast
  if parent = [] then pure ()
  else
    match RelPath.new parent with
    | .error e => Eff.fail (.parent e)
    | .ok parentRel => call (req.vfs.createDir · parentRel) .createDir

/-- Everything before the destination is opened: the size announced and the path to write
to. -/
def locate (req : Request σ H) : Eff (Client σ) DownloadError RelPath := do
  sendRequest req
  let _ ← readBegin req
  let target ← resolveCollision req
  createParent req target
  pure target

/-- Write what the stream delivers until it ends. -/
def receiveContent (vfs : Vfs σ H) (writer : H) : ℕ → ℕ → Eff (Client σ) DownloadError ℕ
  | 0, written => pure written
  | fuel + 1, written => fun w =>
    match w.recv.read Browse.ioChunkSize with
    | (.error e, recv) => (.error (.read e), { w with recv })
    | (.ok chunk, recv) =>
      if chunk = [] then (.ok written, { w with recv })
      else
        match vfs.writeAt w.store writer written chunk with
        | (.error e, store) => (.error (.writeAt e), { w with recv, store })
        | (.ok (), store) =>
          receiveContent vfs writer fuel (written + chunk.length) { w with recv, store }

/-- Download a file: how many bytes were written, and where. -/
def executeDownloadFile (req : Request σ H) : Eff (Client σ) DownloadError (ℕ × RelPath) := do
  let target ← locate req
  let writer ← call (req.vfs.openWrite · target) .openWrite
  let arriving ← Eff.gets fun w : Client σ => w.recv.bytes.length
  let written ← receiveContent req.vfs writer (arriving + 1) 0
  call (req.vfs.sync · writer) .sync
  pure (written, target)

/-! ### Reading the answer -/

/-- The length of a frame is read as a buffer is filled. -/
theorem readPrefix_eq (r : ScheduledRecv) (got : List UInt8) (room : ℕ) :
    match r.readExact room with
    | (.ok p, r') => readPrefix r got room = (.ok (some (got ++ p)), r')
    | (.error _, _) => ∀ p r', readPrefix r got room ≠ (.ok (some p), r') := by
  induction room using Nat.strong_induction_on generalizing r got with
  | _ room ih =>
    rw [ScheduledRecv.readExact]
    unfold readPrefix
    by_cases hroom : room = 0
    · rw [if_pos hroom, if_pos hroom]
      dsimp only
      rw [List.append_nil]
    rw [if_neg hroom, if_neg hroom]
    rcases hread : r.read room with ⟨e | chunk, r₁⟩
    · intro p r'
      dsimp only
      split_ifs <;> rintro ⟨⟩
    · dsimp only
      by_cases hne : chunk = []
      · rw [if_pos hne, if_pos hne]
        intro p r'
        split_ifs <;> rintro ⟨⟩
      · have hpos := List.length_pos_iff.mpr hne
        have hrest := ih (room - chunk.length) (by omega) r₁ (got ++ chunk)
        rw [if_neg hne, if_neg hne]
        rcases hexact : r₁.readExact (room - chunk.length) with ⟨e | rest, r₂⟩
        · rw [hexact] at hrest
          exact hrest
        · rw [hexact] at hrest
          dsimp only at hrest ⊢
          rw [← List.append_assoc]
          exact hrest

/-- A frame of an answer is read as the frame parser delimits it. -/
theorem readFrameOrEof_eq_some {r r' : ScheduledRecv} {limit : UInt32} {f : Frame} :
    readFrameOrEof r limit = (.ok (some f), r') ↔
      ∃ sized, Transfer.readFrame r limit = (.ok f, r', sized) := by
  have hpre : lenPrefixLen = 4 := rfl
  have hspec := readPrefix_eq r [] 4
  unfold readFrameOrEof Transfer.readFrame
  rw [hpre]
  rcases hexact : r.readExact 4 with ⟨e | p, r₁⟩
  · rw [hexact] at hspec
    constructor
    · intro h
      rcases hread : readPrefix r [] 4 with ⟨e' | _ | p, r₂⟩
      · rw [hread] at h
        cases h
      · rw [hread] at h
        cases h
      · exact absurd hread (hspec p r₂)
    · rintro ⟨sized, h⟩
      cases h
  · rw [hexact] at hspec
    rw [hspec, List.nil_append]
    dsimp only
    split_ifs
    · exact ⟨nofun, nofun⟩
    · exact ⟨nofun, nofun⟩
    · rcases r₁.readExact (BigEndian.ofBE p) with ⟨e | body, r₂⟩
      · exact ⟨nofun, nofun⟩
      · dsimp only
        rcases (((FrameDecoder.new limit).feed (p ++ body)).nextFrame).1 with e | _ | g
        · exact ⟨nofun, nofun⟩
        · exact ⟨nofun, nofun⟩
        · simp

/-- The announcement at the front of what arrives, and the content behind it. -/
def received (proto : BrowseProto) (limit : UInt32) (bytes : List UInt8) :
    Option (ReadFileBegin × List UInt8) :=
  match frameVerdict limit bytes with
  | .unit f n =>
    match decodeTypedFrame .readFileBegin proto.readFileBegin readFileBeginFromWire f with
    | .ok head => some (head, bytes.drop n)
    | .error _ => none
  | _ => none

/-- An announcement that is read stands at the front of what arrives; the content is left to
be read. -/
theorem readBegin_ok {req : Request σ H} {w w' : Client σ} {head : ReadFileBegin}
    (h : readBegin req w = (.ok head, w')) :
    ∃ f n sizes, frameVerdict req.maxFrameSize w.recv.bytes = .unit f n ∧
      f.typeCode = MessageType.readFileBegin.code ∧
      received req.proto req.maxFrameSize w.recv.bytes = some (head, w.recv.bytes.drop n) ∧
      w' = { w with recv := ⟨⟨w.recv.bytes.drop n, w.recv.ending⟩, sizes⟩ } := by
  unfold readBegin readAnswerFrame readAnswer at h
  rcases hframe : readFrameOrEof w.recv req.maxFrameSize with ⟨e | _ | f, r⟩
  · rw [hframe] at h
    cases h
  · rw [hframe] at h
    cases h
  obtain ⟨sized, htransfer⟩ := readFrameOrEof_eq_some.mp hframe
  obtain ⟨sizes, hspec⟩ := Transfer.readFrame_spec w.recv req.maxFrameSize
  rcases hv : frameVerdict req.maxFrameSize w.recv.bytes with _ | e | ⟨g, n⟩
  · rw [hv] at hspec
    obtain ⟨_, hspec⟩ := hspec
    rw [hspec] at htransfer
    cases htransfer
  · rw [hv] at hspec
    dsimp only at hspec
    rw [hspec] at htransfer
    cases htransfer
  rw [hv] at hspec
  dsimp only at hspec
  rw [hspec] at htransfer
  obtain ⟨hg, hr⟩ := Prod.mk.inj htransfer
  obtain rfl := Except.ok.inj hg
  obtain ⟨rfl, -⟩ := Prod.mk.inj hr
  rw [hframe] at h
  dsimp only at h
  split_ifs at h with href
  · rcases hdec : decodeTypedFrame .refused req.proto.refused refusedFromWire g with e | refused
    · rw [hdec] at h
      cases h
    · rw [hdec] at h
      cases h
  · dsimp only at h
    rcases hdec : decodeTypedFrame .readFileBegin req.proto.readFileBegin
        readFileBeginFromWire g with e | head'
    · rw [hdec] at h
      cases h
    · rw [hdec] at h
      obtain ⟨hhead, rfl⟩ := Prod.mk.inj h
      obtain rfl := Except.ok.inj hhead
      refine ⟨g, n, sizes, rfl, ?_, ?_, rfl⟩
      · by_contra hcode
        rw [decodeTypedFrame, if_pos hcode] at hdec
        cases hdec
      · unfold received
        rw [hv]
        dsimp only
        rw [hdec]

/-! ### Writing the content -/

section Writing

variable {vfs : Vfs σ H} (F : WriteStore vfs N)

/-- Only the file behind a handle was written. -/
structure WrittenOnly (writer : H) (s s' : σ) : Prop where
  valid : F.Valid s'
  file : F.file s' = F.file s
  inUse : ∀ n, F.InUse s n → F.InUse s' n
  data : ∀ n, F.InUse s n → n ≠ F.node writer → F.data s' n = F.data s n

variable {F} {writer : H} {s s' s'' : σ}

theorem WrittenOnly.refl (h : F.Valid s) : WrittenOnly F writer s s :=
  ⟨h, rfl, fun _ hn => hn, fun _ _ _ => rfl⟩

theorem WrittenOnly.trans (h : WrittenOnly F writer s s') (h' : WrittenOnly F writer s' s'') :
    WrittenOnly F writer s s'' where
  valid := h'.valid
  file := h'.file.trans h.file
  inUse n hn := h'.inUse n (h.inUse n hn)
  data n hn hne := (h'.data n (h.inUse n hn) hne).trans (h.data n hn hne)

/-- A write, also one that fails. -/
theorem writtenOnly_writeAt (h : F.Valid s) (off : ℕ) (bs : List UInt8) :
    WrittenOnly F writer s (vfs.writeAt s writer off bs).2 := by
  obtain ⟨hvalid, hfile, huse, hdata⟩ := F.writeAt_file off bs h
  exact ⟨hvalid, hfile, huse, fun n _ => hdata n⟩

/-- The pieces a stream delivers to reads of the buffer's size. -/
def pieces : ℕ → ScheduledRecv → List (List UInt8)
  | 0, _ => []
  | fuel + 1, r =>
    match r.read Browse.ioChunkSize with
    | (.error _, _) => []
    | (.ok chunk, r) => if chunk = [] then [] else chunk :: pieces fuel r

variable (F) (writer) in
/-- Every piece is written in full; only the last write may fail, and must have written all
the same. -/
def TakesAll : σ → ℕ → List (List UInt8) → Prop
  | _, _, [] => True
  | s, off, piece :: rest =>
    match (vfs.writeAt s writer off piece).1 with
    | .ok () => TakesAll (vfs.writeAt s writer off piece).2 (off + piece.length) rest
    | .error _ => rest = [] ∧
        F.data (vfs.writeAt s writer off piece).2 (F.node writer) =
          ByteFile.overlay (F.data s (F.node writer)) off piece

/-- The pieces are what will arrive, cut up; none of them is empty. -/
theorem pieces_spec (fuel : ℕ) (r : ScheduledRecv) (h : r.bytes.length < fuel) :
    (pieces fuel r).flatten = r.bytes ∧ ∀ p ∈ pieces fuel r, p ≠ [] := by
  induction fuel generalizing r with
  | zero => omega
  | succ fuel ih =>
      obtain ⟨hb, -, hread⟩ | ⟨e, hb, -, hread⟩ | ⟨chunk, rest, sizes, hb, hne, -, hread⟩ :=
        r.read_cases (show 0 < Browse.ioChunkSize by decide)
      · rw [pieces, hread, hb]
        exact ⟨rfl, by simp⟩
      · rw [pieces, hread, hb]
        exact ⟨rfl, by simp⟩
      · have hpos := List.length_pos_iff.mpr hne
        have hlen := congrArg List.length hb
        rw [List.length_append] at hlen
        obtain ⟨hflat, hall⟩ := ih ⟨⟨rest, r.ending⟩, sizes⟩ (by dsimp only; omega)
        rw [pieces, hread]
        dsimp only
        rw [if_neg hne, List.flatten_cons, hflat, hb]
        exact ⟨rfl, List.forall_mem_cons.mpr ⟨hne, hall⟩⟩

/-- **The file holds a front part of what arrives**: all of it if and only if the file takes
all pieces, which it does when the content was received to a clean end. -/
theorem receiveContent_spec {fuel written : ℕ} {w : Client σ} {before : List UInt8}
    (hvalid : F.Valid w.store) (hdata : F.data w.store (F.node writer) = before)
    (hwritten : written = before.length) (hfuel : w.recv.bytes.length < fuel) :
    WrittenOnly F writer w.store (receiveContent vfs writer fuel written w).2.store ∧
      ∃ k ≤ w.recv.bytes.length,
        F.data (receiveContent vfs writer fuel written w).2.store (F.node writer) =
          before ++ w.recv.bytes.take k ∧
        (TakesAll F writer w.store written (pieces fuel w.recv) ↔ k = w.recv.bytes.length) ∧
        ∀ n, (receiveContent vfs writer fuel written w).1 = .ok n →
          n = written + w.recv.bytes.length ∧ k = w.recv.bytes.length ∧
            w.recv.ending = none := by
  induction fuel generalizing written w before with
  | zero => omega
  | succ fuel ih =>
      obtain ⟨hb, hend, hread⟩ | ⟨e, hb, -, hread⟩ | ⟨chunk, rest, sizes, hb, hne, -, hread⟩ :=
        w.recv.read_cases (show 0 < Browse.ioChunkSize by decide)
      · simp only [receiveContent, pieces, hread, if_true, hb]
        refine ⟨.refl hvalid, 0, Nat.zero_le _, by simpa using hdata, by simp [TakesAll], ?_⟩
        intro n hn
        obtain rfl := Except.ok.inj hn
        exact ⟨rfl, rfl, hend⟩
      · simp only [receiveContent, pieces, hread, hb]
        exact ⟨.refl hvalid, 0, Nat.zero_le _, by simpa using hdata, by simp [TakesAll],
          nofun⟩
      · have hpos := List.length_pos_iff.mpr hne
        have hlen := congrArg List.length hb
        rw [List.length_append] at hlen
        have honly : WrittenOnly F writer w.store (vfs.writeAt w.store writer written chunk).2 :=
          writtenOnly_writeAt hvalid written chunk
        have hover : ByteFile.overlay before written chunk = before ++ chunk := by
          rw [hwritten, ByteFile.overlay_length]
        have hrest := pieces_spec fuel ⟨⟨rest, w.recv.ending⟩, sizes⟩ (by dsimp only; omega)
        simp only [receiveContent, pieces, hread, if_neg hne, TakesAll]
        rcases hwrite : vfs.writeAt w.store writer written chunk with ⟨e | _, s₁⟩
        · obtain ⟨j, hj⟩ := F.writeAt_error hvalid (congrArg Prod.fst hwrite)
          rw [hwrite] at honly hj
          rw [hwritten, hdata, ByteFile.overlay_length] at hj
          have htake : chunk.take j = w.recv.bytes.take (min j chunk.length) := by
            rw [hb, List.take_append_of_le_length (by omega), ← List.take_take,
              List.take_length]
          refine ⟨honly, min j chunk.length, by omega, hj.trans (by rw [htake]), ?_, nofun⟩
          dsimp only
          rw [hdata, hover]
          constructor
          · rintro ⟨hnil, hall⟩
            rw [hnil, List.flatten_nil] at hrest
            have hlast := congrArg List.length hrest.1
            have hfull := congrArg List.length (List.append_cancel_left (hj.symm.trans hall))
            rw [List.length_take] at hfull
            simp only [List.length_nil] at hlast
            omega
          · intro hk
            have hnil : rest = [] := List.eq_nil_of_length_eq_zero (by omega)
            refine ⟨?_, ?_⟩
            · rcases hp : pieces fuel ⟨⟨rest, w.recv.ending⟩, sizes⟩ with _ | ⟨p, ps⟩
              · rfl
              · rw [hp, hnil, List.flatten_cons] at hrest
                exact absurd (List.append_eq_nil_iff.mp hrest.1).1 (hrest.2 p List.mem_cons_self)
            · rw [hj, List.take_of_length_le (by omega)]
        · have hok := F.writeAt_ok hvalid (congrArg Prod.fst hwrite)
          rw [hwrite, hdata, hover] at hok
          rw [hwrite] at honly
          obtain ⟨hloop, k, hk, hholds, htakes, hdone⟩ := @ih (written + chunk.length)
            { w with store := s₁, recv := ⟨⟨rest, w.recv.ending⟩, sizes⟩ } (before ++ chunk)
            honly.valid hok (by rw [List.length_append, hwritten]) (by dsimp only; omega)
          dsimp only at hloop hk hholds htakes hdone ⊢
          refine ⟨honly.trans hloop, chunk.length + k, by omega, ?_, ?_, ?_⟩
          · rw [hholds, hb, List.append_assoc, List.take_length_add_append]
          · rw [htakes]
            omega
          · intro n hn
            obtain ⟨h1, h2, h3⟩ := hdone n hn
            exact ⟨by omega, by omega, h3⟩

end Writing

/-! ### Finding the destination -/

section Locating

variable {req : Request σ H} {F : WriteStore req.vfs N} {w w₁ : Client σ}

/-- Sending the request leaves the destination and what will arrive alone. -/
theorem sendRequest_spec (req : Request σ H) (w : Client σ) :
    (sendRequest req w).2.store = w.store ∧
      ∀ w₁, sendRequest req w = (.ok (), w₁) → w₁.recv = w.recv := by
  unfold sendRequest
  rcases encodeTypedFrame .readFile req.proto.readFile readFileToWire req.readFile
    req.negotiatedFrameBound with e | frame
  · exact ⟨rfl, nofun⟩
  dsimp only
  rcases w.send.writeAll frame with ⟨e | _, send⟩
  · exact ⟨rfl, nofun⟩
  · refine ⟨rfl, fun w₁ h => ?_⟩
    rw [← (Prod.mk.inj h).2]

/-- Reading the announcement leaves the destination alone. -/
theorem readBegin_store (req : Request σ H) (w : Client σ) :
    (readBegin req w).2.store = w.store := by
  unfold readBegin
  rcases readAnswerFrame req.proto w.recv req.maxFrameSize with ⟨e | frame, r⟩
  · rfl
  · rfl

/-- The search for a free name leaves the files alone, and what it finds is free. -/
theorem resolveFrom_spec {path : RelPath} (hvalid : F.Valid w.store) (fuel counter : ℕ) :
    F.Same w.store (resolveFrom req.vfs path fuel counter w).2.store ∧
      ((resolveFrom req.vfs path fuel counter w).2.recv = w.recv) ∧
      ∀ target, (resolveFrom req.vfs path fuel counter w).1 = .ok target →
        F.file w.store target = none := by
  induction fuel generalizing counter w with
  | zero => exact ⟨.refl hvalid, rfl, nofun⟩
  | succ fuel ih =>
      rw [resolveFrom]
      rcases RelPath.new (collisionName path.value counter) with e | candidate
      · exact ⟨.refl hvalid, rfl, nofun⟩
      dsimp only
      have hsame := F.stat_same candidate hvalid
      have hfree := @F.stat_notFound w.store candidate hvalid
      rcases hstat : req.vfs.stat w.store candidate with ⟨e | m, s₁⟩
      · rw [hstat] at hsame hfree
        rcases e with _ | _ | _ | _ | _ | _ | _ | _
        case notFound =>
          refine ⟨hsame, rfl, fun target h => ?_⟩
          obtain rfl := Except.ok.inj h
          exact hfree rfl
        all_goals exact ⟨hsame, rfl, nofun⟩
      · rw [hstat] at hsame
        obtain ⟨h1, h2, h3⟩ := @ih { w with store := s₁ } hsame.valid (counter + 1)
        refine ⟨hsame.trans h1, h2, fun target h => ?_⟩
        rw [← hsame.file]
        exact h3 target h

theorem resolveCollision_spec (hvalid : F.Valid w.store) :
    F.Same w.store (resolveCollision req w).2.store ∧
      (resolveCollision req w).2.recv = w.recv ∧
      ∀ target, (resolveCollision req w).1 = .ok target → F.file w.store target = none := by
  unfold resolveCollision
  have hsame := F.stat_same req.dest hvalid
  have hfree := @F.stat_notFound w.store req.dest hvalid
  rcases hstat : req.vfs.stat w.store req.dest with ⟨e | m, s₁⟩
  · rw [hstat] at hsame hfree
    rcases e with _ | _ | _ | _ | _ | _ | _ | _
    case notFound =>
      refine ⟨hsame, rfl, fun target h => ?_⟩
      obtain rfl := Except.ok.inj h
      exact hfree rfl
    all_goals exact ⟨hsame, rfl, nofun⟩
  · rw [hstat] at hsame
    obtain ⟨h1, h2, h3⟩ := @resolveFrom_spec σ H N req F { w with store := s₁ } req.dest
      hsame.valid req.fuel 2
    refine ⟨hsame.trans h1, h2, fun target h => ?_⟩
    rw [← hsame.file]
    exact h3 target h

theorem createParent_spec (target : RelPath) (hvalid : F.Valid w.store) :
    F.Same w.store (createParent req target w).2.store ∧
      (createParent req target w).2.recv = w.recv := by
  unfold createParent
  split_ifs
  · exact ⟨.refl hvalid, rfl⟩
  · rcases RelPath.new (splitParent target.value).1.dropLast with e | parent
    · exact ⟨.refl hvalid, rfl⟩
    · exact ⟨F.createDir_same parent hvalid, rfl⟩

/-- Until the destination is opened the files stay as they are, and the path that is found
is free; the announcement was read, and the content is what will arrive. -/
theorem locate_spec (hvalid : F.Valid w.store) :
    F.Same w.store (locate req w).2.store ∧
      ∀ target, (locate req w).1 = .ok target → F.file w.store target = none ∧
        ∃ f n head, frameVerdict req.maxFrameSize w.recv.bytes = .unit f n ∧
          f.typeCode = MessageType.readFileBegin.code ∧
          received req.proto req.maxFrameSize w.recv.bytes = some (head, w.recv.bytes.drop n) ∧
          (locate req w).2.recv.bytes = w.recv.bytes.drop n ∧
          (locate req w).2.recv.ending = w.recv.ending := by
  obtain ⟨hsent, hrecv⟩ := sendRequest_spec req w
  unfold locate
  rcases hsend : sendRequest req w with ⟨e | _, w₁⟩
  · rw [hsend] at hsent
    rw [Eff.bind_of_error hsend]
    exact ⟨by rw [show w₁.store = w.store from hsent]; exact .refl hvalid, nofun⟩
  rw [hsend] at hsent
  dsimp only at hsent
  rw [Eff.bind_of_ok hsend]
  have hbegun := readBegin_store req w₁
  rcases hbegin : readBegin req w₁ with ⟨e | head, w₂⟩
  · rw [hbegin] at hbegun
    rw [Eff.bind_of_error hbegin]
    exact ⟨by rw [show w₂.store = w.store from hbegun.trans hsent]; exact .refl hvalid, nofun⟩
  obtain ⟨f, n, sizes, hverdict, hcode, hreceived, rfl⟩ := readBegin_ok hbegin
  rw [hrecv w₁ hsend] at hverdict hreceived
  rw [Eff.bind_of_ok hbegin]
  generalize hw₂ : ({ w₁ with recv := ⟨⟨w₁.recv.bytes.drop n, w₁.recv.ending⟩, sizes⟩ } :
    Client σ) = w₂
  have hstore : w₂.store = w.store := by
    rw [← hw₂]
    exact hsent
  have hbytes : w₂.recv.bytes = w.recv.bytes.drop n ∧ w₂.recv.ending = w.recv.ending := by
    rw [← hw₂, ← hrecv w₁ hsend]
    exact ⟨rfl, rfl⟩
  have hvalid₂ : F.Valid w₂.store := hstore ▸ hvalid
  obtain ⟨hsame, hkept, hfree⟩ := resolveCollision_spec hvalid₂
  rcases hresolve : resolveCollision req w₂ with ⟨e | target, w₃⟩
  · rw [hresolve, hstore] at hsame
    rw [Eff.bind_of_error hresolve]
    exact ⟨hsame, nofun⟩
  rw [hresolve] at hsame hkept hfree
  rw [hstore] at hsame hfree
  dsimp only at hsame hkept hfree
  rw [Eff.bind_of_ok hresolve]
  obtain ⟨hsame', hkept'⟩ := createParent_spec target hsame.valid
  rcases hparent : createParent req target w₃ with ⟨e | _, w₄⟩
  · rw [hparent] at hsame'
    rw [Eff.bind_of_error hparent]
    exact ⟨hsame.trans hsame', nofun⟩
  rw [hparent] at hsame' hkept'
  rw [Eff.bind_of_ok hparent]
  dsimp only at hsame' hkept'
  refine ⟨hsame.trans hsame', fun target' ht => ?_⟩
  obtain rfl := Except.ok.inj ht
  refine ⟨hfree target rfl, f, n, head, hverdict, hcode, hreceived, ?_⟩
  change w₄.recv.bytes = _ ∧ w₄.recv.ending = _
  rw [hkept', hkept]
  exact hbytes

end Locating

/-! ### The outcome -/

/-- Reads that start at an offset and each go on where the last one stopped. -/
def Consecutive : ℕ → List (ℕ × List UInt8) → Prop
  | _, [] => True
  | off, (o, bytes) :: rest => o = off ∧ Consecutive (off + bytes.length) rest

section Outcome

variable (req : Request σ H) (F : WriteStore req.vfs N) (w : Client σ)

/-- The store after a download. -/
def after : σ :=
  (executeDownloadFile req w).2.store

/-- What a download should come to. A download that answers has written as many bytes as
announced, the ones read from the served file, to a path that was free, and changed no other
file. One that failed has left no new file, unless that holds all the announced content. -/
structure CompletesOrFails (reads : List (ℕ × List UInt8)) : Prop where
  ok : ∀ n path, (executeDownloadFile req w).1 = .ok (n, path) →
    (∃ head content, received req.proto req.maxFrameSize w.recv.bytes = some (head, content) ∧
      n = head.totalSize) ∧
    (∃ node, F.file (after req w) path = some node ∧ (F.data (after req w) node).length = n ∧
      F.data (after req w) node = (reads.map Prod.snd).flatten.take n) ∧ Consecutive 0 reads ∧
    F.Keeps w.store (after req w) ∧ F.file w.store path = none ∧
    ∀ q, q ≠ path → F.file (after req w) q = F.file w.store q
  error : ∀ e, (executeDownloadFile req w).1 = .error e → ∀ q node, F.file w.store q = none →
    F.file (after req w) q = some node →
    ∃ head content, received req.proto req.maxFrameSize w.recv.bytes = some (head, content) ∧
      content.length = head.totalSize ∧ F.data (after req w) node = content

/-- What will arrive gets into the file at the path, in full. -/
def Lands (target : RelPath) : Prop :=
  match (req.vfs.openWrite w.store target).1 with
  | .ok writer =>
    TakesAll F writer (req.vfs.openWrite w.store target).2 0
      (pieces (w.recv.bytes.length + 1) w.recv)
  | .error _ => w.recv.bytes = []

/-- Once a file came into being at the destination, as much content as announced arrives
and gets into it. -/
def WhollyReceived : Prop :=
  ∀ head content target,
    received req.proto req.maxFrameSize w.recv.bytes = some (head, content) →
    (locate req w).1 = .ok target →
    F.file (req.vfs.openWrite (locate req w).2.store target).2 target ≠ none →
    content.length = head.totalSize ∧ Lands req F (locate req w).2 target

variable {req F w} {w₁ : Client σ} {target : RelPath}

/-- A download whose destination was opened: the file holds a front part of the content, all
of it if it takes all pieces, as it does when the download answers. -/
theorem execute_of_opened {writer : H} {s : σ} (hlocate : locate req w = (.ok target, w₁))
    (hopen : req.vfs.openWrite w₁.store target = (.ok writer, s)) (hvalid : F.Valid s)
    (hfile : F.file s target = some (F.node writer)) (hempty : F.data s (F.node writer) = []) :
    WrittenOnly F writer s (after req w) ∧
      ∃ k ≤ w₁.recv.bytes.length,
        F.data (after req w) (F.node writer) = w₁.recv.bytes.take k ∧
        (Lands req F w₁ target ↔ k = w₁.recv.bytes.length) ∧
        ∀ n path, (executeDownloadFile req w).1 = .ok (n, path) →
          path = target ∧ n = w₁.recv.bytes.length ∧ k = w₁.recv.bytes.length ∧
            w₁.recv.ending = none := by
  have hlands : Lands req F w₁ target ↔
      TakesAll F writer s 0 (pieces (w₁.recv.bytes.length + 1) w₁.recv) := by
    unfold Lands
    rw [hopen]
  obtain ⟨honly, k, hk, hholds, htakes, hdone⟩ :=
    @receiveContent_spec σ H N req.vfs F writer (w₁.recv.bytes.length + 1) 0
      { w₁ with store := s } [] hvalid hempty rfl (Nat.lt_succ_self _)
  have hgets : (Eff.gets fun w : Client σ => w.recv.bytes.length : Eff _ DownloadError _)
      { w₁ with store := s } = (.ok w₁.recv.bytes.length, { w₁ with store := s }) := rfl
  unfold after executeDownloadFile
  rw [Eff.bind_of_ok hlocate, Eff.bind_of_ok (call_of_ok hopen), Eff.bind_of_ok hgets]
  rcases hloop : receiveContent req.vfs writer (w₁.recv.bytes.length + 1) 0
    { w₁ with store := s } with ⟨e | n, w₂⟩
  · rw [hloop] at honly hholds hdone
    rw [Eff.bind_of_error hloop]
    exact ⟨honly, k, hk, hholds, hlands.trans htakes, nofun⟩
  rw [hloop] at honly hholds hdone
  rw [Eff.bind_of_ok hloop]
  obtain ⟨hn, hfull, hend⟩ := hdone n rfl
  have hsync := F.sync_same writer honly.valid
  have honly' : WrittenOnly F writer s (req.vfs.sync w₂.store writer).2 :=
    honly.trans ⟨hsync.valid, hsync.file, hsync.inUse, fun n hn _ => hsync.data n hn⟩
  have hholds' : F.data (req.vfs.sync w₂.store writer).2 (F.node writer) =
      w₁.recv.bytes.take k :=
    (hsync.data _ (honly.inUse _ (F.inUse_of_file hvalid hfile))).trans hholds
  rcases hres : req.vfs.sync w₂.store writer with ⟨e | _, s₂⟩
  · rw [hres] at honly' hholds'
    rw [Eff.bind_of_error (call_of_error hres)]
    exact ⟨honly', k, hk, hholds', hlands.trans htakes, nofun⟩
  · rw [hres] at honly' hholds'
    rw [Eff.bind_of_ok (call_of_ok hres)]
    refine ⟨honly', k, hk, hholds', hlands.trans htakes, fun m path hm => ?_⟩
    obtain ⟨rfl, rfl⟩ := Prod.mk.inj (Except.ok.inj hm)
    exact ⟨rfl, hn.trans (Nat.zero_add _), hfull, hend⟩

/-- The download got to its destination: a free path, with the content announced and still
to arrive. -/
structure Located (F : WriteStore req.vfs N) (w : Client σ) (target : RelPath) (w₁ : Client σ)
    (head : ReadFileBegin) : Prop where
  eq : locate req w = (.ok target, w₁)
  same : F.Same w.store w₁.store
  free : F.file w.store target = none
  received : received req.proto req.maxFrameSize w.recv.bytes = some (head, w₁.recv.bytes)

namespace Located

variable {head : ReadFileBegin} (h : Located F w target w₁ head)

include h

/-- The condition, where the destination is known. -/
theorem whollyReceived_iff : WhollyReceived req F w ↔
    (F.file (req.vfs.openWrite w₁.store target).2 target ≠ none →
      w₁.recv.bytes.length = head.totalSize ∧ Lands req F w₁ target) := by
  unfold WhollyReceived
  rw [h.eq, h.received]
  constructor
  · intro hw hne
    exact hw head w₁.recv.bytes target rfl rfl hne
  · rintro hw head' content target' hrec ht hne
    obtain ⟨rfl, rfl⟩ := Prod.mk.inj (Option.some.inj hrec)
    obtain rfl := Except.ok.inj ht
    exact hw hne

/-- Opening the destination leaves the files elsewhere alone. -/
theorem file_openWrite {q : RelPath} (hq : q ≠ target) :
    F.file (req.vfs.openWrite w₁.store target).2 q = F.file w.store q := by
  rw [F.openWrite_other h.same.valid hq, h.same.file]

/-- A file that is at the destination then is new and empty. -/
theorem new_openWrite {n : N}
    (hn : F.file (req.vfs.openWrite w₁.store target).2 target = some n) :
    ¬F.InUse w₁.store n ∧ F.data (req.vfs.openWrite w₁.store target).2 n = [] := by
  rcases F.openWrite_self h.same.valid hn with hold | ⟨-, huse, hdata⟩
  · rw [h.same.file, h.free] at hold
    cases hold
  · exact ⟨huse, hdata⟩

/-- The destination could not be opened. -/
theorem completesOrFails_iff_of_unopened {reads : List (ℕ × List UInt8)} {e : VfsError} {s : σ}
    (hopen : req.vfs.openWrite w₁.store target = (.error e, s)) :
    CompletesOrFails req F w reads ↔ WhollyReceived req F w := by
  have hexec : executeDownloadFile req w = (.error (.openWrite e), { w₁ with store := s }) := by
    unfold executeDownloadFile
    rw [Eff.bind_of_ok h.eq, Eff.bind_of_error (call_of_error hopen)]
  have hafter : after req w = s := by rw [after, hexec]
  have hlands : Lands req F w₁ target ↔ w₁.recv.bytes = [] := by
    unfold Lands
    rw [hopen]
  rw [h.whollyReceived_iff, hlands]
  constructor
  · intro hsound hne
    obtain ⟨node, hnode⟩ := Option.ne_none_iff_exists'.mp hne
    have hempty := (h.new_openWrite hnode).2
    rw [hopen] at hnode hempty
    obtain ⟨head', content, hrec, hlen, hdata⟩ := hsound.error _ (congrArg Prod.fst hexec) target
      node h.free (hafter ▸ hnode)
    rw [h.received] at hrec
    obtain ⟨rfl, rfl⟩ := Prod.mk.inj (Option.some.inj hrec)
    rw [hafter, hempty] at hdata
    exact ⟨hlen, hdata.symm⟩
  · intro hw
    refine ⟨fun n path hok => ?_, fun e' _ q node hq hnode => ?_⟩
    · rw [hexec] at hok
      cases hok
    · have hs : (req.vfs.openWrite w₁.store target).2 = s := congrArg Prod.snd hopen
      rw [hafter, ← hs] at hnode ⊢
      by_cases hqt : q = target
      · rw [hqt] at hnode
        obtain ⟨hlen, hnil⟩ := hw (by rw [hnode]; simp)
        exact ⟨head, w₁.recv.bytes, h.received, hlen, (h.new_openWrite hnode).2.trans hnil.symm⟩
      · rw [h.file_openWrite hqt, hq] at hnode
        cases hnode

/-- The destination was opened. -/
theorem completesOrFails_iff_of_opened {reads : List (ℕ × List UInt8)} {writer : H} {s : σ}
    (hopen : req.vfs.openWrite w₁.store target = (.ok writer, s)) (hcons : Consecutive 0 reads)
    (hreads : w₁.recv.ending = none → w₁.recv.bytes <+: (reads.map Prod.snd).flatten) :
    CompletesOrFails req F w reads ↔ WhollyReceived req F w := by
  have hs : (req.vfs.openWrite w₁.store target).2 = s := congrArg Prod.snd hopen
  have hkeeps := F.openWrite_keeps target h.same.valid
  have hopened := F.openWrite_ok h.same.valid (congrArg Prod.fst hopen)
  obtain ⟨hfresh, hempty⟩ := h.new_openWrite hopened
  have hother : ∀ q, q ≠ target → F.file s q = F.file w.store q := by
    intro q hq
    rw [← hs, h.file_openWrite hq]
  rw [hs] at hkeeps hopened hempty
  obtain ⟨honly, k, hk, hholds, hlands, hok⟩ :=
    execute_of_opened h.eq hopen hkeeps.valid hopened hempty
  have hatTarget : F.file (after req w) target = some (F.node writer) := by
    rw [honly.file, hopened]
  rw [h.whollyReceived_iff, hlands]
  constructor
  · intro hsound _
    rcases hexec : (executeDownloadFile req w).1 with e | ⟨n, path⟩
    · obtain ⟨head', content, hrec, hlen, hdata⟩ :=
        hsound.error e hexec target _ h.free hatTarget
      rw [h.received] at hrec
      obtain ⟨rfl, rfl⟩ := Prod.mk.inj (Option.some.inj hrec)
      have hlength := congrArg List.length (hholds.symm.trans hdata)
      rw [List.length_take] at hlength
      exact ⟨hlen, by omega⟩
    · obtain ⟨rfl, hn, hfull, -⟩ := hok n path hexec
      obtain ⟨⟨head', content, hrec, htotal⟩, -⟩ := hsound.ok n path hexec
      rw [h.received] at hrec
      obtain ⟨rfl, rfl⟩ := Prod.mk.inj (Option.some.inj hrec)
      exact ⟨hn.symm.trans htotal, hfull⟩
  · intro hw
    obtain ⟨hlen, hfull⟩ := hw (by rw [hs, hopened]; simp)
    rw [hfull, List.take_length] at hholds
    refine ⟨fun n path hexec => ?_, fun e _ q node hq hnode => ?_⟩
    · obtain ⟨rfl, hn, -, hclean⟩ := hok n path hexec
      refine ⟨⟨head, _, h.received, hn.trans hlen⟩, ⟨_, hatTarget, by rw [hholds, hn], ?_⟩,
        hcons, ⟨honly.valid, fun m hm => honly.inUse m (hkeeps.inUse m (h.same.inUse m hm)),
          fun m hm => ?_⟩, h.free, fun q hq => ?_⟩
      · rw [hholds, hn]
        exact List.prefix_iff_eq_take.mp (hreads hclean)
      · have hne : m ≠ F.node writer := by
          rintro rfl
          exact hfresh (h.same.inUse _ hm)
        rw [honly.data m (hkeeps.inUse m (h.same.inUse m hm)) hne,
          hkeeps.data m (h.same.inUse m hm), h.same.data m hm]
      · rw [honly.file, hother q hq]
    · by_cases hqt : q = target
      · rw [hqt, hatTarget] at hnode
        obtain rfl := Option.some.inj hnode
        exact ⟨head, _, h.received, hlen, hholds⟩
      · rw [honly.file, hother q hqt, hq] at hnode
        cases hnode

end Located

/-- The download did not get to its destination. -/
theorem completesOrFails_iff_of_unlocated {reads : List (ℕ × List UInt8)} {e : DownloadError}
    (hlocate : locate req w = (.error e, w₁)) (hsame : F.Same w.store w₁.store) :
    CompletesOrFails req F w reads ↔ WhollyReceived req F w := by
  have hexec : executeDownloadFile req w = (.error e, w₁) := by
    unfold executeDownloadFile
    rw [Eff.bind_of_error hlocate]
  constructor
  · intro _ head content target _ ht
    rw [hlocate] at ht
    cases ht
  · intro _
    refine ⟨fun n path h => ?_, fun e' _ q node hq hnode => ?_⟩
    · rw [hexec] at h
      cases h
    · rw [after, hexec, hsame.file, hq] at hnode
      cases hnode

end Outcome

/-! ### The serving side -/

/-- A store with the reads made of its files: where, and what they gave. -/
structure Tapped (σ : Type) where
  store : σ
  reads : List (ℕ × List UInt8)

/-- Make a call that is no read. -/
def Tapped.through {A : Type} (op : σ → Except VfsError A × σ) (t : Tapped σ) :
    Except VfsError A × Tapped σ :=
  ((op t.store).1, { t with store := (op t.store).2 })

/-- A filesystem that logs what is read of its files. -/
def tapped (vfs : Vfs σ H) : Vfs (Tapped σ) H where
  list t p := t.through (vfs.list · p)
  stat t p := t.through (vfs.stat · p)
  openRead t p := t.through (vfs.openRead · p)
  readAt t h off len :=
    ((vfs.readAt t.store h off len).1,
      { store := (vfs.readAt t.store h off len).2
        reads :=
          match (vfs.readAt t.store h off len).1 with
          | .ok bytes => t.reads ++ [(off, bytes)]
          | .error _ => t.reads })
  createDir t p := t.through (vfs.createDir · p)
  openWrite t p := t.through (vfs.openWrite · p)
  writeAt t h off bytes := t.through (vfs.writeAt · h off bytes)
  sync t h := t.through (vfs.sync · h)
  rename t p q := t.through (vfs.rename · p q)
  renameNoReplace t p q := t.through (vfs.renameNoReplace · p q)
  remove t p := t.through (vfs.remove · p)

/-- The handler on a filesystem that logs the reads. -/
def tap (ctx : Browse.BrowseContext τ G) : Browse.BrowseContext (Tapped τ) G where
  codec := ctx.codec
  vfs := tapped ctx.vfs
  maxFrameSize := ctx.maxFrameSize
  fuel := ctx.fuel

/-- Serve a `ReadFile` on a stream of its own, and answer a failure. -/
def serve (ctx : Browse.BrowseContext τ G) (req : ReadFile) (w : Browse.World τ) :
    Browse.World τ :=
  match Browse.handleMessage ctx (.readFile req) w with
  | (.ok (), w) => w
  | (.error failure, w) => (Browse.answerFailure ctx failure w).2

/-- The serving of a download: on a fresh stream, with the reads logged. -/
def served (ctx : Browse.BrowseContext τ G) (req : ReadFile) (w : Browse.World τ) :
    Browse.World (Tapped τ) :=
  serve (tap ctx) req
    { store := ⟨w.store, []⟩
      ids := w.ids
      send := { w.send with written := [] }
      buffer := w.buffer
      recv := w.recv }

section Serving

open Browse

variable (ctx : BrowseContext τ G) {w : World (Tapped τ)}

/-- Closing a stream writes nothing. -/
theorem written_finish (send : SendStream) : send.finish.2.written = send.written := by
  unfold SendStream.finish SendStream.nextFault
  rcases send with ⟨written, _ | _, _ | ⟨_ | e, faults⟩⟩ <;> rfl

/-- A write adds its bytes, or nothing when it fails. -/
theorem writeAll_cases (bytes : List UInt8) (w : World τ) :
    (∃ e send, w.send.writeAll bytes = (.error e, send) ∧
      writeAll bytes w = (.error (.stream e), { w with send }) ∧
      send.written = w.send.written) ∨
      ∃ send, w.send.writeAll bytes = (.ok (), send) ∧
        writeAll bytes w = (.ok (), { w with send }) ∧
        send.written = w.send.written ++ bytes := by
  unfold writeAll SendStream.writeAll SendStream.nextFault
  rcases w.send with ⟨written, _ | _, _ | ⟨_ | e, faults⟩⟩
  · exact .inr ⟨_, rfl, rfl, rfl⟩
  · exact .inr ⟨_, rfl, rfl, rfl⟩
  · exact .inl ⟨e, _, rfl, rfl, rfl⟩
  all_goals exact .inl ⟨.closed, _, rfl, rfl, rfl⟩

/-- A read that is logged. -/
theorem readAt_tap (reader : G) (offset len : ℕ) (w : World (Tapped τ)) :
    (∃ e s, (Eff.mapError (fun _ => BrowseFailure.stream (.io .other))
        (Browse.call ((tap ctx).vfs.readAt · reader offset len))) w =
          (.error e, { w with store := ⟨s, w.store.reads⟩ })) ∨
      ∃ bytes s, (Eff.mapError (fun _ => BrowseFailure.stream (.io .other))
        (Browse.call ((tap ctx).vfs.readAt · reader offset len))) w =
          (.ok bytes, { w with store := ⟨s, w.store.reads ++ [(offset, bytes)]⟩ }) := by
  unfold Eff.mapError Browse.call tap tapped
  dsimp only
  rcases ctx.vfs.readAt w.store.store reader offset len with ⟨e | bytes, s⟩
  · exact .inl ⟨_, s, rfl⟩
  · exact .inr ⟨bytes, s, rfl⟩

/-- The content of a file is sent as it is read. -/
theorem sendContent_tap (reader : G) (fuel offset remaining : ℕ) (w : World (Tapped τ)) :
    ∃ new sent,
      (sendContent (tap ctx) reader fuel offset remaining w).2.store.reads =
        w.store.reads ++ new ∧
      Consecutive offset new ∧
      (sendContent (tap ctx) reader fuel offset remaining w).2.send.written =
        w.send.written ++ sent ∧
      sent <+: (new.map Prod.snd).flatten := by
  induction fuel generalizing offset remaining w with
  | zero => exact ⟨[], [], (List.append_nil _).symm, trivial, (List.append_nil _).symm, List.prefix_rfl⟩
  | succ fuel ih =>
      rw [sendContent]
      split_ifs
      swap
      · exact ⟨[], [], (List.append_nil _).symm, trivial, (List.append_nil _).symm,
          List.prefix_rfl⟩
      obtain ⟨e, s, hread⟩ | ⟨bytes, s, hread⟩ :=
        readAt_tap ctx reader offset (min remaining ioChunkSize) w
      · rw [Eff.bind_of_error hread]
        exact ⟨[], [], (List.append_nil _).symm, trivial, (List.append_nil _).symm,
          List.prefix_rfl⟩
      rw [Eff.bind_of_ok hread]
      split_ifs
      · exact ⟨[(offset, bytes)], [], rfl, ⟨rfl, trivial⟩, (List.append_nil _).symm,
          List.nil_prefix⟩
      obtain ⟨e, send, -, hwrite, hwritten⟩ | ⟨send, -, hwrite, hwritten⟩ :=
        writeAll_cases bytes ({ w with store := ⟨s, w.store.reads ++ [(offset, bytes)]⟩ } :
          World (Tapped τ))
      · rw [Eff.bind_of_error hwrite]
        exact ⟨[(offset, bytes)], [], rfl, And.intro rfl trivial, by simpa using hwritten,
          List.nil_prefix⟩
      · rw [Eff.bind_of_ok hwrite]
        obtain ⟨new, sent, hreads, hcons, hsent, hpre⟩ := ih (offset + bytes.length)
          (remaining - bytes.length) { w with
            store := ⟨s, w.store.reads ++ [(offset, bytes)]⟩
            send }
        refine ⟨(offset, bytes) :: new, bytes ++ sent, ?_, And.intro rfl hcons, ?_, ?_⟩
        · rw [hreads, List.append_assoc, List.singleton_append]
        · rw [hsent, hwritten, List.append_assoc]
        · rw [List.map_cons, List.flatten_cons]
          exact (List.prefix_append_right_inj bytes).mpr hpre

/-- What a served `ReadFile` wrote: nothing, a refusal, or an announcement with content as
it was read. -/
inductive ServedBytes (limit : UInt32) (reads : List (ℕ × List UInt8)) : List UInt8 → Prop
  | nothing : ServedBytes limit reads []
  | refused {payload enc : List UInt8}
      (h : encodeFrame MessageType.refused.code payload limit = .ok enc) :
      ServedBytes limit reads enc
  | content {payload enc sent : List UInt8}
      (h : encodeFrame MessageType.readFileBegin.code payload limit = .ok enc)
      (hsent : sent <+: (reads.map Prod.snd).flatten) : ServedBytes limit reads (enc ++ sent)

/-- What a client finds behind the announcement it reads is content as it was read. -/
theorem ServedBytes.drop_prefix {limit limit' : UInt32} {reads : List (ℕ × List UInt8)}
    {bytes : List UInt8} {f : Frame} {n : ℕ} (h : ServedBytes limit reads bytes)
    (hv : frameVerdict limit' bytes = .unit f n)
    (hcode : f.typeCode = MessageType.readFileBegin.code) :
    bytes.drop n <+: (reads.map Prod.snd).flatten := by
  cases h with
  | nothing =>
      rw [List.drop_nil]
      exact List.nil_prefix
  | refused henc =>
      have hparse := frameParser_encodeFrame henc []
      rw [List.append_nil] at hparse
      obtain ⟨rfl, -⟩ := frameVerdict_unit_unique hparse hv
      cases hcode
  | content henc hsent =>
      obtain ⟨-, rfl⟩ := frameVerdict_unit_unique (frameParser_encodeFrame henc _) hv
      rw [List.drop_left]
      exact hsent

/-- A call that is no read: the reads stay, and a failure is a refusal. -/
theorem refusing_through {A : Type} (op : τ → Except VfsError A × τ) (w : World (Tapped τ)) :
    ∃ s, (refusing (Browse.call (Tapped.through op))) w =
        ((op w.store.store).1.mapError fun e => .refused (refusalFor e),
          { w with store := ⟨s, w.store.reads⟩ }) := by
  refine ⟨(op w.store.store).2, ?_⟩
  unfold refusing Eff.mapError Browse.call Tapped.through
  dsimp only
  rcases (op w.store.store).1 with e | a
  · rfl
  · rfl

/-- An answer is an encoded frame, or does not fit and is a failure of the stream. -/
theorem respond_cases (msg : BrowseMessage) (w : World (Tapped τ)) :
    (∃ e w', respond (tap ctx) msg w = (.error (.stream e), w') ∧ w'.store = w.store ∧
      w'.send.written = w.send.written) ∨
      ∃ enc w', ctx.codec.encodeFrame msg ctx.maxFrameSize = .ok enc ∧
        respond (tap ctx) msg w = (.ok (), w') ∧ w'.store = w.store ∧
        w'.send.written = w.send.written ++ enc := by
  unfold respond tap
  dsimp only
  rcases ctx.codec.encodeFrame msg ctx.maxFrameSize with e | enc
  · exact .inl ⟨_, w, rfl, rfl, rfl⟩
  dsimp only
  obtain ⟨e, send, -, hwrite, hwritten⟩ | ⟨send, -, hwrite, hwritten⟩ := writeAll_cases enc w
  · exact .inl ⟨e, _, hwrite, rfl, hwritten⟩
  · exact .inr ⟨enc, _, rfl, hwrite, rfl, hwritten⟩

/-- The answer to a failure: a refusal on a stream with nothing on it, or nothing. -/
theorem servedBytes_answerFailure {failure : BrowseFailure} {w : World (Tapped τ)}
    (h : w.send.written = [] ∨
      ServedBytes ctx.maxFrameSize w.store.reads w.send.written ∧ ∃ e, failure = .stream e) :
    (answerFailure (tap ctx) failure w).2.store = w.store ∧
      ServedBytes ctx.maxFrameSize w.store.reads
        (answerFailure (tap ctx) failure w).2.send.written := by
  rcases h with h | ⟨h, e, rfl⟩
  swap
  · exact ⟨rfl, h⟩
  have hnothing : ServedBytes ctx.maxFrameSize w.store.reads w.send.written := by
    rw [h]
    exact .nothing
  rcases failure with reason | e | _
  · unfold answerFailure tap
    dsimp only
    rcases henc : ctx.codec.encodeFrame (.refused ⟨[], reason⟩) ctx.maxFrameSize with e | enc
    · exact ⟨rfl, hnothing⟩
    dsimp only
    obtain ⟨e, send, hwrite, -, hwritten⟩ | ⟨send, hwrite, -, hwritten⟩ := writeAll_cases enc w
    · rw [hwrite]
      refine ⟨rfl, ?_⟩
      change ServedBytes _ _ send.written
      rw [hwritten]
      exact hnothing
    · rw [hwrite]
      refine ⟨rfl, ?_⟩
      change ServedBytes _ _ send.finish.2.written
      rw [written_finish, hwritten, h, List.nil_append]
      exact .refused (Fallible.mapError_eq_ok.mp henc)
  · exact ⟨rfl, hnothing⟩
  · exact ⟨rfl, hnothing⟩

/-- Sending the content fails only with the stream, or with a read that is told as such. -/
theorem sendContent_error {ctx : BrowseContext σ H} {reader : H} {fuel offset remaining : ℕ}
    {w : World σ} {failure : BrowseFailure}
    (h : (sendContent ctx reader fuel offset remaining w).1 = .error failure) :
    ∃ e, failure = .stream e := by
  induction fuel generalizing offset remaining w with
  | zero => cases h
  | succ fuel ih =>
      rw [sendContent] at h
      split_ifs at h
      swap
      · cases h
      rcases hread : (Eff.mapError (fun _ => BrowseFailure.stream (.io .other))
        (Browse.call (ctx.vfs.readAt · reader offset (min remaining ioChunkSize)))) w with
        ⟨e | bytes, w₁⟩
      · rw [Eff.bind_of_error hread] at h
        obtain rfl := Except.error.inj h
        obtain ⟨_, -, rfl⟩ := Fallible.mapError_eq_error.mp (congrArg Prod.fst hread)
        exact ⟨_, rfl⟩
      rw [Eff.bind_of_ok hread] at h
      split_ifs at h
      · cases h
      obtain ⟨e, send, -, hwrite, -⟩ | ⟨send, -, hwrite, -⟩ := writeAll_cases bytes w₁
      · rw [Eff.bind_of_error hwrite] at h
        exact ⟨e, (Except.error.inj h).symm⟩
      · rw [Eff.bind_of_ok hwrite] at h
        exact ih h

/-- Closing the stream fails only with the stream. -/
theorem finish_error {w : World σ} {failure : BrowseFailure}
    (h : (finish w).1 = .error failure) : ∃ e, failure = .stream e := by
  obtain ⟨e, -, rfl⟩ := Fallible.mapError_eq_error.mp h
  exact ⟨e, rfl⟩

/-- What the handler of a `ReadFile` does: fail before its answer, or announce the content
and send it as it is read. -/
theorem handleReadFile_tap (req : ReadFile) {w : World (Tapped τ)} (hw : w.send.written = [])
    (hreads : w.store.reads = []) :
    (∃ failure w', handleReadFile (tap ctx) req w = (.error failure, w') ∧
      w'.send.written = [] ∧ w'.store.reads = []) ∨
      ∃ result w', handleReadFile (tap ctx) req w = (result, w') ∧
        (∀ failure, result = .error failure → ∃ e, failure = .stream e) ∧
        Consecutive req.offset.toNat w'.store.reads ∧
        ServedBytes ctx.maxFrameSize w'.store.reads w'.send.written := by
  unfold handleReadFile
  obtain ⟨s₁, hstat⟩ : ∃ s, refusing (Browse.call ((tap ctx).vfs.stat · req.path)) w =
      ((ctx.vfs.stat w.store.store req.path).1.mapError fun e => .refused (refusalFor e),
        { w with store := ⟨s, w.store.reads⟩ }) :=
    refusing_through (ctx.vfs.stat · req.path) w
  rcases hm : (ctx.vfs.stat w.store.store req.path).1 with e | metadata
  · rw [hm] at hstat
    rw [Eff.bind_of_error hstat]
    exact .inl ⟨_, _, rfl, hw, hreads⟩
  rw [hm] at hstat
  rw [Eff.bind_of_ok hstat]
  split_ifs
  · exact .inl ⟨_, _, rfl, hw, hreads⟩
  obtain ⟨s₂, hopen⟩ : ∃ s, refusing (Browse.call ((tap ctx).vfs.openRead · req.path))
      { w with store := ⟨s₁, w.store.reads⟩ } =
        ((ctx.vfs.openRead s₁ req.path).1.mapError fun e => .refused (refusalFor e),
          { w with store := ⟨s, w.store.reads⟩ }) :=
    refusing_through (ctx.vfs.openRead · req.path) { w with store := ⟨s₁, w.store.reads⟩ }
  rcases hr : (ctx.vfs.openRead s₁ req.path).1 with e | reader
  · rw [hr] at hopen
    rw [Eff.bind_of_error hopen]
    exact .inl ⟨_, _, rfl, hw, hreads⟩
  rw [hr] at hopen
  rw [Eff.bind_of_ok hopen]
  obtain ⟨e, w₃, hrespond, hstore, hwritten⟩ | ⟨enc, w₃, henc, hrespond, hstore, hwritten⟩ :=
    respond_cases ctx (.readFileBegin ⟨metadata.sizeBytes, .zeroes, 64 * 1024⟩)
      ({ w with store := ⟨s₂, w.store.reads⟩ } : World (Tapped τ))
  · rw [Eff.bind_of_error hrespond]
    exact .inl ⟨_, _, rfl, hwritten.trans hw, by rw [hstore]; exact hreads⟩
  rw [Eff.bind_of_ok hrespond]
  have hframe : encodeFrame MessageType.readFileBegin.code _ ctx.maxFrameSize = .ok enc :=
    Fallible.mapError_eq_ok.mp henc
  obtain ⟨new, sent, hnew, hcons, hsent, hpre⟩ := sendContent_tap ctx reader
    (bytesToRead req metadata.sizeBytes) req.offset.toNat (bytesToRead req metadata.sizeBytes) w₃
  rw [hstore, hreads, List.nil_append] at hnew
  rw [hwritten, hw, List.nil_append] at hsent
  rcases hloop : sendContent (tap ctx) reader (bytesToRead req metadata.sizeBytes)
    req.offset.toNat (bytesToRead req metadata.sizeBytes) w₃ with ⟨e | _, w₄⟩
  · have hstream : ∃ e', e = .stream e' := sendContent_error (congrArg Prod.fst hloop)
    rw [hloop] at hnew hsent
    dsimp only at hnew hsent
    rw [Eff.bind_of_error hloop]
    refine .inr ⟨_, _, rfl, ?_, by rw [hnew]; exact hcons, ?_⟩
    · rintro failure h
      obtain rfl := Except.error.inj h
      exact hstream
    · rw [hnew, hsent]
      exact .content hframe hpre
  · rw [hloop] at hnew hsent
    dsimp only at hnew hsent
    rw [Eff.bind_of_ok hloop]
    refine .inr ⟨_, _, rfl, ?_, ?_, ?_⟩
    · intro failure h
      exact finish_error h
    · change Consecutive _ w₄.store.reads
      rw [hnew]
      exact hcons
    · change ServedBytes _ w₄.store.reads w₄.send.finish.2.written
      rw [hnew, written_finish, hsent]
      exact .content hframe hpre

/-- **What the serving side writes for a `ReadFile`**, and the reads it made: they start at
the offset of the request and each goes on where the last one stopped. -/
theorem serve_written (req : ReadFile) {w : World (Tapped τ)} (hw : w.send.written = [])
    (hreads : w.store.reads = []) :
    Consecutive req.offset.toNat (serve (tap ctx) req w).store.reads ∧
      ServedBytes ctx.maxFrameSize (serve (tap ctx) req w).store.reads
        (serve (tap ctx) req w).send.written := by
  have hmsg : handleMessage (tap ctx) (.readFile req) w = handleReadFile (tap ctx) req w := rfl
  unfold serve
  rw [hmsg]
  obtain ⟨failure, w', hread, hw', hreads'⟩ | ⟨result, w', hread, hfail, hcons, hbytes⟩ :=
    handleReadFile_tap ctx req hw hreads
  · rw [hread]
    obtain ⟨hstore, hserved⟩ := servedBytes_answerFailure ctx (.inl hw')
    dsimp only
    rw [hstore]
    refine ⟨?_, hserved⟩
    rw [hreads']
    exact trivial
  · rw [hread]
    rcases result with failure | _
    · obtain ⟨hstore, hserved⟩ := servedBytes_answerFailure ctx
        (.inr ⟨hbytes, hfail failure rfl⟩)
      dsimp only
      rw [hstore]
      exact ⟨hcons, hserved⟩
    · exact ⟨hcons, hbytes⟩

end Serving

/-! ### A download -/

/-- **A download completes or fails**, for every state of the two sides, every stream between
them and every failure they meet, if and only if its content is wholly received: as much of it
as announced arrives and gets into the file that came into being. A stream that ends cleanly
has delivered what was written on it. -/
theorem completesOrFails_iff (req : Request σ H) (F : WriteStore req.vfs N) {w : Client σ}
    (ctx : Browse.BrowseContext τ G) (server : Browse.World τ) (hvalid : F.Valid w.store)
    (harrives : w.recv.ending = none →
      w.recv.bytes = (served ctx req.readFile server).send.written) :
    CompletesOrFails req F w (served ctx req.readFile server).store.reads ↔ WhollyReceived req F w := by
  obtain ⟨hcons, hserved⟩ := @serve_written τ G ctx req.readFile
    { store := ⟨server.store, []⟩
      ids := server.ids
      send := { server.send with written := [] }
      buffer := server.buffer
      recv := server.recv } rfl rfl
  obtain ⟨hsame, hlocated⟩ := @locate_spec σ H N req F w hvalid
  rcases hlocate : locate req w with ⟨e | target, w₁⟩
  · rw [hlocate] at hsame
    exact completesOrFails_iff_of_unlocated hlocate hsame
  rw [hlocate] at hsame hlocated
  dsimp only at hsame hlocated
  obtain ⟨hfree, f, n, head, hverdict, hcode, hreceived, hbytes, hend⟩ := hlocated target rfl
  have h : Located F w target w₁ head := ⟨hlocate, hsame, hfree, hbytes ▸ hreceived⟩
  rcases hopen : req.vfs.openWrite w₁.store target with ⟨e | writer, s⟩
  · exact h.completesOrFails_iff_of_unopened hopen
  · refine h.completesOrFails_iff_of_opened hopen hcons fun hclean => ?_
    rw [hend] at hclean
    rw [hbytes]
    rw [harrives hclean] at hverdict ⊢
    exact hserved.drop_prefix hverdict hcode

namespace Sample

/-- The share the request names. -/
def shareId : ShareId := .sample

/-- The path of the file, on both sides. -/
def path : RelPath :=
  ⟨"a".toList, .inr (by decide)⟩

/-- The protobuf layer on this request and its answers, for files of less than 128 bytes. -/
def proto : BrowseProto where
  listDir := ⟨fun _ => [], fun _ => none⟩
  dirListing := ⟨fun _ => [], fun _ => none⟩
  stat := ⟨fun _ => [], fun _ => none⟩
  statResult := ⟨fun _ => [], fun _ => none⟩
  readFile :=
    ⟨fun m => [0x0a, 36] ++ m.shareId.map (fun c => UInt8.ofNat c.toNat) ++ [0x12, 1, 0x61],
      fun _ => none⟩
  readFileBegin :=
    ⟨fun m => [0x08, UInt8.ofNat m.totalSize, 0x12, 32] ++ m.contentHash ++
        [0x18, 0x80, 0x80, 0x04],
      fun bytes => some ⟨(bytes.getD 1 0).toNat, (bytes.drop 4).take 32, 64 * 1024⟩⟩
  writeFile := ⟨fun _ => [], fun _ => none⟩
  mkdir := ⟨fun _ => [], fun _ => none⟩
  delete := ⟨fun _ => [], fun _ => none⟩
  rename := ⟨fun _ => [], fun _ => none⟩
  ack := ⟨fun _ => [], fun _ => none⟩
  refused := ⟨fun m => [0x10, UInt8.ofNat m.reason.toNat], fun _ => none⟩

/-- A root that holds a file of two bytes. -/
def servedTree : Tree :=
  ⟨[(["a".toList], .file 0)], fun _ => [0x68, 0x69], 1, fun _ => 0, false⟩

/-- A root with nothing in it. -/
def emptyTree : Tree :=
  ⟨[], fun _ => [], 0, fun _ => 0, false⟩

/-- The serving handler on a filesystem. -/
def context (vfs : Vfs Tree ℕ) : Browse.BrowseContext Tree ℕ :=
  ⟨⟨proto, 512⟩, vfs, 512, 4⟩

/-- The serving side before the request. -/
def server : Browse.World Tree :=
  ⟨servedTree, [], .fresh, [], ⟨⟨[], none⟩, []⟩⟩

/-- A filesystem on which another program cuts the file to one byte after it was asked for
its size. -/
def shrinking : Vfs Tree ℕ :=
  { PosixVfs.vfs with
    stat := fun t p => (PosixVfs.statSync t p, { t with data := fun _ => [0x68] }) }

/-- Download the file to the same name. -/
def request : Request Tree ℕ :=
  ⟨proto, PosixVfs.vfs, 512, 512, shareId, path, path, 4⟩

/-- What the serving side writes. -/
def sent (vfs : Vfs Tree ℕ) : List UInt8 :=
  (served (context vfs) request.readFile server).send.written

/-- The asking side, with what will arrive. -/
def client (recv : RecvStream) : Client Tree :=
  ⟨emptyTree, .fresh, ⟨recv, []⟩⟩

theorem emptyTree_wellFormed (recv : RecvStream) :
    PosixVfs.writeStore.Valid (client recv).store :=
  PosixVfs.wellFormed_of_entries_nil rfl

/-- The POSIX backend takes all pieces. -/
theorem takesAll_posix (writer : ℕ) (t : Tree) (off : ℕ) (ps : List (List UInt8)) :
    TakesAll PosixVfs.writeStore writer t off ps := by
  induction ps generalizing t off with
  | nil => trivial
  | cons p ps ih => exact ih _ _

end Sample

/-- A file of two bytes that arrives is downloaded. -/
theorem completesOrFails_iff_two_bytes :
    CompletesOrFails Sample.request PosixVfs.writeStore
        (Sample.client ⟨Sample.sent PosixVfs.vfs, none⟩)
        (served (Sample.context PosixVfs.vfs) Sample.request.readFile Sample.server).store.reads ∧
      (executeDownloadFile Sample.request
        (Sample.client ⟨Sample.sent PosixVfs.vfs, none⟩)).1 = .ok (2, Sample.path) := by
  refine ⟨(completesOrFails_iff Sample.request PosixVfs.writeStore
    (Sample.context PosixVfs.vfs) Sample.server (Sample.emptyTree_wellFormed _)
    fun _ => rfl).mpr ?_, by decide +kernel⟩
  intro head content target hrec hlocate _
  have hhead : (received Sample.request.proto Sample.request.maxFrameSize
      (Sample.sent PosixVfs.vfs)).map (fun r => (r.1.totalSize, r.2.length)) = some (2, 2) := by
    decide +kernel
  have htarget : (locate Sample.request
      (Sample.client ⟨Sample.sent PosixVfs.vfs, none⟩)).1 = .ok Sample.path := by
    decide +kernel
  have hopen : (Sample.request.vfs.openWrite (locate Sample.request
      (Sample.client ⟨Sample.sent PosixVfs.vfs, none⟩)).2.store Sample.path).1 = .ok 0 := by
    decide +kernel
  rw [htarget] at hlocate
  obtain rfl := Except.ok.inj hlocate
  change received _ _ (Sample.sent PosixVfs.vfs) = _ at hrec
  rw [hrec] at hhead
  obtain ⟨htotal, hlen⟩ := Prod.mk.inj (Option.some.inj hhead)
  refine ⟨hlen.trans htotal.symm, ?_⟩
  unfold Lands
  rw [hopen]
  exact Sample.takesAll_posix ..

/-- Two ways in which a download neither completes nor fails. The stream breaks before the
last byte: the download fails and leaves the bytes it got at the destination. The served file
is cut after its size was announced: the download answers, with fewer bytes. -/
theorem partial_downloads_stay :
    ¬CompletesOrFails Sample.request PosixVfs.writeStore
        (Sample.client ⟨(Sample.sent PosixVfs.vfs).dropLast, some .timedOut⟩)
        (served (Sample.context PosixVfs.vfs) Sample.request.readFile Sample.server).store.reads ∧
      ¬CompletesOrFails Sample.request PosixVfs.writeStore
        (Sample.client ⟨Sample.sent Sample.shrinking, none⟩)
        (served (Sample.context Sample.shrinking) Sample.request.readFile
          Sample.server).store.reads := by
  constructor
  · intro h
    obtain ⟨head, content, hrec, hlen, -⟩ := h.error (.read .timedOut) (by decide +kernel)
      Sample.path 0 (by decide +kernel) (by decide +kernel)
    have hhead : (received Sample.request.proto Sample.request.maxFrameSize
        (Sample.sent PosixVfs.vfs).dropLast).map (fun r => (r.1.totalSize, r.2.length)) =
          some (2, 1) := by
      decide +kernel
    change received _ _ (Sample.sent PosixVfs.vfs).dropLast = _ at hrec
    rw [hrec] at hhead
    obtain ⟨htotal, hshort⟩ := Prod.mk.inj (Option.some.inj hhead)
    exact absurd (hshort.symm.trans (hlen.trans htotal)) (by decide)
  · intro h
    obtain ⟨⟨head, content, hrec, htotal⟩, -⟩ := h.ok 1 Sample.path (by decide +kernel)
    have hhead : (received Sample.request.proto Sample.request.maxFrameSize
        (Sample.sent Sample.shrinking)).map (fun r => r.1.totalSize) = some 2 := by
      decide +kernel
    change received _ _ (Sample.sent Sample.shrinking) = _ at hrec
    rw [hrec] at hhead
    obtain hannounced : head.totalSize = 2 := Option.some.inj hhead
    omega

end Download

end Tradr
