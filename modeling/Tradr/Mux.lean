import Mathlib.Logic.Function.Basic
import Tradr.Chunks
import Tradr.MuxWire

/-!
# The Multiplexer

The connection multiplexing state of `tradr-transport`. A `Multiplexer` performs no I/O:
frames are pushed in with `onFrame` and pulled out of `write` and `finish`. Streams open
implicitly on their first frame, identifiers are judged against one high-water mark for
each residue space, and any protocol refusal is latched: it is permanent and fatal to
the channel.

A stream the caller released is dropped from the table once both directions are closed
and drained. `Multiplexer.view` hides the difference between a stream that is in the
table, one that was retired and one that nobody has opened yet; the operations are
described by what they do to it.

## Main results

* `Multiplexer.view_setStream_settle`: retiring a stream is invisible in its view.
* `Multiplexer.openUpTo_spec`: what a run of implicit openings can do.
* `Multiplexer.onFrame_cases`: everything a frame can do to a multiplexer.
-/

namespace Tradr

/-! ### Refusals and faults -/

/-- The largest machine word, the ceiling of the saturating operations. -/
def usizeMax : ℕ := 2 ^ 64 - 1

/-- Frames in one receive window. -/
def receiveWindowFrames : ℕ := 128

/-- The bound on streams the peer opened and nobody accepted. -/
def maxPendingStreams : ℕ := 64

/-- Floor below which `maxMuxPayload` is zero. -/
def minRecordLimit : UInt32 := 6

/-- A violation that closes the entire channel. -/
inductive MuxRefusal
  | peerAllocatedInOurSpace (stream : StreamId)
  | wroteToOurUnidirectionalStream (stream : StreamId)
  | frameAfterFin (stream : StreamId)
  | receiveWindowExceeded (stream : StreamId)
  | tooManyPendingStreams
  deriving DecidableEq, Repr

/-- What a local call may fail with. -/
inductive MuxFault
  | refused (refusal : MuxRefusal)
  | noSuchStream (stream : StreamId)
  | notReadable (stream : StreamId)
  | notWritable (stream : StreamId)
  | alreadyFinished (stream : StreamId)
  | streamIdsExhausted
  | recordLimitTooSmall (limit : UInt32)
  | encode (err : MuxError)
  deriving DecidableEq, Repr

/-- The outcome of a read: the drained bytes, the end of the stream, or nothing yet. -/
inductive ReadOutcome
  | read (bytes : List UInt8)
  | finished
  | pending
  deriving DecidableEq, Repr

/-! ### State -/

/-- One stream: the bytes received and not read, and which halves are closed. -/
structure StreamState where
  recvBuf : List UInt8
  localFinished : Bool
  peerFinished : Bool
  released : Bool
  deriving DecidableEq, Repr

/-- A stream nothing has happened on. -/
def StreamState.new : StreamState :=
  ⟨[], false, false, false⟩

/-- What a retired stream looks like from outside: closed both ways and drained. -/
def StreamState.retired : StreamState :=
  ⟨[], true, true, true⟩

/-- The multiplexing state of one side of a channel. -/
structure Multiplexer where
  opener : StreamOpener
  allocator : StreamAllocator
  recordLimit : UInt32
  receiveWindow : ℕ
  streams : StreamId → Option StreamState
  pendingBidi : List StreamId
  pendingUni : List StreamId
  refusal : Option MuxRefusal
  highWaterMarks : Fin 4 → Option StreamId

namespace Multiplexer

/-- A multiplexer for one side; `frameSize` sizes the receive windows and `recordLimit`
bounds the records on the wire. -/
def new (opener : StreamOpener) (frameSize recordLimit : UInt32) :
    Except MuxFault Multiplexer :=
  if recordLimit < minRecordLimit then .error (.recordLimitTooSmall recordLimit)
  else
    .ok {
      opener := opener
      allocator := StreamAllocator.new opener
      recordLimit := recordLimit
      receiveWindow := min (receiveWindowFrames * frameSize.toNat) usizeMax
      streams := fun _ => none
      pendingBidi := []
      pendingUni := []
      refusal := none
      highWaterMarks := fun _ => none }

/-- The highest identifier seen in the space of a stream. -/
def highWaterMark (m : Multiplexer) (stream : StreamId) : Option StreamId :=
  m.highWaterMarks stream.spaceIndex

/-- Raise the mark of a stream's space to the stream. -/
def updateHighWaterMark (m : Multiplexer) (stream : StreamId) : Multiplexer :=
  let mark := match m.highWaterMarks stream.spaceIndex with
    | some prev => if prev ≤ stream then stream else prev
    | none => stream
  { m with highWaterMarks := Function.update m.highWaterMarks stream.spaceIndex (some mark) }

/-- Write one entry of the stream table; `none` removes it. -/
def setStream (m : Multiplexer) (stream : StreamId) (entry : Option StreamState) :
    Multiplexer :=
  { m with streams := Function.update m.streams stream entry }

/-- Latch a refusal and answer with it. -/
def refuse (m : Multiplexer) (refusal : MuxRefusal) :
    Except MuxRefusal Unit × Multiplexer :=
  (.error refusal, { m with refusal := some refusal })

/-- A unidirectional stream this side opened: it can only be written. -/
def ownUnidirectional (m : Multiplexer) (stream : StreamId) : Bool :=
  stream.openedBy = m.opener && !stream.isBidirectional

/-- A unidirectional stream the peer opened: it can only be read. -/
def peerUnidirectional (m : Multiplexer) (stream : StreamId) : Bool :=
  stream.openedBy ≠ m.opener && !stream.isBidirectional

/-- Whether a stream's entry may be dropped: released, closed both ways and drained. -/
def retirable (m : Multiplexer) (stream : StreamId) (state : StreamState) : Bool :=
  let sendClosed := state.localFinished || m.peerUnidirectional stream
  let recvClosed := state.peerFinished || m.ownUnidirectional stream
  let recvDrained := state.recvBuf.isEmpty
  state.released && sendClosed && recvClosed && recvDrained

/-- Drop a stream's entry when nothing can happen on it any more. -/
def tryRetire (m : Multiplexer) (stream : StreamId) : Multiplexer :=
  match m.streams stream with
  | some state => if m.retirable stream state then m.setStream stream none else m
  | none => m

/-! ### Local calls -/

/-- The caller's handles on a stream were dropped. -/
def retire (m : Multiplexer) (stream : StreamId) : Multiplexer :=
  if m.refusal.isSome then m
  else
    match m.streams stream with
    | some state =>
      (m.setStream stream (some { state with released := true })).tryRetire stream
    | none => m.tryRetire stream

/-- Open the stream an allocator hands out next. -/
def openWith (m : Multiplexer)
    (next : StreamAllocator → Except MuxError (StreamId × StreamAllocator)) :
    Except MuxFault StreamId × Multiplexer :=
  match m.refusal with
  | some refusal => (.error (.refused refusal), m)
  | none =>
    match next m.allocator with
    | .error _ => (.error .streamIdsExhausted, m)
    | .ok (streamId, allocator) =>
      (.ok streamId,
        (({ m with allocator := allocator }).updateHighWaterMark streamId).setStream streamId
          (some StreamState.new))

/-- Open a bidirectional stream; nothing is emitted. -/
def openBidirectional (m : Multiplexer) : Except MuxFault StreamId × Multiplexer :=
  m.openWith StreamAllocator.nextBidirectional

/-- Open a unidirectional stream; nothing is emitted. -/
def openUnidirectional (m : Multiplexer) : Except MuxFault StreamId × Multiplexer :=
  m.openWith StreamAllocator.nextUnidirectional

/-- The frames that carry `bytes` on a stream, in order. -/
def write (m : Multiplexer) (stream : StreamId) (bytes : List UInt8) :
    Except MuxFault (List (List UInt8)) :=
  match m.refusal with
  | some refusal => .error (.refused refusal)
  | none =>
    match m.streams stream with
    | none => .error (.noSuchStream stream)
    | some state =>
      if m.peerUnidirectional stream then .error (.notWritable stream)
      else if state.localFinished then .error (.alreadyFinished stream)
      else if bytes = [] then .ok []
      else
        (Chunks.chunks (maxMuxPayload m.recordLimit) bytes).mapM fun chunk =>
          (encodeMuxFrame .data stream chunk m.recordLimit).mapError MuxFault.encode

/-- The terminal frame of this side's half of a stream. -/
def finish (m : Multiplexer) (stream : StreamId) :
    Except MuxFault (List UInt8) × Multiplexer :=
  match m.refusal with
  | some refusal => (.error (.refused refusal), m)
  | none =>
    match m.streams stream with
    | none => (.error (.noSuchStream stream), m)
    | some state =>
      if m.peerUnidirectional stream then (.error (.notWritable stream), m)
      else if state.localFinished then (.error (.alreadyFinished stream), m)
      else
        let closed := m.setStream stream (some { state with localFinished := true })
        match encodeMuxFrame .fin stream [] m.recordLimit with
        | .error err => (.error (.encode err), closed)
        | .ok frame => (.ok frame, closed.tryRetire stream)

/-- Drain up to `len` buffered bytes of a stream. -/
def read (m : Multiplexer) (stream : StreamId) (len : ℕ) :
    Except MuxFault ReadOutcome × Multiplexer :=
  match m.refusal with
  | some refusal => (.error (.refused refusal), m)
  | none =>
    match m.streams stream with
    | none => (.error (.noSuchStream stream), m)
    | some state =>
      if m.ownUnidirectional stream then (.error (.notReadable stream), m)
      else if state.recvBuf ≠ [] then
        let drained := m.setStream stream (some { state with recvBuf := state.recvBuf.drop len })
        (.ok (.read (state.recvBuf.take len)),
          if state.recvBuf.drop len = [] then drained.tryRetire stream else drained)
      else if state.peerFinished then (.ok .finished, m)
      else (.ok .pending, m)

/-- The next bidirectional stream the peer opened. -/
def acceptBidirectional (m : Multiplexer) : Option StreamId × Multiplexer :=
  if m.refusal.isSome then (none, m)
  else (m.pendingBidi.head?, { m with pendingBidi := m.pendingBidi.tail })

/-- The next unidirectional stream the peer opened. -/
def acceptUnidirectional (m : Multiplexer) : Option StreamId × Multiplexer :=
  if m.refusal.isSome then (none, m)
  else (m.pendingUni.head?, { m with pendingUni := m.pendingUni.tail })

/-! ### Frames of the peer -/

/-- How many streams await an accept. -/
def pendingCount (m : Multiplexer) : ℕ :=
  min (m.pendingBidi.length + m.pendingUni.length) usizeMax

/-- Queue a stream for its accept and raise the mark. -/
def queuePending (m : Multiplexer) (id : StreamId) : Multiplexer :=
  let queued :=
    if id.isBidirectional then { m with pendingBidi := m.pendingBidi ++ [id] }
    else { m with pendingUni := m.pendingUni ++ [id] }
  queued.updateHighWaterMark id

/-- Open, from `curr` on, the identifiers of the space below `target`. -/
def openUpTo (m : Multiplexer) (curr : Option StreamId) (target : StreamId) :
    Except MuxRefusal Unit × Multiplexer :=
  match curr with
  | none => (.ok (), m)
  | some id =>
    if target ≤ id then (.ok (), m)
    else if m.pendingCount ≥ maxPendingStreams then m.refuse .tooManyPendingStreams
    else
      ((m.queuePending id).setStream id (some StreamState.new)).openUpTo id.nextInSpace target
termination_by curr.elim 0 fun id => UInt32.size - id.value.toNat
decreasing_by
  have hid := id.value.toNat_lt
  cases hn : id.nextInSpace with
  | none =>
      simp only [Option.elim, UInt32.size]
      omega
  | some next =>
      have := (StreamId.nextInSpace_eq_some hn).1
      have := next.value.toNat_lt
      simp only [Option.elim, UInt32.size]
      omega

/-- Judge an identifier that is not in the table, and open it with every identifier
below it. -/
def admitStream (m : Multiplexer) (streamId : StreamId) : Except MuxRefusal Unit × Multiplexer :=
  if (m.highWaterMark streamId).any (streamId ≤ ·) then m.refuse (.frameAfterFin streamId)
  else if streamId.openedBy = m.opener then m.refuse (.peerAllocatedInOurSpace streamId)
  else
    let curr := match m.highWaterMark streamId with
      | some prev => prev.nextInSpace
      | none => some streamId.baseStreamId
    match m.openUpTo curr streamId with
    | (.error refusal, m) => (.error refusal, m)
    | (.ok (), m) =>
      if m.pendingCount ≥ maxPendingStreams then m.refuse .tooManyPendingStreams
      else (.ok (), m.queuePending streamId)

/-- Apply an admitted frame to its stream. -/
def deliver (m : Multiplexer) (frame : MuxFrame) : Except MuxRefusal Unit × Multiplexer :=
  let streamId := frame.streamId
  let state := (m.streams streamId).getD StreamState.new
  let m := m.setStream streamId (some state)
  if m.ownUnidirectional streamId then m.refuse (.wroteToOurUnidirectionalStream streamId)
  else if state.peerFinished then m.refuse (.frameAfterFin streamId)
  else
    match frame.kind with
    | .data =>
      let newLen := min (state.recvBuf.length + frame.payload.length) usizeMax
      if newLen > m.receiveWindow then m.refuse (.receiveWindowExceeded streamId)
      else
        (.ok (), m.setStream streamId
          (some { state with recvBuf := state.recvBuf ++ frame.payload }))
    | .fin =>
      (.ok (), (m.setStream streamId (some { state with peerFinished := true })).tryRetire
        streamId)

/-- Take in one frame of the peer: the only place a refusal is decided. -/
def onFrame (m : Multiplexer) (frame : MuxFrame) : Except MuxRefusal Unit × Multiplexer :=
  match m.refusal with
  | some refusal => (.error refusal, m)
  | none =>
    if (m.streams frame.streamId).isSome then m.deliver frame
    else
      match m.admitStream frame.streamId with
      | (.error refusal, m) => (.error refusal, m)
      | (.ok (), m) => m.deliver frame

/-! ### What is known of an identifier -/

/-- Whether an identifier lies at or below the mark of its space: it was opened, here or
by the peer, and may since have been retired. -/
def known (m : Multiplexer) (s : StreamId) : Bool :=
  (m.highWaterMark s).any (s ≤ ·)

@[simp] theorem known_setStream (m : Multiplexer) (s t : StreamId)
    (x : Option StreamState) : (m.setStream s x).known t = m.known t := rfl

/-- The mark decides what is known. -/
theorem known_iff {m : Multiplexer} {s : StreamId} :
    m.known s = true ↔ ∃ h, m.highWaterMark s = some h ∧ s ≤ h := by
  simp only [known]
  cases m.highWaterMark s with
  | none => simp
  | some h => simp

/-- Raising a mark makes known what lies below it, and nothing else. -/
theorem known_updateHighWaterMark (m : Multiplexer) (s t : StreamId) :
    (m.updateHighWaterMark s).known t =
      (m.known t || decide (t.spaceIndex = s.spaceIndex ∧ t ≤ s)) := by
  by_cases hsp : t.spaceIndex = s.spaceIndex
  · simp only [known, highWaterMark, updateHighWaterMark, hsp, Function.update_self]
    cases m.highWaterMarks s.spaceIndex with
    | none => simp
    | some prev =>
        simp only [Option.any_some, true_and, ← Bool.decide_or, decide_eq_decide]
        split
        · rename_i hle
          simp only [StreamId.le_iff] at hle ⊢
          omega
        · rename_i hle
          simp only [StreamId.le_iff] at hle ⊢
          omega
  · simp [known, highWaterMark, updateHighWaterMark, hsp]

/-- What is known is closed downwards in a space. -/
theorem known_of_le {m : Multiplexer} {s t : StreamId} (h : m.known t = true)
    (hsp : s.spaceIndex = t.spaceIndex) (hle : s ≤ t) : m.known s = true := by
  obtain ⟨mark, hmark, hle'⟩ := known_iff.mp h
  refine known_iff.mpr ⟨mark, ?_, ?_⟩
  · simp only [highWaterMark, hsp] at hmark ⊢
    exact hmark
  · rw [StreamId.le_iff] at hle hle' ⊢
    omega

/-! ### The view of a stream -/

/-- The state of a stream, whether it is in the table, was retired or is not open. -/
def view (m : Multiplexer) (s : StreamId) : StreamState :=
  match m.streams s with
  | some state => state
  | none => if m.known s then StreamState.retired else StreamState.new

/-- The table entry that is left of a state after an attempt to retire it. -/
def settle (m : Multiplexer) (s : StreamId) (state : StreamState) : Option StreamState :=
  if m.retirable s state then none else some state

theorem view_of_stream {m : Multiplexer} {s : StreamId} {state : StreamState}
    (h : m.streams s = some state) : m.view s = state := by
  simp only [view, h]

/-- The view of a stream reads its entry and what is known of it. -/
theorem view_congr {m m' : Multiplexer} {s : StreamId} (h : m'.streams s = m.streams s)
    (hk : m'.known s = m.known s) : m'.view s = m.view s := by
  simp only [view, h, hk]

@[simp] theorem streams_setStream_self (m : Multiplexer) (s : StreamId)
    (x : Option StreamState) : (m.setStream s x).streams s = x := by
  simp [setStream]

theorem streams_setStream_ne {m : Multiplexer} {s t : StreamId} (h : t ≠ s)
    (x : Option StreamState) : (m.setStream s x).streams t = m.streams t := by
  simp [setStream, h]

theorem view_setStream_ne {m : Multiplexer} {s t : StreamId} (h : t ≠ s)
    (x : Option StreamState) : (m.setStream s x).view t = m.view t :=
  view_congr (streams_setStream_ne h x) rfl

/-- Writing back the entry that is there changes nothing. -/
theorem setStream_eq_self {m : Multiplexer} {s : StreamId} {x : Option StreamState}
    (h : m.streams s = x) : m.setStream s x = m := by
  subst h
  simp [setStream]

theorem setStream_setStream (m : Multiplexer) (s : StreamId) (x y : Option StreamState) :
    (m.setStream s x).setStream s y = m.setStream s y := by
  simp [setStream]

/-- An update followed by an attempt to retire is one write of the table. -/
theorem tryRetire_setStream (m : Multiplexer) (s : StreamId) (state : StreamState) :
    (m.setStream s (some state)).tryRetire s = m.setStream s (m.settle s state) := by
  have hret : (m.setStream s (some state)).retirable s state = m.retirable s state := rfl
  simp only [tryRetire, streams_setStream_self, hret, settle]
  split
  · rw [setStream_setStream]
  · rfl

/-- What a retirable state looks like. -/
theorem retirable_iff {m : Multiplexer} {s : StreamId} {state : StreamState} :
    m.retirable s state = true ↔
      state.released = true ∧ (state.localFinished = true ∨ m.peerUnidirectional s = true) ∧
        (state.peerFinished = true ∨ m.ownUnidirectional s = true) ∧ state.recvBuf = [] := by
  simp only [retirable, Bool.and_eq_true, Bool.or_eq_true, List.isEmpty_iff]
  tauto

/-- **Retiring is invisible**: the buffer and the closed halves of a known stream read
the same before and after the attempt, for the directions the stream has. -/
theorem view_setStream_settle {m : Multiplexer} {s : StreamId} (state : StreamState)
    (hk : m.known s = true) :
    ((m.setStream s (m.settle s state)).view s).recvBuf = state.recvBuf ∧
      (m.peerUnidirectional s = false →
        ((m.setStream s (m.settle s state)).view s).localFinished = state.localFinished) ∧
      (m.ownUnidirectional s = false →
        ((m.setStream s (m.settle s state)).view s).peerFinished = state.peerFinished) := by
  cases hret : m.retirable s state with
  | false =>
      have hview : (m.setStream s (m.settle s state)).view s = state :=
        view_of_stream (by simp [settle, hret])
      rw [hview]
      exact ⟨rfl, fun _ => rfl, fun _ => rfl⟩
  | true =>
      obtain ⟨-, hsend, hrecv, hbuf⟩ := retirable_iff.mp hret
      have hview : (m.setStream s (m.settle s state)).view s = StreamState.retired := by
        simp [view, settle, hret, hk]
      rw [hview, hbuf]
      refine ⟨rfl, fun hp => ?_, fun ho => ?_⟩
      · rcases hsend with h | h
        · exact h.symm
        · rw [hp] at h
          cases h
      · rcases hrecv with h | h
        · exact h.symm
        · rw [ho] at h
          cases h

/-! ### Implicit openings -/

/-- Every entry of the table is known. -/
def Tracked (m : Multiplexer) : Prop :=
  ∀ t, m.streams t ≠ none → m.known t = true

/-- Each mark lies in its own space. -/
def MarksPlaced (m : Multiplexer) : Prop :=
  ∀ i h, m.highWaterMarks i = some h → h.spaceIndex = i

/-- Raising a mark keeps the marks in their spaces. -/
theorem MarksPlaced.updateHighWaterMark {m : Multiplexer} (h : m.MarksPlaced)
    (s : StreamId) : (m.updateHighWaterMark s).MarksPlaced := by
  intro i mark hmark
  by_cases hi : i = s.spaceIndex
  · subst hi
    simp only [Multiplexer.updateHighWaterMark, Function.update_self,
      Option.some.injEq] at hmark
    subst hmark
    cases hw : m.highWaterMarks s.spaceIndex with
    | none => rfl
    | some prev =>
        simp only
        split
        · rfl
        · exact h _ _ hw
  · simp only [Multiplexer.updateHighWaterMark, Function.update_of_ne hi] at hmark
    exact h i mark hmark

/-- `m'` is `m` with identifiers of the space of `s`, none above `s`, newly opened and
queued. -/
structure Opens (m m' : Multiplexer) (s : StreamId) : Prop where
  opener : m'.opener = m.opener
  allocator : m'.allocator = m.allocator
  recordLimit : m'.recordLimit = m.recordLimit
  receiveWindow : m'.receiveWindow = m.receiveWindow
  refusal : m'.refusal = m.refusal
  marks : m.MarksPlaced → m'.MarksPlaced
  known_mono : ∀ t, m.known t = true → m'.known t = true
  known_new : ∀ t, m.known t = false → m'.known t = true →
    t.spaceIndex = s.spaceIndex ∧ t ≤ s ∧ m'.streams t = some StreamState.new
  streams_old : ∀ t, m.known t = m'.known t → m'.streams t = m.streams t
  pendingBidi : ∃ new, m'.pendingBidi = m.pendingBidi ++ new ∧
    ∀ t ∈ new, m.known t = false ∧ m'.known t = true
  pendingUni : ∃ new, m'.pendingUni = m.pendingUni ++ new ∧
    ∀ t ∈ new, m.known t = false ∧ m'.known t = true
  pending_le : m.pendingBidi.length + m.pendingUni.length ≤ maxPendingStreams →
    m'.pendingBidi.length + m'.pendingUni.length ≤ maxPendingStreams

/-- Opening nothing. -/
theorem Opens.refl (m : Multiplexer) (s : StreamId) : m.Opens m s where
  opener := rfl
  allocator := rfl
  recordLimit := rfl
  receiveWindow := rfl
  refusal := rfl
  marks h := h
  known_mono _ h := h
  known_new t h h' := by
    rw [h] at h'
    cases h'
  streams_old _ _ := rfl
  pendingBidi := ⟨[], by simp, by simp⟩
  pendingUni := ⟨[], by simp, by simp⟩
  pending_le h := h

/-- Two appended queues are one, with the newer part unknown to the older state. -/
theorem Opens.queue_trans {m m' m'' : Multiplexer} {q q' q'' : List StreamId}
    (hmono : ∀ t, m.known t = true → m'.known t = true)
    (hmono' : ∀ t, m'.known t = true → m''.known t = true)
    (h : ∃ new, q' = q ++ new ∧ ∀ t ∈ new, m.known t = false ∧ m'.known t = true)
    (h' : ∃ new, q'' = q' ++ new ∧ ∀ t ∈ new, m'.known t = false ∧ m''.known t = true) :
    ∃ new, q'' = q ++ new ∧ ∀ t ∈ new, m.known t = false ∧ m''.known t = true := by
  obtain ⟨new, rfl, hnew⟩ := h
  obtain ⟨new', rfl, hnew'⟩ := h'
  refine ⟨new ++ new', by rw [List.append_assoc], fun t ht => ?_⟩
  rcases List.mem_append.mp ht with ht | ht
  · exact ⟨(hnew t ht).1, hmono' t (hnew t ht).2⟩
  · refine ⟨?_, (hnew' t ht).2⟩
    cases hk : m.known t with
    | false => rfl
    | true =>
        have := hmono t hk
        rw [(hnew' t ht).1] at this
        cases this

/-- Openings compose. -/
theorem Opens.trans {m m' m'' : Multiplexer} {s : StreamId} (h : m.Opens m' s)
    (h' : m'.Opens m'' s) : m.Opens m'' s where
  opener := h'.opener.trans h.opener
  allocator := h'.allocator.trans h.allocator
  recordLimit := h'.recordLimit.trans h.recordLimit
  receiveWindow := h'.receiveWindow.trans h.receiveWindow
  refusal := h'.refusal.trans h.refusal
  marks hm := h'.marks (h.marks hm)
  known_mono t hk := h'.known_mono t (h.known_mono t hk)
  known_new t hk hk'' := by
    cases hk' : m'.known t with
    | false => exact h'.known_new t hk' hk''
    | true =>
        obtain ⟨hsp, hle, hst⟩ := h.known_new t hk hk'
        exact ⟨hsp, hle, (h'.streams_old t (hk'.trans hk''.symm)).trans hst⟩
  streams_old t hk := by
    have hk' : m.known t = m'.known t := by
      cases hm : m.known t with
      | true => exact (h.known_mono t hm).symm
      | false =>
          cases hm' : m'.known t with
          | false => rfl
          | true =>
              have hm'' := h'.known_mono t hm'
              rw [← hk, hm] at hm''
              cases hm''
    rw [h'.streams_old t (hk'.symm.trans hk), h.streams_old t hk']
  pendingBidi := Opens.queue_trans h.known_mono h'.known_mono h.pendingBidi h'.pendingBidi
  pendingUni := Opens.queue_trans h.known_mono h'.known_mono h.pendingUni h'.pendingUni
  pending_le hle := h'.pending_le (h.pending_le hle)

/-- What openings change in knowledge they make known. -/
theorem Opens.of_known_ne {m m' : Multiplexer} {s t : StreamId} (h : m.Opens m' s)
    (hk : m.known t ≠ m'.known t) : m.known t = false ∧ m'.known t = true := by
  cases hm : m.known t with
  | true => exact absurd (hm.trans (h.known_mono t hm).symm) hk
  | false =>
      cases hm' : m'.known t with
      | false => exact absurd (hm.trans hm'.symm) hk
      | true => exact ⟨rfl, rfl⟩

/-- Openings keep the table known. -/
theorem Opens.tracked {m m' : Multiplexer} {s : StreamId} (h : m.Opens m' s)
    (ht : m.Tracked) : m'.Tracked := by
  intro t hst
  by_cases hk : m.known t = m'.known t
  · rw [h.streams_old t hk] at hst
    rw [← hk]
    exact ht t hst
  · exact (h.of_known_ne hk).2

/-- **Opening a stream is invisible** in every view. -/
theorem Opens.view_eq {m m' : Multiplexer} {s : StreamId} (h : m.Opens m' s)
    (ht : m.Tracked) (t : StreamId) : m'.view t = m.view t := by
  by_cases hk : m.known t = m'.known t
  · exact view_congr (h.streams_old t hk) hk.symm
  · obtain ⟨hm, hm'⟩ := h.of_known_ne hk
    have hnone : m.streams t = none := by
      by_contra hst
      rw [ht t hst] at hm
      cases hm
    rw [view_of_stream (h.known_new t hm hm').2.2]
    simp [view, hnone, hm]

/-- The identifiers of a space below `c`, and no other of it, are known. -/
def Frontier (m : Multiplexer) (s : StreamId) : Option StreamId → Prop
  | some c => c.spaceIndex = s.spaceIndex ∧
      ∀ t, t.spaceIndex = s.spaceIndex → (m.known t = true ↔ t < c)
  | none => ∀ t, t.spaceIndex = s.spaceIndex → m.known t = true

/-- What queueing makes known. -/
theorem known_queuePending (m : Multiplexer) (id t : StreamId) :
    (m.queuePending id).known t =
      (m.known t || decide (t.spaceIndex = id.spaceIndex ∧ t ≤ id)) := by
  simp only [queuePending, known_updateHighWaterMark]
  split <;> rfl

/-- At the frontier, raising the mark makes exactly one identifier known. -/
theorem Frontier.known_raise {m m' : Multiplexer} {s id : StreamId}
    (h : m.Frontier s (some id))
    (hm' : ∀ t, m'.known t = (m.known t || decide (t.spaceIndex = id.spaceIndex ∧ t ≤ id)))
    (t : StreamId) : m'.known t = true ↔ m.known t = true ∨ t = id := by
  rw [hm', Bool.or_eq_true, decide_eq_true_iff]
  constructor
  · rintro (hk | ⟨hsp, hle⟩)
    · exact Or.inl hk
    · rcases Nat.lt_or_ge t.value.toNat id.value.toNat with hlt | hge
      · exact Or.inl ((h.2 t (hsp.trans h.1)).mpr (StreamId.lt_iff.mpr hlt))
      · have := StreamId.le_iff.mp hle
        exact Or.inr (StreamId.ext_toNat (by omega))
  · rintro (hk | rfl)
    · exact Or.inl hk
    · exact Or.inr ⟨rfl, StreamId.le_iff.mpr (Nat.le_refl _)⟩

/-- The identifier at the frontier is not known. -/
theorem Frontier.not_known {m : Multiplexer} {s id : StreamId}
    (h : m.Frontier s (some id)) : m.known id = false := by
  by_contra hk
  have := StreamId.lt_iff.mp ((h.2 id h.1).mp (by simpa using hk))
  omega

/-- One implicit opening at the frontier. -/
theorem Frontier.opens {m : Multiplexer} {s id : StreamId} (h : m.Frontier s (some id))
    (hle : id ≤ s) (hpend : m.pendingCount < maxPendingStreams) :
    m.Opens ((m.queuePending id).setStream id (some StreamState.new)) s := by
  have hid : m.known id = false := h.not_known
  have hraise := h.known_raise (m.known_queuePending id)
  have hkid : (m.queuePending id).known id = true := (hraise id).mpr (Or.inr rfl)
  have hcount : m.pendingBidi.length + m.pendingUni.length < maxPendingStreams := by
    simp only [pendingCount, maxPendingStreams, usizeMax] at hpend ⊢
    omega
  have hstreams : ∀ t, t ≠ id →
      ((m.queuePending id).setStream id (some StreamState.new)).streams t = m.streams t := by
    intro t ht
    rw [streams_setStream_ne ht]
    simp only [queuePending]
    split <;> rfl
  refine ⟨?_, ?_, ?_, ?_, ?_, ?_, ?_, ?_, ?_, ?_, ?_, ?_⟩
  · simp only [queuePending]
    split <;> rfl
  · simp only [queuePending]
    split <;> rfl
  · simp only [queuePending]
    split <;> rfl
  · simp only [queuePending]
    split <;> rfl
  · simp only [queuePending]
    split <;> rfl
  · intro hm
    simp only [queuePending]
    split <;> exact MarksPlaced.updateHighWaterMark (m := { m with .. }) hm id
  · intro t hk
    exact (hraise t).mpr (Or.inl hk)
  · intro t hk hk'
    rcases (hraise t).mp hk' with hkt | rfl
    · rw [hk] at hkt
      cases hkt
    · exact ⟨h.1, hle, by simp⟩
  · intro t hk
    refine hstreams t ?_
    rintro rfl
    rw [hid] at hk
    rw [known_setStream, hkid] at hk
    cases hk
  · cases hb : id.isBidirectional with
    | true =>
        refine ⟨[id], by simp [queuePending, hb, setStream, updateHighWaterMark], ?_⟩
        intro t ht
        rw [List.mem_singleton.mp ht]
        exact ⟨hid, hkid⟩
    | false =>
        exact ⟨[], by simp [queuePending, hb, setStream, updateHighWaterMark], by simp⟩
  · cases hb : id.isBidirectional with
    | true =>
        exact ⟨[], by simp [queuePending, hb, setStream, updateHighWaterMark], by simp⟩
    | false =>
        refine ⟨[id], by simp [queuePending, hb, setStream, updateHighWaterMark], ?_⟩
        intro t ht
        rw [List.mem_singleton.mp ht]
        exact ⟨hid, hkid⟩
  · intro _
    cases hb : id.isBidirectional with
    | true =>
        simp only [queuePending, hb, setStream, updateHighWaterMark, if_true,
          List.length_append, List.length_singleton]
        omega
    | false =>
        simp only [queuePending, hb, setStream, updateHighWaterMark, List.length_append,
          List.length_singleton, Bool.false_eq_true, if_false]
        omega

/-- The frontier moves on by one. -/
theorem Frontier.next {m m' : Multiplexer} {s id : StreamId} (h : m.Frontier s (some id))
    (hm' : ∀ t, m'.known t = true ↔ m.known t = true ∨ t = id) :
    m'.Frontier s id.nextInSpace := by
  cases hn : id.nextInSpace with
  | none =>
      intro t hsp
      rw [hm']
      have hle := StreamId.le_iff.mp (StreamId.nextInSpace_eq_none hn (hsp.trans h.1.symm))
      rcases Nat.lt_or_ge t.value.toNat id.value.toNat with hlt | hge
      · exact Or.inl ((h.2 t hsp).mpr (StreamId.lt_iff.mpr hlt))
      · exact Or.inr (StreamId.ext_toNat (by omega))
  | some c =>
      obtain ⟨hval, hspc⟩ := StreamId.nextInSpace_eq_some hn
      refine ⟨hspc.trans h.1, fun t hsp => ?_⟩
      have hmod := StreamId.spaceIndex_eq_iff.mp (hsp.trans h.1.symm)
      rw [hm', h.2 t hsp, StreamId.lt_iff, StreamId.lt_iff]
      constructor
      · rintro (hlt | rfl) <;> omega
      · intro hlt
        rcases Nat.lt_or_ge t.value.toNat id.value.toNat with hlt' | hge
        · exact Or.inl hlt'
        · exact Or.inr (StreamId.ext_toNat (by omega))

/-- A frontier reads only what is known in its space. -/
theorem Frontier.congr {m m' : Multiplexer} {s : StreamId} {c : Option StreamId}
    (h : m.Frontier s c) (hm' : ∀ t, t.spaceIndex = s.spaceIndex → m'.known t = m.known t) :
    m'.Frontier s c := by
  cases c with
  | none => exact fun t hsp => (hm' t hsp).trans (h t hsp)
  | some c => exact ⟨h.1, fun t hsp => by rw [hm' t hsp, h.2 t hsp]⟩

/-- **A run of implicit openings** opens identifiers of the space below the target: all
of them, or as many as the pending bound admits before it refuses. -/
theorem openUpTo_spec (m : Multiplexer) (curr : Option StreamId) (s : StreamId)
    (hfr : m.Frontier s curr) (hs : m.known s = false) :
    ∃ m', m.Opens m' s ∧ m'.known s = false ∧
      ((m.openUpTo curr s = (.ok (), m') ∧ m'.Frontier s (some s)) ∨
        m.openUpTo curr s = m'.refuse .tooManyPendingStreams) := by
  fun_induction openUpTo m curr s with
  | case1 m =>
      rw [hfr s rfl] at hs
      cases hs
  | case2 m id hle =>
      have hnlt : ¬ s < id := fun hlt => by
        rw [(hfr.2 s rfl).mpr hlt] at hs
        cases hs
      rw [StreamId.lt_iff] at hnlt
      have hge := StreamId.le_iff.mp hle
      obtain rfl : id = s := StreamId.ext_toNat (by omega)
      exact ⟨m, Opens.refl m id, hs, Or.inl ⟨rfl, hfr⟩⟩
  | case3 m id hlt hpend => exact ⟨m, Opens.refl m s, hs, Or.inr rfl⟩
  | case4 m id hlt hpend ih =>
      rw [StreamId.le_iff] at hlt
      have hne : s ≠ id := by
        rintro rfl
        omega
      have hs' : ((m.queuePending id).setStream id (some StreamState.new)).known s = false := by
        by_contra hk
        rcases (hfr.known_raise (m.known_queuePending id) s).mp (by simpa using hk) with hk | rfl
        · rw [hs] at hk
          cases hk
        · exact hne rfl
      have hopen := hfr.opens (StreamId.le_iff.mpr (by omega)) (by omega)
      obtain ⟨m', hm', hks, hres⟩ := ih (hfr.next (hfr.known_raise (m.known_queuePending id))) hs'
      exact ⟨m', hopen.trans hm', hks, hres⟩

/-- Nothing of a space without a mark is known. -/
theorem frontier_unmarked {m : Multiplexer} {s : StreamId} (h : m.highWaterMark s = none) :
    m.Frontier s (some s.baseStreamId) := by
  refine ⟨(StreamId.baseStreamId_le (s := s) rfl).2, fun t hsp => ?_⟩
  have hle := StreamId.le_iff.mp (StreamId.baseStreamId_le hsp).1
  have hknown : m.known t = false := by
    simp only [known, highWaterMark, hsp] at h ⊢
    rw [h]
    rfl
  rw [hknown, StreamId.lt_iff]
  constructor
  · intro h
    cases h
  · intro h
    omega

/-- The loop starts at the frontier of the space. -/
theorem frontier_start {m : Multiplexer} {s : StreamId}
    (hmarks : ∀ h, m.highWaterMark s = some h → h.spaceIndex = s.spaceIndex) :
    m.Frontier s (match m.highWaterMark s with
      | some prev => prev.nextInSpace
      | none => some s.baseStreamId) := by
  have hknown : ∀ t, t.spaceIndex = s.spaceIndex →
      m.known t = (m.highWaterMark s).any (t ≤ ·) := by
    intro t hsp
    simp only [known, highWaterMark, hsp]
  cases hw : m.highWaterMark s with
  | none => exact frontier_unmarked hw
  | some prev =>
      have hprev := hmarks prev hw
      change m.Frontier s prev.nextInSpace
      cases hn : prev.nextInSpace with
      | none =>
          intro t hsp
          rw [hknown t hsp, hw]
          simpa using StreamId.nextInSpace_eq_none hn (hsp.trans hprev.symm)
      | some c =>
          obtain ⟨hval, hspc⟩ := StreamId.nextInSpace_eq_some hn
          refine ⟨hspc.trans hprev, fun t hsp => ?_⟩
          have hmod := StreamId.spaceIndex_eq_iff.mp (hsp.trans hprev.symm)
          simp only [hknown t hsp, hw, Option.any_some, decide_eq_true_iff, StreamId.le_iff,
            StreamId.lt_iff]
          omega

/-! ### Everything a frame can do -/

/-- The effect of an admitted frame on a stream in state `state`. -/
def applyFrame (m : Multiplexer) (frame : MuxFrame) (state : StreamState) :
    Except MuxRefusal Unit × Multiplexer :=
  if m.ownUnidirectional frame.streamId then
    m.refuse (.wroteToOurUnidirectionalStream frame.streamId)
  else if state.peerFinished then m.refuse (.frameAfterFin frame.streamId)
  else
    match frame.kind with
    | .data =>
      if min (state.recvBuf.length + frame.payload.length) usizeMax > m.receiveWindow then
        m.refuse (.receiveWindowExceeded frame.streamId)
      else
        (.ok (), m.setStream frame.streamId
          (some { state with recvBuf := state.recvBuf ++ frame.payload }))
    | .fin =>
      (.ok (), m.setStream frame.streamId
        (m.settle frame.streamId { state with peerFinished := true }))

/-- A frame that is applied and not refused writes its own stream's entry. -/
theorem applyFrame_eq_setStream (m : Multiplexer) {frame : MuxFrame} {state : StreamState}
    (h : (m.applyFrame frame state).2.refusal = none) :
    ∃ x, (m.applyFrame frame state).2 = m.setStream frame.streamId x := by
  simp only [applyFrame] at h ⊢
  split at h
  · cases h
  split at h
  · cases h
  rename_i hown hfin
  rw [if_neg hown, if_neg hfin]
  split at h
  · split at h
    · cases h
    · rename_i hlen
      rw [if_neg hlen]
      exact ⟨_, rfl⟩
  · exact ⟨_, rfl⟩

/-- Delivery to a stream in the table. -/
theorem deliver_eq {m : Multiplexer} {frame : MuxFrame} {state : StreamState}
    (h : m.streams frame.streamId = some state) :
    m.deliver frame = m.applyFrame frame state := by
  have hself : m.setStream frame.streamId (some state) = m := setStream_eq_self h
  simp only [deliver, applyFrame, h, Option.getD_some, hself, tryRetire_setStream]

/-- Delivery opens the table entry of a stream that was only queued. -/
theorem deliver_of_none {m : Multiplexer} {frame : MuxFrame}
    (h : m.streams frame.streamId = none) :
    m.deliver frame =
      (m.setStream frame.streamId (some StreamState.new)).applyFrame frame
        StreamState.new := by
  rw [← deliver_eq (by simp)]
  simp only [deliver, h, Option.getD_none, streams_setStream_self, Option.getD_some,
    setStream_setStream]

/-- **Everything a frame can do** while no refusal is latched: it is refused as a frame
on a retired stream or on an identifier of this side nobody allocated, the pending bound
refuses it, or it is applied to its stream, which is in the table or was just opened. -/
theorem onFrame_cases {m : Multiplexer} (hr : m.refusal = none)
    (hm : m.MarksPlaced) (frame : MuxFrame) :
    (m.streams frame.streamId = none ∧ m.known frame.streamId = true ∧
      m.onFrame frame = m.refuse (.frameAfterFin frame.streamId)) ∨
    (m.known frame.streamId = false ∧ frame.streamId.openedBy = m.opener ∧
      m.onFrame frame = m.refuse (.peerAllocatedInOurSpace frame.streamId)) ∨
    (∃ m', m.Opens m' frame.streamId ∧ frame.streamId.openedBy ≠ m.opener ∧
      m.onFrame frame = m'.refuse .tooManyPendingStreams) ∨
    (∃ m' state, m.Opens m' frame.streamId ∧ m'.streams frame.streamId = some state ∧
      (m' = m ∨ frame.streamId.openedBy ≠ m.opener) ∧
      m.onFrame frame = m'.applyFrame frame state) := by
  cases hst : m.streams frame.streamId with
  | some state =>
      refine Or.inr (Or.inr (Or.inr ⟨m, state, Opens.refl m _, hst, Or.inl rfl, ?_⟩))
      simp only [onFrame, hr, hst, Option.isSome_some, if_true, deliver_eq hst]
  | none =>
      have hon : m.onFrame frame = match m.admitStream frame.streamId with
          | (.error refusal, m) => (.error refusal, m)
          | (.ok (), m) => m.deliver frame := by
        simp only [onFrame, hr, hst, Option.isSome_none, Bool.false_eq_true, if_false]
      rw [hon]
      cases hk : m.known frame.streamId with
      | true =>
          refine Or.inl ⟨rfl, rfl, ?_⟩
          have hk' : (m.highWaterMark frame.streamId).any (frame.streamId ≤ ·) = true := hk
          simp only [admitStream, hk', if_true, refuse]
      | false =>
          have hk' : (m.highWaterMark frame.streamId).any (frame.streamId ≤ ·) = false := hk
          by_cases hown : frame.streamId.openedBy = m.opener
          · refine Or.inr (Or.inl ⟨rfl, hown, ?_⟩)
            simp only [admitStream, hk', hown, if_true, refuse, Bool.false_eq_true, if_false]
          · refine Or.inr (Or.inr ?_)
            obtain ⟨m', hopen, hk'', hres⟩ :=
              openUpTo_spec m _ frame.streamId (frontier_start (hm _)) hk
            have hnone : m'.streams frame.streamId = none := by
              rw [hopen.streams_old _ (hk.trans hk''.symm), hst]
            rcases hres with ⟨hloop, hfr⟩ | hloop
            · by_cases hfull : m'.pendingCount ≥ maxPendingStreams
              · refine Or.inl ⟨m', hopen, hown, ?_⟩
                simp only [admitStream, hk', hown, if_false, Bool.false_eq_true, hloop, hfull, if_true,
                  refuse]
              · refine Or.inr ⟨_, StreamState.new,
                  hopen.trans (hfr.opens (StreamId.le_iff.mpr (Nat.le_refl _)) (by omega)),
                  by simp, Or.inr hown, ?_⟩
                have hnone' : (m'.queuePending frame.streamId).streams frame.streamId = none := by
                  simp only [queuePending]
                  split <;> exact hnone
                simp only [admitStream, hk', hown, if_false, Bool.false_eq_true, hloop, hfull]
                exact deliver_of_none hnone'
            · refine Or.inl ⟨m', hopen, hown, ?_⟩
              simp only [admitStream, hk', hown, if_false, Bool.false_eq_true, hloop, refuse]

/-! ### Everything a call can do -/

/-- Opening: the allocator is exhausted, or its next identifier enters the table. -/
theorem openWith_cases {m : Multiplexer} (hr : m.refusal = none)
    (next : StreamAllocator → Except MuxError (StreamId × StreamAllocator)) :
    m.openWith next = (.error .streamIdsExhausted, m) ∨
      ∃ s allocator, next m.allocator = .ok (s, allocator) ∧
        m.openWith next = (.ok s,
          (({ m with allocator := allocator }).updateHighWaterMark s).setStream s
            (some StreamState.new)) := by
  simp only [openWith, hr]
  cases hn : next m.allocator with
  | error e => exact Or.inl rfl
  | ok p => exact Or.inr ⟨p.1, p.2, rfl, rfl⟩

/-- Chunks that fit a record are all encoded, and read back in order. -/
theorem mapM_encodeMuxFrame (limit : UInt32) (s : StreamId) (chunks : List (List UInt8))
    (h : ∀ c ∈ chunks, c.length + 5 ≤ limit.toNat) :
    ∃ frames, (chunks.mapM fun c =>
        (encodeMuxFrame .data s c limit).mapError MuxFault.encode) = .ok frames ∧
      frames.map (decodeMuxFrame limit) = chunks.map fun c => some ⟨.data, s, c⟩ := by
  induction chunks with
  | nil => exact ⟨[], rfl, rfl⟩
  | cons c chunks ih =>
      have hc := h c (by simp)
      have hk : MuxKind.data = .fin → c = [] := by
        intro hk
        cases hk
      obtain ⟨frame, henc, -⟩ := encodeMuxFrame_eq_ok (s := s) hk hc
      obtain ⟨frames, hframes, hdec⟩ := ih (fun c' hc' => h c' (by simp [hc']))
      refine ⟨frame :: frames, ?_, ?_⟩
      · rw [List.mapM_cons, hframes, henc]
        rfl
      · rw [List.map_cons, List.map_cons, hdec, decodeMuxFrame_encodeMuxFrame hk hc henc]

/-- Writing: an error, or the encoded chunks of an open half. -/
theorem write_cases {m : Multiplexer} (hr : m.refusal = none)
    (hlim : minRecordLimit ≤ m.recordLimit) (s : StreamId) (bytes : List UInt8) :
    (∃ e, m.write s bytes = .error e) ∨
      ∃ state frames, m.streams s = some state ∧ m.peerUnidirectional s = false ∧
        state.localFinished = false ∧ m.write s bytes = .ok frames ∧
        ∃ chunks : List (List UInt8), chunks.flatten = bytes ∧
          frames.map (decodeMuxFrame m.recordLimit) = chunks.map fun c => some ⟨.data, s, c⟩ := by
  have hsix : 6 ≤ m.recordLimit.toNat := UInt32.le_iff_toNat_le.mp hlim
  simp only [write, hr]
  cases hst : m.streams s with
  | none => exact Or.inl ⟨_, rfl⟩
  | some state =>
      cases hp : m.peerUnidirectional s with
      | true => exact Or.inl ⟨_, rfl⟩
      | false =>
          cases hf : state.localFinished with
          | true => exact Or.inl ⟨.alreadyFinished s, by simp [hf]⟩
          | false =>
              refine Or.inr ⟨state, ?_⟩
              by_cases hb : bytes = []
              · exact ⟨[], rfl, rfl, hf, by simp [hb, hf], [], by simp [hb], rfl⟩
              · have hpos : 0 < maxMuxPayload m.recordLimit := by
                  simp only [maxMuxPayload, muxStreamIdLen]
                  omega
                obtain ⟨frames, hframes, hdec⟩ := mapM_encodeMuxFrame m.recordLimit s
                  (Chunks.chunks (maxMuxPayload m.recordLimit) bytes) (fun c hc => by
                    have := Chunks.length_le_of_mem_chunks hpos hc
                    simp only [maxMuxPayload, muxStreamIdLen] at this
                    omega)
                exact ⟨frames, rfl, rfl, hf, by simp [hb, hf, hframes], _,
                  Chunks.flatten_chunks hpos bytes, hdec⟩

/-- Finishing: an error that changes nothing, or the terminal frame of an open half. -/
theorem finish_cases {m : Multiplexer} (hr : m.refusal = none)
    (hlim : minRecordLimit ≤ m.recordLimit) (s : StreamId) :
    (∃ e, m.finish s = (.error e, m)) ∨
      ∃ state frame, m.streams s = some state ∧ m.peerUnidirectional s = false ∧
        state.localFinished = false ∧
        decodeMuxFrame m.recordLimit frame = some ⟨.fin, s, []⟩ ∧
        m.finish s =
          (.ok frame, m.setStream s (m.settle s { state with localFinished := true })) := by
  have hsix : 6 ≤ m.recordLimit.toNat := UInt32.le_iff_toNat_le.mp hlim
  simp only [finish, hr]
  cases hst : m.streams s with
  | none => exact Or.inl ⟨_, rfl⟩
  | some state =>
      cases hp : m.peerUnidirectional s with
      | true => exact Or.inl ⟨_, rfl⟩
      | false =>
          cases hf : state.localFinished with
          | true => exact Or.inl ⟨.alreadyFinished s, by simp [hf]⟩
          | false =>
              have hlen : ([] : List UInt8).length + 5 ≤ m.recordLimit.toNat := by
                simp only [List.length_nil]
                omega
              obtain ⟨frame, henc, -⟩ :=
                encodeMuxFrame_eq_ok (s := s) (fun _ : MuxKind.fin = .fin => rfl) hlen
              refine Or.inr ⟨state, frame, rfl, rfl, hf,
                decodeMuxFrame_encodeMuxFrame (fun _ => rfl) hlen henc, ?_⟩
              simp only [henc, tryRetire_setStream]
              simp [hf]

/-- Retiring: nothing, or the release of a stream in the table. -/
theorem retire_cases (m : Multiplexer) (s : StreamId) :
    m.retire s = m ∨
      ∃ state, m.refusal = none ∧ m.streams s = some state ∧
        m.retire s = m.setStream s (m.settle s { state with released := true }) := by
  simp only [retire]
  cases hr : m.refusal with
  | some r => exact Or.inl rfl
  | none =>
      cases hst : m.streams s with
      | none =>
          refine Or.inl ?_
          simp [tryRetire, hst]
      | some state => exact Or.inr ⟨state, rfl, rfl, by simp [tryRetire_setStream]⟩

/-- What a read answers depends on the stream's entry alone. -/
theorem read_congr {m m' : Multiplexer} (hr : m'.refusal = m.refusal)
    (ho : m'.opener = m.opener) {s : StreamId} (hs : m'.streams s = m.streams s) {len : ℕ} :
    (m'.read s len).1 = (m.read s len).1 := by
  have hown : m'.ownUnidirectional s = m.ownUnidirectional s := by
    simp only [ownUnidirectional, ho]
  simp only [read, hr, hs, hown]
  split
  · rfl
  split
  · rfl
  split
  · rfl
  split
  · rfl
  split <;> rfl

/-- Reading: an error, the end of the stream, nothing yet, or drained bytes. -/
theorem read_cases {m : Multiplexer} (hr : m.refusal = none) (s : StreamId) (len : ℕ) :
    (∃ e, m.read s len = (.error e, m)) ∨
      ∃ state, m.streams s = some state ∧ m.ownUnidirectional s = false ∧
        ((state.recvBuf = [] ∧ state.peerFinished = true ∧
            m.read s len = (.ok .finished, m)) ∨
          (state.recvBuf = [] ∧ state.peerFinished = false ∧
            m.read s len = (.ok .pending, m)) ∨
          (state.recvBuf ≠ [] ∧
            m.read s len = (.ok (.read (state.recvBuf.take len)),
              m.setStream s
                (m.settle s { state with recvBuf := state.recvBuf.drop len })))) := by
  simp only [read, hr]
  cases hst : m.streams s with
  | none => exact Or.inl ⟨_, rfl⟩
  | some state =>
      cases ho : m.ownUnidirectional s with
      | true => exact Or.inl ⟨_, rfl⟩
      | false =>
          refine Or.inr ⟨state, rfl, rfl, ?_⟩
          by_cases hb : state.recvBuf = []
          · cases hf : state.peerFinished with
            | true => exact Or.inl ⟨hb, rfl, by simp [hb, hf]⟩
            | false => exact Or.inr (Or.inl ⟨hb, rfl, by simp [hb, hf]⟩)
          · refine Or.inr (Or.inr ⟨hb, ?_⟩)
            by_cases hd : state.recvBuf.drop len = []
            · simp [hb, hd, tryRetire_setStream]
            · have hret : m.retirable s
                  { state with recvBuf := state.recvBuf.drop len } = false := by
                by_contra hret
                exact hd (retirable_iff.mp (by simpa using hret)).2.2.2
              simp [hb, hd, settle, hret]

end Multiplexer

end Tradr
