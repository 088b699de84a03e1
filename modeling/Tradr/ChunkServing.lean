import Tradr.Checked
import Tradr.ReadRanges
import Tradr.SkippingReaders

/-!
# Serving Chunk Requests

The requests of a receiving side name chunks by 64-bit indices and, for a run of them, a 32-bit
count. The sending side adds the two before anything is compared with the item: a run that leaves the
indices overflows. Apart from this it answers each request chunk by chunk, and passes over indices
past the end.

## Main definitions

* `Sender.stepChecked`: one effect of a session in checked arithmetic.
* `SendsItem`: the file, the hash tree and the frames work for the item.
* `ChunkAsk`: a request frame with the chunks it asks for, and `ChunkAsk.Fits`: its run does not
  leave the indices.
* `AnswersChunk`: the bytes that answer a request for a chunk.
* `ServesAll`: all requests of a session are answered, and its request loop ends.

## Main results

* `Sender.Reaches.serve_chunk`, `Sender.Reaches.serve_ask`: how a chunk, and a request, is answered.
* `servesAll_iff`: a session serves all requests if and only if their runs do not leave the indices.
-/

open Fallible

namespace Tradr

variable {σ H O : Type}

namespace Sender

variable (env : SendEnv σ H O) (req : SendRequest O)

/-- What a frame asks for, in checked arithmetic. -/
def stepFrameChecked (w : Sender σ H) (reader : H) (ignorable : ℕ) (frame : Frame) :
    Option (Sender σ H) :=
  match classify frame.typeCode .data with
  | .known .chunkRequest =>
    match decodeChunkRequestFrame env.codec frame with
    | .error e => some (w.fail (.session (.proto e)))
    | .ok r => do
      let past ← Checked.add UInt64.size r.fromChunk r.count
      some { w with phase := .sending reader (List.range' r.fromChunk (past - r.fromChunk)) }
  | _ => some (stepFrame env w reader ignorable frame)

/-- The head of the request loop, in checked arithmetic. -/
def stepAwaitingChecked (w : Sender σ H) (reader : H) (ignorable : ℕ) : Option (Sender σ H) :=
  match w.dataRecv.readFrame req.maxFrameSize with
  | (.ok frame, dataRecv) => stepFrameChecked env { w with dataRecv } reader ignorable frame
  | (.error _, _) => some (stepAwaiting env req w reader ignorable)

/-- One effect of a session in checked arithmetic: none where a sum overflows. -/
def stepChecked (w : Sender σ H) : Option (Sender σ H) :=
  match w.phase with
  | .awaiting reader ignorable => stepAwaitingChecked env req w reader ignorable
  | .filling _ chunk _ window => do
    let _ ← Checked.add UInt64.size (chunkOffset chunk) window.length
    some (step env req w)
  | .heading _ chunk _ _ => do
    let _ ← Checked.add UInt64.size (chunkOffset chunk) (chunkLen req chunk)
    some (step env req w)
  | _ => some (step env req w)

/-- So many effects of a session. -/
def runChecked : ℕ → Sender σ H → Option (Sender σ H)
  | 0, w => some w
  | n + 1, w => (stepChecked env req w).bind (runChecked n)

/-- A session comes to another state of it. -/
def Reaches (w w' : Sender σ H) : Prop := ∃ n, runChecked env req n w = some w'

variable {env req}

/-- Effects one after the other. -/
theorem runChecked_add (m n : ℕ) (w : Sender σ H) :
    runChecked env req (m + n) w = (runChecked env req m w).bind (runChecked env req n) := by
  induction m generalizing w with
  | zero => rw [Nat.zero_add, runChecked, Option.bind_some]
  | succ m ih =>
    rw [Nat.add_right_comm, runChecked, runChecked, Option.bind_assoc]
    congr 1
    funext w'
    exact ih w'

theorem Reaches.refl (w : Sender σ H) : Reaches env req w w := ⟨0, rfl⟩

theorem Reaches.trans {w w' w'' : Sender σ H} (h : Reaches env req w w')
    (h' : Reaches env req w' w'') : Reaches env req w w'' := by
  obtain ⟨m, hm⟩ := h
  obtain ⟨n, hn⟩ := h'
  refine ⟨m + n, ?_⟩
  rw [runChecked_add, hm, Option.bind_some, hn]

theorem Reaches.of_step {w w' : Sender σ H} (h : stepChecked env req w = some w') :
    Reaches env req w w' := by
  refine ⟨1, ?_⟩
  rw [runChecked, h]
  rfl

/-- A step that is not in one of the loops is the step of the session. -/
theorem stepChecked_eq_step {w : Sender σ H} (hawait : ∀ reader k, w.phase ≠ .awaiting reader k)
    (hfill : ∀ reader c cs window, w.phase ≠ .filling reader c cs window)
    (hhead : ∀ reader c cs window, w.phase ≠ .heading reader c cs window) :
    stepChecked env req w = some (step env req w) := by
  unfold stepChecked
  split
  · rename_i h
    exact absurd h (hawait _ _)
  · rename_i h
    exact absurd h (hfill _ _ _ _)
  · rename_i h
    exact absurd h (hhead _ _ _ _)
  · rfl

/-- **In checked arithmetic a session does what it does**, as far as no sum overflows. -/
theorem step_of_stepChecked {w w' : Sender σ H} (h : stepChecked env req w = some w') :
    step env req w = w' := by
  unfold stepChecked at h
  split at h
  · rename_i reader ignorable hphase
    rw [step, hphase]
    dsimp only
    unfold stepAwaitingChecked at h
    split at h
    · rename_i frame dataRecv hread
      rw [stepAwaiting, hread]
      dsimp only
      unfold stepFrameChecked at h
      split at h
      · rename_i hclass
        rw [stepFrame, hclass]
        dsimp only
        rcases hdecode : decodeChunkRequestFrame env.codec frame with e | r
        · rw [hdecode] at h
          exact Option.some.inj h
        · rw [hdecode] at h
          obtain ⟨past, hpast, h⟩ := Option.bind_eq_some_iff.mp h
          rw [← Option.some.inj h]
          by_cases hlt : r.fromChunk + r.count < UInt64.size
          · rw [Checked.add_of_lt hlt] at hpast
            obtain rfl := Option.some.inj hpast
            dsimp only
            rw [requestedChunks, if_pos hlt, Nat.add_sub_cancel_left]
          · rw [Checked.add_eq_none_iff.mpr (Nat.le_of_not_lt hlt)] at hpast
            cases hpast
      · exact Option.some.inj h
    · exact Option.some.inj h
  · obtain ⟨-, -, h⟩ := Option.bind_eq_some_iff.mp h
    exact Option.some.inj h
  · obtain ⟨-, -, h⟩ := Option.bind_eq_some_iff.mp h
    exact Option.some.inj h
  · exact Option.some.inj h

end Sender

/-! ### Requests and answers -/

/-- The bytes of a chunk of a content. -/
def chunkOf (content : List UInt8) (chunk : ℕ) : List UInt8 :=
  (content.drop (chunk * referenceChunkSizeBytes)).take referenceChunkSizeBytes

/-- What sending an item rests on: the file has the size the item was prepared with, the library cuts
a slice of each chunk out of the outboard, and the headers of the item fit their frames. -/
structure SendsItem (env : SendEnv σ H O) (req : SendRequest O) (content : List UInt8) :
    Prop where
  size : req.item.size = content.length
  contentLen : env.bao.contentLen req.item.spool = some content.length
  extract : ∀ c < ItemResumption.chunkCount content.length, ∃ slice,
    env.bao.extract (chunkOf content c) (c * referenceChunkSizeBytes) req.item.spool
      (c * referenceChunkSizeBytes) (chunkOf content c).length = some slice ∧
    slice ≠ [] ∧ slice.length < UInt32.size
  frames : ∀ header : ChunkDataHeader, header.transferId = req.transferId →
    header.itemId = req.itemId → ∃ frame,
      encodeChunkDataHeaderFrame env.codec header req.maxFrameSize = .ok frame

/-- **The answer to a request for a chunk**: its header, which names it and says whether it ends the
item, and the slice of exactly its range. -/
def AnswersChunk (env : SendEnv σ H O) (req : SendRequest O) (content : List UInt8) (chunk : ℕ)
    (bytes : List UInt8) : Prop :=
  ∃ (header : ChunkDataHeader) (frame slice : List UInt8),
    bytes = frame ++ slice ∧
    encodeChunkDataHeaderFrame env.codec header req.maxFrameSize = .ok frame ∧
    header.transferId = req.transferId ∧ header.itemId = req.itemId ∧
    header.chunkIndex.toNat = chunk ∧ header.offsetInChunk = 0 ∧
    header.payloadLen.toNat = slice.length ∧
    (header.last = true ↔ chunk + 1 = ItemResumption.chunkCount content.length) ∧
    env.bao.extract (chunkOf content chunk) (chunk * referenceChunkSizeBytes) req.item.spool
      (chunk * referenceChunkSizeBytes) (chunkOf content chunk).length = some slice

/-- A frame asks for these chunks: a run of them, or a list. -/
inductive AsksFor (codec : SendCodec) (frame : Frame) : List ℕ → Prop
  | run {r : ChunkRequest} : classify frame.typeCode .data = .known .chunkRequest →
      decodeChunkRequestFrame codec frame = .ok r →
      AsksFor codec frame (List.range' r.fromChunk r.count)
  | list {r : ChunkRerequest} : classify frame.typeCode .data = .known .chunkRerequest →
      decodeChunkRerequestFrame codec frame = .ok r →
      AsksFor codec frame (r.chunks.map UInt64.toNat)

/-- A request on its way to the sending side. -/
structure ChunkAsk (codec : SendCodec) (limit : UInt32) where
  frame : Frame
  bytes : List UInt8
  chunks : List ℕ
  encoded : encodeFrame frame.typeCode frame.payload limit = .ok bytes
  asks : AsksFor codec frame chunks

/-- The run of a request does not leave the indices. -/
def ChunkAsk.Fits {codec : SendCodec} {limit : UInt32} (ask : ChunkAsk codec limit) : Prop :=
  ∀ r, classify ask.frame.typeCode .data = .known .chunkRequest →
    decodeChunkRequestFrame codec ask.frame = .ok r → r.fromChunk + r.count < UInt64.size

/-- The chunks of the item among those that requests ask for, in order. -/
def servedChunks {codec : SendCodec} {limit : UInt32} (size : ℕ)
    (asks : List (ChunkAsk codec limit)) : List ℕ :=
  (asks.flatMap ChunkAsk.chunks).filter fun c => c < ItemResumption.chunkCount size

/-- **A session serves all requests**: without an overflow it comes to where the request loop has
ended, and has written the answer for each chunk of the item that was asked for, in order. -/
def ServesAll (env : SendEnv σ H O) (req : SendRequest O) (content : List UInt8)
    (asks : List (ChunkAsk env.codec req.maxFrameSize)) (w : Sender σ H) : Prop :=
  ∃ w', Sender.Reaches env req w w' ∧ w'.phase = .completing ∧
    ∃ answers, List.Forall₂ (AnswersChunk env req content)
        (servedChunks content.length asks) answers ∧
      w'.dataSend.written = w.dataSend.written ++ answers.flatten

/-- The chunks of an item are those that start inside it. -/
theorem lt_chunkCount_iff {size c : ℕ} :
    c < ItemResumption.chunkCount size ↔ c * referenceChunkSizeBytes < size := by
  have hpos := referenceChunkSizeBytes_pos
  constructor
  · intro h
    rcases Nat.eq_zero_or_pos size with rfl | hsize
    · rw [ItemResumption.chunkCount, if_pos rfl] at h
      cases h
    · obtain ⟨hlast, -, -⟩ := ItemResumption.chunkCount_spec hsize
      have hle : c * referenceChunkSizeBytes ≤
          (ItemResumption.chunkCount size - 1) * referenceChunkSizeBytes :=
        Nat.mul_le_mul_right _ (by omega)
      omega
  · intro h
    have hlt := ItemResumption.div_lt_chunkCount h
    rwa [Nat.mul_div_cancel _ hpos] at hlt

section Chunk

variable {env : SendEnv σ H O} {req : SendRequest O} {content : List UInt8} {c : ℕ}

/-- Where a chunk of the item starts. -/
theorem chunkOffset_eq (hfits : content.length < UInt64.size)
    (hc : c < ItemResumption.chunkCount content.length) :
    Sender.chunkOffset c = c * referenceChunkSizeBytes := by
  have hlt := lt_chunkCount_iff.mp hc
  rw [Sender.chunkOffset, Nat.min_eq_left (by omega)]

/-- How long it is. -/
theorem chunkLen_eq (P : SendsItem env req content) (hfits : content.length < UInt64.size)
    (hc : c < ItemResumption.chunkCount content.length) :
    Sender.chunkLen req c = (chunkOf content c).length := by
  rw [Sender.chunkLen, chunkOffset_eq hfits hc, P.size, chunkOf, List.length_take,
    List.length_drop, Nat.min_comm]

/-- It ends inside the item. -/
theorem chunk_end (hc : c < ItemResumption.chunkCount content.length) :
    0 < (chunkOf content c).length ∧
      c * referenceChunkSizeBytes + (chunkOf content c).length ≤ content.length := by
  have hlt := lt_chunkCount_iff.mp hc
  have hpos := referenceChunkSizeBytes_pos
  rw [chunkOf, List.length_take, List.length_drop]
  omega

/-- It ends the item exactly if it is the last one. -/
theorem ends_item_iff (hc : c < ItemResumption.chunkCount content.length) :
    content.length ≤ c * referenceChunkSizeBytes + (chunkOf content c).length ↔
      c + 1 = ItemResumption.chunkCount content.length := by
  have hlt := lt_chunkCount_iff.mp hc
  have hnext : c + 1 < ItemResumption.chunkCount content.length ↔
      c * referenceChunkSizeBytes + referenceChunkSizeBytes < content.length := by
    rw [lt_chunkCount_iff, Nat.succ_mul]
  rw [chunkOf, List.length_take, List.length_drop]
  omega

/-- An index past the end is passed over. -/
theorem size_le_chunkOffset (hfits : content.length < UInt64.size)
    (hc : ¬c < ItemResumption.chunkCount content.length) :
    content.length ≤ Sender.chunkOffset c := by
  rw [lt_chunkCount_iff] at hc
  rw [Sender.chunkOffset]
  omega

/-- **The slice and the header of a chunk** are those of its range. -/
theorem cutSlice_eq (P : SendsItem env req content) (hfits : content.length < UInt64.size)
    (hc : c < ItemResumption.chunkCount content.length) :
    ∃ frame slice, Sender.cutSlice env req c (chunkOf content c) = .ok (frame, slice) ∧
      AnswersChunk env req content c (frame ++ slice) := by
  obtain ⟨slice, hextract, hne, hshort⟩ := P.extract c hc
  obtain ⟨hpos, hend⟩ := chunk_end hc
  have hchunk := referenceChunkSizeBytes_pos
  have hstart := lt_chunkCount_iff.mp hc
  have hle : c ≤ c * referenceChunkSizeBytes := Nat.le_mul_of_pos_right c hchunk
  have hindex : (UInt64.ofNat c).toNat = c := UInt64.toNat_ofNat_of_lt' (by omega)
  have hlength : (UInt32.ofNat slice.length).toNat = slice.length :=
    UInt32.toNat_ofNat_of_lt' hshort
  have hsome : 0 < slice.length := List.length_pos_iff.mpr hne
  have hnonempty : UInt32.ofNat slice.length ≠ 0 := by
    intro hzero
    rw [hzero] at hlength
    have hnone : (0 : UInt32).toNat = 0 := rfl
    omega
  have hslice : sliceFromWindow env.bao (chunkOf content c) (Sender.chunkOffset c)
      req.item.spool (Sender.chunkOffset c) (Sender.chunkLen req c) = .ok slice := by
    rw [chunkLen_eq P hfits hc, chunkOffset_eq hfits hc, sliceFromWindow,
      if_neg (by omega), if_neg (by omega), if_neg (by omega), P.contentLen]
    dsimp only
    rw [if_neg (by omega), hextract]
  set header : ChunkDataHeader := ⟨req.transferId, req.itemId, UInt64.ofNat c,
    UInt32.ofNat slice.length,
    decide (Sender.chunkOffset c + Sender.chunkLen req c ≥ req.item.size), 0,
    hchunk, hnonempty, by rw [hindex]; omega⟩ with hheader
  have hnew : Sender.sliceHeader req c slice = .ok header := by
    rw [Sender.sliceHeader, ChunkDataHeader.new,
      dif_pos (show UInt32.toNat 0 < referenceChunkSizeBytes from hchunk), dif_pos hnonempty,
      dif_pos (by rw [hindex]; omega)]
  obtain ⟨frame, hframe⟩ := P.frames header rfl rfl
  refine ⟨frame, slice, ?_, header, frame, slice, rfl, hframe, rfl, rfl, hindex, rfl, hlength,
    ?_, hextract⟩
  · rw [Sender.cutSlice, hslice]
    change (do
      let header ← (Sender.sliceHeader req c slice).mapError SendError.header
      let frame ← (encodeChunkDataHeaderFrame env.codec header req.maxFrameSize).mapError
        fun e => SendError.session (.proto e)
      return (frame, slice)) = _
    rw [hnew]
    change (do
      let frame ← (encodeChunkDataHeaderFrame env.codec header req.maxFrameSize).mapError
        fun e => SendError.session (.proto e)
      return (frame, slice)) = _
    rw [hframe]
    rfl
  · rw [hheader]
    dsimp only
    rw [decide_eq_true_iff, chunkLen_eq P hfits hc, chunkOffset_eq hfits hc, P.size,
      ← ends_item_iff hc]

end Chunk

/-! ### A session -/

namespace Sender

variable {env : SendEnv σ H O} {req : SendRequest O} {content : List UInt8}

/-- A session with the file open, a stream that takes everything and requests still to come. -/
structure Ready (F : ServesFile env.vfs req.relPath content) (reader : H) (w : Sender σ H)
    (recv : RecvStream) (written : List UInt8) : Prop where
  isOpen : F.IsOpen w.store reader
  takes : Browse.TakesAll w.dataSend
  recv : w.dataRecv = recv
  written : w.dataSend.written = written

variable {F : ServesFile env.vfs req.relPath content} {reader : H} {w : Sender σ H}
  {recv : RecvStream} {written : List UInt8} {c : ℕ} {cs : List ℕ}

/-- A write to a stream that takes everything. -/
theorem writeAll_takesAll {send : SendStream} (h : Browse.TakesAll send) (bytes : List UInt8) :
    send.writeAll bytes = (.ok (), { send with written := send.written ++ bytes }) := by
  rcases send with ⟨sent, finished, faults⟩
  obtain ⟨rfl, rfl⟩ := h
  rfl

/-- **A chunk is read in full**, in however many reads. -/
theorem Ready.fill (P : SendsItem env req content) (h : Ready F reader w recv written)
    (hc : c < ItemResumption.chunkCount content.length) {window : List UInt8}
    (hphase : w.phase = .filling reader c cs window) (hwindow : window <+: chunkOf content c) :
    ∃ w', Reaches env req w w' ∧ Ready F reader w' recv written ∧
      w'.phase = .heading reader c cs (chunkOf content c) := by
  obtain ⟨hpos, hend⟩ := chunk_end hc
  have hfits := F.fits
  have hlen := hwindow.length_le
  generalize hleft : (chunkOf content c).length - window.length = left
  induction left using Nat.strong_induction_on generalizing w window with
  | _ left ih =>
    have hchecked : stepChecked env req w =
        some (stepFilling env req w reader c cs window) := by
      rw [stepChecked, step, hphase]
      dsimp only
      rw [chunkOffset_eq F.fits hc, Checked.add_of_lt (by omega)]
      rfl
    by_cases hshort : window.length < (chunkOf content c).length
    · obtain ⟨n, hn, hsome, hread, hopen⟩ := F.readAt w.store reader
        (c * referenceChunkSizeBytes + window.length)
        ((chunkOf content c).length - window.length) h.isOpen
      have hn' : 0 < n := hsome (by omega) (by omega)
      have hbytes : ((content.drop (c * referenceChunkSizeBytes + window.length)).take n).length =
          n := by
        rw [List.length_take, List.length_drop]
        omega
      have hne : (content.drop (c * referenceChunkSizeBytes + window.length)).take n ≠ [] := by
        rw [← List.length_pos_iff, hbytes]
        exact hn'
      have hrest : ((chunkOf content c).drop window.length).take n =
          (content.drop (c * referenceChunkSizeBytes + window.length)).take n := by
        have hwhole : (chunkOf content c).length ≤ referenceChunkSizeBytes :=
          List.length_take_le _ _
        have hle : n ≤ referenceChunkSizeBytes - window.length :=
          hn.trans (Nat.sub_le_sub_right hwhole _)
        rw [chunkOf, List.drop_take, List.drop_drop, List.take_take, Nat.min_eq_left hle]
      have hmore : window ++ (content.drop (c * referenceChunkSizeBytes + window.length)).take n =
          (chunkOf content c).take (window.length + n) := by
        rw [List.take_add, ← List.prefix_iff_eq_take.mp hwindow, hrest]
      have hstep : stepFilling env req w reader c cs window = { w with
          store := (env.vfs.readAt w.store reader (c * referenceChunkSizeBytes + window.length)
            ((chunkOf content c).length - window.length)).2
          phase := .filling reader c cs ((chunkOf content c).take (window.length + n)) } := by
        rw [stepFilling, chunkLen_eq P F.fits hc, if_pos hshort, chunkOffset_eq F.fits hc]
        rcases hat : env.vfs.readAt w.store reader
          (c * referenceChunkSizeBytes + window.length)
          ((chunkOf content c).length - window.length) with ⟨answer, store⟩
        rw [hat] at hread
        dsimp only at hread ⊢
        rw [hread]
        dsimp only
        rw [if_neg hne, hmore]
      have hlength : ((chunkOf content c).take (window.length + n)).length =
          window.length + n := by
        rw [List.length_take]
        omega
      rw [hstep] at hchecked
      have hnext : Ready F reader { w with
          store := (env.vfs.readAt w.store reader (c * referenceChunkSizeBytes + window.length)
            ((chunkOf content c).length - window.length)).2
          phase := .filling reader c cs ((chunkOf content c).take (window.length + n)) }
          recv written := ⟨hopen, h.takes, h.recv, h.written⟩
      obtain ⟨w', hreach, hready, hphase'⟩ := ih
        ((chunkOf content c).length - (window.length + n)) (by omega) hnext rfl
        (List.take_prefix _ _) (by rw [hlength]; omega) (by rw [hlength])
      exact ⟨w', (Reaches.of_step hchecked).trans hreach, hready, hphase'⟩
    · have hwhole : window = chunkOf content c :=
        hwindow.eq_of_length (by omega)
      refine ⟨_, Reaches.of_step hchecked, ?_, ?_⟩
      · rw [stepFilling, chunkLen_eq P F.fits hc, if_neg hshort]
        exact ⟨h.isOpen, h.takes, h.recv, h.written⟩
      · rw [stepFilling, chunkLen_eq P F.fits hc, if_neg hshort, hwhole]

/-- **A request for a chunk of the item is answered**. -/
theorem Ready.serve_chunk (P : SendsItem env req content) (h : Ready F reader w recv written)
    (hc : c < ItemResumption.chunkCount content.length)
    (hphase : w.phase = .sending reader (c :: cs)) :
    ∃ w' bytes, Reaches env req w w' ∧ AnswersChunk env req content c bytes ∧
      Ready F reader w' recv (written ++ bytes) ∧ w'.phase = .sending reader cs := by
  obtain ⟨hpos, hend⟩ := chunk_end hc
  have hfits := F.fits
  -- The chunk is not past the end,
  have hstart : stepChecked env req w = some { w with phase := .filling reader c cs [] } := by
    rw [stepChecked_eq_step (by simp [hphase]) (by simp [hphase]) (by simp [hphase]), step, hphase]
    dsimp only
    rw [stepSending, if_neg]
    rw [chunkOffset_eq F.fits hc, P.size]
    omega
  -- is read,
  obtain ⟨w₁, hreach₁, h₁, hphase₁⟩ := Ready.fill P
    (show Ready F reader { w with phase := .filling reader c cs [] } recv written from
      ⟨h.isOpen, h.takes, h.recv, h.written⟩) hc rfl List.nil_prefix
  -- its slice is cut out, and header and slice are sent.
  obtain ⟨frame, slice, hcut, hanswers⟩ := cutSlice_eq P F.fits hc
  have hhead : stepChecked env req w₁ = some { w₁ with
      dataSend := { w₁.dataSend with written := w₁.dataSend.written ++ frame }
      phase := .slicing reader cs slice } := by
    rw [stepChecked, step, hphase₁]
    dsimp only
    rw [chunkOffset_eq F.fits hc, chunkLen_eq P F.fits hc, Checked.add_of_lt (by omega),
      stepHeading, hcut, sendHeader, writeAll_takesAll h₁.takes]
    rfl
  set w₂ : Sender σ H := { w₁ with
    dataSend := { w₁.dataSend with written := w₁.dataSend.written ++ frame }
    phase := .slicing reader cs slice } with hw₂
  have hslice : stepChecked env req w₂ = some { w₂ with
      dataSend := { w₂.dataSend with written := w₂.dataSend.written ++ slice }
      phase := .sending reader cs } := by
    have hwrite := writeAll_takesAll (show Browse.TakesAll w₂.dataSend from h₁.takes) slice
    rw [stepChecked_eq_step (by simp [hw₂]) (by simp [hw₂]) (by simp [hw₂]),
      show step env req w₂ = stepSlicing w₂ reader cs slice from rfl]
    unfold stepSlicing
    rw [hwrite]
  refine ⟨_, frame ++ slice, (Reaches.of_step hstart).trans (hreach₁.trans
    ((Reaches.of_step hhead).trans (Reaches.of_step hslice))), hanswers, ?_, rfl⟩
  refine ⟨h₁.isOpen, h₁.takes, h₁.recv, ?_⟩
  change w₁.dataSend.written ++ frame ++ slice = written ++ (frame ++ slice)
  rw [h₁.written, List.append_assoc]

/-- **The chunks of a request are answered one by one**, and indices past the end passed over. -/
theorem Ready.serve_chunks (P : SendsItem env req content) (h : Ready F reader w recv written)
    (hphase : w.phase = .sending reader cs) :
    ∃ w' answers, Reaches env req w w' ∧
      List.Forall₂ (AnswersChunk env req content)
        (cs.filter fun c => c < ItemResumption.chunkCount content.length) answers ∧
      Ready F reader w' recv (written ++ answers.flatten) ∧ w'.phase = .awaiting reader 0 := by
  induction cs generalizing w written with
  | nil =>
    have hstep : stepChecked env req w = some { w with phase := .awaiting reader 0 } := by
      rw [stepChecked_eq_step (by simp [hphase]) (by simp [hphase]) (by simp [hphase]), step,
        hphase]
      rfl
    refine ⟨_, [], Reaches.of_step hstep, .nil, ?_, rfl⟩
    rw [List.flatten_nil, List.append_nil]
    exact ⟨h.isOpen, h.takes, h.recv, h.written⟩
  | cons c cs ih =>
    by_cases hc : c < ItemResumption.chunkCount content.length
    · obtain ⟨w₁, bytes, hreach₁, hanswer, h₁, hphase₁⟩ := h.serve_chunk P hc hphase
      obtain ⟨w', answers, hreach, hanswers, h', hphase'⟩ := ih h₁ hphase₁
      refine ⟨w', bytes :: answers, hreach₁.trans hreach, ?_, ?_, hphase'⟩
      · rw [List.filter_cons_of_pos (by simpa using hc)]
        exact .cons hanswer hanswers
      · rwa [List.flatten_cons, ← List.append_assoc]
    · have hstep : stepChecked env req w = some { w with phase := .sending reader cs } := by
        rw [stepChecked_eq_step (by simp [hphase]) (by simp [hphase]) (by simp [hphase]), step,
          hphase]
        dsimp only
        rw [stepSending, if_pos]
        rw [P.size]
        exact size_le_chunkOffset F.fits hc
      obtain ⟨w', answers, hreach, hanswers, h', hphase'⟩ := ih
        (show Ready F reader { w with phase := .sending reader cs } recv written from
          ⟨h.isOpen, h.takes, h.recv, h.written⟩) rfl
      refine ⟨w', answers, (Reaches.of_step hstep).trans hreach, ?_, h', hphase'⟩
      rwa [List.filter_cons_of_neg (by simpa using hc)]

/-- A request at the front of the stream is read. -/
theorem Ready.read_ask (h : Ready F reader w recv written)
    (ask : ChunkAsk env.codec req.maxFrameSize) {rest : List UInt8}
    {ending : Option TransportError} (hrecv : recv = ⟨ask.bytes ++ rest, ending⟩) :
    w.dataRecv.readFrame req.maxFrameSize = (.ok ask.frame, ⟨rest, ending⟩) := by
  rw [h.recv, hrecv]
  exact readFrame_of_encodeFrame ask.encoded rest ending

/-- **A request is answered**, if its run does not leave the indices. -/
theorem Ready.serve_ask (P : SendsItem env req content) (h : Ready F reader w recv written)
    (ask : ChunkAsk env.codec req.maxFrameSize) (hfits : ask.Fits) {rest : List UInt8}
    {ending : Option TransportError} (hrecv : recv = ⟨ask.bytes ++ rest, ending⟩) {k : ℕ}
    (hphase : w.phase = .awaiting reader k) :
    ∃ w' answers, Reaches env req w w' ∧
      List.Forall₂ (AnswersChunk env req content) (servedChunks content.length [ask]) answers ∧
      Ready F reader w' ⟨rest, ending⟩ (written ++ answers.flatten) ∧
      w'.phase = .awaiting reader 0 := by
  have hread := h.read_ask ask hrecv
  have hstep : stepChecked env req w =
      some { w with dataRecv := ⟨rest, ending⟩, phase := .sending reader ask.chunks } := by
    rw [stepChecked, hphase]
    dsimp only
    rw [stepAwaitingChecked, hread]
    dsimp only
    obtain ⟨frame, bytes, chunks, encoded, asks⟩ := ask
    cases asks with
    | run hclass hdecode =>
      have hlt := hfits _ hclass hdecode
      rw [stepFrameChecked, hclass]
      dsimp only
      rw [hdecode]
      dsimp only
      rw [Checked.add_of_lt hlt, Option.bind_eq_bind, Option.bind_some, Nat.add_sub_cancel_left]
    | list hclass hdecode =>
      rw [stepFrameChecked, hclass]
      dsimp only
      rw [stepFrame, hclass]
      dsimp only
      rw [hdecode]
  have hnext : Ready F reader
      { w with dataRecv := ⟨rest, ending⟩, phase := .sending reader ask.chunks }
      ⟨rest, ending⟩ written := ⟨h.isOpen, h.takes, rfl, h.written⟩
  obtain ⟨w', answers, hreach, hanswers, hready, hphase'⟩ := hnext.serve_chunks P rfl
  refine ⟨w', answers, (Reaches.of_step hstep).trans hreach, ?_, hready, hphase'⟩
  rwa [servedChunks, List.flatMap_singleton]

/-- A request whose run leaves the indices overflows. -/
theorem Ready.overflow (h : Ready F reader w recv written)
    (ask : ChunkAsk env.codec req.maxFrameSize) (hfits : ¬ask.Fits) (rest : List UInt8)
    {ending : Option TransportError} (hrecv : recv = ⟨ask.bytes ++ rest, ending⟩) {k : ℕ}
    (hphase : w.phase = .awaiting reader k) : stepChecked env req w = none := by
  have hread := h.read_ask ask hrecv
  unfold ChunkAsk.Fits at hfits
  push Not at hfits
  obtain ⟨r, hclass, hdecode, hle⟩ := hfits
  rw [stepChecked, hphase]
  dsimp only
  rw [stepAwaitingChecked, hread]
  dsimp only
  rw [stepFrameChecked, hclass]
  dsimp only
  rw [hdecode]
  dsimp only
  rw [Checked.add_eq_none_iff.mpr hle]
  rfl

/-- The chunks of a request and of those after it. -/
theorem servedChunks_cons {codec : SendCodec} {limit : UInt32} (size : ℕ)
    (ask : ChunkAsk codec limit) (asks : List (ChunkAsk codec limit)) :
    servedChunks size (ask :: asks) = servedChunks size [ask] ++ servedChunks size asks := by
  rw [servedChunks, servedChunks, servedChunks, List.flatMap_cons, List.flatMap_singleton,
    List.filter_append]

/-- **Requests are answered one by one**, as far as their runs do not leave the indices. -/
theorem Ready.serve_asks (P : SendsItem env req content) (h : Ready F reader w recv written)
    (asks : List (ChunkAsk env.codec req.maxFrameSize)) (hfits : ∀ ask ∈ asks, ask.Fits)
    (rest : List UInt8) {ending : Option TransportError}
    (hrecv : recv = ⟨asks.flatMap ChunkAsk.bytes ++ rest, ending⟩) {k : ℕ}
    (hphase : w.phase = .awaiting reader k) :
    ∃ w' answers, Reaches env req w w' ∧
      List.Forall₂ (AnswersChunk env req content) (servedChunks content.length asks) answers ∧
      Ready F reader w' ⟨rest, ending⟩ (written ++ answers.flatten) ∧
      ∃ k', w'.phase = .awaiting reader k' := by
  induction asks generalizing w recv written k with
  | nil =>
    rw [List.flatMap_nil, List.nil_append] at hrecv
    refine ⟨w, [], Reaches.refl w, .nil, ?_, k, hphase⟩
    rw [List.flatten_nil, List.append_nil, ← hrecv]
    exact h
  | cons ask asks ih =>
    obtain ⟨hask, hasks⟩ := List.forall_mem_cons.mp hfits
    rw [List.flatMap_cons, List.append_assoc] at hrecv
    obtain ⟨w₁, answers₁, hreach₁, hanswers₁, h₁, hphase₁⟩ :=
      h.serve_ask P ask hask hrecv hphase
    obtain ⟨w', answers, hreach, hanswers, h', hphase'⟩ := ih h₁ hasks rfl hphase₁
    refine ⟨w', answers₁ ++ answers, hreach₁.trans hreach, ?_, ?_, hphase'⟩
    · rw [servedChunks_cons]
      exact List.rel_append hanswers₁ hanswers
    · rwa [List.flatten_append, ← List.append_assoc]

/-- A session with the file in place comes to its request loop. -/
theorem reaches_ready (P : SendsItem env req content) (F : ServesFile env.vfs req.relPath content)
    {store : σ} (hstore : F.Holds store) (recv controlRecv : RecvStream) {send : SendStream}
    (hsend : Browse.TakesAll send) :
    ∃ reader w', Reaches env req (start store recv controlRecv send) w' ∧
      Ready F reader w' recv send.written ∧ w'.phase = .awaiting reader 0 := by
  obtain ⟨m, hstat, -, hsize, hstore'⟩ := F.stat store hstore
  obtain ⟨reader, hreader, hopen⟩ := F.openRead _ hstore'
  have hcheck : stepChecked env req (start store recv controlRecv send : Sender σ H) =
      some ⟨.opening, (env.vfs.stat store req.relPath).2, recv, controlRecv, send⟩ := by
    rw [stepChecked_eq_step (by simp [start]) (by simp [start]) (by simp [start]),
      show step env req (start store recv controlRecv send : Sender σ H) =
        stepChecking env req (start store recv controlRecv send) from rfl]
    unfold stepChecking
    rcases hat : env.vfs.stat (start store recv controlRecv send : Sender σ H).store req.relPath
      with ⟨answer, store'⟩
    have hat' : env.vfs.stat store req.relPath = (answer, store') := hat
    rw [hat'] at hstat
    dsimp only at hstat ⊢
    rw [hstat]
    dsimp only
    rw [if_neg (by rw [hsize, P.size]; exact not_not.mpr rfl), hat']
    rfl
  set w₁ : Sender σ H := ⟨.opening, (env.vfs.stat store req.relPath).2, recv, controlRecv, send⟩
    with hw₁
  have hopened : stepChecked env req w₁ = some { w₁ with
      store := (env.vfs.openRead (env.vfs.stat store req.relPath).2 req.relPath).2
      phase := .awaiting reader 0 } := by
    rw [stepChecked_eq_step (by simp [hw₁]) (by simp [hw₁]) (by simp [hw₁]),
      show step env req w₁ = stepOpening env req w₁ from rfl]
    unfold stepOpening
    rcases hat : env.vfs.openRead w₁.store req.relPath with ⟨answer, store'⟩
    have hat' : env.vfs.openRead (env.vfs.stat store req.relPath).2 req.relPath =
        (answer, store') := hat
    rw [hat'] at hreader
    dsimp only at hreader ⊢
    rw [hreader]
  exact ⟨reader, _, (Reaches.of_step hcheck).trans (Reaches.of_step hopened),
    ⟨hopen, hsend, rfl, rfl⟩, rfl⟩

/-- The loop ends where the stream does. -/
theorem Ready.step_end (h : Ready F reader w ⟨[], none⟩ written) {k : ℕ}
    (hphase : w.phase = .awaiting reader k) :
    stepChecked env req w = some { w with dataRecv := ⟨[], none⟩, phase := .completing } := by
  have hread : w.dataRecv.readFrame req.maxFrameSize = (.error .streamClosed, ⟨[], none⟩) := by
    rw [h.recv]
    rfl
  rw [stepChecked, hphase]
  dsimp only
  rw [stepAwaitingChecked, hread]
  dsimp only
  rw [stepAwaiting, hread]

/-- After the request loop there is no going back. -/
theorem phase_of_completing {w' : Sender σ H} {n : ℕ}
    (hphase : w.phase = .completing ∨ ∃ result, w.phase = .done result)
    (h : runChecked env req n w = some w') :
    w'.phase = .completing ∨ ∃ result, w'.phase = .done result := by
  induction n generalizing w with
  | zero =>
    obtain rfl := Option.some.inj h
    exact hphase
  | succ n ih =>
    obtain ⟨w₁, hstep, hrun⟩ := Option.bind_eq_some_iff.mp h
    refine ih ?_ hrun
    rw [← step_of_stepChecked hstep]
    rcases hphase with hphase | ⟨result, hphase⟩
    · right
      rw [step, hphase]
      dsimp only
      unfold stepCompleting
      rcases w.controlRecv.readFrame req.maxFrameSize with ⟨e | frame, controlRecv⟩
      · exact ⟨_, rfl⟩
      · exact ⟨_, rfl⟩
    · right
      rw [step_done hphase]
      exact ⟨result, hphase⟩

/-- A session that overflows does not come to the end of its request loop. -/
theorem not_reaches_completing {w₁ w' : Sender σ H} (hreach : Reaches env req w w₁)
    (hawait : ∃ k, w₁.phase = .awaiting reader k) (hstop : stepChecked env req w₁ = none)
    (h : Reaches env req w w') (hphase : w'.phase = .completing) : False := by
  obtain ⟨m, hm⟩ := hreach
  obtain ⟨n, hn⟩ := h
  rcases Nat.lt_or_ge m n with hlt | hge
  · obtain ⟨d, rfl⟩ := Nat.exists_eq_add_of_lt hlt
    rw [Nat.add_assoc, runChecked_add, hm, Option.bind_some, runChecked, hstop] at hn
    cases hn
  · obtain ⟨d, rfl⟩ := Nat.exists_eq_add_of_le hge
    rw [runChecked_add, hn, Option.bind_some] at hm
    obtain ⟨k, hk⟩ := hawait
    rcases phase_of_completing (.inl hphase) hm with hend | ⟨result, hend⟩
    · rw [hk] at hend
      cases hend
    · rw [hk] at hend
      cases hend

end Sender

/-- The first of a list for which something fails. -/
theorem exists_first_not {α : Type} {p : α → Prop} {l : List α} (h : ∃ a ∈ l, ¬p a) :
    ∃ before bad after, l = before ++ bad :: after ∧ (∀ a ∈ before, p a) ∧ ¬p bad := by
  induction l with
  | nil =>
    obtain ⟨a, ha, -⟩ := h
    cases ha
  | cons x l ih =>
    by_cases hx : p x
    · obtain ⟨a, ha, hnot⟩ := h
      have hin : a ∈ l := (List.mem_cons.mp ha).resolve_left fun heq => hnot (heq ▸ hx)
      obtain ⟨before, bad, after, rfl, hbefore, hbad⟩ := ih ⟨a, hin, hnot⟩
      exact ⟨x :: before, bad, after, rfl, List.forall_mem_cons.mpr ⟨hx, hbefore⟩, hbad⟩
    · exact ⟨[], x, l, rfl, List.forall_mem_nil p, hx⟩

/-- **A session serves all requests if and only if no run of them leaves the indices**: it answers
each of them with the chunks of the item that it asks for, in order, and its request loop ends
without an overflow. -/
theorem servesAll_iff {env : SendEnv σ H O} {req : SendRequest O} {content : List UInt8}
    (P : SendsItem env req content) (F : ServesFile env.vfs req.relPath content) {store : σ}
    (hstore : F.Holds store) {send : SendStream} (hsend : Browse.TakesAll send)
    (asks : List (ChunkAsk env.codec req.maxFrameSize)) (controlRecv : RecvStream) :
    ServesAll env req content asks
        (Sender.start store ⟨asks.flatMap ChunkAsk.bytes, none⟩ controlRecv send) ↔
      ∀ ask ∈ asks, ask.Fits := by
  obtain ⟨reader, w₁, hreach₁, h₁, hphase₁⟩ := Sender.reaches_ready P F hstore
    ⟨asks.flatMap ChunkAsk.bytes, none⟩ controlRecv hsend
  constructor
  · rintro ⟨w', hreach, hphase, -⟩ ask hmem
    by_contra hnot
    -- The first request that does not fit is where the session overflows.
    obtain ⟨before, bad, after, rfl, hbefore, hbad⟩ := exists_first_not ⟨ask, hmem, hnot⟩
    obtain ⟨w₂, answers, hreach₂, -, h₂, k, hphase₂⟩ := h₁.serve_asks P before hbefore
      ((bad :: after).flatMap ChunkAsk.bytes) (by rw [List.flatMap_append]) hphase₁
    exact Sender.not_reaches_completing (hreach₁.trans hreach₂) ⟨k, hphase₂⟩
      (h₂.overflow bad hbad _ (by rw [List.flatMap_cons]) hphase₂) hreach hphase
  · intro hfits
    obtain ⟨w₂, answers, hreach₂, hanswers, h₂, k, hphase₂⟩ := h₁.serve_asks P asks hfits
      [] (by rw [List.append_nil]) hphase₁
    exact ⟨_, hreach₁.trans (hreach₂.trans (Sender.Reaches.of_step (h₂.step_end hphase₂))), rfl,
      answers, hanswers, h₂.written⟩

namespace ChunkServingSample

open Protobuf

/-- A text of seven-bit characters. -/
def ascii (s : Text) : List UInt8 := s.map fun c => UInt8.ofNat c.toNat

/-- The transfer. -/
def transferId : TransferId := .sample

/-- Its only item. -/
def itemId : ItemId := .sample

/-- A request for a run of chunks, in protobuf. -/
def requestBytes (fromChunk : UInt64) (count : UInt64) : List UInt8 :=
  bytesField 1 (ascii transferId.display) ++
    bytesField 2 (ascii itemId.value) ++ intField 3 fromChunk ++ intField 4 count

/-- A chunk header, in protobuf. -/
def headerBytes (m : WireChunkData) : List UInt8 :=
  bytesField 1 (ascii m.transferId) ++ bytesField 2 (ascii m.itemId) ++
    intField 3 m.chunkIndex ++ intField 4 m.payloadLen.toUInt64 ++
    intField 6 (if m.last then 1 else 0) ++ intField 7 m.offsetInChunk.toUInt64

/-- The protobuf layer on two requests: for the first two chunks, and for the last index there is. -/
def codec : SendCodec where
  encodeChunkRequest _ := []
  decodeChunkData _ := none
  encodeItemComplete _ := []
  decodeChunkRequest payload :=
    if payload = requestBytes 0 2 then
      some ⟨transferId.display, itemId.value, 0, 2⟩
    else if payload = requestBytes 0xffffffffffffffff 1 then
      some ⟨transferId.display, itemId.value, 2 ^ 64 - 1, 1⟩
    else none
  decodeChunkRerequest _ := none
  encodeChunkData := headerBytes
  decodeItemComplete _ := none

/-- The hash tree of three bytes is a leaf: a slice is the length and the bytes. -/
def bao : Bao Unit where
  outboard _ := ((), .zeroes)
  contentLen _ := some 3
  extract window _ _ _ _ := some ([3, 0, 0, 0, 0, 0, 0, 0] ++ window)

/-- A file of three bytes, which is read a byte at a time. -/
def env : SendEnv Unit Unit Unit := ⟨ReadRangeSample.bytewise [1, 2, 3], codec, bao⟩

/-- It is being sent. -/
def request : SendRequest Unit :=
  ⟨Download.Sample.path, transferId, itemId, 512, ⟨3, .zeroes, ()⟩⟩

/-- A request, in a frame. -/
def frameBytes (fromChunk count : UInt64) : List UInt8 :=
  [0, 0, 0, UInt8.ofNat (1 + (requestBytes fromChunk count).length), 0x20] ++
    requestBytes fromChunk count

/-- The first two chunks are asked for. -/
def askFirst : ChunkAsk env.codec request.maxFrameSize where
  frame := ⟨0x20, requestBytes 0 2⟩
  bytes := frameBytes 0 2
  chunks := List.range' 0 2
  encoded := by decide +kernel
  asks := AsksFor.run (r := ⟨transferId, itemId, 0, 2⟩) (by decide) (by rfl)

/-- The last index there is is asked for. -/
def askLast : ChunkAsk env.codec request.maxFrameSize where
  frame := ⟨0x20, requestBytes 0xffffffffffffffff 1⟩
  bytes := frameBytes 0xffffffffffffffff 1
  chunks := List.range' (2 ^ 64 - 1) 1
  encoded := by decide +kernel
  asks := AsksFor.run (r := ⟨transferId, itemId, 2 ^ 64 - 1, 1⟩) (by decide) (by rfl)

/-- A number takes at most eleven bytes. -/
theorem intSize_le (value : UInt64) : intSize value ≤ 11 := by
  have hvarint := varintLen_le value.toNat
  unfold intSize
  split_ifs
  · omega
  · omega

/-- The headers of the item are short. -/
theorem length_headerBytes {m : WireChunkData} (ht : m.transferId.length = 36)
    (hi : m.itemId.length = 1) : (headerBytes m).length ≤ 90 := by
  have hindex := intSize_le m.chunkIndex
  have hlen := intSize_le m.payloadLen.toUInt64
  have hlast := intSize_le (if m.last then 1 else 0)
  have hoffset := intSize_le m.offsetInChunk.toUInt64
  have htransfer : bytesSize 36 = 38 := by decide
  have hitem : bytesSize 1 = 3 := by decide
  rw [headerBytes]
  simp only [List.length_append, length_bytesField, length_intField, ascii, List.length_map, ht, hi]
  omega

/-- The file, the hash tree and the frames work for the item. -/
theorem sendsItem : SendsItem env request [1, 2, 3] where
  size := rfl
  contentLen := rfl
  extract c hc := ⟨_, rfl, by simp, by
    have hlen : (chunkOf [1, 2, 3] c).length ≤ 3 := by
      rw [chunkOf, List.length_take, List.length_drop]
      simp only [List.length_cons, List.length_nil]
      omega
    have hsize : UInt32.size = 4294967296 := rfl
    rw [List.length_append]
    simp only [List.length_cons, List.length_nil]
    omega⟩
  frames header ht hi := by
    have hid : (chunkDataHeaderToWire header).transferId.length = 36 := by
      rw [chunkDataHeaderToWire, ht]
      rfl
    have hitem : (chunkDataHeaderToWire header).itemId.length = 1 := by
      rw [chunkDataHeaderToWire, hi]
      rfl
    have hshort := length_headerBytes hid hitem
    have hlimit : request.maxFrameSize.toNat = 512 := rfl
    refine ⟨_, mapError_eq_ok.mpr (encodeFrame_eq_ok_iff.mpr ⟨?_, rfl⟩)⟩
    change 1 + (headerBytes (chunkDataHeaderToWire header)).length ≤ _
    omega

/-- A new stream takes everything. -/
theorem fresh_takesAll : Browse.TakesAll .fresh := ⟨rfl, rfl⟩

/-- A request for two chunks of an item that has one. -/
theorem servesAll_iff_one_request :
    ServesAll env request [1, 2, 3] [askFirst]
      (Sender.start () ⟨frameBytes 0 2, none⟩ ⟨[], none⟩ .fresh) := by
  have hstream : [askFirst].flatMap ChunkAsk.bytes = frameBytes 0 2 := List.append_nil _
  rw [← hstream]
  refine (servesAll_iff sendsItem (ReadRangeSample.served (by decide) request.relPath) trivial
    ⟨rfl, rfl⟩ [askFirst] ⟨[], none⟩).mpr fun ask hask r _ hdecode => ?_
  obtain rfl := List.mem_singleton.mp hask
  obtain rfl : ⟨transferId, itemId, 0, 2⟩ = r := Except.ok.inj hdecode
  decide

/-- **A request for the last index there is overflows**. -/
theorem last_index_overflows :
    ¬ServesAll env request [1, 2, 3] [askLast]
      (Sender.start () ⟨frameBytes 0xffffffffffffffff 1, none⟩ ⟨[], none⟩ .fresh) := by
  rintro ⟨w', hreach, hphase, -⟩
  obtain ⟨reader, w₁, hreach₁, h₁, hphase₁⟩ := Sender.reaches_ready sendsItem
    (ReadRangeSample.served (by decide) request.relPath) trivial
    ⟨frameBytes 0xffffffffffffffff 1, none⟩ ⟨[], none⟩ fresh_takesAll
  have hnot : ¬askLast.Fits := fun hfits =>
    absurd (hfits ⟨transferId, itemId, 2 ^ 64 - 1, 1⟩ rfl rfl) (by decide)
  have hstop := h₁.overflow askLast hnot [] (by rw [List.append_nil]; rfl) hphase₁
  exact Sender.not_reaches_completing hreach₁ ⟨0, hphase₁⟩ hstop hreach hphase

end ChunkServingSample

end Tradr
