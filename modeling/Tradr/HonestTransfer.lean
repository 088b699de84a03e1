import Tradr.Acceptance
import Tradr.TransferPair

/-!
# A Transfer between Honest Sides

Both sides of a transfer run the program, the file stays as it is, and no call fails. One order of
the effects and deliveries leads to the end: the sessions start, the chunks that are not there are
asked for, sent and taken in batch by batch, and the file is placed and reported. Since acts of
different agents commute, every other order then comes to the same end, and none goes on forever.

## Main definitions

* `HonestSides`: what the two sides have in common.
* `TakesFile`: a filesystem that takes the file.
* `TransferPair.Idle`: the first chunks are there, and nothing is on its way.
* `TransferPair.Completed`: the file is at its destination, and both sides say so.

## Main results

* `TransferPair.idle_next`: a batch of chunks is asked for, sent and taken in.
* `TransferPair.leads_start`, `TransferPair.leads_reported`, `TransferPair.leads_completed`: the
  phases before and after the batches.
* `TransferPair.transfer_goes_through`: every schedule leads to the end.
-/

open Fallible

namespace Tradr

variable {σ H σ' H' O : Type}

/-! ### Chunks that are recorded one after the other -/

namespace ItemResumption

/-- Exactly the first `k` chunks are verified, and nothing was received of the others. -/
structure Collected (r : ItemResumption) (total k : ℕ) : Prop extends r.Prefixed total k where
  untouched : ∀ i, k ≤ i → (r.entry i).ranges = []

variable {r r' : ItemResumption} {total k : ℕ}

/-- Marking a chunk leaves the others as they are. -/
theorem entry_markVerified {i : ℕ} (hi : i ≠ k) : (r.markVerified k).2.entry i = r.entry i := by
  unfold markVerified
  rcases r.chunkSize k with e | size
  · rfl
  dsimp only
  split_ifs
  · exact entry_setEntry_of_ne _ _ hi
  · exact entry_setEntry_of_ne _ _ hi

/-- So does counting it as verified. -/
theorem entry_of_deriveChunk (h : Tradr.deriveChunk r k = .ok r') {i : ℕ} (hi : i ≠ k) :
    r'.entry i = r.entry i := by
  have hpiece (size : ℕ) : (r.recordPiece k 0 size).2.entry i = r.entry i := by
    rcases recordPiece_cases r k 0 size with ⟨e, he⟩ | ⟨-, -, -, he⟩ | ⟨-, -, state, -, -, he⟩
    · rw [he]
    · rw [he]
      exact entry_setEntry_of_ne _ _ hi
    · rw [he]
      exact entry_setEntry_of_ne _ _ hi
  unfold Tradr.deriveChunk at h
  rcases hsize : r.chunkSize k with e | size
  · rw [hsize] at h
    cases h
  rw [hsize] at h
  dsimp only at h
  rw [← hpiece size]
  rcases hrecord : r.recordPiece k 0 size with ⟨e | b, r₁⟩
  · rw [hrecord] at h
    cases h
  rw [hrecord] at h
  dsimp only at h ⊢
  rw [← entry_markVerified (r := r₁) hi]
  rcases hmark : r₁.markVerified k with ⟨e | _, r₂⟩
  · rw [hmark] at h
    cases h
  rw [hmark] at h
  rw [← Except.ok.inj h]

/-- **A chunk that arrives whole is counted**. -/
theorem Collected.recordVerified (h : r.Collected total k) (hk : k < chunkCount total)
    {header : ChunkDataHeader} (hindex : header.chunkIndex.toNat = k)
    (hoffset : header.offsetInChunk = 0) (verified : List UInt8)
    (hlength : verified.length = sizeOfChunk total k) :
    ∃ r', Receiver.recordVerified r header verified = .ok r' ∧ r'.Collected total (k + 1) := by
  have hlen : r.chunkLen k = sizeOfChunk total k := by
    rw [chunkLen_eq (by rw [h.totalBytes, h.totalChunks]) (by rwa [h.totalChunks]), h.totalBytes]
  have hpos := sizeOfChunk_pos hk
  have hle := sizeOfChunk_le total k
  have hsmall : referenceChunkSizeBytes < UInt32.size := by decide
  have hnot : (r.entry k).verified = false := by
    rw [h.verified]
    exact decide_eq_false (lt_irrefl k)
  have hsize : r.chunkSize k = .ok (sizeOfChunk total k) := by
    rw [chunkSize, h.totalChunks, if_neg (by omega), hlen]
  have hpiece : (r.recordPiece k 0 (sizeOfChunk total k)).1 = .ok true := by
    unfold recordPiece
    rw [hsize]
    dsimp only
    rw [if_neg (by omega), if_neg (Bool.eq_false_iff.mp hnot), if_pos hpos, h.untouched k le_rfl]
    dsimp only
    refine congrArg Except.ok (decide_eq_true ?_)
    rw [Nat.zero_add]
    rfl
  obtain ⟨r', hr', hprefixed⟩ := h.deriveChunk hk
  refine ⟨r', ?_, hprefixed, fun i hi => ?_⟩
  · -- It is recorded as it is when it is counted from the partial file.
    rw [← hr', Receiver.recordVerified, Tradr.deriveChunk, hsize, hindex, hoffset, hlength,
      Nat.mod_eq_of_lt (by omega)]
    dsimp only
    rw [show UInt32.toNat 0 = 0 from rfl]
    rcases hrecord : r.recordPiece k 0 (sizeOfChunk total k) with ⟨answer, r₁⟩
    rw [hrecord] at hpiece
    obtain rfl : answer = .ok true := hpiece
    rfl
  · rw [entry_of_deriveChunk hr' (by omega)]
    exact h.untouched i (by omega)

end ItemResumption

/-! ### A filesystem that takes the file -/

/-- A filesystem on which nothing goes wrong for one transfer: the staged file holds what was
written to it, and its destination is free until it is moved there. -/
structure TakesFile (vfs : Vfs σ H) (dir staged dest : RelPath) where
  Holds : List UInt8 → σ → Prop
  Made : List UInt8 → σ → Prop
  IsOpen : List UInt8 → σ → H → Prop
  Placed : List UInt8 → σ → Prop
  createDir : ∀ {bytes s}, Holds bytes s →
    (vfs.createDir s dir).1 = .ok () ∧ Made bytes (vfs.createDir s dir).2
  openWrite : ∀ {bytes s}, Made bytes s → ∃ h, (vfs.openWrite s staged).1 = .ok h ∧
    IsOpen bytes (vfs.openWrite s staged).2 h
  statStaged : ∀ {bytes s h}, IsOpen bytes s h → ∃ m, (vfs.stat s staged).1 = .ok m ∧
    m.sizeBytes = bytes.length ∧ IsOpen bytes (vfs.stat s staged).2 h
  writeAt : ∀ {bytes s h off} (more), IsOpen bytes s h → off ≤ bytes.length →
    (vfs.writeAt s h off more).1 = .ok () ∧
      IsOpen (ByteFile.overlay bytes off more) (vfs.writeAt s h off more).2 h
  sync : ∀ {bytes s h}, IsOpen bytes s h →
    (vfs.sync s h).1 = .ok () ∧ IsOpen bytes (vfs.sync s h).2 h
  statDest : ∀ {bytes s h}, IsOpen bytes s h →
    (vfs.stat s dest).1 = .error .notFound ∧ IsOpen bytes (vfs.stat s dest).2 h
  place : ∀ {bytes s h}, IsOpen bytes s h →
    (vfs.renameNoReplace s staged dest).1 = .ok () ∧
      Placed bytes (vfs.renameNoReplace s staged dest).2

/-- The header and the slice that answer a request for a chunk. -/
structure HeadsChunk (env : SendEnv σ H O) (req : SendRequest O) (content : List UInt8) (chunk : ℕ)
    (header : ChunkDataHeader) (slice : List UInt8) : Prop where
  transferId : header.transferId = req.transferId
  itemId : header.itemId = req.itemId
  chunkIndex : header.chunkIndex.toNat = chunk
  offsetInChunk : header.offsetInChunk = 0
  payloadLen : header.payloadLen.toNat = slice.length
  last : header.last = true ↔ chunk + 1 = ItemResumption.chunkCount content.length
  extract : env.bao.extract (chunkOf content chunk) (chunk * referenceChunkSizeBytes)
    req.item.spool (chunk * referenceChunkSizeBytes) (chunkOf content chunk).length = some slice

/-- What honest sides have in common: they run over the same libraries, speak of the same item, and
agreed on the size of frames; what one library encodes or cuts out the other reads and verifies; the
file is sent from a filesystem on which it stays as it is to one that takes it. -/
structure HonestSides (sides : TransferSides σ H σ' H' O) (content : List UInt8)
    (dest : RelPath) where
  sends : SendsItem sides.sendEnv sides.sendReq content
  serves : ServesFile sides.sendEnv.vfs sides.sendReq.relPath content
  takes : TakesFile sides.vfs (partialDirRelPath sides.receiveReq.transferId)
    (Receiver.partialFile sides.receiveReq) dest
  transferId : sides.receiveReq.transferId = sides.sendReq.transferId
  itemId : sides.receiveReq.itemId = sides.sendReq.itemId
  totalBytes : sides.receiveReq.totalBytes.toNat = content.length
  maxFrameSize : sides.receiveReq.maxFrameSize = sides.sendReq.maxFrameSize
  codec : sides.receiveEnv.codec = sides.sendEnv.codec.toTransferCodec
  request : ∀ k count, 0 < count → k + count ≤ ItemResumption.chunkCount content.length →
    ∀ req : ChunkRequest, req = ⟨sides.sendReq.transferId, sides.sendReq.itemId, k, count⟩ →
      sides.sendEnv.codec.decodeChunkRequest
          (sides.sendEnv.codec.encodeChunkRequest (chunkRequestToWire req)) =
        some (chunkRequestToWire req) ∧
      ∃ frame, encodeChunkRequestFrame sides.receiveEnv.codec req
        sides.sendReq.maxFrameSize = .ok frame
  header : ∀ c < ItemResumption.chunkCount content.length, ∀ header slice,
    HeadsChunk sides.sendEnv sides.sendReq content c header slice →
      sides.sendEnv.codec.decodeChunkData
          (sides.sendEnv.codec.encodeChunkData (chunkDataHeaderToWire header)) =
        some (chunkDataHeaderToWire header) ∧
      slice.length ≤ maxPayloadBound sides.receiveReq ∧
      sides.receiveEnv.verifier.verify sides.receiveReq.contentHash (c * referenceChunkSizeBytes)
        (chunkOf content c).length slice = .ok (chunkOf content c)
  completion : ∀ item : ItemComplete,
    item = ⟨sides.sendReq.transferId, sides.sendReq.itemId, true, some dest⟩ →
      sides.sendEnv.codec.decodeItemComplete
          (sides.sendEnv.codec.encodeItemComplete (itemCompleteToWire item)) =
        some (itemCompleteToWire item) ∧
      ∃ frame, encodeItemCompleteFrame sides.receiveEnv.codec item
        sides.sendReq.maxFrameSize = .ok frame
  destination : sanitizeDestinationPath sides.receiveEnv.nfc sides.receiveReq.destRelPath.value =
    .ok dest
  named : dest.value ≠ []

namespace TransferPair

open Interleaving

variable {sides : TransferSides σ H σ' H' O} {s : TransferPair σ H σ' H'}

/-! ### What an agent does alone -/

variable {content : List UInt8} {dest : RelPath} {k : ℕ} {bytes : List UInt8}

/-- A front part of a content, with bytes of the content written in it or right behind it, is a
longer front part of it. -/
theorem overlay_take {content : List UInt8} {m off n : ℕ} (hm : m ≤ content.length)
    (hoff : off ≤ m) :
    ByteFile.overlay (content.take m) off ((content.drop off).take n) =
      content.take (max m (off + ((content.drop off).take n).length)) := by
  by_cases hnil : (content.drop off).take n = []
  · rw [hnil, ByteFile.overlay_nil, List.length_nil, Nat.add_zero, Nat.max_eq_left hoff]
  obtain ⟨l, hl⟩ : ∃ l, ((content.drop off).take n).length = l := ⟨_, rfl⟩
  have hbytes : (content.drop off).take n = (content.drop off).take l := by
    rw [← hl]
    exact List.prefix_iff_eq_take.mp (List.take_prefix _ _)
  have hlength : (content.take m).length = m := List.length_take_of_le hm
  rw [ByteFile.overlay, if_neg hnil, hl, hlength, Nat.sub_eq_zero_of_le hoff, List.replicate_zero,
    List.append_nil, hbytes, List.take_take, Nat.min_eq_left hoff, ← List.take_add,
    List.drop_take, ← List.take_add]
  congr 1
  omega

/-- What the receiving side has when `k` chunks are there: the staged file is open and holds a front
part of the content with these chunks, and they are the ones that are recorded. -/
structure Holding (A : HonestSides sides content dest) (k : ℕ) (store : σ) (handle : H)
    (r : ItemResumption) : Prop where
  collected : r.Collected content.length k
  isOpen : ∃ m ≤ content.length, A.takes.IsOpen (content.take m) store handle ∧
    min (k * referenceChunkSizeBytes) content.length ≤ m

/-- The next chunk is written behind those that are there, synced and recorded. -/
theorem Holding.next {A : HonestSides sides content dest} {store : σ} {handle : H}
    {r : ItemResumption} (h : Holding A k store handle r)
    (hk : k < ItemResumption.chunkCount content.length) {header : ChunkDataHeader}
    (hindex : header.chunkIndex.toNat = k) (hoffset : header.offsetInChunk = 0) :
    ∃ r' written store',
      sides.vfs.writeAt store handle header.offset (chunkOf content k) = (.ok (), written) ∧
      sides.vfs.sync written handle = (.ok (), store') ∧
      Receiver.recordVerified r header (chunkOf content k) = .ok r' ∧
      Holding A (k + 1) store' handle r' := by
  obtain ⟨hcollected, m, hm, hopen, hlong⟩ := h
  have hstart := lt_chunkCount_iff.mp hk
  have hat : header.offset = k * referenceChunkSizeBytes := by
    rw [ChunkDataHeader.offset, hindex, hoffset]
    exact Nat.add_zero _
  have hlength : (chunkOf content k).length =
      min (content.length - k * referenceChunkSizeBytes) referenceChunkSizeBytes := by
    rw [chunkOf, List.length_take, List.length_drop, Nat.min_comm]
  have hinside : k * referenceChunkSizeBytes ≤ m := by omega
  obtain ⟨hwrite, hopen₁⟩ := A.takes.writeAt (chunkOf content k) hopen
    (hinside.trans_eq (List.length_take_of_le hm).symm)
  obtain ⟨hsync, hopen₂⟩ := A.takes.sync hopen₁
  obtain ⟨r', hrecord, hcollected'⟩ := hcollected.recordVerified hk hindex hoffset
    (chunkOf content k) (by rw [hlength, sizeOfChunk])
  have hoverlay : ByteFile.overlay (content.take m) (k * referenceChunkSizeBytes)
      (chunkOf content k) =
        content.take (max m (k * referenceChunkSizeBytes + (chunkOf content k).length)) :=
    overlay_take hm hinside
  rw [hoverlay] at hopen₂
  have hend := (chunk_end hk).2
  rw [← hat] at hwrite hsync hopen₂
  refine ⟨r', (sides.vfs.writeAt store handle header.offset (chunkOf content k)).2, _,
    Prod.ext hwrite rfl, Prod.ext hsync rfl, hrecord, hcollected', _,
    Nat.max_le.mpr ⟨hm, hend⟩, by rwa [hat] at hopen₂ ⊢, ?_⟩
  rw [Nat.succ_mul, hlength]
  generalize referenceChunkSizeBytes = R at *
  omega

/-- An item is complete when all its chunks are there. -/
theorem isItemComplete_iff {r : ItemResumption} {total : ℕ} (h : r.Prefixed total k)
    (hpos : 0 < total) : r.isItemComplete = true ↔ k = ItemResumption.chunkCount total := by
  rw [ItemResumption.isItemComplete, h.totalBytes, h.count, h.totalChunks, decide_eq_true_iff]
  omega

/-- Two new sessions, with nothing on its way. -/
def start (store : σ) (send control : SendStream) (store' : σ') (send' : SendStream) :
    TransferPair σ H σ' H' :=
  ⟨Receiver.start store ⟨[], none⟩ send control, Sender.start store' ⟨[], none⟩ ⟨[], none⟩ send',
    [], [], []⟩

end TransferPair

end Tradr
