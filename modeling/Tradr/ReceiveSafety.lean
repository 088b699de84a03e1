import Tradr.Posix
import Tradr.Receive

/-!
# What a Receive Places

The loop invariant of a receiving session ties the bytes on disk, the pieces verified so
far and the progress record together: every byte the progress record counts as present is
a byte that verification returned for that very offset. It holds along every run from a
partial file whose bytes are already vouched for, such as an absent or an empty one, so
that a session that reports success has placed nothing but verified bytes.

Progress derived from the size of a partial file is only as good as the file: a piece
written past the end leaves a gap that the size does not show. A session that never
writes past the end of its partial file leaves a file whose bytes are all vouched for,
at whatever step it is killed.

## Main results

* `Receiver.placed_bytes_are_verified`: a successful session from a fresh partial file
  places exactly the verified bytes of the item.
* `Receiver.resumed_bytes_are_verified`: a killed session and the one after it.
* `Receiver.gap_is_resumed_as_verified`: a run in which the gap is placed.
-/

open ByteFile

namespace Tradr

/-- A verifier that answers with the range of the content a hash stands for. -/
def ContentVerifier.SoundFor (v : ContentVerifier) (hash : ContentHash)
    (whole : List UInt8) : Prop :=
  ∀ off len slice bs, v.verify hash off len slice = .ok bs →
    bs = (whole.drop off).take len ∧ bs.length = len

/-! ### Pieces -/

section Pieces

variable {env : ReceiveEnv} {req : ReceiveRequest} {totalChunks : ℕ} {recv recv' : RecvStream}

/-- A piece that came through: it lies in the item, and its bytes are what verification
answered for its place. -/
structure Piece.Valid (env : ReceiveEnv) (req : ReceiveRequest) (p : Piece) : Prop where
  verified : env.verifier.verify req.contentHash p.header.offset p.len p.slice = .ok p.bytes
  inside : p.header.offset + p.len ≤ req.totalBytes.toNat
  small : p.header.offsetInChunk.toNat + p.len ≤ referenceChunkSizeBytes

/-- The slice of a piece is verified at the place its header names. -/
theorem receiveSlice_valid {header : ChunkDataHeader} {p : Piece}
    (h : receiveSlice env req totalChunks header recv = (.ok p, recv')) : p.Valid env req := by
  unfold receiveSlice at h
  split at h
  · exact absurd h (by simp)
  · split at h
    · exact absurd h (by simp)
    · rename_i len hlen
      split at h
      · exact absurd h (by simp)
      · rename_i bytes hver
        obtain rfl := Except.ok.inj (congrArg Prod.fst h)
        unfold expectedLen at hlen
        split_ifs at hlen with h1 h2
        have hle : len = min (req.totalBytes.toNat - header.offset)
            (referenceChunkSizeBytes - header.offsetInChunk.toNat) :=
          (Except.ok.inj hlen).symm
        have ho := header.offset_inside
        refine ⟨hver, ?_, ?_⟩
        · dsimp only
          omega
        · dsimp only
          omega

/-- A piece read from the stream is valid. -/
theorem receivePiece_valid {p : Piece}
    (h : receivePiece env req totalChunks recv = (.ok (some p), recv')) :
    p.Valid env req := by
  unfold receivePiece at h
  split at h
  · exact absurd h (by simp)
  · split at h
    · split at h
      · exact absurd h (by simp)
      · split at h
        · exact absurd h (by simp)
        · split at h
          · exact absurd h (by simp)
          · rename_i hslice
            obtain rfl := Option.some.inj (Except.ok.inj (congrArg Prod.fst h))
            exact receiveSlice_valid hslice
    all_goals exact absurd h (by simp)

end Pieces

/-! ### Progress -/

section Progress

variable {P : ℕ → Prop} {r r' : ItemResumption}

/-- Counting a chunk whose bytes satisfy `P` keeps a progress record sound. -/
theorem deriveChunk_sound (h : r.Sound P) {index : ℕ}
    (hP : ∀ j < r.chunkLen index, P (index * referenceChunkSizeBytes + j))
    (hd : deriveChunk r index = .ok r') :
    r'.Sound P ∧ r'.totalBytes = r.totalBytes ∧ r'.totalChunks = r.totalChunks := by
  unfold deriveChunk at hd
  split at hd
  · exact absurd hd (by simp)
  · rename_i chunkSz hsz
    have hlen : chunkSz = r.chunkLen index := by
      unfold ItemResumption.chunkSize at hsz
      split_ifs at hsz
      exact (Except.ok.inj hsz).symm
    have hs : (r.recordPiece index 0 chunkSz).2.Sound P :=
      h.recordPiece fun j _ hj => hP j (by omega)
    have htb := r.recordPiece_totalBytes index 0 chunkSz
    have htc := r.recordPiece_totalChunks index 0 chunkSz
    have hcl := r.recordPiece_chunkLen index 0 chunkSz index
    split at hd
    · exact absurd hd (by simp)
    · rename_i ok r1 hrec
      rw [hrec] at hs htb htc hcl
      have hm : (r1.markVerified index).2.Sound P :=
        hs.markVerified fun j hj => hP j (hcl ▸ hj)
      have hmb := r1.markVerified_totalBytes index
      split at hd
      · exact absurd hd (by simp)
      · rename_i r2 hmark
        obtain rfl := Except.ok.inj hd
        rw [hmark] at hm hmb
        refine ⟨hm, hmb.trans htb, ?_⟩
        rw [hm.totalChunks_eq, hmb, htb, h.totalChunks_eq]

/-- Counting a run of chunks whose bytes satisfy `P` keeps a progress record sound. -/
theorem deriveChunks_sound {n index : ℕ} (h : r.Sound P)
    (hP : ∀ k, index ≤ k → k < index + n →
      ∀ j < r.chunkLen k, P (k * referenceChunkSizeBytes + j))
    (hd : deriveChunks n index r = .ok r') :
    r'.Sound P ∧ r'.totalBytes = r.totalBytes ∧ r'.totalChunks = r.totalChunks := by
  induction n generalizing index r with
  | zero =>
      obtain rfl := Except.ok.inj hd
      exact ⟨h, rfl, rfl⟩
  | succ n ih =>
      unfold deriveChunks at hd
      split at hd
      · exact absurd hd (by simp)
      · rename_i r1 h1
        obtain ⟨hs, hb, hc⟩ := deriveChunk_sound h (hP index le_rfl (by omega)) h1
        have hlen : ∀ k, r1.chunkLen k = r.chunkLen k := by
          intro k
          simp [ItemResumption.chunkLen, hb, hc]
        obtain ⟨hs', hb', hc'⟩ := ih hs
          (fun k hk1 hk2 j hj => hP k (by omega) (by omega) j (hlen k ▸ hj)) hd
        exact ⟨hs', hb'.trans hb, hc'.trans hc⟩

/-- Progress derived from the size of a file is sound for what holds of every byte of a
file of that size. -/
theorem deriveFromSize_sound {size : ℕ} (h : r.Sound P) (hP : ∀ i < size, P i)
    (hd : deriveFromSize r size = .ok r') :
    r'.Sound P ∧ r'.totalBytes = r.totalBytes := by
  have hR := referenceChunkSizeBytes_pos
  have hfull : ∀ k, 0 ≤ k → k < 0 + min (size / referenceChunkSizeBytes) r.totalChunks →
      ∀ j < r.chunkLen k, P (k * referenceChunkSizeBytes + j) := by
    intro k _ hk j hj
    have hk' : k + 1 ≤ size / referenceChunkSizeBytes := by omega
    have hle := (Nat.le_div_iff_mul_le hR).mp hk'
    have hj' : r.chunkLen k ≤ referenceChunkSizeBytes := by
      unfold ItemResumption.chunkLen
      have := Nat.mod_lt r.totalBytes hR
      split_ifs <;> omega
    rw [Nat.succ_mul] at hle
    exact hP _ (by omega)
  unfold deriveFromSize at hd
  dsimp only at hd
  split at hd
  · exact absurd hd (by simp)
  · rename_i r1 h1
    obtain ⟨hs, hb, hc⟩ := deriveChunks_sound h hfull h1
    split_ifs at hd with hlast
    · have hpos : 0 < r1.totalChunks := Nat.lt_of_le_of_lt (Nat.zero_le _) hlast.1
      have hend := ItemResumption.chunk_end_le hs.totalChunks_eq
        (Nat.sub_lt hpos Nat.one_pos)
      obtain ⟨hs', hb', -⟩ := deriveChunk_sound hs (fun j hj => hP _ (by omega)) hd
      exact ⟨hs', hb'.trans hb⟩
    · obtain rfl := Except.ok.inj hd
      exact ⟨hs, hb⟩

/-- The progress a session starts with is sound for what holds of every byte of its
partial file. -/
theorem deriveResumption_sound (itemId : ItemId) (total : ℕ)
    {meta? : Except VfsError Metadata}
    (hP : ∀ m, meta? = .ok m → ∀ i < m.sizeBytes, P i) :
    (deriveResumption itemId total meta?).Sound P ∧
      (deriveResumption itemId total meta?).totalBytes = total := by
  have hnew := ItemResumption.sound_new itemId total P
  unfold deriveResumption
  split
  · exact ⟨hnew, rfl⟩
  · rename_i m
    split
    · exact ⟨hnew, rfl⟩
    · rename_i r1 h1
      exact deriveFromSize_sound hnew (hP m rfl) h1

/-- Recording a verified piece whose bytes satisfy `P` keeps a progress record sound. -/
theorem recordVerified_sound (h : r.Sound P) {header : ChunkDataHeader}
    {verified : List UInt8} (hsmall : verified.length < UInt32.size)
    (hP : ∀ i, header.offset ≤ i → i < header.offset + verified.length → P i)
    (hd : Receiver.recordVerified r header verified = .ok r') :
    r'.Sound P ∧ r'.totalBytes = r.totalBytes := by
  have hpiece : ∀ j, header.offsetInChunk.toNat ≤ j →
      j < header.offsetInChunk.toNat + verified.length →
      P (header.chunkIndex.toNat * referenceChunkSizeBytes + j) := by
    intro j h1 h2
    refine hP _ ?_ ?_ <;> simp only [ChunkDataHeader.offset] <;> omega
  unfold Receiver.recordVerified at hd
  rw [Nat.mod_eq_of_lt hsmall] at hd
  have hs := h.recordPiece hpiece
  have htrue := h.of_recordPiece_true hpiece
  have htb := r.recordPiece_totalBytes header.chunkIndex.toNat header.offsetInChunk.toNat
    verified.length
  have hcl := r.recordPiece_chunkLen header.chunkIndex.toNat header.offsetInChunk.toNat
    verified.length header.chunkIndex.toNat
  split at hd
  · exact absurd hd (by simp)
  · rename_i r1 hrec
    rw [hrec] at hs htb
    obtain rfl := Except.ok.inj hd
    exact ⟨hs, htb⟩
  · rename_i r1 hrec
    rw [hrec] at hs htb htrue hcl
    have hm : (r1.markVerified header.chunkIndex.toNat).2.Sound P :=
      hs.markVerified fun j hj => htrue rfl j (hcl ▸ hj)
    have hmb := r1.markVerified_totalBytes header.chunkIndex.toNat
    split at hd
    · exact absurd hd (by simp)
    · rename_i r2 hmark
      obtain rfl := Except.ok.inj hd
      rw [hmark] at hm hmb
      exact ⟨hm, hmb.trans htb⟩

end Progress

/-! ### A two-byte item -/

namespace TwoBytes

/-- The identifier of the transfer. -/
def transferId : TransferId := .sample

/-- The identifier of its one item. -/
def itemId : ItemId := .sample

/-- Where the item goes. -/
def dest : RelPath := .sample

/-- The content of the item: the text `hi`. -/
def whole : List UInt8 := [0x68, 0x69]

/-- The BLAKE3 hash of the content. -/
def hash : ContentHash :=
  ⟨[0x85, 0x05, 0x2e, 0x9a, 0xab, 0x1b, 0x67, 0xb6, 0x62, 0x2d, 0x94, 0xa0, 0x84, 0x41, 0xb0,
    0x9f, 0xd5, 0xb7, 0xac, 0xa6, 0x1e, 0xe3, 0x60, 0x41, 0x6d, 0x70, 0xde, 0x5d, 0xa6, 0x7d,
    0x86, 0xca], rfl⟩

/-- The slice of any range of a content of one hash chunk: its length and all its bytes. -/
def slice : List UInt8 := [2, 0, 0, 0, 0, 0, 0, 0, 0x68, 0x69]

/-- What the session asks for. -/
def req : ReceiveRequest :=
  ⟨dest, 2, hash, transferId, itemId, 512⟩

/-- A protobuf text field of fewer than 128 bytes. -/
def textField (tag : UInt8) (s : Text) : List UInt8 :=
  if s = [] then [] else tag :: UInt8.ofNat s.length :: s.map fun c => UInt8.ofNat c.toNat

/-- A protobuf number field below 128. -/
def numberField (tag : UInt8) (n : ℕ) : List UInt8 :=
  if n = 0 then [] else [tag, UInt8.ofNat n]

/-- A chunk header in protobuf. -/
def encodeChunkData (m : WireChunkData) : List UInt8 :=
  textField 0x0a m.transferId ++ textField 0x12 m.itemId ++
    numberField 0x18 m.chunkIndex.toNat ++ numberField 0x20 m.payloadLen.toNat ++
    numberField 0x30 m.last.toNat ++ numberField 0x38 m.offsetInChunk.toNat

/-- The header of a piece that starts at an offset in the one chunk and ends the item. -/
def header (offsetInChunk : UInt32) : WireChunkData :=
  ⟨transferId.display, itemId.value, 0, 10, true, offsetInChunk⟩

/-- Protobuf on the messages of this item. -/
def codec : TransferCodec where
  encodeChunkRequest m :=
    textField 0x0a m.transferId ++ textField 0x12 m.itemId ++ numberField 0x18 m.fromChunk ++
      numberField 0x20 m.count
  decodeChunkData bs := [header 0, header 1].find? fun m => encodeChunkData m = bs
  encodeItemComplete m :=
    textField 0x0a m.transferId ++ textField 0x12 m.itemId ++
      numberField 0x18 m.verified.toNat ++ textField 0x22 m.finalPath

/-- Verification of slices of this content. -/
def verifier : ContentVerifier where
  verify h off len s :=
    if h = hash ∧ s = slice ∧ off + len ≤ whole.length then
      .ok ((whole.drop off).take len)
    else .error .mismatch

/-- The code outside the session, on the inputs of this item. -/
def env : ReceiveEnv :=
  ⟨codec, verifier, id⟩

/-- The verifier is sound. -/
theorem verifier_sound : env.verifier.SoundFor req.contentHash whole := by
  intro off len s bs h
  simp only [env, verifier] at h
  split_ifs at h with hc
  obtain rfl := (Except.ok.inj h).symm
  refine ⟨rfl, ?_⟩
  have := hc.2.2
  simp only [List.length_take, List.length_drop]
  omega

/-- An empty writable root. -/
def tree : Tree :=
  ⟨[], fun _ => [], 0, fun _ => 0, false⟩

/-- A peer that sends one piece. -/
def peer (offsetInChunk : UInt32) : RecvStream :=
  ⟨BigEndian.toBE 4 (1 + (encodeChunkData (header offsetInChunk)).length) ++
    MessageType.chunkData.code :: encodeChunkData (header offsetInChunk) ++ slice, none⟩

/-- A session of this item over the POSIX backend. -/
def session (t : Tree) (recv : RecvStream) : Receiver Tree ℕ :=
  Receiver.start t recv .fresh .fresh

/-- The session after `n` effects. -/
def after (t : Tree) (recv : RecvStream) (n : ℕ) : List ReceiveEvent × Receiver Tree ℕ :=
  Receiver.run PosixVfs.vfs env req (session t recv) n

end TwoBytes

namespace Receiver

/-! ### What each step can do -/

section Cases

variable {σ H : Type*}

/-- Creating the directory fails for good, or the partial file is opened next. -/
theorem stepCreatingDir_cases (vfs : Vfs σ H) (req : ReceiveRequest) (w : Receiver σ H) :
    (stepCreatingDir vfs req w).store =
        (vfs.createDir w.store (partialDirRelPath req.transferId)).2 ∧
      ((∃ e, (vfs.createDir w.store (partialDirRelPath req.transferId)).1 = .error e ∧
          (stepCreatingDir vfs req w).phase = .done (.error (.vfs e))) ∨
        ((vfs.createDir w.store (partialDirRelPath req.transferId)).1 = .ok () ∧
          (stepCreatingDir vfs req w).phase = .opening)) := by
  unfold stepCreatingDir
  rcases vfs.createDir w.store (partialDirRelPath req.transferId) with ⟨e | _, s⟩
  · exact ⟨rfl, .inl ⟨e, rfl, rfl⟩⟩
  · exact ⟨rfl, .inr ⟨rfl, rfl⟩⟩

/-- Opening the partial file fails, or answers with a handle. -/
theorem stepOpening_cases (vfs : Vfs σ H) (req : ReceiveRequest) (w : Receiver σ H) :
    (stepOpening vfs req w).store = (vfs.openWrite w.store (partialFile req)).2 ∧
      ((∃ e, (vfs.openWrite w.store (partialFile req)).1 = .error e ∧
          (stepOpening vfs req w).phase = .cleaningFile (.vfs e)) ∨
        ∃ handle, (vfs.openWrite w.store (partialFile req)).1 = .ok handle ∧
          (stepOpening vfs req w).phase = .deriving handle) := by
  unfold stepOpening
  rcases vfs.openWrite w.store (partialFile req) with ⟨e | handle, s⟩
  · exact ⟨rfl, .inl ⟨e, rfl, rfl⟩⟩
  · exact ⟨rfl, .inr ⟨handle, rfl, rfl⟩⟩

/-- What the head of the request loop can do: the store is untouched. -/
theorem stepRequesting_cases (env : ReceiveEnv) (req : ReceiveRequest) (w : Receiver σ H)
    (handle : H) (r : ItemResumption) (k : ℕ) :
    (stepRequesting env req w handle r k).store = w.store ∧
      ((∃ why, (stepRequesting env req w handle r k).phase = .cleaningFile why) ∨
        (stepRequesting env req w handle r k).phase = .abandoning ∨
        (r.isItemComplete = true ∧ ∃ p,
          (stepRequesting env req w handle r k).phase = .probing p p 2 0) ∨
        ∃ count, (stepRequesting env req w handle r k).phase =
          .receiving ⟨handle, r, k, 0, count⟩) := by
  unfold stepRequesting
  split
  · rename_i hc
    unfold startPlacing
    split
    · exact ⟨rfl, .inl ⟨_, rfl⟩⟩
    · exact ⟨rfl, .inr (.inr (.inl ⟨hc, _, rfl⟩))⟩
  · split
    · exact ⟨rfl, .inr (.inl rfl)⟩
    · split
      · exact ⟨rfl, .inl ⟨_, rfl⟩⟩
      · split
        · exact ⟨rfl, .inl ⟨_, rfl⟩⟩
        · exact ⟨rfl, .inr (.inr (.inr ⟨_, rfl⟩))⟩

/-- What reading a piece can do: the store is untouched, and a verified piece is valid. -/
theorem stepReceiving_cases (env : ReceiveEnv) (req : ReceiveRequest) (w : Receiver σ H)
    (r : Reception H) :
    (stepReceiving env req w r).2.store = w.store ∧
      (((stepReceiving env req w r).1 = .silent ∧
          ((∃ why, (stepReceiving env req w r).2.phase = .cleaningFile why) ∨
            (stepReceiving env req w r).2.phase =
              .receiving { r with ignorable := r.ignorable + 1 })) ∨
        ∃ p : Piece, p.Valid env req ∧
          (stepReceiving env req w r).1 =
            .verified p.header.offset p.len p.slice p.bytes ∧
          (stepReceiving env req w r).2.phase =
            .storing { r with ignorable := 0 } p.header p.bytes) := by
  unfold stepReceiving
  split
  · exact ⟨rfl, .inl ⟨rfl, .inl ⟨_, rfl⟩⟩⟩
  · dsimp only
    split
    · exact ⟨rfl, .inl ⟨rfl, .inl ⟨_, rfl⟩⟩⟩
    · exact ⟨rfl, .inl ⟨rfl, .inr rfl⟩⟩
  · rename_i p recv hp
    exact ⟨rfl, .inr ⟨p, receivePiece_valid hp, rfl, rfl⟩⟩

/-- Writing a piece fails, or it is synced next. -/
theorem stepStoring_cases (vfs : Vfs σ H) (w : Receiver σ H) (r : Reception H)
    (header : ChunkDataHeader) (verified : List UInt8) :
    (stepStoring vfs w r header verified).store =
        (vfs.writeAt w.store r.handle header.offset verified).2 ∧
      ((∃ e, (vfs.writeAt w.store r.handle header.offset verified).1 = .error e ∧
          (stepStoring vfs w r header verified).phase = .cleaningFile (.vfs e)) ∨
        ((vfs.writeAt w.store r.handle header.offset verified).1 = .ok () ∧
          (stepStoring vfs w r header verified).phase = .syncing r header verified)) := by
  unfold stepStoring
  rcases vfs.writeAt w.store r.handle header.offset verified with ⟨e | _, s⟩
  · exact ⟨rfl, .inl ⟨e, rfl, rfl⟩⟩
  · exact ⟨rfl, .inr ⟨rfl, rfl⟩⟩

/-- Syncing or recording a piece fails, or the loops go on with the piece recorded. -/
theorem stepSyncing_cases (vfs : Vfs σ H) (w : Receiver σ H) (r : Reception H)
    (header : ChunkDataHeader) (verified : List UInt8) :
    (stepSyncing vfs w r header verified).store = (vfs.sync w.store r.handle).2 ∧
      ((∃ why, (stepSyncing vfs w r header verified).phase = .cleaningFile why) ∨
        ∃ resumption, recordVerified r.resumption header verified = .ok resumption ∧
          ((stepSyncing vfs w r header verified).phase =
              .requesting r.handle resumption r.ignorable ∨
            (stepSyncing vfs w r header verified).phase =
              .receiving { r with resumption, received := r.received + 1 })) := by
  unfold stepSyncing
  rcases vfs.sync w.store r.handle with ⟨e | _, s⟩
  · exact ⟨rfl, .inl ⟨_, rfl⟩⟩
  · dsimp only
    rcases recordVerified r.resumption header verified with e | resumption
    · exact ⟨rfl, .inl ⟨_, rfl⟩⟩
    · dsimp only
      split_ifs
      · exact ⟨rfl, .inr ⟨resumption, rfl, .inl rfl⟩⟩
      · exact ⟨rfl, .inr ⟨resumption, rfl, .inr rfl⟩⟩

/-- Probing fails, finds the candidate free, or tries another one. -/
theorem stepProbing_cases (vfs : Vfs σ H) (w : Receiver σ H) (sanitized candidate : RelPath)
    (counter attempts : ℕ) :
    (stepProbing vfs w sanitized candidate counter attempts).store =
        (vfs.stat w.store candidate).2 ∧
      ((∃ why, (stepProbing vfs w sanitized candidate counter attempts).phase =
          .cleaningFile why) ∨
        (stepProbing vfs w sanitized candidate counter attempts).phase =
          .renaming sanitized candidate attempts ∨
        ∃ next, (stepProbing vfs w sanitized candidate counter attempts).phase =
          .probing sanitized next (counter + 1) attempts) := by
  unfold stepProbing
  rcases vfs.stat w.store candidate with ⟨e | m, s⟩
  · dsimp only
    split
    · exact ⟨rfl, .inr (.inl rfl)⟩
    · exact ⟨rfl, .inl ⟨_, rfl⟩⟩
    · exact absurd ‹_› (by simp)
  · dsimp only
    split
    · exact ⟨rfl, .inl ⟨_, rfl⟩⟩
    · exact ⟨rfl, .inr (.inr ⟨_, rfl⟩)⟩

/-- Moving the partial file works, or fails for good, or is tried under another name. -/
theorem stepRenaming_cases (vfs : Vfs σ H) (req : ReceiveRequest) (w : Receiver σ H)
    (sanitized candidate : RelPath) (attempts : ℕ) :
    (stepRenaming vfs req w sanitized candidate attempts).store =
        (vfs.renameNoReplace w.store (partialFile req) candidate).2 ∧
      (((vfs.renameNoReplace w.store (partialFile req) candidate).1 = .ok () ∧
          (stepRenaming vfs req w sanitized candidate attempts).phase =
            .finishing candidate) ∨
        ∃ e, (vfs.renameNoReplace w.store (partialFile req) candidate).1 = .error e ∧
          ((∃ why, (stepRenaming vfs req w sanitized candidate attempts).phase =
              .cleaningFile why) ∨
            (stepRenaming vfs req w sanitized candidate attempts).phase =
              .probing sanitized sanitized 2 (attempts + 1))) := by
  unfold stepRenaming
  rcases vfs.renameNoReplace w.store (partialFile req) candidate with ⟨e | _, s⟩
  · dsimp only
    split
    · exact absurd ‹_› (by simp)
    · split_ifs
      · exact ⟨rfl, .inr ⟨_, rfl, .inl ⟨_, rfl⟩⟩⟩
      · exact ⟨rfl, .inr ⟨_, rfl, .inr rfl⟩⟩
    · exact ⟨rfl, .inr ⟨_, rfl, .inl ⟨_, rfl⟩⟩⟩
  · exact ⟨rfl, .inl ⟨rfl, rfl⟩⟩

/-- What closing the data stream can do. -/
theorem stepFinish_cases (w : Receiver σ H) (next : ReceivePhase H) :
    (stepFinish w next).store = w.store ∧
      ((∃ e, w.dataSend.finish.1 = .error e ∧
          (stepFinish w next).phase = .cleaningFile (.ofTransport e)) ∨
        (w.dataSend.finish.1 = .ok () ∧ (stepFinish w next).phase = next)) := by
  unfold stepFinish
  rcases w.dataSend.finish with ⟨e | _, dataSend⟩
  · exact ⟨rfl, .inl ⟨e, rfl, rfl⟩⟩
  · exact ⟨rfl, .inr ⟨rfl, rfl⟩⟩

/-- Telling the peer how the item ended fails. -/
def ReportFails (env : ReceiveEnv) (req : ReceiveRequest) (w : Receiver σ H)
    (finalPath : Option RelPath) : Prop :=
  match encodeItemCompleteFrame env.codec
      ⟨req.transferId, req.itemId, finalPath.isSome, finalPath⟩ req.maxFrameSize with
  | .error _ => True
  | .ok frame => ∃ e, (w.controlSend.writeAll frame).1 = .error e

/-- What reporting to the peer can do. -/
theorem stepReport_cases (env : ReceiveEnv) (req : ReceiveRequest) (w : Receiver σ H)
    (finalPath : Option RelPath) (next : ReceivePhase H) :
    (stepReport env req w finalPath next).store = w.store ∧
      ((ReportFails env req w finalPath ∧
          ∃ why, (stepReport env req w finalPath next).phase = .cleaningFile why) ∨
        (¬ReportFails env req w finalPath ∧
          (stepReport env req w finalPath next).phase = next)) := by
  unfold stepReport ReportFails
  rcases encodeItemCompleteFrame env.codec
    ⟨req.transferId, req.itemId, finalPath.isSome, finalPath⟩ req.maxFrameSize with e | frame
  · exact ⟨rfl, .inl ⟨trivial, _, rfl⟩⟩
  · dsimp only
    rcases w.controlSend.writeAll frame with ⟨e | _, controlSend⟩
    · exact ⟨rfl, .inl ⟨⟨e, rfl⟩, _, rfl⟩⟩
    · exact ⟨rfl, .inr ⟨nofun, rfl⟩⟩

/-- What removing the partial file can do: it only changes the partial file, and the
session goes on to fail. -/
theorem stepCleaningFile_cases (vfs : Vfs σ H) (req : ReceiveRequest) (w : Receiver σ H)
    (why : TransferSessionError) :
    (stepCleaningFile vfs req w why).store = (vfs.remove w.store (partialFile req)).2 ∧
      ((((vfs.remove w.store (partialFile req)).1 = .ok () ∨
            (vfs.remove w.store (partialFile req)).1 = .error .notFound) ∧
          (stepCleaningFile vfs req w why).phase = .cleaningDir why) ∨
        ∃ e, (vfs.remove w.store (partialFile req)).1 = .error e ∧ e ≠ .notFound ∧
          ∃ why', (stepCleaningFile vfs req w why).phase = .done (.error why')) := by
  unfold stepCleaningFile
  rcases vfs.remove w.store (partialFile req) with ⟨e | _, s⟩
  · cases e with
    | notFound => exact ⟨rfl, .inl ⟨.inr rfl, rfl⟩⟩
    | alreadyExists | outsideRoot | denyListed | unsupportedEntry | wrongKind | readOnly | io =>
        exact ⟨rfl, .inr ⟨_, rfl, nofun, _, rfl⟩⟩
  · exact ⟨rfl, .inl ⟨.inl rfl, rfl⟩⟩

/-- What removing the directory can do: the session has failed. -/
theorem stepCleaningDir_cases (vfs : Vfs σ H) (req : ReceiveRequest) (w : Receiver σ H)
    (why : TransferSessionError) :
    (stepCleaningDir vfs req w why).store =
        (vfs.remove w.store (partialDirRelPath req.transferId)).2 ∧
      ∃ e, (stepCleaningDir vfs req w why).phase = .done (.error e) := by
  unfold stepCleaningDir
  rcases vfs.remove w.store (partialDirRelPath req.transferId) with ⟨e | _, s⟩
  · dsimp only
    split
    all_goals exact ⟨rfl, _, rfl⟩
  · exact ⟨rfl, _, rfl⟩

end Cases

/-! ### The loop invariant -/

section Invariant

variable {σ H : Type*} {vfs : Vfs σ H} {env : ReceiveEnv} {req : ReceiveRequest}
  {L M : List (ℕ × List UInt8)} {w : Receiver σ H}

/-- A partial file that may be trusted by its size: no longer than the item, and every
byte of it vouched for. -/
structure Trusted (req : ReceiveRequest) (L : List (ℕ × List UInt8)) (c : List UInt8) :
    Prop where
  length_le : c.length ≤ req.totalBytes.toNat
  vouched : ∀ i < c.length, Vouched L c i

/-- Nothing is trusted by an empty file. -/
theorem trusted_nil (req : ReceiveRequest) (L : List (ℕ × List UInt8)) : Trusted req L [] :=
  ⟨Nat.zero_le _, fun i hi => absurd hi (by simp)⟩

/-- A longer log trusts as much. -/
theorem Trusted.mono {c : List UInt8} (h : Trusted req L c) (hLM : L ⊆ M) :
    Trusted req M c :=
  ⟨h.length_le, fun i hi => (h.vouched i hi).mono hLM⟩

/-- The partial file is open at the handle and holds `c`. -/
def Open (B : ByteStore vfs) (req : ReceiveRequest) (s : σ) (h : H) (c : List UInt8) : Prop :=
  B.At s h (partialFile req) ∧ B.content s (partialFile req) = some c

/-- The invariant of the loops: the progress record vouches only for bytes of the open
partial file that the log vouches for, and `Q` holds of the file. -/
def Tracking (B : ByteStore vfs) (req : ReceiveRequest) (L : List (ℕ × List UInt8)) (s : σ)
    (h : H) (r : ItemResumption) (Q : List UInt8 → Prop) : Prop :=
  ∃ c, Open B req s h c ∧ c.length ≤ req.totalBytes.toNat ∧
    r.totalBytes = req.totalBytes.toNat ∧ r.Sound (Vouched L c) ∧ Q c

/-- The file at a path holds the item: every byte of it vouched for. -/
def Complete (B : ByteStore vfs) (req : ReceiveRequest) (L : List (ℕ × List UInt8)) (s : σ)
    (p : RelPath) : Prop :=
  ∃ c, B.content s p = some c ∧ c.length = req.totalBytes.toNat ∧
    ∀ i < req.totalBytes.toNat, Vouched L c i

/-- A piece that is about to be written: logged, and inside the item. -/
structure Logged (req : ReceiveRequest) (L : List (ℕ × List UInt8))
    (header : ChunkDataHeader) (verified : List UInt8) : Prop where
  mem : (header.offset, verified) ∈ L
  inside : header.offset + verified.length ≤ req.totalBytes.toNat
  small : verified.length < UInt32.size

/-- What holds in each phase of a session, `L` being the pieces verified so far. -/
def PhaseInv (B : ByteStore vfs) (req : ReceiveRequest) (L : List (ℕ × List UInt8)) (s : σ) :
    ReceivePhase H → Prop
  | .creatingDir | .opening => Trusted req L ((B.content s (partialFile req)).getD [])
  | .deriving h => ∃ c, Open B req s h c ∧ Trusted req L c
  | .requesting h r _ => Tracking B req L s h r fun _ => True
  | .receiving r => Tracking B req L s r.handle r.resumption fun _ => True
  | .storing r header verified =>
    Tracking B req L s r.handle r.resumption (fun _ => True) ∧ Logged req L header verified
  | .syncing r header verified =>
    Tracking B req L s r.handle r.resumption (fun c => ∀ i, header.offset ≤ i →
      i < header.offset + verified.length → Vouched L c i) ∧ Logged req L header verified
  | .probing .. | .renaming .. => Complete B req L s (partialFile req)
  | .finishing path | .reporting path | .done (.ok path) => Complete B req L s path
  | _ => True

/-- A tracker of a longer log tracks as much. -/
theorem Tracking.mono {B : ByteStore vfs} {s : σ} {h : H} {r : ItemResumption}
    {Q : List UInt8 → Prop} (ht : Tracking B req L s h r Q) (hLM : L ⊆ M) :
    Tracking B req M s h r fun _ => True := by
  obtain ⟨c, hopen, hlen, hb, hs, -⟩ := ht
  exact ⟨c, hopen, hlen, hb, hs.mono fun i hi => hi.mono hLM, trivial⟩

/-- A complete progress record over the open file: the partial file holds the item. -/
theorem Tracking.complete {B : ByteStore vfs} {s : σ} {h : H} {r : ItemResumption}
    {Q : List UInt8 → Prop} (ht : Tracking B req L s h r Q) (hc : r.isItemComplete = true) :
    Complete B req L s (partialFile req) := by
  obtain ⟨c, hopen, hlen, hb, hs, -⟩ := ht
  have hall : ∀ i < req.totalBytes.toNat, Vouched L c i :=
    fun i hi => hs.complete hc (hb ▸ hi)
  refine ⟨c, hopen.2, le_antisymm hlen ?_, hall⟩
  rcases Nat.eq_zero_or_pos req.totalBytes.toNat with h0 | h0
  · omega
  · have := (hall (req.totalBytes.toNat - 1) (by omega)).lt_length
    omega

/-! ### One step keeps the invariant -/

variable (B : ByteStore vfs)

theorem inv_creatingDir (h : PhaseInv B req L w.store .creatingDir) :
    PhaseInv B req L (stepCreatingDir vfs req w).store (stepCreatingDir vfs req w).phase := by
  obtain ⟨hs, ⟨e, -, hp⟩ | ⟨-, hp⟩⟩ := stepCreatingDir_cases vfs req w
  · rw [hp]
    trivial
  · rw [hs, hp]
    simp only [PhaseInv] at h ⊢
    rwa [B.content_createDir]

theorem inv_opening (h : PhaseInv B req L w.store .opening) :
    PhaseInv B req L (stepOpening vfs req w).store (stepOpening vfs req w).phase := by
  obtain ⟨hs, ⟨e, -, hp⟩ | ⟨handle, hok, hp⟩⟩ := stepOpening_cases vfs req w
  · rw [hp]
    trivial
  · rw [hs, hp]
    obtain ⟨hat, hcont⟩ := B.openWrite_ok w.store (partialFile req) handle hok
    exact ⟨_, ⟨hat, hcont⟩, h⟩

theorem inv_deriving {handle : H} (h : PhaseInv B req L w.store (.deriving handle)) :
    PhaseInv B req L (stepDeriving vfs req w handle).store
      (stepDeriving vfs req w handle).phase := by
  obtain ⟨c, ⟨hat, hcont⟩, ht⟩ := h
  have hcont' := B.content_stat w.store (partialFile req) (partialFile req)
  have hat' := B.at_stat w.store (partialFile req) handle (partialFile req) hat
  have hsize := B.stat_size w.store (partialFile req) c
  unfold stepDeriving
  rcases hw : vfs.stat w.store (partialFile req) with ⟨res, s⟩
  rw [hw] at hcont' hat' hsize
  have hP : ∀ m, res = .ok m → ∀ i < m.sizeBytes, Vouched L c i :=
    fun m hm i hi => ht.vouched i (hsize m hcont hm ▸ hi)
  obtain ⟨hs, hb⟩ := deriveResumption_sound req.itemId req.totalBytes.toNat hP
  exact ⟨c, ⟨hat', hcont'.trans hcont⟩, ht.length_le, hb, hs, trivial⟩

theorem inv_requesting {handle : H} {r : ItemResumption} {k : ℕ}
    (h : PhaseInv B req L w.store (.requesting handle r k)) :
    PhaseInv B req L (stepRequesting env req w handle r k).store
      (stepRequesting env req w handle r k).phase := by
  obtain ⟨hstore, hphase⟩ := stepRequesting_cases env req w handle r k
  rw [hstore]
  rcases hphase with ⟨why, hp⟩ | hp | ⟨hc, p, hp⟩ | ⟨count, hp⟩
  · rw [hp]
    trivial
  · rw [hp]
    trivial
  · rw [hp]
    exact h.complete hc
  · rw [hp]
    exact h

/-- The log of one event. -/
theorem verifiedLog_append (es : List ReceiveEvent) (e : ReceiveEvent) :
    verifiedLog (es ++ [e]) = verifiedLog es ++ verifiedLog [e] := by
  simp [verifiedLog]

/-- The bytes of a valid piece have the length this side expected. -/
theorem logged_of_valid {whole : List UInt8}
    (hv : env.verifier.SoundFor req.contentHash whole) {p : Piece} (h : p.Valid env req)
    (hmem : (p.header.offset, p.bytes) ∈ L) : Logged req L p.header p.bytes := by
  have hlen := (hv _ _ _ _ h.verified).2
  have hR : referenceChunkSizeBytes < UInt32.size := by decide
  have h1 := h.inside
  have h2 := h.small
  exact ⟨hmem, by omega, by omega⟩

theorem inv_receiving {whole : List UInt8}
    (hv : env.verifier.SoundFor req.contentHash whole) {r : Reception H}
    (h : PhaseInv B req L w.store (.receiving r)) :
    PhaseInv B req (L ++ verifiedLog [(stepReceiving env req w r).1])
      (stepReceiving env req w r).2.store (stepReceiving env req w r).2.phase := by
  obtain ⟨hstore, hphase⟩ := stepReceiving_cases env req w r
  rw [hstore]
  rcases hphase with ⟨he, ⟨why, hp⟩ | hp⟩ | ⟨p, hvalid, he, hp⟩
  · rw [hp]
    trivial
  · rw [hp]
    exact h.mono (List.subset_append_left _ _)
  · rw [hp, he]
    exact ⟨h.mono (List.subset_append_left _ _),
      logged_of_valid hv hvalid (by simp [verifiedLog])⟩

theorem inv_storing {r : Reception H} {header : ChunkDataHeader} {verified : List UInt8}
    (h : PhaseInv B req L w.store (.storing r header verified)) :
    PhaseInv B req L (stepStoring vfs w r header verified).store
      (stepStoring vfs w r header verified).phase := by
  obtain ⟨⟨c, ⟨hat, hcont⟩, hlen, hb, hs, -⟩, hlog⟩ := h
  obtain ⟨hstore, ⟨e, -, hp⟩ | ⟨hok, hp⟩⟩ := stepStoring_cases vfs w r header verified
  · rw [hp]
    trivial
  · rw [hstore, hp]
    have hat' := B.at_writeAt _ _ header.offset verified _ hat
    have hcont' := B.writeAt_ok _ _ _ _ _ c hat hcont hok
    have htake : verified.take verified.length = verified := List.take_length
    have hov : ∀ i, Vouched L c i → Vouched L (overlay c header.offset verified) i :=
      fun i hi => htake ▸ hi.overlay hlog.mem verified.length
    refine ⟨⟨_, ⟨hat', hcont'⟩, length_overlay_le hlen hlog.inside, hb, hs.mono hov, ?_⟩, hlog⟩
    intro i h1 h2
    have hlt : i - header.offset < (verified.take verified.length).length := by
      rw [htake]
      omega
    have := vouched_overlay (c := c) hlog.mem h1 hlt
    rwa [htake] at this

theorem inv_syncing {r : Reception H} {header : ChunkDataHeader} {verified : List UInt8}
    (h : PhaseInv B req L w.store (.syncing r header verified)) :
    PhaseInv B req L (stepSyncing vfs w r header verified).store
      (stepSyncing vfs w r header verified).phase := by
  obtain ⟨⟨c, ⟨hat, hcont⟩, hlen, hb, hs, hw⟩, hlog⟩ := h
  obtain ⟨hstore, ⟨why, hp⟩ | ⟨r', hrec, hp⟩⟩ := stepSyncing_cases vfs w r header verified
  · rw [hp]
    trivial
  · obtain ⟨hs', hb'⟩ := recordVerified_sound hs hlog.small hw hrec
    have ht : Tracking B req L (vfs.sync w.store r.handle).2 r.handle r' fun _ => True :=
      ⟨c, ⟨B.at_sync _ _ _ _ hat, (B.content_sync _ _ _).trans hcont⟩, hlen, hb'.trans hb,
        hs', trivial⟩
    rw [hstore]
    rcases hp with hp | hp
    · rw [hp]
      exact ht
    · rw [hp]
      exact ht

theorem inv_probing {sanitized candidate : RelPath} {counter attempts : ℕ}
    (h : Complete B req L w.store (partialFile req)) :
    PhaseInv B req L (stepProbing vfs w sanitized candidate counter attempts).store
      (stepProbing vfs w sanitized candidate counter attempts).phase := by
  obtain ⟨c, hcont, hrest⟩ := h
  have hc : Complete B req L (vfs.stat w.store candidate).2 (partialFile req) :=
    ⟨c, (B.content_stat _ _ _).trans hcont, hrest⟩
  obtain ⟨hstore, ⟨why, hp⟩ | hp | ⟨next, hp⟩⟩ :=
    stepProbing_cases vfs w sanitized candidate counter attempts
  · rw [hp]
    trivial
  · rw [hstore, hp]
    exact hc
  · rw [hstore, hp]
    exact hc

theorem inv_renaming {sanitized candidate : RelPath} {attempts : ℕ}
    (h : Complete B req L w.store (partialFile req)) :
    PhaseInv B req L (stepRenaming vfs req w sanitized candidate attempts).store
      (stepRenaming vfs req w sanitized candidate attempts).phase := by
  obtain ⟨c, hcont, hrest⟩ := h
  obtain ⟨hstore, ⟨hok, hp⟩ | ⟨e, herr, ⟨why, hp⟩ | hp⟩⟩ :=
    stepRenaming_cases vfs req w sanitized candidate attempts
  · rw [hstore, hp]
    exact ⟨c, (B.renameNoReplace_ok _ _ _ c hcont hok).1, hrest⟩
  · rw [hp]
    trivial
  · rw [hstore, hp]
    exact ⟨c, (B.renameNoReplace_error _ _ _ e _ herr).trans hcont, hrest⟩

/-- One step keeps the invariant, with what it verified added to the log. -/
theorem phaseInv_step {whole : List UInt8}
    (hv : env.verifier.SoundFor req.contentHash whole) (h : PhaseInv B req L w.store w.phase) :
    PhaseInv B req (L ++ verifiedLog [(step vfs env req w).1]) (step vfs env req w).2.store
      (step vfs env req w).2.phase := by
  have hsilent : L ++ verifiedLog [.silent] = L := by simp [verifiedLog]
  unfold step
  split <;> rename_i hphase <;> rw [hphase] at h <;> try rw [hsilent]
  · exact inv_creatingDir B h
  · exact inv_opening B h
  · exact inv_deriving B h
  · exact inv_requesting B h
  · exact inv_receiving B hv h
  · exact inv_storing B h
  · exact inv_syncing B h
  · exact inv_probing B h
  · exact inv_renaming B h
  · obtain ⟨hs, ⟨e, -, hp⟩ | ⟨-, hp⟩⟩ := stepFinish_cases w (.reporting _) <;> rw [hs, hp]
    · trivial
    · exact h
  · obtain ⟨hs, ⟨-, why, hp⟩ | ⟨-, hp⟩⟩ :=
      stepReport_cases env req w (some _) (.done (.ok _)) <;> rw [hs, hp]
    · trivial
    · exact h
  · obtain ⟨hs, ⟨e, -, hp⟩ | ⟨-, hp⟩⟩ := stepFinish_cases w .reportingFailure <;> rw [hp]
    · trivial
    · trivial
  · obtain ⟨hs, ⟨-, why, hp⟩ | ⟨-, hp⟩⟩ :=
      stepReport_cases env req w none (.cleaningFile .verificationFailed) <;> rw [hp]
    · trivial
    · trivial
  · obtain ⟨-, ⟨-, hp⟩ | ⟨e, -, -, why, hp⟩⟩ := stepCleaningFile_cases vfs req w _ <;> rw [hp]
    · trivial
    · trivial
  · obtain ⟨-, e, hp⟩ := stepCleaningDir_cases vfs req w _
    rw [hp]
    trivial
  · rw [hphase]
    exact h

/-! ### The partial file of a session without gaps -/

/-- The bytes staged so far. -/
def staged (B : ByteStore vfs) (req : ReceiveRequest) (s : σ) : List UInt8 :=
  (B.content s (partialFile req)).getD []

/-- The next effect does not write past the end of the partial file. -/
def Gapless (B : ByteStore vfs) (req : ReceiveRequest) (w : Receiver σ H) : Prop :=
  match w.phase with
  | .storing _ header _ => header.offset ≤ (staged B req w.store).length
  | _ => True

variable {B}

/-- Writing a piece inside or at the end of a trusted file leaves a trusted file, even if
the write fails half way. -/
theorem trusted_storing {r : Reception H} {header : ChunkDataHeader} {verified : List UInt8}
    (h : PhaseInv B req L w.store (.storing r header verified))
    (hgap : header.offset ≤ (staged B req w.store).length)
    (ht : Trusted req L (staged B req w.store)) :
    Trusted req L (staged B req (stepStoring vfs w r header verified).store) := by
  obtain ⟨⟨c, ⟨hat, hcont⟩, -⟩, hlog⟩ := h
  have hstaged : staged B req w.store = c := by simp [staged, hcont]
  rw [hstaged] at ht hgap
  have hcut : ∀ k, Trusted req L (overlay c header.offset (verified.take k)) := by
    intro k
    have hk : (verified.take k).length ≤ verified.length := List.length_take_le' k verified
    have hin := hlog.inside
    exact ⟨length_overlay_le ht.length_le (by omega),
      gapless_overlay ht.vouched hlog.mem hgap k⟩
  obtain ⟨hstore, ⟨e, herr, -⟩ | ⟨hok, -⟩⟩ := stepStoring_cases vfs w r header verified
  · obtain ⟨k, hk⟩ := B.writeAt_error _ _ _ _ _ c e hat hcont herr
    simp only [staged, hstore, hk, Option.getD_some]
    exact hcut k
  · have hcont' := B.writeAt_ok _ _ _ _ _ c hat hcont hok
    simp only [staged, hstore, hcont', Option.getD_some]
    have := hcut verified.length
    rwa [List.take_length] at this

/-- Moving the partial file away leaves nothing, and failing to leaves it as it was. -/
theorem trusted_renaming {sanitized candidate : RelPath} {attempts : ℕ}
    (h : Complete B req L w.store (partialFile req))
    (ht : Trusted req L (staged B req w.store)) :
    Trusted req L (staged B req
      (stepRenaming vfs req w sanitized candidate attempts).store) := by
  obtain ⟨c, hcont, -⟩ := h
  obtain ⟨hstore, ⟨hok, -⟩ | ⟨e, herr, -⟩⟩ :=
    stepRenaming_cases vfs req w sanitized candidate attempts
  · have hnone := (B.renameNoReplace_ok _ _ _ c hcont hok).2
    simp only [staged, hstore, hnone, Option.getD_none]
    exact trusted_nil req L
  · have hsame := B.renameNoReplace_error _ _ _ e (partialFile req) herr
    simp only [staged, hstore, hsame]
    exact ht

/-- Opening never loses or invents bytes. -/
theorem staged_opening (w : Receiver σ H) :
    staged B req (stepOpening vfs req w).store = staged B req w.store := by
  obtain ⟨hstore, ⟨e, herr, -⟩ | ⟨handle, hok, -⟩⟩ := stepOpening_cases vfs req w
  · rw [staged, hstore, B.openWrite_error _ _ e herr, staged]
  · rw [staged, hstore, (B.openWrite_ok _ _ handle hok).2, staged, Option.getD_some]

/-- One step without a gap keeps the partial file trusted. -/
theorem trusted_step (h : PhaseInv B req L w.store w.phase) (hgap : Gapless B req w)
    (ht : Trusted req L (staged B req w.store)) :
    Trusted req (L ++ verifiedLog [(step vfs env req w).1])
      (staged B req (step vfs env req w).2.store) := by
  refine Trusted.mono ?_ (List.subset_append_left L _)
  unfold step
  unfold Gapless at hgap
  split <;> rename_i hphase <;> rw [hphase] at h hgap
  · rwa [staged, (stepCreatingDir_cases vfs req w).1, B.content_createDir]
  · rwa [staged_opening]
  · simp only [stepDeriving, staged, B.content_stat] at ht ⊢
    exact ht
  · rwa [(stepRequesting_cases env req w _ _ _).1]
  · rwa [(stepReceiving_cases env req w _).1]
  · exact trusted_storing h hgap ht
  · rwa [staged, (stepSyncing_cases vfs w _ _ _).1, B.content_sync]
  · rwa [staged, (stepProbing_cases vfs w _ _ _ _).1, B.content_stat]
  · exact trusted_renaming h ht
  · rwa [(stepFinish_cases w _).1]
  · rwa [(stepReport_cases env req w _ _).1]
  · rwa [(stepFinish_cases w _).1]
  · rwa [(stepReport_cases env req w _ _).1]
  · rw [(stepCleaningFile_cases vfs req w _).1]
    rcases B.remove_self w.store (partialFile req) with hr | hr <;> simp only [staged, hr]
    · exact trusted_nil req L
    · exact ht
  · rw [(stepCleaningDir_cases vfs req w _).1]
    have hne : partialFile req ≠ partialDirRelPath req.transferId :=
      partialFileRelPath_ne_partialDirRelPath _ _ _
    simp only [staged]
    rw [B.remove_other _ _ _ hne]
    exact ht
  · exact ht

/-! ### Whole runs -/

/-- A session one effect further. -/
theorem run_succ (vfs : Vfs σ H) (env : ReceiveEnv) (req : ReceiveRequest) (w : Receiver σ H)
    (n : ℕ) :
    run vfs env req w (n + 1) =
      ((run vfs env req w n).1 ++ [(step vfs env req (run vfs env req w n).2).1],
        (step vfs env req (run vfs env req w n).2).2) := by
  rw [run, List.replicate_succ']
  exact Machine.run_concat _ w _ ()

/-- The invariant holds along every run. -/
theorem phaseInv_run {whole : List UInt8}
    (hv : env.verifier.SoundFor req.contentHash whole)
    (h : PhaseInv B req L w.store w.phase) (n : ℕ) :
    PhaseInv B req (L ++ verifiedLog (run vfs env req w n).1) (run vfs env req w n).2.store
      (run vfs env req w n).2.phase := by
  induction n with
  | zero => simpa [run, verifiedLog] using h
  | succ n ih =>
      rw [run_succ, verifiedLog_append, ← List.append_assoc]
      exact phaseInv_step B hv ih

/-- Along a run without gaps the partial file stays trusted. -/
theorem trusted_run {whole : List UInt8}
    (hv : env.verifier.SoundFor req.contentHash whole)
    (h : PhaseInv B req L w.store w.phase) (ht : Trusted req L (staged B req w.store)) {n : ℕ}
    (hgap : ∀ m < n, Gapless B req (run vfs env req w m).2) :
    Trusted req (L ++ verifiedLog (run vfs env req w n).1)
      (staged B req (run vfs env req w n).2.store) := by
  induction n with
  | zero => simpa [run, verifiedLog] using ht
  | succ n ih =>
      rw [run_succ, verifiedLog_append, ← List.append_assoc]
      exact trusted_step (phaseInv_run hv h n) (hgap n (by omega))
        (ih fun m hm => hgap m (by omega))

/-- Every piece a run reports as verified is what verification answered. -/
theorem verified_of_mem_run (vfs : Vfs σ H) (w : Receiver σ H) (n : ℕ)
    {off len : ℕ} {slice bs : List UInt8}
    (h : .verified off len slice bs ∈ (run vfs env req w n).1) :
    env.verifier.verify req.contentHash off len slice = .ok bs := by
  induction n with
  | zero => exact absurd h (by simp [run])
  | succ n ih =>
      rw [run_succ, List.mem_append] at h
      rcases h with h | h
      · exact ih h
      · have he := (List.mem_singleton.mp h).symm
        unfold step at he
        split at he <;> try exact absurd he (by simp)
        rcases (stepReceiving_cases env req (run vfs env req w n).2 _).2 with
          ⟨hsilent, -⟩ | ⟨p, hvalid, hev, -⟩
        · rw [hsilent] at he
          exact absurd he (by simp)
        · rw [hev] at he
          injection he with h1 h2 h3 h4
          rw [← h1, ← h2, ← h3, ← h4]
          exact hvalid.verified

/-- A byte vouched for by a run is one verification returned for its own offset. -/
theorem exists_verified_of_vouched {vfs : Vfs σ H} {w : Receiver σ H} {n i : ℕ}
    {c : List UInt8} {whole : List UInt8}
    (hv : env.verifier.SoundFor req.contentHash whole)
    (h : Vouched (verifiedLog (run vfs env req w n).1) c i) :
    ∃ off len slice bs, .verified off len slice bs ∈ (run vfs env req w n).1 ∧
      env.verifier.verify req.contentHash off len slice = .ok bs ∧
      off ≤ i ∧ i < off + len ∧ (c)[i]? = bs[i - off]? := by
  obtain ⟨⟨off, bs⟩, hmem, h1, h2, heq⟩ := h
  obtain ⟨e, he, hsome⟩ := List.mem_filterMap.mp hmem
  rcases e with _ | ⟨off', len, slice, bs'⟩
  · exact absurd hsome (by simp)
  · obtain ⟨rfl, rfl⟩ := Prod.mk.inj (Option.some.inj hsome)
    have hver := verified_of_mem_run vfs w n he
    have hlen := (hv _ _ _ _ hver).2
    dsimp only at h1 h2 heq
    exact ⟨off', len, slice, bs', he, hver, h1, by omega, heq⟩

/-- A file whose every byte below `n` is vouched for by sound verification is a front
part of the content. -/
theorem eq_take_of_vouched {c whole : List UInt8} {n : ℕ} (hlen : c.length = n)
    (hL : ∀ p ∈ L, ∃ len, p.2 = (whole.drop p.1).take len)
    (hall : ∀ i < n, Vouched L c i) : c = whole.take n := by
  apply List.ext_getElem?
  intro i
  rcases Nat.lt_or_ge i n with hi | hi
  · obtain ⟨p, hp, h1, h2, heq⟩ := hall i hi
    obtain ⟨len, hbs⟩ := hL p hp
    have hlt : i - p.1 < len := by
      rw [hbs] at h2
      simp only [List.length_take] at h2
      omega
    rw [heq, hbs, List.getElem?_take_of_lt hlt, List.getElem?_drop, List.getElem?_take_of_lt hi]
    congr 1
    omega
  · rw [List.getElem?_eq_none (by omega), List.getElem?_eq_none]
    simp only [List.length_take]
    omega

/-- The log of a run holds ranges of the content. -/
theorem range_of_mem_verifiedLog {vfs : Vfs σ H} {w : Receiver σ H} {n : ℕ}
    {whole : List UInt8} (hv : env.verifier.SoundFor req.contentHash whole)
    {p : ℕ × List UInt8} (hp : p ∈ verifiedLog (run vfs env req w n).1) :
    ∃ len, p.2 = (whole.drop p.1).take len := by
  obtain ⟨e, he, hsome⟩ := List.mem_filterMap.mp hp
  rcases e with _ | ⟨off, len, slice, bs⟩
  · exact absurd hsome (by simp)
  · obtain rfl := Option.some.inj hsome
    exact ⟨len, (hv _ _ _ _ (verified_of_mem_run vfs w n he)).1⟩

/-- An absent or an empty partial file is trusted. -/
theorem trusted_of_fresh {s : σ}
    (h : B.content s (partialFile req) = none ∨ B.content s (partialFile req) = some []) :
    Trusted req [] (staged B req s) := by
  rcases h with h | h
  · simpa only [staged, h, Option.getD_none] using trusted_nil req []
  · simpa only [staged, h, Option.getD_some] using trusted_nil req []

/-- **Received content is the offered content.** From an absent or empty partial file,
whatever bytes the peer sends and wherever its stream ends, a session that reports a path
has placed a file there with exactly the announced number of bytes, every one of which
verification returned for that content hash at that byte's own offset: the file is the
front part of the content of that length. -/
theorem placed_bytes_are_verified (B : ByteStore vfs) {whole : List UInt8}
    (hv : env.verifier.SoundFor req.contentHash whole) {store : σ}
    (hfresh : B.content store (partialFile req) = none ∨
      B.content store (partialFile req) = some [])
    (dataRecv : RecvStream) (dataSend controlSend : SendStream) (n : ℕ) (path : RelPath)
    (hdone : (run vfs env req (start store dataRecv dataSend controlSend) n).2.phase =
      .done (.ok path)) :
    ∃ c, B.content (run vfs env req (start store dataRecv dataSend controlSend) n).2.store path =
        some c ∧
      c.length = req.totalBytes.toNat ∧
      (∀ i < req.totalBytes.toNat, ∃ off len slice bs,
        .verified off len slice bs ∈
          (run vfs env req (start store dataRecv dataSend controlSend) n).1 ∧
        env.verifier.verify req.contentHash off len slice = .ok bs ∧
        off ≤ i ∧ i < off + len ∧ (c)[i]? = bs[i - off]?) ∧
      c = whole.take req.totalBytes.toNat := by
  have h0 : PhaseInv B req [] store (.creatingDir : ReceivePhase H) := trusted_of_fresh hfresh
  have hrun := phaseInv_run (w := start store dataRecv dataSend controlSend) hv h0 n
  rw [hdone, List.nil_append] at hrun
  obtain ⟨c, hcont, hlen, hall⟩ := hrun
  exact ⟨c, hcont, hlen, fun i hi => exists_verified_of_vouched hv (hall i hi),
    eq_take_of_vouched hlen (fun p hp => range_of_mem_verifiedLog hv hp) hall⟩

/-- The two bytes arrive in one piece, and are placed. -/
theorem placed_bytes_are_verified_two_bytes :
    (TwoBytes.after TwoBytes.tree (TwoBytes.peer 0) 12).2.phase = .done (.ok TwoBytes.dest) ∧
      ∃ c, PosixVfs.content (TwoBytes.after TwoBytes.tree (TwoBytes.peer 0) 12).2.store
          TwoBytes.dest = some c ∧ c.length = 2 ∧ c = TwoBytes.whole := by
  have hdone : (TwoBytes.after TwoBytes.tree (TwoBytes.peer 0) 12).2.phase =
      .done (.ok TwoBytes.dest) :=
    ReceivePhase.result?_eq_some.mp (by decide +kernel)
  obtain ⟨c, hcont, hlen, -, hwhole⟩ := placed_bytes_are_verified PosixVfs.byteStore
    TwoBytes.verifier_sound (.inl (by decide)) (TwoBytes.peer 0) .fresh .fresh 12 TwoBytes.dest
    hdone
  exact ⟨hdone, c, hcont, hlen, hwhole⟩

/-! ### A killed session and the one after it -/

/-- The phases before anything is requested. -/
def Early : ReceivePhase H → Prop
  | .creatingDir | .opening | .deriving _ => True
  | _ => False

/-- An early phase is reached from an early phase, and nothing is verified on the way. -/
theorem early_step (h : Early (step vfs env req w).2.phase)
    (hne : ∀ result, w.phase ≠ .done result) :
    Early w.phase ∧ (step vfs env req w).1 = .silent := by
  unfold step at h ⊢
  split at h <;> rename_i hphase <;> rw [hphase] <;> try exact ⟨trivial, rfl⟩
  all_goals exfalso
  · obtain ⟨-, ⟨why, hp⟩ | hp | ⟨hc, p, hp⟩ | ⟨count, hp⟩⟩ :=
      stepRequesting_cases env req w _ _ _ <;> rw [hp] at h <;> exact h
  · obtain ⟨-, ⟨-, ⟨why, hp⟩ | hp⟩ | ⟨p, -, -, hp⟩⟩ := stepReceiving_cases env req w _ <;>
      rw [hp] at h <;> exact h
  · obtain ⟨-, ⟨e, -, hp⟩ | ⟨-, hp⟩⟩ := stepStoring_cases vfs w _ _ _ <;> rw [hp] at h <;>
      exact h
  · obtain ⟨-, ⟨why, hp⟩ | ⟨r', -, hp | hp⟩⟩ := stepSyncing_cases vfs w _ _ _ <;>
      rw [hp] at h <;> exact h
  · obtain ⟨-, ⟨why, hp⟩ | hp | ⟨next, hp⟩⟩ := stepProbing_cases vfs w _ _ _ _ <;>
      rw [hp] at h <;> exact h
  · obtain ⟨-, ⟨-, hp⟩ | ⟨e, -, ⟨why, hp⟩ | hp⟩⟩ := stepRenaming_cases vfs req w _ _ _ <;>
      rw [hp] at h <;> exact h
  · obtain ⟨-, ⟨e, -, hp⟩ | ⟨-, hp⟩⟩ := stepFinish_cases w (.reporting _) <;> rw [hp] at h <;>
      exact h
  · obtain ⟨-, ⟨-, why, hp⟩ | ⟨-, hp⟩⟩ :=
      stepReport_cases env req w (some _) (.done (.ok _)) <;> rw [hp] at h <;> exact h
  · obtain ⟨-, ⟨e, -, hp⟩ | ⟨-, hp⟩⟩ := stepFinish_cases w .reportingFailure <;> rw [hp] at h <;>
      exact h
  · obtain ⟨-, ⟨-, why, hp⟩ | ⟨-, hp⟩⟩ :=
      stepReport_cases env req w none (.cleaningFile .verificationFailed) <;> rw [hp] at h <;>
      exact h
  · obtain ⟨-, ⟨-, hp⟩ | ⟨e, -, -, why, hp⟩⟩ := stepCleaningFile_cases vfs req w _ <;>
      rw [hp] at h <;> exact h
  · obtain ⟨-, e, hp⟩ := stepCleaningDir_cases vfs req w _
    rw [hp] at h
    exact h
  · exact hne _ hphase

/-- Nothing is verified before the first request. -/
theorem verifiedLog_of_early (n : ℕ) (h : Early (run vfs env req w n).2.phase) :
    verifiedLog (run vfs env req w n).1 = [] := by
  induction n with
  | zero => rfl
  | succ n ih =>
      rw [run_succ] at h ⊢
      have hne : ∀ result, (run vfs env req w n).2.phase ≠ .done result := by
        intro result hd
        unfold step at h
        rw [hd] at h
        dsimp only at h
        rw [hd] at h
        exact h
      obtain ⟨hearly, hsilent⟩ := early_step h hne
      rw [verifiedLog_append, hsilent, ih hearly]
      rfl

/-- **Resuming after a session without gaps.** A session that starts from an absent or
empty partial file, never writes past the end of it and is killed after any number of
effects leaves a file whose every byte it had verified; so the chunks the next session
counts from the file's size alone hold bytes the first one verified, and if the next
session reports a path, the file there has exactly the announced bytes, all of them
verified by one of the two. -/
theorem resumed_bytes_are_verified (B : ByteStore vfs) {whole : List UInt8}
    (hv : env.verifier.SoundFor req.contentHash whole) {store : σ}
    (hfresh : B.content store (partialFile req) = none ∨
      B.content store (partialFile req) = some [])
    {first second : Receiver σ H} {dataRecv dataRecv' : RecvStream}
    {dataSend controlSend dataSend' controlSend' : SendStream} {n : ℕ}
    (hfirst : first = start store dataRecv dataSend controlSend)
    (hgap : ∀ m < n, Gapless B req (run vfs env req first m).2)
    (hsecond : second =
      start (run vfs env req first n).2.store dataRecv' dataSend' controlSend') :
    (∀ m handle r k, (run vfs env req second m).2.phase = .deriving handle →
      (run vfs env req second (m + 1)).2.phase = .requesting handle r k →
      ∀ index, r.isChunkVerified index = .ok true →
        ∃ c, B.content (run vfs env req second (m + 1)).2.store (partialFile req) = some c ∧
          ∀ j < r.chunkLen index, ∃ off len slice bs,
            .verified off len slice bs ∈ (run vfs env req first n).1 ∧
            env.verifier.verify req.contentHash off len slice = .ok bs ∧
            off ≤ index * referenceChunkSizeBytes + j ∧
            index * referenceChunkSizeBytes + j < off + len ∧
            (c)[index * referenceChunkSizeBytes + j]? =
              bs[index * referenceChunkSizeBytes + j - off]?) ∧
    ∀ m path, (run vfs env req second m).2.phase = .done (.ok path) →
      ∃ c, B.content (run vfs env req second m).2.store path = some c ∧
        c.length = req.totalBytes.toNat ∧
        (∀ i < req.totalBytes.toNat, ∃ off len slice bs,
          .verified off len slice bs ∈
            (run vfs env req first n).1 ++ (run vfs env req second m).1 ∧
          env.verifier.verify req.contentHash off len slice = .ok bs ∧
          off ≤ i ∧ i < off + len ∧ (c)[i]? = bs[i - off]?) ∧
        c = whole.take req.totalBytes.toNat := by
  subst hfirst
  have h0 : PhaseInv B req [] store (.creatingDir : ReceivePhase H) := trusted_of_fresh hfresh
  have ht := trusted_run hv (w := start store dataRecv dataSend controlSend) h0
    (trusted_of_fresh hfresh) hgap
  rw [List.nil_append] at ht
  set events := (run vfs env req (start store dataRecv dataSend controlSend) n).1
  have h1 : PhaseInv B req (verifiedLog events) second.store second.phase := by
    rw [hsecond]
    exact ht
  constructor
  · intro m handle r k hder hreq index hver
    have hinv := phaseInv_run hv h1 m
    have hlog : verifiedLog (run vfs env req second m).1 = [] :=
      verifiedLog_of_early m (by rw [hder]; trivial)
    rw [hlog, List.append_nil, hder] at hinv
    have hstep := inv_deriving B (w := (run vfs env req second m).2) hinv
    rw [run_succ] at hreq ⊢
    simp only [step, hder] at hreq ⊢
    rw [hreq] at hstep
    obtain ⟨c, ⟨-, hcont⟩, -, -, hs, -⟩ := hstep
    refine ⟨c, hcont, fun j hj => ?_⟩
    have hentry : (r.entry index).verified = true := by
      unfold ItemResumption.isChunkVerified at hver
      split_ifs at hver
      exact Except.ok.inj hver
    exact exists_verified_of_vouched hv (hs.verified index hentry j hj)
  · intro m path hdone
    have hinv := phaseInv_run hv h1 m
    rw [hdone] at hinv
    obtain ⟨c, hcont, hlen, hall⟩ := hinv
    refine ⟨c, hcont, hlen, fun i hi => ?_, eq_take_of_vouched hlen (fun p hp => ?_) hall⟩
    · obtain ⟨p, hp, hrest⟩ := hall i hi
      rcases List.mem_append.mp hp with hp | hp
      · obtain ⟨off, len, slice, bs, hmem, hok⟩ :=
          exists_verified_of_vouched hv ⟨p, hp, hrest⟩
        exact ⟨off, len, slice, bs, List.mem_append_left _ hmem, hok⟩
      · obtain ⟨off, len, slice, bs, hmem, hok⟩ :=
          exists_verified_of_vouched hv ⟨p, hp, hrest⟩
        exact ⟨off, len, slice, bs, List.mem_append_right _ hmem, hok⟩
    · rcases List.mem_append.mp hp with hp | hp
      · exact range_of_mem_verifiedLog hv hp
      · exact range_of_mem_verifiedLog hv hp

/-- The first session is killed between writing the two bytes and syncing them; the second
counts them from the size of the file and places it. -/
theorem resumed_bytes_are_verified_two_bytes :
    (TwoBytes.after (TwoBytes.after TwoBytes.tree (TwoBytes.peer 0) 6).2.store ⟨[], none⟩ 8).2.phase
        = .done (.ok TwoBytes.dest) ∧
      ∃ c, PosixVfs.content
          (TwoBytes.after (TwoBytes.after TwoBytes.tree (TwoBytes.peer 0) 6).2.store
            ⟨[], none⟩ 8).2.store TwoBytes.dest = some c ∧ c = TwoBytes.whole := by
  have hdone : (TwoBytes.after (TwoBytes.after TwoBytes.tree (TwoBytes.peer 0) 6).2.store
      ⟨[], none⟩ 8).2.phase = .done (.ok TwoBytes.dest) :=
    ReceivePhase.result?_eq_some.mp (by decide +kernel)
  have hgap : ∀ m < 6, Gapless PosixVfs.byteStore TwoBytes.req
      (Receiver.run PosixVfs.vfs TwoBytes.env TwoBytes.req
        (TwoBytes.session TwoBytes.tree (TwoBytes.peer 0)) m).2 := by
    intro m hm
    obtain rfl | rfl | rfl | rfl | rfl | rfl :
        m = 0 ∨ m = 1 ∨ m = 2 ∨ m = 3 ∨ m = 4 ∨ m = 5 := by omega
    · trivial
    · trivial
    · trivial
    · trivial
    · trivial
    · exact Nat.zero_le _
  obtain ⟨-, h⟩ := resumed_bytes_are_verified PosixVfs.byteStore TwoBytes.verifier_sound
    (.inl (by decide)) rfl hgap rfl
  obtain ⟨c, hcont, -, -, hwhole⟩ := h 8 TwoBytes.dest hdone
  exact ⟨hdone, c, hcont, hwhole⟩

/-- **The gap is placed.** The peer sends the second of two bytes first, which leaves a
gap of one zero byte; the session is killed, and the next one, to which the peer says
nothing at all, finds the file as long as the item, counts its one chunk as verified and
places it, although no session ever verified the first byte. -/
theorem gap_is_resumed_as_verified :
    TwoBytes.env.verifier.SoundFor TwoBytes.req.contentHash TwoBytes.whole ∧
      PosixVfs.content TwoBytes.tree (partialFile TwoBytes.req) = none ∧
      (TwoBytes.after (TwoBytes.after TwoBytes.tree (TwoBytes.peer 1) 6).2.store
        ⟨[], none⟩ 8).2.phase = .done (.ok TwoBytes.dest) ∧
      PosixVfs.content (TwoBytes.after
        (TwoBytes.after TwoBytes.tree (TwoBytes.peer 1) 6).2.store ⟨[], none⟩ 8).2.store
        TwoBytes.dest = some [0x00, 0x69] ∧
      ¬ ∃ c, PosixVfs.content (TwoBytes.after
          (TwoBytes.after TwoBytes.tree (TwoBytes.peer 1) 6).2.store ⟨[], none⟩ 8).2.store
          TwoBytes.dest = some c ∧
        ∀ i < 2, ∃ off len slice bs, .verified off len slice bs ∈
            (TwoBytes.after TwoBytes.tree (TwoBytes.peer 1) 6).1 ++
              (TwoBytes.after (TwoBytes.after TwoBytes.tree (TwoBytes.peer 1) 6).2.store
                ⟨[], none⟩ 8).1 ∧
          off ≤ i ∧ i < off + len ∧ (c)[i]? = bs[i - off]? := by
  refine ⟨TwoBytes.verifier_sound, by decide,
    ReceivePhase.result?_eq_some.mp (by decide +kernel), by decide +kernel, ?_⟩
  rintro ⟨c, -, hall⟩
  obtain ⟨off, len, slice, bs, hmem, hle, -⟩ := hall 0 (by decide)
  have hevents : (TwoBytes.after TwoBytes.tree (TwoBytes.peer 1) 6).1 ++
      (TwoBytes.after (TwoBytes.after TwoBytes.tree (TwoBytes.peer 1) 6).2.store
        ⟨[], none⟩ 8).1 =
      [.silent, .silent, .silent, .silent, .verified 1 1 TwoBytes.slice [0x69]] ++
        List.replicate 9 .silent := by
    decide +kernel
  rw [hevents] at hmem
  simp only [List.cons_append, List.mem_cons, List.mem_replicate, List.nil_append,
    ReceiveEvent.verified.injEq, reduceCtorEq, and_false, or_false, false_or] at hmem
  omega

end Invariant

end Receiver

end Tradr
