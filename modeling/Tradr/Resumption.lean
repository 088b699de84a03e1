import Mathlib.Data.Finset.Card
import Mathlib.Data.Finset.Range
import Tradr.DataPlane
import Tradr.IntervalSet

/-!
# Transfer Resumption

`ItemResumption` tracks one Item at reference chunk boundaries: for each chunk that was
touched, whether it is verified, how often it failed and which byte ranges of it have
arrived; and over all chunks, how many are verified.

`Sound r P` says what such a tracker may be trusted for: every byte it counts as present
satisfies `P`, and the counter is the number of verified chunks. Each operation keeps it,
and a tracker that reports the item complete vouches for every byte (`Sound.complete`).

## Main results

* `ItemResumption.mod_lt_chunkLen`, `ItemResumption.chunk_end_le`: the chunks tile the item.
* `ItemResumption.Sound.recordPiece`, `ItemResumption.Sound.markVerified`: the operations
  keep soundness.
* `ItemResumption.Sound.complete`: a complete item has every byte present.
-/

namespace Tradr

/-- Why progress was not recorded. -/
inductive ResumptionError
  | chunkOutOfBounds (index totalChunks : ℕ)
  | pieceOutOfBounds (index offsetInChunk payloadLen chunkSize : ℕ)
  deriving DecidableEq, Repr

/-- What is known about one chunk. -/
structure ChunkState where
  verified : Bool
  failedAttempts : ℕ
  ranges : List (ℕ × ℕ)
  deriving DecidableEq, Repr

/-- A chunk nothing was recorded for. -/
def ChunkState.initial : ChunkState :=
  ⟨false, 0, []⟩

/-- Chunk-level reception, verification and piece assembly for an item. -/
structure ItemResumption where
  itemId : ItemId
  totalBytes : ℕ
  totalChunks : ℕ
  chunks : ℕ → Option ChunkState
  verifiedChunksCount : ℕ

namespace ItemResumption

/-- How many reference chunks an item of this length has. -/
def chunkCount (totalBytes : ℕ) : ℕ :=
  if totalBytes = 0 then 0
  else (totalBytes + (referenceChunkSizeBytes - 1)) / referenceChunkSizeBytes

/-- A tracker for an item of the given length. -/
def new (itemId : ItemId) (totalBytes : ℕ) : ItemResumption :=
  ⟨itemId, totalBytes, chunkCount totalBytes, fun _ => none, 0⟩

/-- The expected size of a chunk: the last one may be shorter. -/
def chunkLen (r : ItemResumption) (index : ℕ) : ℕ :=
  if index + 1 = r.totalChunks then
    if r.totalBytes % referenceChunkSizeBytes = 0 then referenceChunkSizeBytes
    else r.totalBytes % referenceChunkSizeBytes
  else referenceChunkSizeBytes

/-- The expected size of a chunk inside the item. -/
def chunkSize (r : ItemResumption) (index : ℕ) : Except ResumptionError ℕ :=
  if index ≥ r.totalChunks then .error (.chunkOutOfBounds index r.totalChunks)
  else .ok (r.chunkLen index)

/-- The state of a chunk, created on first use. -/
def entry (r : ItemResumption) (index : ℕ) : ChunkState :=
  (r.chunks index).getD .initial

/-- Replace the state of a chunk. -/
def setEntry (r : ItemResumption) (index : ℕ) (state : ChunkState) : ItemResumption :=
  { r with chunks := Function.update r.chunks index (some state) }

/-- All byte ranges of the chunk are present as one. -/
def coversChunk (state : ChunkState) (chunkSz : ℕ) : Bool :=
  state.ranges = [(0, chunkSz)]

/-- Record a received piece of a chunk; whether the chunk is complete now. -/
def recordPiece (r : ItemResumption) (index offsetInChunk payloadLen : ℕ) :
    Except ResumptionError Bool × ItemResumption :=
  match r.chunkSize index with
  | .error e => (.error e, r)
  | .ok chunkSz =>
    if offsetInChunk + payloadLen > chunkSz then
      (.error (.pieceOutOfBounds index offsetInChunk payloadLen chunkSz), r)
    else
      let state := r.entry index
      if state.verified then (.ok true, r.setEntry index state)
      else
        let state' :=
          if payloadLen > 0 then
            { state with
              ranges := IntervalSet.insert state.ranges offsetInChunk
                (offsetInChunk + payloadLen) }
          else state
        (.ok (coversChunk state' chunkSz), r.setEntry index state')

/-- Mark a chunk as cryptographically verified. -/
def markVerified (r : ItemResumption) (index : ℕ) :
    Except ResumptionError Unit × ItemResumption :=
  match r.chunkSize index with
  | .error e => (.error e, r)
  | .ok chunkSz =>
    let state := r.entry index
    if state.verified then (.ok (), r.setEntry index state)
    else
      (.ok (),
        { r.setEntry index { state with verified := true, ranges := [(0, chunkSz)] } with
          verifiedChunksCount := r.verifiedChunksCount + 1 })

/-- Forget what arrived of a chunk that did not verify, and count the failure. -/
def markFailed (r : ItemResumption) (index : ℕ) : Except ResumptionError ℕ × ItemResumption :=
  if index ≥ r.totalChunks then (.error (.chunkOutOfBounds index r.totalChunks), r)
  else
    let state := r.entry index
    let failedAttempts := min (state.failedAttempts + 1) (UInt32.size - 1)
    (.ok failedAttempts,
      { r.setEntry index ⟨false, failedAttempts, []⟩ with
        verifiedChunksCount :=
          if state.verified then r.verifiedChunksCount - 1 else r.verifiedChunksCount })

/-- Whether all bytes of a chunk arrived. -/
def isChunkComplete (r : ItemResumption) (index : ℕ) : Except ResumptionError Bool :=
  match r.chunkSize index with
  | .error e => .error e
  | .ok chunkSz =>
    match r.chunks index with
    | some state => .ok (state.verified || coversChunk state chunkSz)
    | none => .ok false

/-- Whether a chunk passed verification. -/
def isChunkVerified (r : ItemResumption) (index : ℕ) : Except ResumptionError Bool :=
  if index ≥ r.totalChunks then .error (.chunkOutOfBounds index r.totalChunks)
  else .ok (r.entry index).verified

/-- All chunks are verified, or there is nothing to receive. -/
def isItemComplete (r : ItemResumption) : Bool :=
  r.totalBytes = 0 ∨ r.verifiedChunksCount = r.totalChunks

/-- A chunk is worth asking for: not verified, and not failed three times. -/
def isChunkRequestable (r : ItemResumption) (index : ℕ) : Bool :=
  match r.chunks index with
  | some s => !s.verified && s.failedAttempts < 3
  | none => true

/-- The first requestable chunk at or after `index`, looking at `n` chunks. -/
def firstRequestable (r : ItemResumption) : ℕ → ℕ → Option ℕ
  | 0, _ => none
  | n + 1, index =>
    if r.isChunkRequestable index then some index else firstRequestable r n (index + 1)

/-- How many chunks from `index` on are requestable without a gap, at most `n`. -/
def requestableRun (r : ItemResumption) : ℕ → ℕ → ℕ
  | 0, _ => 0
  | n + 1, index =>
    if index < r.totalChunks ∧ r.isChunkRequestable index then
      requestableRun r n (index + 1) + 1
    else 0

/-- The next contiguous batch of unverified chunks to request. -/
def nextChunkRequest (r : ItemResumption) (maxCount : ℕ) : Option (ℕ × ℕ) :=
  if maxCount = 0 ∨ r.totalChunks = 0 ∨ r.isItemComplete then none
  else
    match r.firstRequestable r.totalChunks 0 with
    | none => none
    | some fromChunk =>
      let count := r.requestableRun maxCount fromChunk
      if count = 0 then none else some (fromChunk, count)

/-- All chunks worth asking for. -/
def missingChunks (r : ItemResumption) : List ℕ :=
  if r.totalChunks = 0 ∨ r.isItemComplete then []
  else (List.range r.totalChunks).filter r.isChunkRequestable

/-- Add the lengths of some ranges to a total. -/
def addRanges (total : ℕ) (ranges : List (ℕ × ℕ)) : ℕ :=
  ranges.foldl (fun total range => min (total + (range.2 - range.1)) (UInt64.size - 1)) total

/-- How many bytes arrived, in verified chunks and in others. -/
def bytesReceived (r : ItemResumption) : ℕ :=
  (List.range r.totalChunks).foldl (fun total index => addRanges total (r.entry index).ranges) 0

/-! ### The chunks tile the item -/

/-- A byte below the length lies in one of the chunks. -/
theorem div_lt_chunkCount {total i : ℕ} (hi : i < total) :
    i / referenceChunkSizeBytes < chunkCount total := by
  have hR := referenceChunkSizeBytes_pos
  rw [chunkCount, if_neg (by omega)]
  rw [Nat.lt_iff_add_one_le, Nat.le_div_iff_mul_le hR, Nat.succ_mul]
  have := Nat.div_mul_le_self i referenceChunkSizeBytes
  omega

/-- The number of chunks, from the length: the last one starts inside the item. -/
theorem chunkCount_spec {total : ℕ} (h : 0 < total) :
    (chunkCount total - 1) * referenceChunkSizeBytes < total ∧
      total ≤ chunkCount total * referenceChunkSizeBytes ∧ 0 < chunkCount total := by
  have hR := referenceChunkSizeBytes_pos
  have hpos : 0 < chunkCount total := lt_of_le_of_lt (Nat.zero_le _) (div_lt_chunkCount h)
  rw [chunkCount, if_neg (by omega)] at hpos ⊢
  have hle := Nat.div_mul_le_self (total + (referenceChunkSizeBytes - 1))
    referenceChunkSizeBytes
  have hlt := Nat.lt_div_mul_add (a := total + (referenceChunkSizeBytes - 1)) hR
  refine ⟨?_, by omega, hpos⟩
  rw [Nat.sub_mul, Nat.one_mul]
  omega

/-- The chunk a byte lies in reaches beyond the byte. -/
theorem mod_lt_chunkLen {r : ItemResumption} (hr : r.totalChunks = chunkCount r.totalBytes)
    {i : ℕ} (hi : i < r.totalBytes) :
    i % referenceChunkSizeBytes < r.chunkLen (i / referenceChunkSizeBytes) := by
  have hR := referenceChunkSizeBytes_pos
  have hmod := Nat.mod_lt i hR
  unfold chunkLen
  split_ifs with hlast hdvd
  · exact hmod
  · obtain ⟨h1, h2, -⟩ := chunkCount_spec (Nat.lt_of_le_of_lt (Nat.zero_le i) hi)
    have hi' := Nat.div_add_mod' i referenceChunkSizeBytes
    have ht := Nat.div_add_mod' r.totalBytes referenceChunkSizeBytes
    have hq : i / referenceChunkSizeBytes = r.totalBytes / referenceChunkSizeBytes := by
      rw [← hr, ← hlast, Nat.add_sub_cancel] at h1
      rw [← hr, ← hlast, Nat.succ_mul] at h2
      refine (Nat.div_eq_of_lt_le h1.le ?_).symm
      rw [Nat.succ_mul]
      refine lt_of_le_of_ne h2 fun heq => hdvd ?_
      rw [heq, ← Nat.succ_mul, Nat.mul_mod_left]
    rw [hq] at hi'
    omega
  · exact hmod

/-- A chunk ends inside the item. -/
theorem chunk_end_le {r : ItemResumption} (hr : r.totalChunks = chunkCount r.totalBytes)
    {index : ℕ} (hi : index < r.totalChunks) :
    index * referenceChunkSizeBytes + r.chunkLen index ≤ r.totalBytes := by
  have hpos : 0 < r.totalBytes := by
    rcases Nat.eq_zero_or_pos r.totalBytes with h | h
    · rw [hr, h, chunkCount, if_pos rfl] at hi
      omega
    · exact h
  obtain ⟨h1, h2, h3⟩ := chunkCount_spec hpos
  rw [← hr] at h1 h2 h3
  have ht := Nat.div_add_mod' r.totalBytes referenceChunkSizeBytes
  have hR := referenceChunkSizeBytes_pos
  unfold chunkLen
  split_ifs with hlast hdvd
  · rw [← hlast, Nat.add_sub_cancel] at h1
    obtain ⟨q, hq⟩ := Nat.dvd_of_mod_eq_zero hdvd
    rw [hq, Nat.mul_comm _ q] at h1 ⊢
    have hlt : index + 1 ≤ q := Nat.lt_of_mul_lt_mul_right h1
    rw [← Nat.succ_mul]
    exact Nat.mul_le_mul_right _ hlt
  · rw [← hlast, Nat.add_sub_cancel] at h1
    have hle : index ≤ r.totalBytes / referenceChunkSizeBytes :=
      (Nat.le_div_iff_mul_le hR).mpr h1.le
    have := Nat.mul_le_mul_right referenceChunkSizeBytes hle
    omega
  · have hlt : index + 1 ≤ r.totalChunks - 1 := by omega
    have := Nat.mul_le_mul_right referenceChunkSizeBytes hlt
    rw [Nat.succ_mul] at this
    omega

/-! ### What a tracker vouches for -/

@[simp] theorem entry_setEntry_self (r : ItemResumption) (index : ℕ) (state : ChunkState) :
    (r.setEntry index state).entry index = state := by
  simp [entry, setEntry]

theorem entry_setEntry_of_ne (r : ItemResumption) {index i : ℕ} (state : ChunkState)
    (h : i ≠ index) : (r.setEntry index state).entry i = r.entry i := by
  simp [entry, setEntry, Function.update_of_ne h]

/-- A tracker vouches for `P`: every byte it counts as present satisfies `P`, and the
counter is the number of verified chunks. -/
structure Sound (r : ItemResumption) (P : ℕ → Prop) : Prop where
  totalChunks_eq : r.totalChunks = chunkCount r.totalBytes
  ranges : ∀ index j, IntervalSet.Covers (r.entry index).ranges j →
    P (index * referenceChunkSizeBytes + j)
  verified : ∀ index, (r.entry index).verified = true → ∀ j < r.chunkLen index,
    P (index * referenceChunkSizeBytes + j)
  count : r.verifiedChunksCount =
    ((Finset.range r.totalChunks).filter fun i => (r.entry i).verified = true).card

/-- A new tracker vouches for nothing. -/
theorem sound_new (itemId : ItemId) (totalBytes : ℕ) (P : ℕ → Prop) :
    (new itemId totalBytes).Sound P := by
  constructor
  · rfl
  · intro index j h
    simp [new, entry, ChunkState.initial] at h
  · intro index h
    simp [new, entry, ChunkState.initial] at h
  · simp [new, entry, ChunkState.initial]

/-- A weaker fact is vouched for as well. -/
theorem Sound.mono {r : ItemResumption} {P Q : ℕ → Prop} (h : r.Sound P)
    (hPQ : ∀ i, P i → Q i) : r.Sound Q :=
  ⟨h.totalChunks_eq, fun index j hj => hPQ _ (h.ranges index j hj),
    fun index hv j hj => hPQ _ (h.verified index hv j hj), h.count⟩

/-- Replacing a chunk's state by one that is as verified as before and covers only bytes
that satisfy `P` keeps soundness. -/
theorem Sound.setEntry {r : ItemResumption} {P : ℕ → Prop} (h : r.Sound P) {index : ℕ}
    {state : ChunkState} (hv : state.verified = (r.entry index).verified)
    (hr : ∀ j, IntervalSet.Covers state.ranges j →
      P (index * referenceChunkSizeBytes + j)) :
    (r.setEntry index state).Sound P := by
  have hver : ∀ i, ((r.setEntry index state).entry i).verified = (r.entry i).verified := by
    intro i
    rcases eq_or_ne i index with rfl | hi
    · rw [entry_setEntry_self, hv]
    · rw [entry_setEntry_of_ne _ _ hi]
  constructor
  · exact h.totalChunks_eq
  · intro i j hj
    rcases eq_or_ne i index with rfl | hi
    · rw [entry_setEntry_self] at hj
      exact hr j hj
    · rw [entry_setEntry_of_ne _ _ hi] at hj
      exact h.ranges i j hj
  · intro i hi j hj
    rw [hver] at hi
    exact h.verified i hi j hj
  · simp only [hver]
    exact h.count

/-- What recording a piece can do. -/
theorem recordPiece_cases (r : ItemResumption) (index off len : ℕ) :
    (∃ e, r.recordPiece index off len = (.error e, r)) ∨
      (index < r.totalChunks ∧ off + len ≤ r.chunkLen index ∧
        (r.entry index).verified = true ∧
        r.recordPiece index off len = (.ok true, r.setEntry index (r.entry index))) ∨
      (index < r.totalChunks ∧ off + len ≤ r.chunkLen index ∧
        ∃ state : ChunkState, state.verified = (r.entry index).verified ∧
          (∀ j, IntervalSet.Covers state.ranges j →
            (off ≤ j ∧ j < off + len) ∨ IntervalSet.Covers (r.entry index).ranges j) ∧
          r.recordPiece index off len =
            (.ok (coversChunk state (r.chunkLen index)), r.setEntry index state)) := by
  unfold recordPiece chunkSize
  by_cases hi : index ≥ r.totalChunks
  · exact .inl ⟨_, by rw [if_pos hi]⟩
  · rw [if_neg hi]
    dsimp only
    by_cases hlen : off + len > r.chunkLen index
    · exact .inl ⟨_, by rw [if_pos hlen]⟩
    · rw [if_neg hlen]
      by_cases hv : (r.entry index).verified = true
      · exact .inr (.inl ⟨by omega, by omega, hv, by rw [if_pos hv]⟩)
      · rw [if_neg hv]
        refine .inr (.inr ⟨by omega, by omega, _, ?_, ?_, rfl⟩)
        · split_ifs <;> rfl
        · intro j hj
          split_ifs at hj
          · exact IntervalSet.covers_insert hj
          · exact .inr hj

/-- Recording a piece whose bytes satisfy `P` keeps soundness. -/
theorem Sound.recordPiece {r : ItemResumption} {P : ℕ → Prop} (h : r.Sound P)
    {index off len : ℕ}
    (hP : ∀ j, off ≤ j → j < off + len → P (index * referenceChunkSizeBytes + j)) :
    (r.recordPiece index off len).2.Sound P := by
  rcases r.recordPiece_cases index off len with
    ⟨e, he⟩ | ⟨-, -, -, he⟩ | ⟨-, -, state, hv, hr, he⟩
  · rw [he]
    exact h
  · rw [he]
    exact h.setEntry rfl (h.ranges index)
  · rw [he]
    refine h.setEntry hv fun j hj => ?_
    rcases hr j hj with ⟨h1, h2⟩ | hj
    · exact hP j h1 h2
    · exact h.ranges index j hj

/-- When recording reports the chunk complete, every byte of it is present. -/
theorem Sound.of_recordPiece_true {r : ItemResumption} {P : ℕ → Prop} (h : r.Sound P)
    {index off len : ℕ}
    (hP : ∀ j, off ≤ j → j < off + len → P (index * referenceChunkSizeBytes + j))
    (hok : (r.recordPiece index off len).1 = .ok true) :
    ∀ j < r.chunkLen index, P (index * referenceChunkSizeBytes + j) := by
  intro j hj
  have hs := h.recordPiece hP
  rcases r.recordPiece_cases index off len with
    ⟨e, he⟩ | ⟨-, -, hv, -⟩ | ⟨-, -, state, -, -, he⟩
  · rw [he] at hok
    exact absurd hok (by simp)
  · exact h.verified index hv j hj
  · rw [he] at hok hs
    have hc : state.ranges = [(0, r.chunkLen index)] := by
      simpa [coversChunk] using Except.ok.inj hok
    have := hs.ranges index j
    rw [entry_setEntry_self, hc] at this
    exact this (by simp [hj])

/-- Marking a chunk whose bytes all satisfy `P` keeps soundness. -/
theorem Sound.markVerified {r : ItemResumption} {P : ℕ → Prop} (h : r.Sound P) {index : ℕ}
    (hP : ∀ j < r.chunkLen index, P (index * referenceChunkSizeBytes + j)) :
    (r.markVerified index).2.Sound P := by
  unfold ItemResumption.markVerified chunkSize
  by_cases hi : index ≥ r.totalChunks
  · rw [if_pos hi]
    exact h
  · rw [if_neg hi]
    dsimp only
    by_cases hv : (r.entry index).verified = true
    · rw [if_pos hv]
      exact h.setEntry rfl (h.ranges index)
    · rw [if_neg hv]
      set state : ChunkState :=
        { r.entry index with verified := true, ranges := [(0, r.chunkLen index)] }
      have hcov : ∀ j, IntervalSet.Covers state.ranges j →
          P (index * referenceChunkSizeBytes + j) := fun j hj => hP j (by simpa [state] using hj)
      have hent : ∀ i, i ≠ index →
          (r.setEntry index state).entry i = r.entry i :=
        fun i hne => entry_setEntry_of_ne r state hne
      constructor
      · exact h.totalChunks_eq
      · intro i j hj
        rcases eq_or_ne i index with rfl | hne
        · exact hcov j (by simpa [ItemResumption.setEntry, entry] using hj)
        · exact h.ranges i j (by rw [← hent i hne]; exact hj)
      · intro i hiv j hj
        rcases eq_or_ne i index with rfl | hne
        · exact hP j hj
        · exact h.verified i (by rw [← hent i hne]; exact hiv) j hj
      · have hfilter : ((Finset.range r.totalChunks).filter
            fun i => ((r.setEntry index state).entry i).verified = true) =
            insert index ((Finset.range r.totalChunks).filter
              fun i => (r.entry i).verified = true) := by
          ext i
          rcases eq_or_ne i index with rfl | hne
          · simp [state, not_le.mp hi]
          · simp [hent i hne, hne]
        have hcard : r.verifiedChunksCount + 1 = ((Finset.range r.totalChunks).filter
            fun i => ((r.setEntry index state).entry i).verified = true).card := by
          rw [hfilter, Finset.card_insert_of_notMem (by simp [hv]), h.count]
        exact hcard

/-- A tracker that reports a non-empty item complete vouches for every byte of it. -/
theorem Sound.complete {r : ItemResumption} {P : ℕ → Prop} (h : r.Sound P)
    (hc : r.isItemComplete = true) {i : ℕ} (hi : i < r.totalBytes) : P i := by
  have hcount : r.verifiedChunksCount = r.totalChunks := by
    rcases of_decide_eq_true hc with h0 | h0
    · omega
    · exact h0
  have hall : ((Finset.range r.totalChunks).filter fun i => (r.entry i).verified = true) =
      Finset.range r.totalChunks := by
    refine Finset.eq_of_subset_of_card_le (Finset.filter_subset _ _) ?_
    rw [← h.count, hcount, Finset.card_range]
  have hlt : i / referenceChunkSizeBytes < r.totalChunks := by
    rw [h.totalChunks_eq]
    exact div_lt_chunkCount hi
  have hv : (r.entry (i / referenceChunkSizeBytes)).verified = true :=
    Finset.filter_eq_self.mp hall _ (Finset.mem_range.mpr hlt)
  have := h.verified _ hv _ (mod_lt_chunkLen h.totalChunks_eq hi)
  rwa [Nat.div_add_mod'] at this

/-! ### What the operations leave alone -/

@[simp] theorem recordPiece_totalBytes (r : ItemResumption) (index off len : ℕ) :
    (r.recordPiece index off len).2.totalBytes = r.totalBytes := by
  rcases r.recordPiece_cases index off len with
    ⟨e, he⟩ | ⟨-, -, -, he⟩ | ⟨-, -, state, -, -, he⟩ <;> rw [he] <;> rfl

@[simp] theorem recordPiece_totalChunks (r : ItemResumption) (index off len : ℕ) :
    (r.recordPiece index off len).2.totalChunks = r.totalChunks := by
  rcases r.recordPiece_cases index off len with
    ⟨e, he⟩ | ⟨-, -, -, he⟩ | ⟨-, -, state, -, -, he⟩ <;> rw [he] <;> rfl

/-- Recording keeps the length of every chunk. -/
theorem recordPiece_chunkLen (r : ItemResumption) (index off len i : ℕ) :
    (r.recordPiece index off len).2.chunkLen i = r.chunkLen i := by
  simp [chunkLen]

@[simp] theorem markVerified_totalBytes (r : ItemResumption) (index : ℕ) :
    (r.markVerified index).2.totalBytes = r.totalBytes := by
  unfold ItemResumption.markVerified
  split
  · rfl
  · dsimp only
    split_ifs <;> rfl

end ItemResumption

end Tradr
