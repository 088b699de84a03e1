import Mathlib.Algebra.BigOperators.Group.Finset.Basic
import Mathlib.Algebra.Order.BigOperators.Group.Finset
import Tradr.Checked
import Tradr.ResumptionHistory

/-!
# The Accounting of a Resumption Tracker

What a tracker counts and what it asks for next, against the history of its calls: the chunk sizes
add up to the item, the counters count what the history says, the next request is the longest run
of requestable chunks from the first one, and no step of the arithmetic overflows.

For the last the functions of the tracker are written a second time with checked arithmetic
(`chunkSizeChecked` and the others): they have a value, and it is that of the function.

## Main definitions

* `Requestable`: a chunk that is worth asking for, by its history.
* `FirstRun`: the longest run of such chunks from the first one, up to a bound.
* `ItemResumption.Accounts`: everything a tracker counts is exact.

## Main results

* `ItemResumption.sum_sizeOfChunk`: the chunk sizes add up to the item.
* `ItemResumption.accounts_run`: the accounting is exact after any calls.
-/

namespace Tradr

/-- A chunk worth asking for: it exists, is not verified, and failed less than three times. -/
def Requestable (total : ℕ) (calls : List Call) (index : ℕ) : Prop :=
  index < ItemResumption.chunkCount total ∧ verifiedAfter total index calls = false ∧
    failures total index calls < 3

instance (total : ℕ) (calls : List Call) : DecidablePred (Requestable total calls) :=
  fun index => inferInstanceAs (Decidable (index < ItemResumption.chunkCount total ∧
    verifiedAfter total index calls = false ∧ failures total index calls < 3))

/-- The longest run of at most `most` requestable chunks from the first requestable one. -/
structure FirstRun (total : ℕ) (calls : List Call) (most first count : ℕ) : Prop where
  smallest : ∀ index < first, ¬Requestable total calls index
  pos : 0 < count
  le_most : count ≤ most
  run : ∀ k < count, Requestable total calls (first + k)
  longest : count < most → ¬Requestable total calls (first + count)

/-- There is at most one such run. -/
theorem FirstRun.unique {total : ℕ} {calls : List Call} 
    {most first count first' count' : ℕ}
    (h : FirstRun total calls most first count) (h' : FirstRun total calls most first' count') :
    first = first' ∧ count = count' := by
  have hreq := h.run 0 h.pos
  have hreq' := h'.run 0 h'.pos
  rw [Nat.add_zero] at hreq hreq'
  have hfirst : first = first' := by
    rcases lt_trichotomy first first' with hlt | heq | hgt
    · exact absurd hreq (h'.smallest first hlt)
    · exact heq
    · exact absurd hreq' (h.smallest first' hgt)
  subst hfirst
  refine ⟨rfl, ?_⟩
  rcases lt_trichotomy count count' with hlt | heq | hgt
  · exact absurd (h'.run count hlt) (h.longest (lt_of_lt_of_le hlt h'.le_most))
  · exact heq
  · exact absurd (h.run count' hgt) (h'.longest (lt_of_lt_of_le hgt h.le_most))

namespace ItemResumption

/-! ### The functions with checked arithmetic -/

/-- The number of chunks of a new tracker: the quotient, and one more for a remainder. -/
def chunkCountChecked (total : ℕ) : Option ℕ :=
  if total = 0 then some 0
  else if total % referenceChunkSizeBytes = 0 then some (total / referenceChunkSizeBytes)
  else Checked.add UInt64.size (total / referenceChunkSizeBytes) 1

/-- The expected size of a chunk inside the item. -/
def chunkSizeChecked (r : ItemResumption) (index : ℕ) : Option (Except ResumptionError ℕ) :=
  if index ≥ r.totalChunks then some (.error (.chunkOutOfBounds index r.totalChunks))
  else do
    let next ← Checked.add UInt64.size index 1
    let size ← Checked.cast UInt32.size <|
      if next = r.totalChunks then
        if r.totalBytes % referenceChunkSizeBytes = 0 then referenceChunkSizeBytes
        else r.totalBytes % referenceChunkSizeBytes
      else referenceChunkSizeBytes
    return .ok size

/-- Record a received piece of a chunk; a piece whose end overflows lies outside. -/
def recordPieceChecked (r : ItemResumption) (index offsetInChunk payloadLen : ℕ) :
    Option (Except ResumptionError Bool × ItemResumption) := do
  match ← r.chunkSizeChecked index with
  | .error e => return (.error e, r)
  | .ok chunkSz =>
    match Checked.add UInt32.size offsetInChunk payloadLen with
    | none => return (.error (.pieceOutOfBounds index offsetInChunk payloadLen chunkSz), r)
    | some endOffset =>
      if endOffset > chunkSz then
        return (.error (.pieceOutOfBounds index offsetInChunk payloadLen chunkSz), r)
      else
        let state := r.entry index
        if state.verified then return (.ok true, r.setEntry index state)
        else if payloadLen > 0 then
          let _ ← Checked.add UInt32.size state.ranges.length 1
          let state' := { state with
            ranges := IntervalSet.insert state.ranges offsetInChunk endOffset }
          return (.ok (coversChunk state' chunkSz), r.setEntry index state')
        else return (.ok (coversChunk state chunkSz), r.setEntry index state)

/-- Mark a chunk as cryptographically verified. -/
def markVerifiedChecked (r : ItemResumption) (index : ℕ) :
    Option (Except ResumptionError Unit × ItemResumption) := do
  match ← r.chunkSizeChecked index with
  | .error e => return (.error e, r)
  | .ok chunkSz =>
    let state := r.entry index
    if state.verified then return (.ok (), r.setEntry index state)
    else
      let count ← Checked.add UInt64.size r.verifiedChunksCount 1
      return (.ok (),
        { r.setEntry index { state with verified := true, ranges := [(0, chunkSz)] } with
          verifiedChunksCount := count })

/-- Forget what arrived of a chunk; the counter is never taken below zero. -/
def markFailedChecked (r : ItemResumption) (index : ℕ) :
    Option (Except ResumptionError ℕ × ItemResumption) :=
  if index ≥ r.totalChunks then some (.error (.chunkOutOfBounds index r.totalChunks), r)
  else do
    let state := r.entry index
    let failedAttempts := min (state.failedAttempts + 1) (UInt32.size - 1)
    let count ← if state.verified then Checked.sub r.verifiedChunksCount 1
      else some r.verifiedChunksCount
    return (.ok failedAttempts,
      { r.setEntry index ⟨false, failedAttempts, []⟩ with verifiedChunksCount := count })

/-- How many bytes arrived; the total never reaches the end of its range. -/
def bytesReceivedChecked (r : ItemResumption) : Option ℕ :=
  ((List.range r.totalChunks).flatMap fun index => (r.entry index).ranges).foldlM
    (fun total range => do Checked.add UInt64.size total (← Checked.sub range.2 range.1)) 0

/-- The loop over the chunks from the first one on that are requestable without a gap. -/
def requestableRunChecked (r : ItemResumption) (first : ℕ) : ℕ → ℕ → Option ℕ
  | 0, count => some count
  | n + 1, count => do
    let index ← Checked.add UInt64.size first count
    if index < r.totalChunks ∧ r.isChunkRequestable index then
      r.requestableRunChecked first n (← Checked.add UInt32.size count 1)
    else return count

/-- The next contiguous batch of unverified chunks to request. -/
def nextChunkRequestChecked (r : ItemResumption) (maxCount : ℕ) : Option (Option (ℕ × ℕ)) :=
  if maxCount = 0 ∨ r.totalChunks = 0 ∨ r.isItemComplete then some none
  else
    match r.firstRequestable r.totalChunks 0 with
    | none => some none
    | some fromChunk => do
      let count ← r.requestableRunChecked fromChunk maxCount 0
      return if count = 0 then none else some (fromChunk, count)

/-! ### The sizes of the chunks -/

/-- The first chunks hold the first bytes of the item. -/
theorem sum_range_sizeOfChunk (total n : ℕ) :
    ∑ index ∈ Finset.range n, sizeOfChunk total index = min total (n * referenceChunkSizeBytes) := by
  induction n with
  | zero => simp
  | succ n ih =>
    rw [Finset.sum_range_succ, ih, Nat.succ_mul]
    unfold sizeOfChunk
    omega

/-- **The chunk sizes add up to the item.** -/
theorem sum_sizeOfChunk (total : ℕ) :
    ∑ index ∈ Finset.range (chunkCount total), sizeOfChunk total index = total := by
  rw [sum_range_sizeOfChunk]
  rcases Nat.eq_zero_or_pos total with rfl | hpos
  · rfl
  · exact min_eq_left (chunkCount_spec hpos).2.1

/-- An item whose length fits a word has few chunks. -/
theorem chunkCount_le {total : ℕ} (h : total < UInt64.size) : chunkCount total ≤ 2 ^ 44 := by
  have hsize : UInt64.size = 2 ^ 64 := rfl
  have hR : referenceChunkSizeBytes = 2 ^ 20 := rfl
  rcases Nat.eq_zero_or_pos total with rfl | hpos
  · exact Nat.zero_le _
  · have hlast := (chunkCount_spec hpos).1
    rw [hR] at hlast
    omega

/-- No chunk is longer than a reference chunk. -/
theorem sizeOfChunk_le (total index : ℕ) : sizeOfChunk total index ≤ referenceChunkSizeBytes :=
  min_le_right _ _

/-! ### What is requestable -/

variable {r : ItemResumption} {total : ℕ} {calls : List Call}

/-- What the tracker asks for is requestable by its history. -/
theorem isChunkRequestable_iff (h : r.Follows total calls) (index : ℕ) :
    (index < r.totalChunks ∧ r.isChunkRequestable index = true) ↔
      Requestable total calls index := by
  have hentry : r.isChunkRequestable index = true ↔
      (r.entry index).verified = false ∧ (r.entry index).failedAttempts < 3 := by
    unfold isChunkRequestable entry
    rcases r.chunks index with _ | state
    · exact iff_of_true rfl ⟨rfl, by decide⟩
    · simp
  have hmax : UInt32.size = 2 ^ 32 := rfl
  rw [hentry, (h.chunk index).verified, (h.chunk index).failed, h.totalChunks]
  unfold Requestable
  constructor
  · rintro ⟨hi, hv, hf⟩
    exact ⟨hi, hv, by omega⟩
  · rintro ⟨hi, hv, hf⟩
    exact ⟨hi, hv, by omega⟩

/-- The scan finds the first requestable chunk, if there is one. -/
theorem firstRequestable_spec (r : ItemResumption) (n index : ℕ) :
    match r.firstRequestable n index with
    | some first => index ≤ first ∧ first < index + n ∧ r.isChunkRequestable first = true ∧
        ∀ k, index ≤ k → k < first → r.isChunkRequestable k = false
    | none => ∀ k, index ≤ k → k < index + n → r.isChunkRequestable k = false := by
  induction n generalizing index with
  | zero =>
    intro k hlo hhi
    omega
  | succ n ih =>
    rw [firstRequestable]
    by_cases hreq : r.isChunkRequestable index = true
    · rw [if_pos hreq]
      exact ⟨le_rfl, by omega, hreq, fun k hlo hhi => by omega⟩
    · rw [if_neg hreq]
      have hhead : ∀ k, index ≤ k → ¬index + 1 ≤ k → r.isChunkRequestable k = false :=
        fun k hlo hhi => by
          obtain rfl : k = index := by omega
          exact Bool.not_eq_true _ ▸ hreq
      have hrest := ih (index + 1)
      rcases hfirst : r.firstRequestable n (index + 1) with _ | first
      · rw [hfirst] at hrest
        intro k hlo hhi
        by_cases hk : index + 1 ≤ k
        · exact hrest k hk (by omega)
        · exact hhead k hlo hk
      · rw [hfirst] at hrest
        obtain ⟨hle, hlt, hfound, hbefore⟩ := hrest
        refine ⟨by omega, by omega, hfound, ?_⟩
        intro k hlo hhi
        by_cases hk : index + 1 ≤ k
        · exact hbefore k hk hhi
        · exact hhead k hlo hk

/-- The run goes on as long as chunks are requestable, and no longer. -/
theorem requestableRun_spec (r : ItemResumption) (n index : ℕ) :
    r.requestableRun n index ≤ n ∧
      (∀ k < r.requestableRun n index,
        index + k < r.totalChunks ∧ r.isChunkRequestable (index + k) = true) ∧
      (r.requestableRun n index < n →
        ¬(index + r.requestableRun n index < r.totalChunks ∧
          r.isChunkRequestable (index + r.requestableRun n index) = true)) := by
  induction n generalizing index with
  | zero =>
    refine ⟨le_rfl, ?_, ?_⟩
    · intro k hk
      exact absurd hk (Nat.not_lt_zero k)
    · intro hlt
      exact absurd hlt (lt_irrefl 0)
  | succ n ih =>
    rw [requestableRun]
    by_cases hreq : index < r.totalChunks ∧ r.isChunkRequestable index = true
    · rw [if_pos hreq]
      obtain ⟨hle, hrun, hlong⟩ := ih (index + 1)
      refine ⟨by omega, ?_, ?_⟩
      · rintro (_ | k) hk
        · exact hreq
        · rw [← Nat.add_assoc, Nat.add_right_comm]
          exact hrun k (by omega)
      · intro hlt
        rw [← Nat.add_assoc, Nat.add_right_comm]
        exact hlong (by omega)
    · rw [if_neg hreq]
      refine ⟨Nat.zero_le _, ?_, fun _ => hreq⟩
      intro k hk
      exact absurd hk (Nat.not_lt_zero k)

/-- The item is complete when there is nothing to receive or every chunk is verified. -/
theorem isItemComplete_iff (h : r.Follows total calls) :
    r.isItemComplete = true ↔
      total = 0 ∨ ∀ index < chunkCount total, verifiedAfter total index calls = true := by
  have hcard : r.verifiedChunksCount = r.totalChunks ↔
      ∀ index < chunkCount total, verifiedAfter total index calls = true := by
    have hsub : verifiedChunks total calls ⊆ Finset.range (chunkCount total) :=
      Finset.filter_subset _ _
    rw [h.count, h.totalChunks]
    constructor
    · intro heq index hi
      have hall := Finset.eq_of_subset_of_card_le hsub (by rw [heq, Finset.card_range])
      exact Finset.filter_eq_self.mp hall index (Finset.mem_range.mpr hi)
    · intro hall
      have heq : verifiedChunks total calls = Finset.range (chunkCount total) :=
        Finset.filter_eq_self.mpr fun index hi => hall index (Finset.mem_range.mp hi)
      rw [heq, Finset.card_range]
  unfold isItemComplete
  rw [decide_eq_true_iff, h.totalBytes, hcard]

/-- A complete item has no requestable chunk. -/
theorem not_requestable_of_complete (h : r.Follows total calls)
    (hc : r.isItemComplete = true) (index : ℕ) : ¬Requestable total calls index := by
  rintro ⟨hi, hv, -⟩
  rcases (isItemComplete_iff h).mp hc with rfl | hall
  · exact absurd hi (Nat.not_lt_zero index)
  · rw [hall index hi] at hv
    cases hv

/-- **The next request** is the first run of requestable chunks; there is none without one. -/
theorem nextChunkRequest_spec (h : r.Follows total calls) {n : ℕ} (hn : 0 < n) :
    match r.nextChunkRequest n with
    | some (first, count) => FirstRun total calls n first count
    | none => ∀ index, ¬Requestable total calls index := by
  unfold nextChunkRequest
  by_cases hstop : n = 0 ∨ r.totalChunks = 0 ∨ r.isItemComplete = true
  · rw [if_pos hstop]
    rcases hstop with h0 | h0 | hc
    · omega
    · rintro index ⟨hi, -⟩
      rw [h.totalChunks] at h0
      omega
    · exact not_requestable_of_complete h hc
  rw [if_neg hstop]
  have hfirst := firstRequestable_spec r r.totalChunks 0
  rcases hscan : r.firstRequestable r.totalChunks 0 with _ | first
  · rw [hscan] at hfirst
    intro index hreq
    obtain ⟨hi, hreq⟩ := (isChunkRequestable_iff h index).mpr hreq
    rw [hfirst index (Nat.zero_le _) (by omega)] at hreq
    cases hreq
  · rw [hscan] at hfirst
    obtain ⟨-, hlt, hfound, hbefore⟩ := hfirst
    obtain ⟨hle, hrun, hlong⟩ := requestableRun_spec r n first
    have hpos : r.requestableRun n first ≠ 0 := by
      intro h0
      rw [h0] at hlong
      exact hlong hn ⟨by omega, hfound⟩
    dsimp only
    rw [if_neg hpos]
    constructor
    · intro index hi hreq
      have hreq' := ((isChunkRequestable_iff h index).mpr hreq).2
      rw [hbefore index (Nat.zero_le _) hi] at hreq'
      cases hreq'
    · exact Nat.pos_of_ne_zero hpos
    · exact hle
    · intro k hk
      exact (isChunkRequestable_iff h _).mp (hrun k hk)
    · intro hlt' hreq
      exact hlong hlt' ((isChunkRequestable_iff h _).mpr hreq)

/-- The missing chunks are the requestable ones, in order. -/
theorem missingChunks_eq (h : r.Follows total calls) :
    r.missingChunks =
      (List.range (chunkCount total)).filter fun index => Requestable total calls index := by
  unfold missingChunks
  by_cases hstop : r.totalChunks = 0 ∨ r.isItemComplete = true
  · rw [if_pos hstop, eq_comm, List.filter_eq_nil_iff]
    intro index hi
    rw [List.mem_range, ← h.totalChunks] at hi
    rcases hstop with h0 | hc
    · omega
    · simpa using not_requestable_of_complete h hc index
  · rw [if_neg hstop, h.totalChunks]
    refine List.filter_congr fun index hi => ?_
    rw [List.mem_range, ← h.totalChunks] at hi
    rw [Bool.eq_iff_iff, decide_eq_true_iff, ← isChunkRequestable_iff h]
    exact ⟨fun hreq => ⟨hi, hreq⟩, And.right⟩

/-! ### The bytes received -/

/-- Adding the lengths of ranges stops at the end of a word. -/
theorem addRanges_eq (acc : ℕ) (ranges : List (ℕ × ℕ)) (hacc : acc ≤ UInt64.size - 1) :
    addRanges acc ranges = min (acc + IntervalSet.lengths ranges) (UInt64.size - 1) := by
  induction ranges generalizing acc with
  | nil => simpa [addRanges, IntervalSet.lengths] using hacc
  | cons range ranges ih =>
    have hstep : addRanges acc (range :: ranges) =
        addRanges (min (acc + (range.2 - range.1)) (UInt64.size - 1)) ranges := rfl
    have hlen : IntervalSet.lengths (range :: ranges) =
        range.2 - range.1 + IntervalSet.lengths ranges := rfl
    rw [hstep, ih _ (min_le_right _ _), hlen]
    omega

/-- The bytes received are the lengths of all ranges, up to the end of a word. -/
theorem bytesReceived_eq (r : ItemResumption) :
    r.bytesReceived = min (∑ index ∈ Finset.range r.totalChunks,
      IntervalSet.lengths (r.entry index).ranges) (UInt64.size - 1) := by
  unfold bytesReceived
  induction r.totalChunks with
  | zero => simp
  | succ n ih =>
    rw [List.range_succ, List.foldl_append, List.foldl_cons, List.foldl_nil, ih,
      addRanges_eq _ _ (min_le_right _ _), Finset.sum_range_succ]
    omega

/-- The bytes of the item that are received. -/
def receivedBytes (total : ℕ) (calls : List Call) : Finset ℕ :=
  (Finset.range total).filter fun i =>
    Received total (i / referenceChunkSizeBytes) calls (i % referenceChunkSizeBytes)

/-- The received bytes of the item that lie in a chunk are the received bytes of the chunk. -/
theorem card_receivedBytes_chunk (total : ℕ) (calls : List Call) (index : ℕ) :
    ((receivedBytes total calls).filter fun i => i / referenceChunkSizeBytes = index).card =
      ((Finset.range (sizeOfChunk total index)).filter (Received total index calls)).card := by
  have hR := referenceChunkSizeBytes_pos
  have himage : (receivedBytes total calls).filter (fun i => i / referenceChunkSizeBytes = index) =
      ((Finset.range (sizeOfChunk total index)).filter (Received total index calls)).image
        fun j => index * referenceChunkSizeBytes + j := by
    ext i
    simp only [receivedBytes, Finset.mem_filter, Finset.mem_image, Finset.mem_range, sizeOfChunk]
    constructor
    · rintro ⟨⟨hi, hrec⟩, rfl⟩
      have hsplit := Nat.div_add_mod' i referenceChunkSizeBytes
      have hmod := Nat.mod_lt i hR
      exact ⟨i % referenceChunkSizeBytes, ⟨by omega, hrec⟩, hsplit⟩
    · rintro ⟨j, ⟨hj, hrec⟩, rfl⟩
      have hlt : j < referenceChunkSizeBytes := by omega
      have hdiv : (index * referenceChunkSizeBytes + j) / referenceChunkSizeBytes = index := by
        rw [Nat.mul_comm, Nat.mul_add_div hR, Nat.div_eq_of_lt hlt, Nat.add_zero]
      have hmod : (index * referenceChunkSizeBytes + j) % referenceChunkSizeBytes = j := by
        rw [Nat.mul_comm, Nat.mul_add_mod, Nat.mod_eq_of_lt hlt]
      rw [hdiv, hmod]
      exact ⟨⟨by omega, hrec⟩, rfl⟩
  rw [himage, Finset.card_image_of_injective]
  intro j j' hj
  exact Nat.add_left_cancel hj

/-- The ranges have as many bytes as are received. -/
theorem sum_lengths_eq (h : r.Follows total calls) :
    ∑ index ∈ Finset.range r.totalChunks, IntervalSet.lengths (r.entry index).ranges =
      (receivedBytes total calls).card := by
  have hmaps : Set.MapsTo (fun i => i / referenceChunkSizeBytes) (receivedBytes total calls)
      (Finset.range (chunkCount total)) := fun i hi => by
    have hlt : i < total := Finset.mem_range.mp (Finset.mem_filter.mp hi).1
    exact Finset.mem_coe.mpr (Finset.mem_range.mpr (div_lt_chunkCount hlt))
  rw [h.totalChunks, Finset.card_eq_sum_card_fiberwise hmaps]
  refine Finset.sum_congr rfl fun index _ => ?_
  have hchunk := h.chunk index
  rw [hchunk.normal.sum_lengths, card_receivedBytes_chunk]
  refine congrArg Finset.card (Finset.filter_congr fun j _ => ?_)
  exact hchunk.covers j

/-- No more bytes are received than the item has. -/
theorem card_receivedBytes_le (total : ℕ) (calls : List Call) :
    (receivedBytes total calls).card ≤ total :=
  (Finset.card_filter_le _ _).trans (Finset.card_range total).le

/-- **The bytes received are counted exactly.** -/
theorem bytesReceived_eq_card (h : r.Follows total calls) (htotal : total < UInt64.size) :
    r.bytesReceived = (receivedBytes total calls).card := by
  have hle := card_receivedBytes_le total calls
  rw [bytesReceived_eq, sum_lengths_eq h]
  omega

/-! ### Nothing overflows -/

theorem chunkCountChecked_eq {total : ℕ} (htotal : total < UInt64.size) :
    chunkCountChecked total = some (chunkCount total) := by
  have hR : referenceChunkSizeBytes = 1048576 := rfl
  have hsize : UInt64.size = 2 ^ 64 := rfl
  unfold chunkCountChecked chunkCount
  by_cases h0 : total = 0
  · rw [if_pos h0, if_pos h0]
  rw [if_neg h0, if_neg h0, hR]
  by_cases hmod : total % 1048576 = 0
  · rw [if_pos hmod]
    exact congrArg some (by omega)
  · rw [if_neg hmod, Checked.add_of_lt (by omega)]
    exact congrArg some (by omega)

/-- The size of a chunk is computed without overflow. -/
theorem chunkSizeChecked_eq (h : r.Follows total calls) (htotal : total < UInt64.size)
    (index : ℕ) : r.chunkSizeChecked index = some (r.chunkSize index) := by
  have hcount := chunkCount_le htotal
  have hsize : UInt64.size = 2 ^ 64 := rfl
  have hR : referenceChunkSizeBytes = 2 ^ 20 := rfl
  have hword : UInt32.size = 2 ^ 32 := rfl
  unfold chunkSizeChecked chunkSize
  by_cases hi : index ≥ r.totalChunks
  · rw [if_pos hi, if_pos hi]
  · rw [if_neg hi, if_neg hi]
    have hchunks := h.totalChunks
    have hlen : r.chunkLen index ≤ referenceChunkSizeBytes := by
      rw [chunkLen_eq (hchunks.trans (by rw [h.totalBytes])) (not_le.mp hi)]
      exact sizeOfChunk_le _ _
    rw [Checked.add_of_lt (by omega)]
    change (do
      let size ← Checked.cast UInt32.size (r.chunkLen index)
      return Except.ok size : Option (Except ResumptionError ℕ)) = _
    rw [Checked.cast_of_lt (by omega)]
    rfl

/-- A chunk that was found is in the item, and not longer than a reference chunk. -/
theorem Follows.of_chunkSize (h : r.Follows total calls) {index size : ℕ}
    (hok : r.chunkSize index = .ok size) :
    index < chunkCount total ∧ size = sizeOfChunk total index := by
  rw [h.chunkSize] at hok
  split_ifs at hok with hi
  exact ⟨hi, (Except.ok.inj hok).symm⟩

/-- There are no more ranges than bytes. -/
theorem length_le_lengths {bound : ℕ} {rs : List (ℕ × ℕ)} (h : IntervalSet.Normal bound rs) :
    rs.length ≤ IntervalSet.lengths rs := by
  induction rs with
  | nil => exact le_rfl
  | cons range rs ih =>
    obtain ⟨hr, -, -, hrest⟩ := IntervalSet.normal_cons.mp h
    have hlen : IntervalSet.lengths (range :: rs) =
        range.2 - range.1 + IntervalSet.lengths rs := rfl
    have := ih hrest
    rw [List.length_cons, hlen]
    omega

/-- A piece is recorded without overflow. -/
theorem recordPieceChecked_eq (h : r.Follows total calls) (htotal : total < UInt64.size)
    (index off len : ℕ) :
    r.recordPieceChecked index off len = some (r.recordPiece index off len) := by
  have hR : referenceChunkSizeBytes = 2 ^ 20 := rfl
  have hword : UInt32.size = 2 ^ 32 := rfl
  unfold recordPieceChecked recordPiece
  rw [chunkSizeChecked_eq h htotal]
  rcases hsize : r.chunkSize index with e | size
  · rfl
  have hle := sizeOfChunk_le total index
  rw [← (h.of_chunkSize hsize).2] at hle
  have hnormal := (h.chunk index).normal
  have hshort := (length_le_lengths hnormal).trans hnormal.lengths_le
  rw [← (h.of_chunkSize hsize).2] at hshort
  simp only [Option.bind_eq_bind, Option.bind_some]
  by_cases hfit : off + len > size
  · rw [if_pos hfit]
    by_cases hadd : off + len < UInt32.size
    · rw [Checked.add_of_lt hadd]
      exact if_pos hfit
    · rw [Checked.add_eq_none_iff.mpr (not_lt.mp hadd)]
      rfl
  · rw [if_neg hfit, Checked.add_of_lt (by omega)]
    dsimp only
    rw [if_neg hfit]
    by_cases hv : (r.entry index).verified = true
    · rw [if_pos hv, if_pos hv]
      rfl
    · rw [if_neg hv, if_neg hv]
      by_cases hlen : len > 0
      · rw [if_pos hlen, if_pos hlen, Checked.add_of_lt (by omega)]
        rfl
      · rw [if_neg hlen, if_neg hlen]
        rfl

/-- The number of verified chunks fits a word. -/
theorem verifiedChunksCount_le (h : r.Follows total calls) (htotal : total < UInt64.size) :
    r.verifiedChunksCount ≤ 2 ^ 44 := by
  rw [h.count]
  refine (Finset.card_filter_le _ _).trans ?_
  rw [Finset.card_range]
  exact chunkCount_le htotal

/-- A chunk is marked without overflow. -/
theorem markVerifiedChecked_eq (h : r.Follows total calls) (htotal : total < UInt64.size)
    (index : ℕ) : r.markVerifiedChecked index = some (r.markVerified index) := by
  have hcount := verifiedChunksCount_le h htotal
  have hsize : UInt64.size = 2 ^ 64 := rfl
  unfold markVerifiedChecked markVerified
  rw [chunkSizeChecked_eq h htotal]
  rcases r.chunkSize index with e | size
  · rfl
  · simp only [Option.bind_eq_bind, Option.bind_some]
    by_cases hv : (r.entry index).verified = true
    · rw [if_pos hv, if_pos hv]
      rfl
    · rw [if_neg hv, if_neg hv, Checked.add_of_lt (by omega)]
      rfl

/-- The counter is not taken below zero by a failure. -/
theorem markFailedChecked_eq (h : r.Follows total calls) (index : ℕ) :
    r.markFailedChecked index = some (r.markFailed index) := by
  unfold markFailedChecked markFailed
  by_cases hi : index ≥ r.totalChunks
  · rw [if_pos hi, if_pos hi]
  · rw [if_neg hi, if_neg hi]
    dsimp only
    by_cases hv : (r.entry index).verified = true
    · have hmem : index ∈ verifiedChunks total calls := by
        refine Finset.mem_filter.mpr ⟨?_, (h.chunk index).verified ▸ hv⟩
        rw [Finset.mem_range, ← h.totalChunks]
        exact not_le.mp hi
      have hpos : 1 ≤ r.verifiedChunksCount := h.count ▸ Finset.card_pos.mpr ⟨index, hmem⟩
      rw [if_pos hv, if_pos hv, Checked.sub_of_le hpos]
      rfl
    · rw [if_neg hv, if_neg hv]
      rfl

/-- The bytes are counted without overflow. -/
theorem bytesReceivedChecked_eq (h : r.Follows total calls) (htotal : total < UInt64.size) :
    r.bytesReceivedChecked = some r.bytesReceived := by
  have hle := card_receivedBytes_le total calls
  have hsum : (((List.range r.totalChunks).flatMap fun index => (r.entry index).ranges).map
      fun range => range.2 - range.1).sum = (receivedBytes total calls).card := by
    rw [← sum_lengths_eq h]
    induction r.totalChunks with
    | zero => rfl
    | succ n ih =>
      rw [List.range_succ, List.flatMap_append, List.map_append, List.sum_append, ih,
        Finset.sum_range_succ, List.flatMap_singleton]
      rfl
  unfold bytesReceivedChecked
  rw [Checked.foldlM_add (g := fun range => range.2 - range.1), Nat.zero_add, hsum,
    bytesReceived_eq_card h htotal]
  · intro range hrange
    obtain ⟨index, -, hmem⟩ := List.mem_flatMap.mp hrange
    exact Checked.sub_of_le ((h.chunk index).normal.nonempty range hmem).le
  · rw [hsum]
    omega

/-- The loop over a run of chunks is the run, without overflow. -/
theorem requestableRunChecked_eq (r : ItemResumption) (hchunks : r.totalChunks ≤ 2 ^ 44)
    {first n count : ℕ} (hfirst : first + count ≤ r.totalChunks)
    (hcount : count + n < UInt32.size) :
    r.requestableRunChecked first n count =
      some (count + r.requestableRun n (first + count)) := by
  have hsize : UInt64.size = 2 ^ 64 := rfl
  induction n generalizing count with
  | zero => rfl
  | succ n ih =>
    rw [requestableRunChecked, requestableRun, Checked.add_of_lt (by omega)]
    simp only [Option.bind_eq_bind, Option.bind_some]
    by_cases hreq : first + count < r.totalChunks ∧ r.isChunkRequestable (first + count) = true
    · rw [if_pos hreq, if_pos hreq, Checked.add_of_lt (by omega), Option.bind_some,
        ih (by omega) (by omega)]
      exact congrArg some (by rw [← Nat.add_assoc]; omega)
    · rw [if_neg hreq, if_neg hreq]
      rfl

/-- The next request is chosen without overflow. -/
theorem nextChunkRequestChecked_eq (h : r.Follows total calls) (htotal : total < UInt64.size)
    {n : ℕ} (hn : n < UInt32.size) :
    r.nextChunkRequestChecked n = some (r.nextChunkRequest n) := by
  have hchunks : r.totalChunks ≤ 2 ^ 44 := h.totalChunks ▸ chunkCount_le htotal
  unfold nextChunkRequestChecked nextChunkRequest
  by_cases hstop : n = 0 ∨ r.totalChunks = 0 ∨ r.isItemComplete = true
  · rw [if_pos hstop, if_pos hstop]
  rw [if_neg hstop, if_neg hstop]
  have hfirst := firstRequestable_spec r r.totalChunks 0
  rcases hscan : r.firstRequestable r.totalChunks 0 with _ | first
  · rfl
  · rw [hscan] at hfirst
    dsimp only
    rw [requestableRunChecked_eq r hchunks (by omega) (by omega), Nat.zero_add]
    rfl

/-! ### The accounting -/

/-- Everything a tracker counts and asks for is what its history says, and computed without
overflow. -/
structure Accounts (r : ItemResumption) (total : ℕ) (calls : List Call) : Prop where
  sizes : ∃ sizes : ℕ → ℕ, (∀ index < r.totalChunks, r.chunkSize index = .ok (sizes index)) ∧
    ∑ index ∈ Finset.range r.totalChunks, sizes index = total
  verified : ∀ index < r.totalChunks,
    r.isChunkVerified index = .ok (verifiedAfter total index calls)
  count : r.verifiedChunksCount =
    ((Finset.range r.totalChunks).filter fun index => verifiedAfter total index calls).card
  complete : r.isItemComplete = true ↔
    total = 0 ∨ ∀ index < r.totalChunks, verifiedAfter total index calls = true
  bytes : r.bytesReceived = (receivedBytes total calls).card ∧ r.bytesReceived ≤ total
  next : ∀ n, 0 < n → ∀ first count,
    r.nextChunkRequest n = some (first, count) ↔ FirstRun total calls n first count
  next_none : ∀ n, 0 < n → (r.nextChunkRequest n = none ↔
    (∀ index, ¬Requestable total calls index) ∨ r.isItemComplete = true)
  missing : r.missingChunks =
    (List.range r.totalChunks).filter fun index => Requestable total calls index
  chunkCount_fits : chunkCountChecked total = some r.totalChunks
  chunkSize_fits : ∀ index, r.chunkSizeChecked index = some (r.chunkSize index)
  recordPiece_fits : ∀ index off len,
    r.recordPieceChecked index off len = some (r.recordPiece index off len)
  markVerified_fits : ∀ index, r.markVerifiedChecked index = some (r.markVerified index)
  markFailed_fits : ∀ index, r.markFailedChecked index = some (r.markFailed index)
  bytesReceived_fits : r.bytesReceivedChecked = some r.bytesReceived
  nextChunkRequest_fits : ∀ n < UInt32.size,
    r.nextChunkRequestChecked n = some (r.nextChunkRequest n)

/-- The next request of a tracker is the first run, exactly. -/
theorem nextChunkRequest_iff (h : r.Follows total calls) {n : ℕ} (hn : 0 < n) (first count : ℕ) :
    r.nextChunkRequest n = some (first, count) ↔ FirstRun total calls n first count := by
  have hspec := nextChunkRequest_spec h hn
  constructor
  · intro hnext
    rw [hnext] at hspec
    exact hspec
  · intro hrun
    rcases hnext : r.nextChunkRequest n with _ | ⟨first', count'⟩
    · rw [hnext] at hspec
      exact absurd (hrun.run 0 hrun.pos) (hspec _)
    · rw [hnext] at hspec
      obtain ⟨rfl, rfl⟩ := hspec.unique hrun
      rfl

/-- **The accounting is exact** after any calls on a tracker of an item of any length. -/
theorem accounts_run (itemId : ItemId) (total : ℕ) (htotal : total < UInt64.size)
    (calls : List Call) : (run itemId total calls).Accounts total calls := by
  have h := follows_run itemId total calls
  generalize run itemId total calls = r at h ⊢
  have hchunks := h.totalChunks
  constructor
  case sizes =>
    refine ⟨sizeOfChunk total, ?_, ?_⟩
    · intro index hi
      rw [h.chunkSize, if_pos (hchunks ▸ hi)]
    · rw [hchunks]
      exact sum_sizeOfChunk total
  case verified =>
    intro index hi
    rw [isChunkVerified, if_neg (not_le.mpr hi), (h.chunk index).verified]
  case count =>
    rw [hchunks]
    exact h.count
  case complete =>
    rw [hchunks]
    exact isItemComplete_iff h
  case bytes =>
    have hbytes := bytesReceived_eq_card h htotal
    exact ⟨hbytes, hbytes ▸ card_receivedBytes_le total calls⟩
  case next =>
    intro n hn first count
    exact nextChunkRequest_iff h hn first count
  case next_none =>
    intro n hn
    have hspec := nextChunkRequest_spec h hn
    constructor
    · intro hnext
      rw [hnext] at hspec
      exact .inl hspec
    · intro hstop
      have hnot : ∀ index, ¬Requestable total calls index := by
        rcases hstop with hnot | hc
        · exact hnot
        · exact not_requestable_of_complete h hc
      rcases hnext : r.nextChunkRequest n with _ | ⟨first, count⟩
      · rfl
      · rw [hnext] at hspec
        exact absurd (hspec.run 0 hspec.pos) (hnot _)
  case missing =>
    rw [hchunks]
    exact missingChunks_eq h
  case chunkCount_fits =>
    rw [hchunks]
    exact chunkCountChecked_eq htotal
  case chunkSize_fits => exact chunkSizeChecked_eq h htotal
  case recordPiece_fits => exact recordPieceChecked_eq h htotal
  case markVerified_fits => exact markVerifiedChecked_eq h htotal
  case markFailed_fits => exact markFailedChecked_eq h
  case bytesReceived_fits => exact bytesReceivedChecked_eq h htotal
  case nextChunkRequest_fits =>
    intro n hn
    exact nextChunkRequestChecked_eq h htotal hn

/-- Of three chunks the first is verified and the last failed three times: the one between them is
asked for. -/
theorem accounts_run_three_chunks :
    (run ⟨"photo".toList, by decide⟩ (3 * 1024 * 1024) [.markVerified 0, .markFailed 2,
        .markFailed 2, .markFailed 2]).nextChunkRequest 8 = some (1, 1) ∧
      FirstRun (3 * 1024 * 1024) [.markVerified 0, .markFailed 2, .markFailed 2, .markFailed 2]
        8 1 1 := by
  have hnext : (run ⟨"photo".toList, by decide⟩ (3 * 1024 * 1024) [.markVerified 0,
      .markFailed 2, .markFailed 2, .markFailed 2]).nextChunkRequest 8 = some (1, 1) := rfl
  exact ⟨hnext, ((accounts_run _ (3 * 1024 * 1024) (by decide) _).next 8 (by decide) 1 1).mp
    hnext⟩

end ItemResumption

end Tradr
