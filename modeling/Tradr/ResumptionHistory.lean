import Tradr.Resumption

/-!
# The History of a Resumption Tracker

A tracker is only ever changed by three calls. What it ought to know is a function of the calls
made so far: the pieces of each chunk that were accepted since the chunk last failed, whether the
chunk was verified since then, and how often it failed at all (`Received`, `VerifiedAfter`,
`failures`). `Follows` says that a tracker knows exactly this; each call keeps it.

## Main definitions

* `Call`, `ItemResumption.run`: the calls on a tracker, and what they make of a new one.
* `Received`: the bytes of a chunk that a history leaves received.
* `ItemResumption.Follows`: a tracker that knows what its history says.

## Main results

* `ItemResumption.follows_run`: every history is followed.
* `ItemResumption.ranges_are_received`: the ranges are a normal form of the bytes received.
-/

namespace Tradr

/-! ### Calls and what they say -/

/-- A call that changes a tracker. -/
inductive Call
  | recordPiece (index offsetInChunk payloadLen : ℕ)
  | markVerified (index : ℕ)
  | markFailed (index : ℕ)
  deriving DecidableEq, Repr

/-- How many bytes of an item of a length lie in a chunk. -/
def sizeOfChunk (total index : ℕ) : ℕ :=
  min (total - index * referenceChunkSizeBytes) referenceChunkSizeBytes

/-- The chunk a call is about. -/
def Call.index : Call → ℕ
  | .recordPiece index _ _ => index
  | .markVerified index => index
  | .markFailed index => index

/-- A call that is accepted: its chunk exists, and a piece lies inside. -/
def Call.Accepted (total : ℕ) : Call → Prop
  | .recordPiece index off len =>
    index < ItemResumption.chunkCount total ∧ off + len ≤ sizeOfChunk total index
  | .markVerified index => index < ItemResumption.chunkCount total
  | .markFailed index => index < ItemResumption.chunkCount total

instance (total : ℕ) : DecidablePred (Call.Accepted total)
  | .recordPiece .. => inferInstanceAs (Decidable (_ ∧ _))
  | .markVerified _ => inferInstanceAs (Decidable (_ < _))
  | .markFailed _ => inferInstanceAs (Decidable (_ < _))

/-- A call that is accepted and about a chunk. -/
def Call.Concerns (total index : ℕ) (call : Call) : Prop :=
  call.index = index ∧ call.Accepted total

instance (total index : ℕ) (call : Call) : Decidable (call.Concerns total index) :=
  inferInstanceAs (Decidable (_ ∧ _))

/-- The accepted pieces of a chunk since it last failed, after one more call. -/
def nextPieces (total index : ℕ) (pieces : List (ℕ × ℕ)) (call : Call) : List (ℕ × ℕ) :=
  if call.Concerns total index then
    match call with
    | .recordPiece _ off len => (off, off + len) :: pieces
    | .markVerified _ => pieces
    | .markFailed _ => []
  else pieces

/-- The accepted pieces of a chunk since it last failed, each with its start and its end. -/
def pieces (total index : ℕ) (calls : List Call) : List (ℕ × ℕ) :=
  calls.foldl (nextPieces total index) []

/-- Whether a chunk was verified since it last failed, after one more call. -/
def nextVerified (total index : ℕ) (verified : Bool) (call : Call) : Bool :=
  if call.Concerns total index then
    match call with
    | .recordPiece .. => verified
    | .markVerified _ => true
    | .markFailed _ => false
  else verified

/-- Whether a chunk was verified since it last failed. -/
def verifiedAfter (total index : ℕ) (calls : List Call) : Bool :=
  calls.foldl (nextVerified total index) false

/-- How often a chunk failed. -/
def failures (total index : ℕ) (calls : List Call) : ℕ :=
  calls.countP fun call => call = .markFailed index ∧ call.Accepted total

/-- **The bytes of a chunk that are received** after some calls: all of them when it is verified,
else the union of the pieces that were accepted since it last failed. -/
def Received (total index : ℕ) (calls : List Call) (j : ℕ) : Prop :=
  if verifiedAfter total index calls then j < sizeOfChunk total index
  else IntervalSet.Covers (pieces total index calls) j

instance (total index : ℕ) (calls : List Call) (j : ℕ) :
    Decidable (Received total index calls j) :=
  inferInstanceAs (Decidable (if verifiedAfter total index calls = true then
    j < sizeOfChunk total index else IntervalSet.Covers (pieces total index calls) j))

section Histories

variable {total index : ℕ} {calls : List Call} {call : Call}

theorem pieces_append : pieces total index (calls ++ [call]) =
    nextPieces total index (pieces total index calls) call := by
  simp [pieces]

theorem verifiedAfter_append : verifiedAfter total index (calls ++ [call]) =
    nextVerified total index (verifiedAfter total index calls) call := by
  simp [verifiedAfter]

theorem failures_append : failures total index (calls ++ [call]) =
    failures total index calls +
      if call = .markFailed index ∧ call.Accepted total then 1 else 0 := by
  simp [failures, List.countP_singleton]

/-- A call that does not concern a chunk leaves its history as it is. -/
theorem history_of_not_concerns (h : ¬call.Concerns total index) :
    pieces total index (calls ++ [call]) = pieces total index calls ∧
      verifiedAfter total index (calls ++ [call]) = verifiedAfter total index calls ∧
      failures total index (calls ++ [call]) = failures total index calls := by
  refine ⟨?_, ?_, ?_⟩
  · exact pieces_append.trans (if_neg h)
  · exact verifiedAfter_append.trans (if_neg h)
  · rw [failures_append, if_neg, Nat.add_zero]
    rintro ⟨rfl, hacc⟩
    exact h ⟨rfl, hacc⟩

/-- So are its bytes. -/
theorem received_of_not_concerns (h : ¬call.Concerns total index) (j : ℕ) :
    Received total index (calls ++ [call]) j ↔ Received total index calls j := by
  obtain ⟨hpieces, hverified, -⟩ := @history_of_not_concerns total index calls call h
  rw [Received, Received, hpieces, hverified]

/-- An accepted piece is added to the pieces of its chunk. -/
theorem history_recordPiece {off len : ℕ}
    (hacc : (Call.recordPiece index off len).Accepted total) :
    pieces total index (calls ++ [.recordPiece index off len]) =
        (off, off + len) :: pieces total index calls ∧
      verifiedAfter total index (calls ++ [.recordPiece index off len]) =
        verifiedAfter total index calls ∧
      failures total index (calls ++ [.recordPiece index off len]) =
        failures total index calls := by
  have hcon : (Call.recordPiece index off len).Concerns total index := ⟨rfl, hacc⟩
  refine ⟨pieces_append.trans (if_pos hcon), verifiedAfter_append.trans (if_pos hcon), ?_⟩
  rw [failures_append, if_neg (by simp), Nat.add_zero]

/-- An accepted verification verifies its chunk. -/
theorem history_markVerified (hacc : (Call.markVerified index).Accepted total) :
    verifiedAfter total index (calls ++ [.markVerified index]) = true ∧
      failures total index (calls ++ [.markVerified index]) = failures total index calls := by
  have hcon : (Call.markVerified index).Concerns total index := ⟨rfl, hacc⟩
  refine ⟨verifiedAfter_append.trans (if_pos hcon), ?_⟩
  rw [failures_append, if_neg (by simp), Nat.add_zero]

/-- An accepted failure forgets the pieces of its chunk, and is counted. -/
theorem history_markFailed (hacc : (Call.markFailed index).Accepted total) :
    pieces total index (calls ++ [.markFailed index]) = [] ∧
      verifiedAfter total index (calls ++ [.markFailed index]) = false ∧
      failures total index (calls ++ [.markFailed index]) = failures total index calls + 1 := by
  have hcon : (Call.markFailed index).Concerns total index := ⟨rfl, hacc⟩
  refine ⟨pieces_append.trans (if_pos hcon), verifiedAfter_append.trans (if_pos hcon), ?_⟩
  rw [failures_append, if_pos ⟨rfl, hacc⟩]

/-- What is received of a verified chunk. -/
theorem received_of_verified (h : verifiedAfter total index calls = true) (j : ℕ) :
    Received total index calls j ↔ j < sizeOfChunk total index := by
  rw [Received, if_pos h]

/-- What is received of a chunk that is not verified. -/
theorem received_of_not_verified (h : verifiedAfter total index calls = false) (j : ℕ) :
    Received total index calls j ↔ IntervalSet.Covers (pieces total index calls) j := by
  rw [Received, h]
  exact Iff.rfl

end Histories

/-! ### Trackers -/

namespace ItemResumption

/-- A tracker after a call. -/
def apply (r : ItemResumption) : Call → ItemResumption
  | .recordPiece index off len => (r.recordPiece index off len).2
  | .markVerified index => (r.markVerified index).2
  | .markFailed index => (r.markFailed index).2

/-- Whether a call is answered with a success. -/
def succeeds (r : ItemResumption) : Call → Bool
  | .recordPiece index off len => (r.recordPiece index off len).1.toBool
  | .markVerified index => (r.markVerified index).1.toBool
  | .markFailed index => (r.markFailed index).1.toBool

/-- A new tracker after some calls. -/
def run (itemId : ItemId) (total : ℕ) (calls : List Call) : ItemResumption :=
  calls.foldl apply (new itemId total)

/-- The expected size of a chunk is what the item has in it. -/
theorem chunkLen_eq {r : ItemResumption} (hr : r.totalChunks = chunkCount r.totalBytes)
    {index : ℕ} (hi : index < r.totalChunks) :
    r.chunkLen index = sizeOfChunk r.totalBytes index := by
  have hR := referenceChunkSizeBytes_pos
  have hend := chunk_end_le hr hi
  have hpos : 0 < r.totalBytes := by
    rcases Nat.eq_zero_or_pos r.totalBytes with h | h
    · rw [h, chunkCount, if_pos rfl] at hr
      omega
    · exact h
  obtain ⟨h₁, h₂, -⟩ := chunkCount_spec hpos
  rw [← hr] at h₁ h₂
  unfold sizeOfChunk
  by_cases hlast : index + 1 = r.totalChunks
  · -- the last byte of the item lies in this chunk, and the chunk reaches beyond it
    have hmod := mod_lt_chunkLen hr (i := r.totalBytes - 1) (by omega)
    rw [← hlast, Nat.add_sub_cancel] at h₁
    rw [← hlast, Nat.succ_mul] at h₂
    have hdiv : (r.totalBytes - 1) / referenceChunkSizeBytes = index := by
      refine Nat.div_eq_of_lt_le (by omega) ?_
      rw [Nat.succ_mul]
      omega
    have hsplit := Nat.div_add_mod' (r.totalBytes - 1) referenceChunkSizeBytes
    rw [hdiv] at hmod hsplit
    generalize referenceChunkSizeBytes = R at *
    omega
  · have hfull : r.chunkLen index = referenceChunkSizeBytes := if_neg hlast
    rw [hfull] at hend ⊢
    generalize referenceChunkSizeBytes = R at *
    omega

/-- A chunk of the item has bytes. -/
theorem sizeOfChunk_pos {total index : ℕ} (hi : index < chunkCount total) :
    0 < sizeOfChunk total index := by
  have hR := referenceChunkSizeBytes_pos
  have hpos : 0 < total := by
    rcases Nat.eq_zero_or_pos total with h | h
    · rw [h, chunkCount, if_pos rfl] at hi
      omega
    · exact h
  have hstart : index * referenceChunkSizeBytes < total := by
    refine lt_of_le_of_lt (Nat.mul_le_mul_right _ ?_) (chunkCount_spec hpos).1
    omega
  unfold sizeOfChunk
  omega

/-- The state of a chunk knows what the history of the chunk says. -/
structure ChunkFollows (state : ChunkState) (total index : ℕ) (calls : List Call) : Prop where
  verified : state.verified = verifiedAfter total index calls
  failed : state.failedAttempts = min (failures total index calls) (UInt32.size - 1)
  normal : IntervalSet.Normal (sizeOfChunk total index) state.ranges
  covers : ∀ j, IntervalSet.Covers state.ranges j ↔ Received total index calls j

/-- The chunks of an item that are verified after some calls. -/
def verifiedChunks (total : ℕ) (calls : List Call) : Finset ℕ :=
  (Finset.range (chunkCount total)).filter fun index => verifiedAfter total index calls

/-- A tracker knows what its history says: the shape of the item, the state of each chunk, and how
many are verified. -/
structure Follows (r : ItemResumption) (total : ℕ) (calls : List Call) : Prop where
  totalBytes : r.totalBytes = total
  totalChunks : r.totalChunks = chunkCount total
  chunk : ∀ index, ChunkFollows (r.entry index) total index calls
  count : r.verifiedChunksCount = (verifiedChunks total calls).card

/-- A new tracker knows that nothing happened. -/
theorem follows_new (itemId : ItemId) (total : ℕ) : (new itemId total).Follows total [] where
  totalBytes := rfl
  totalChunks := rfl
  chunk index := ⟨rfl, rfl, IntervalSet.normal_nil _, fun _ => Iff.rfl⟩
  count := by simp [new, verifiedChunks, verifiedAfter]

/-- The state of a chunk after an accepted call. -/
def nextState (size : ℕ) (state : ChunkState) : Call → ChunkState
  | .recordPiece _ off len =>
    if state.verified ∨ len = 0 then state
    else { state with ranges := IntervalSet.insert state.ranges off (off + len) }
  | .markVerified _ =>
    if state.verified then state else { state with verified := true, ranges := [(0, size)] }
  | .markFailed _ => ⟨false, min (state.failedAttempts + 1) (UInt32.size - 1), []⟩

/-- The number of verified chunks after an accepted call. -/
def nextCount (count : ℕ) (state : ChunkState) : Call → ℕ
  | .recordPiece .. => count
  | .markVerified _ => if state.verified then count else count + 1
  | .markFailed _ => if state.verified then count - 1 else count

/-- **What a call can do**: an accepted one replaces the state of its chunk. -/
theorem apply_of_accepted {r : ItemResumption} {total : ℕ} {calls : List Call}
    (h : r.Follows total calls) {call : Call} (hacc : call.Accepted total) :
    r.apply call = { r.setEntry call.index
        (nextState (sizeOfChunk total call.index) (r.entry call.index) call) with
      verifiedChunksCount := nextCount r.verifiedChunksCount (r.entry call.index) call } := by
  have hchunks := h.totalChunks
  have hlen : ∀ index < chunkCount total, r.chunkLen index = sizeOfChunk total index :=
    fun index hi => by
      rw [chunkLen_eq (hchunks.trans (by rw [h.totalBytes])) (hchunks ▸ hi), h.totalBytes]
  have hsize : ∀ index < chunkCount total, r.chunkSize index = .ok (sizeOfChunk total index) :=
    fun index hi => by
      rw [chunkSize, if_neg (by omega), hlen index hi]
  rcases call with ⟨index, off, len⟩ | index | index
  · obtain ⟨hi, hfit⟩ := hacc
    change (r.recordPiece index off len).2 = _
    unfold recordPiece
    rw [hsize index hi]
    dsimp only
    rw [if_neg (not_lt.mpr hfit)]
    dsimp only [Call.index, nextState, nextCount]
    by_cases hv : (r.entry index).verified = true
    · have hidle : (r.entry index).verified = true ∨ len = 0 := .inl hv
      rw [if_pos hv, if_pos hidle]
      rfl
    · by_cases h0 : len = 0
      · have hidle : (r.entry index).verified = true ∨ len = 0 := .inr h0
        rw [if_neg hv, if_neg (by omega), if_pos hidle]
        rfl
      · have hbusy : ¬((r.entry index).verified = true ∨ len = 0) := not_or.mpr ⟨hv, h0⟩
        rw [if_neg hv, if_pos (by omega), if_neg hbusy]
        rfl
  · change (r.markVerified index).2 = _
    unfold markVerified
    rw [hsize index hacc]
    dsimp only [Call.index, nextState, nextCount]
    by_cases hv : (r.entry index).verified = true
    · rw [if_pos hv, if_pos hv, if_pos hv]
      rfl
    · rw [if_neg hv, if_neg hv, if_neg hv]
  · have hi : ¬index ≥ r.totalChunks := by
      rw [hchunks]
      exact not_le.mpr hacc
    change (r.markFailed index).2 = _
    rw [markFailed, if_neg hi]
    rfl

/-- A call that is not accepted is refused, and changes nothing. -/
theorem apply_of_not_accepted {r : ItemResumption} {total : ℕ} {calls : List Call}
    (h : r.Follows total calls) {call : Call} (hacc : ¬call.Accepted total) :
    r.apply call = r := by
  have hchunks := h.totalChunks
  rcases call with ⟨index, off, len⟩ | index | index
  · change (r.recordPiece index off len).2 = r
    rcases r.recordPiece_cases index off len with ⟨e, he⟩ | ⟨hi, hfit, -⟩ | ⟨hi, hfit, -⟩
    · rw [he]
    · rw [chunkLen_eq (hchunks.trans (by rw [h.totalBytes])) hi, h.totalBytes] at hfit
      exact absurd ⟨hchunks ▸ hi, hfit⟩ hacc
    · rw [chunkLen_eq (hchunks.trans (by rw [h.totalBytes])) hi, h.totalBytes] at hfit
      exact absurd ⟨hchunks ▸ hi, hfit⟩ hacc
  · have hi : index ≥ r.totalChunks := by
      rw [hchunks]
      exact not_lt.mp hacc
    change (r.markVerified index).2 = r
    rw [markVerified, chunkSize, if_pos hi]
  · have hi : index ≥ r.totalChunks := by
      rw [hchunks]
      exact not_lt.mp hacc
    change (r.markFailed index).2 = r
    rw [markFailed, if_pos hi]

/-- Recording an accepted piece keeps what is known of its chunk. -/
theorem ChunkFollows.recordPiece {state : ChunkState} {total index off len : ℕ}
    {calls : List Call} (h : ChunkFollows state total index calls)
    (hacc : (Call.recordPiece index off len).Accepted total) :
    ChunkFollows (nextState (sizeOfChunk total index) state (.recordPiece index off len)) total
      index (calls ++ [.recordPiece index off len]) := by
  obtain ⟨hpieces, hverified, hfailures⟩ := @history_recordPiece total index calls off len hacc
  obtain ⟨hv, hf, hn, hc⟩ := h
  rw [← hverified] at hv
  rw [← hfailures] at hf
  dsimp only [nextState]
  rcases hver : verifiedAfter total index calls with _ | _
  · -- not verified: the piece joins the others
    rw [hver] at hverified
    rw [hverified] at hv
    have hjoin : ∀ j, Received total index (calls ++ [.recordPiece index off len]) j ↔
        (off ≤ j ∧ j < off + len) ∨ IntervalSet.Covers state.ranges j := fun j => by
      rw [hc, received_of_not_verified hver, received_of_not_verified hverified, hpieces,
        IntervalSet.covers_cons]
    by_cases h0 : len = 0
    · rw [if_pos (.inr h0)]
      refine ⟨hv.trans hverified.symm, hf, hn, ?_⟩
      intro j
      rw [hjoin]
      constructor
      · exact .inr
      · rintro (hj | hj)
        · omega
        · exact hj
    · rw [if_neg (by rw [hv]; simpa using h0)]
      refine ⟨hv.trans hverified.symm, hf, hn.insert (by omega) hacc.2, ?_⟩
      intro j
      rw [hjoin]
      exact hn.covers_insert_iff (by omega)
  · rw [hver] at hverified
    rw [hverified] at hv
    rw [if_pos (.inl hv)]
    refine ⟨hv.trans hverified.symm, hf, hn, ?_⟩
    intro j
    rw [hc, received_of_verified hver, received_of_verified hverified]

/-- So does an accepted verification. -/
theorem ChunkFollows.markVerified {state : ChunkState} {total index : ℕ} {calls : List Call}
    (h : ChunkFollows state total index calls) (hacc : (Call.markVerified index).Accepted total) :
    ChunkFollows (nextState (sizeOfChunk total index) state (.markVerified index)) total index
      (calls ++ [.markVerified index]) := by
  obtain ⟨hverified, hfailures⟩ := @history_markVerified total index calls hacc
  obtain ⟨hv, hf, hn, hc⟩ := h
  rw [← hfailures] at hf
  dsimp only [nextState]
  rcases hver : verifiedAfter total index calls with _ | _
  · rw [hver] at hv
    rw [if_neg (by rw [hv]; decide)]
    refine ⟨hverified.symm, hf, IntervalSet.normal_singleton (sizeOfChunk_pos hacc) le_rfl, ?_⟩
    intro j
    rw [received_of_verified hverified]
    simp
  · rw [hver] at hv
    rw [if_pos hv]
    refine ⟨hv.trans hverified.symm, hf, hn, ?_⟩
    intro j
    rw [hc, received_of_verified hver, received_of_verified hverified]

/-- So does an accepted failure. -/
theorem ChunkFollows.markFailed {state : ChunkState} {total index : ℕ} {calls : List Call}
    (h : ChunkFollows state total index calls) (hacc : (Call.markFailed index).Accepted total) :
    ChunkFollows (nextState (sizeOfChunk total index) state (.markFailed index)) total index
      (calls ++ [.markFailed index]) := by
  obtain ⟨hpieces, hverified, hfailures⟩ := @history_markFailed total index calls hacc
  have hf := h.failed
  refine ⟨hverified.symm, ?_, IntervalSet.normal_nil _, ?_⟩
  · rw [hfailures]
    dsimp only [nextState]
    omega
  · intro j
    rw [received_of_not_verified hverified, hpieces]
    exact Iff.rfl

/-- An accepted call keeps what is known of its chunk. -/
theorem ChunkFollows.next {state : ChunkState} {total : ℕ} {calls : List Call} {call : Call}
    (h : ChunkFollows state total call.index calls) (hacc : call.Accepted total) :
    ChunkFollows (nextState (sizeOfChunk total call.index) state call) total call.index
      (calls ++ [call]) := by
  rcases call with ⟨index, off, len⟩ | index | index
  · exact h.recordPiece hacc
  · exact h.markVerified hacc
  · exact h.markFailed hacc

/-- A call about another chunk, or one that is refused, keeps what is known of a chunk. -/
theorem ChunkFollows.of_not_concerns {state : ChunkState} {total index : ℕ} {calls : List Call}
    {call : Call} (h : ChunkFollows state total index calls)
    (hnot : ¬call.Concerns total index) : ChunkFollows state total index (calls ++ [call]) := by
  obtain ⟨-, hverified, hfailures⟩ := @history_of_not_concerns total index calls call hnot
  refine ⟨h.verified.trans hverified.symm, ?_, h.normal, ?_⟩
  · rw [h.failed, hfailures]
  · intro j
    rw [h.covers, received_of_not_concerns hnot]

/-- A call that leaves the verification of its chunk as it is verifies no other. -/
theorem verifiedChunks_of_eq {total : ℕ} {calls : List Call} {call : Call}
    (h : verifiedAfter total call.index (calls ++ [call]) = verifiedAfter total call.index calls) :
    verifiedChunks total (calls ++ [call]) = verifiedChunks total calls := by
  refine Finset.filter_congr fun index _ => ?_
  by_cases hi : call.index = index
  · rw [← hi, h]
  · rw [(@history_of_not_concerns total index calls call fun hcon => hi hcon.1).2.1]

/-- The counter agrees with the history after an accepted call. -/
theorem nextCount_eq {r : ItemResumption} {total : ℕ} {calls : List Call}
    (h : r.Follows total calls) {call : Call} (hacc : call.Accepted total) :
    nextCount r.verifiedChunksCount (r.entry call.index) call =
      (verifiedChunks total (calls ++ [call])).card := by
  have hcount := h.count
  have hother : ∀ index, call.index ≠ index →
      verifiedAfter total index (calls ++ [call]) = verifiedAfter total index calls :=
    fun index hi => (history_of_not_concerns fun hcon => hi hcon.1).2.1
  have hv := (h.chunk call.index).verified
  rcases call with ⟨index, off, len⟩ | index | index
  · rw [verifiedChunks_of_eq (history_recordPiece hacc).2.1]
    exact hcount
  · have hafter := (@history_markVerified total index calls hacc).1
    dsimp only [Call.index, nextCount] at hv hother ⊢
    rcases hver : verifiedAfter total index calls with _ | _
    · have hnew : verifiedChunks total (calls ++ [.markVerified index]) =
          insert index (verifiedChunks total calls) := by
        ext i
        by_cases hi : index = i
        · subst hi
          simpa [verifiedChunks, hafter] using show index < chunkCount total from hacc
        · simp [verifiedChunks, hother i hi, Ne.symm hi]
      rw [if_neg (by rw [hv, hver]; decide), hnew,
        Finset.card_insert_of_notMem (by simp [verifiedChunks, hver]), hcount]
    · rw [if_pos (hv.trans hver), verifiedChunks_of_eq (hafter.trans hver.symm)]
      exact hcount
  · have hafter := (@history_markFailed total index calls hacc).2.1
    dsimp only [Call.index, nextCount] at hv hother ⊢
    rcases hver : verifiedAfter total index calls with _ | _
    · rw [if_neg (by rw [hv, hver]; decide), verifiedChunks_of_eq (hafter.trans hver.symm)]
      exact hcount
    · have hnew : verifiedChunks total (calls ++ [.markFailed index]) =
          (verifiedChunks total calls).erase index := by
        ext i
        by_cases hi : index = i
        · subst hi
          simp [verifiedChunks, hafter]
        · simp [verifiedChunks, hother i hi, Ne.symm hi]
      have hmem : index ∈ verifiedChunks total calls := by
        simpa [verifiedChunks, hver] using show index < chunkCount total from hacc
      rw [if_pos (hv.trans hver), hnew, Finset.card_erase_of_mem hmem, hcount]

/-- **Each call is followed.** -/
theorem Follows.apply {r : ItemResumption} {total : ℕ} {calls : List Call}
    (h : r.Follows total calls) (call : Call) : (r.apply call).Follows total (calls ++ [call]) := by
  by_cases hacc : call.Accepted total
  · rw [apply_of_accepted h hacc]
    refine ⟨h.totalBytes, h.totalChunks, ?_, nextCount_eq h hacc⟩
    intro index
    by_cases hi : index = call.index
    · subst hi
      have hentry := entry_setEntry_self r call.index
        (nextState (sizeOfChunk total call.index) (r.entry call.index) call)
      have hnext := (h.chunk call.index).next hacc
      rw [← hentry] at hnext
      exact hnext
    · have hentry := entry_setEntry_of_ne r
        (nextState (sizeOfChunk total call.index) (r.entry call.index) call) hi
      have hkept := @ChunkFollows.of_not_concerns _ total index calls call (h.chunk index)
        fun hcon => hi hcon.1.symm
      rw [← hentry] at hkept
      exact hkept
  · rw [apply_of_not_accepted h hacc]
    refine ⟨h.totalBytes, h.totalChunks, ?_, ?_⟩
    · intro index
      exact (h.chunk index).of_not_concerns fun hcon => hacc hcon.2
    · have hsame : verifiedChunks total (calls ++ [call]) = verifiedChunks total calls :=
        verifiedChunks_of_eq (history_of_not_concerns fun hcon => hacc hcon.2).2.1
      exact h.count.trans (congrArg Finset.card hsame.symm)

/-- **Every history is followed.** -/
theorem follows_run (itemId : ItemId) (total : ℕ) (calls : List Call) :
    (run itemId total calls).Follows total calls := by
  induction calls using List.reverseRecOn with
  | nil => exact follows_new itemId total
  | append_singleton calls call ih =>
    have hrun : run itemId total (calls ++ [call]) = (run itemId total calls).apply call :=
      List.foldl_concat ..
    rw [hrun]
    exact ih.apply call

/-! ### What the ranges are -/

/-- A piece that is recorded was accepted, and the answer says whether the chunk is covered. -/
theorem recordPiece_eq_ok {r : ItemResumption} {total : ℕ} {calls : List Call}
    (h : r.Follows total calls) {index off len : ℕ} {complete : Bool}
    (hok : (r.recordPiece index off len).1 = .ok complete) :
    (Call.recordPiece index off len).Accepted total ∧
      (complete = true ↔
        ((r.apply (.recordPiece index off len)).entry index).ranges =
          [(0, sizeOfChunk total index)]) := by
  have hchunks : r.totalChunks = chunkCount r.totalBytes := by
    rw [h.totalChunks, h.totalBytes]
  have hlen : index < r.totalChunks → r.chunkLen index = sizeOfChunk total index := fun hi => by
    rw [chunkLen_eq hchunks hi, h.totalBytes]
  rcases r.recordPiece_cases index off len with
    ⟨e, he⟩ | ⟨hi, hfit, hv, he⟩ | ⟨hi, hfit, state, -, -, he⟩
  · rw [he] at hok
    cases hok
  · rw [he] at hok
    obtain rfl := Except.ok.inj hok
    rw [hlen hi] at hfit
    have hmem : index < chunkCount total := h.totalChunks ▸ hi
    refine ⟨⟨hmem, hfit⟩, iff_of_true rfl ?_⟩
    -- a verified chunk is covered, and in normal form
    have hchunk := h.chunk index
    have hentry : (r.apply (.recordPiece index off len)).entry index = r.entry index := by
      change (r.recordPiece index off len).2.entry index = _
      rw [he, entry_setEntry_self]
    rw [hentry, hchunk.normal.eq_whole_iff (sizeOfChunk_pos hmem)]
    intro j hj
    rwa [hchunk.covers, received_of_verified (hchunk.verified.symm.trans hv)]
  · rw [he] at hok
    obtain rfl := Except.ok.inj hok
    rw [hlen hi] at hfit
    refine ⟨⟨h.totalChunks ▸ hi, hfit⟩, ?_⟩
    have hentry : (r.apply (.recordPiece index off len)).entry index = state := by
      change (r.recordPiece index off len).2.entry index = _
      rw [he, entry_setEntry_self]
    rw [hentry, coversChunk, decide_eq_true_iff, hlen hi]

/-- The size of a chunk of the item, by its history's length alone. -/
theorem Follows.chunkSize {r : ItemResumption} {total : ℕ} {calls : List Call}
    (h : r.Follows total calls) (index : ℕ) :
    r.chunkSize index = if index < chunkCount total then .ok (sizeOfChunk total index)
      else .error (.chunkOutOfBounds index (chunkCount total)) := by
  have hchunks : r.totalChunks = chunkCount r.totalBytes := by
    rw [h.totalChunks, h.totalBytes]
  by_cases hi : index < chunkCount total
  · have hi' : index < r.totalChunks := h.totalChunks ▸ hi
    rw [if_pos hi, ItemResumption.chunkSize, if_neg (not_le.mpr hi'), chunkLen_eq hchunks hi',
      h.totalBytes]
  · rw [if_neg hi, ItemResumption.chunkSize, h.totalChunks, if_pos (not_lt.mp hi)]

/-- A call succeeds exactly when it is accepted. -/
theorem Follows.succeeds {r : ItemResumption} {total : ℕ} {calls : List Call}
    (h : r.Follows total calls) (call : Call) :
    r.succeeds call = true ↔ call.Accepted total := by
  rcases call with ⟨index, off, len⟩ | index | index
  · change (r.recordPiece index off len).1.toBool = true ↔ _ ∧ _
    unfold ItemResumption.recordPiece
    rw [h.chunkSize]
    by_cases hi : index < chunkCount total
    · rw [if_pos hi]
      dsimp only
      by_cases hfit : off + len > sizeOfChunk total index
      · rw [if_pos hfit]
        exact iff_of_false Bool.false_ne_true fun hacc => absurd hacc.2 (not_le.mpr hfit)
      · rw [if_neg hfit]
        refine iff_of_true ?_ ⟨hi, not_lt.mp hfit⟩
        by_cases hv : (r.entry index).verified = true
        · rw [if_pos hv]
          rfl
        · rw [if_neg hv]
          rfl
    · rw [if_neg hi]
      exact iff_of_false Bool.false_ne_true fun hacc => hi hacc.1
  · change (r.markVerified index).1.toBool = true ↔ _ < _
    unfold ItemResumption.markVerified
    rw [h.chunkSize]
    by_cases hi : index < chunkCount total
    · rw [if_pos hi]
      refine iff_of_true ?_ hi
      dsimp only
      by_cases hv : (r.entry index).verified = true
      · rw [if_pos hv]
        rfl
      · rw [if_neg hv]
        rfl
    · rw [if_neg hi]
      exact iff_of_false Bool.false_ne_true hi
  · change (r.markFailed index).1.toBool = true ↔ _ < _
    unfold ItemResumption.markFailed
    rw [h.totalChunks]
    by_cases hi : index < chunkCount total
    · rw [if_neg (not_le.mpr hi)]
      exact iff_of_true rfl hi
    · rw [if_pos (not_lt.mp hi)]
      exact iff_of_false Bool.false_ne_true hi

/-- **The ranges are exactly the bytes received.** After any calls the ranges of a chunk are
sorted, and none is empty, reaches beyond the chunk, or touches the next; together they cover the
pieces that were accepted since the chunk last failed, or all of a verified chunk. Recording
answers that the chunk is complete exactly when they cover all of it, and a call that is refused
changes nothing. -/
theorem ranges_are_received (itemId : ItemId) (total : ℕ) (calls : List Call) (index : ℕ) :
    ((run itemId total calls).chunkSize index =
        if index < chunkCount total then .ok (sizeOfChunk total index)
        else .error (.chunkOutOfBounds index (chunkCount total))) ∧
      ((run itemId total calls).entry index).ranges.Pairwise (fun a b => a.2 < b.1) ∧
      (∀ range ∈ ((run itemId total calls).entry index).ranges,
        range.1 < range.2 ∧ range.2 ≤ sizeOfChunk total index) ∧
      (∀ j, IntervalSet.Covers ((run itemId total calls).entry index).ranges j ↔
        Received total index calls j) ∧
      (∀ off len complete,
        ((run itemId total calls).recordPiece index off len).1 = .ok complete →
          (complete = true ↔ ∀ j < sizeOfChunk total index,
            Received total index (calls ++ [.recordPiece index off len]) j)) ∧
      ∀ call, ((run itemId total calls).succeeds call = true ↔ call.Accepted total) ∧
        ((run itemId total calls).succeeds call = false →
          (run itemId total calls).apply call = run itemId total calls) := by
  have hfollows := follows_run itemId total calls
  generalize run itemId total calls = r at hfollows ⊢
  have hchunk := hfollows.chunk index
  refine ⟨hfollows.chunkSize index, hchunk.normal.apart, ?_, hchunk.covers, ?_, ?_⟩
  · intro range hrange
    exact ⟨hchunk.normal.nonempty range hrange, hchunk.normal.le_bound range hrange⟩
  · intro off len complete hok
    obtain ⟨hacc, hcomplete⟩ := recordPiece_eq_ok hfollows hok
    have hnext := (hfollows.apply (.recordPiece index off len)).chunk index
    rw [hcomplete, hnext.normal.eq_whole_iff (sizeOfChunk_pos hacc.1)]
    constructor
    · intro hall j hj
      exact (hnext.covers j).mp (hall j hj)
    · intro hall j hj
      exact (hnext.covers j).mpr (hall j hj)
  · intro call
    refine ⟨hfollows.succeeds call, ?_⟩
    intro hfail
    refine apply_of_not_accepted hfollows fun hacc => ?_
    rw [(hfollows.succeeds call).mpr hacc] at hfail
    cases hfail

/-- Two pieces of a chunk that touch are one range, and complete it; a failure forgets both. -/
theorem ranges_are_received_two_pieces (itemId : ItemId) :
    ((run itemId 10 [.recordPiece 0 4 6]).recordPiece 0 0 4).1 = .ok true ∧
      (∀ j < sizeOfChunk 10 0,
        Received 10 0 ([.recordPiece 0 4 6] ++ [.recordPiece 0 0 4]) j) ∧
      ¬Received 10 0 [.recordPiece 0 4 6, .recordPiece 0 0 4, .markFailed 0] 5 := by
  have hok : ((run itemId 10 [.recordPiece 0 4 6]).recordPiece 0 0 4).1 = .ok true := rfl
  obtain ⟨-, -, -, -, hcomplete, -⟩ := ranges_are_received itemId 10 [.recordPiece 0 4 6] 0
  exact ⟨hok, (hcomplete 0 4 true hok).mp rfl, by decide⟩

end ItemResumption

end Tradr
