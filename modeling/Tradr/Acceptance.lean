import Tradr.Listener
import Tradr.ResumptionAccounting
import Tradr.Send
import Tradr.TransferMessages

/-!
# The Acceptance of an Offer

A device that takes items of an offer says for each from which chunk on it wants the content,
as far as its partial file goes, and receives the items one after the other, each on the next
data stream of the peer. The session that receives an item derives the progress once more,
from the same partial file, with code of its own; and the offering device opens the data
streams in the order of the answers, without a word about the item on them.

`Prefixed r total k` says that exactly the first `k` chunks of an item are verified. It is what
both derivations come to, and it determines the next request. What a negotiation has drawn up
at any time is `Drawn`, what the answer must be `Answered`.

## Main definitions

* `SendFiles.step`: one step of the loop of the offering device over the answers.
* `Takes`, `Answered`: what the answers say of the partial files.

## Main results

* `deriveItemResumption_eq`: the two derivations agree.
* `Prefixed.nextChunkRequest`: the next request is for the first chunk that is not there.
* `acceptance_fits`: the accept fits the offer, and both sides take up the same items in the
  same order.
-/

namespace Tradr

namespace ItemResumption

/-! ### The progress a partial file stands for -/

/-- Exactly the first `k` chunks of the item are verified, and none has failed. -/
structure Prefixed (r : ItemResumption) (total k : ℕ) : Prop where
  totalBytes : r.totalBytes = total
  totalChunks : r.totalChunks = chunkCount total
  le : k ≤ chunkCount total
  verified : ∀ i, (r.entry i).verified = decide (i < k)
  failed : ∀ i, (r.entry i).failedAttempts = 0
  count : r.verifiedChunksCount = k

/-- Of a new tracker no chunk is verified. -/
theorem prefixed_new (itemId : ItemId) (total : ℕ) : (new itemId total).Prefixed total 0 where
  totalBytes := rfl
  totalChunks := rfl
  le := Nat.zero_le _
  verified _ := rfl
  failed _ := rfl
  count := rfl

variable {r : ItemResumption} {total k : ℕ}

/-- The chunk after those that are verified can be counted as well. -/
theorem Prefixed.deriveChunk (h : r.Prefixed total k) (hk : k < chunkCount total) :
    ∃ r', Tradr.deriveChunk r k = .ok r' ∧ r'.Prefixed total (k + 1) := by
  have hsize : r.chunkSize k = .ok (r.chunkLen k) := by
    rw [chunkSize, h.totalChunks, if_neg (by omega)]
  have hnot : (r.entry k).verified = false := by
    rw [h.verified]
    exact decide_eq_false (lt_irrefl k)
  -- the piece is the whole chunk, so that it is in bounds
  obtain ⟨b, state, hpiece, hv, hf⟩ : ∃ b state,
      r.recordPiece k 0 (r.chunkLen k) = (.ok b, r.setEntry k state) ∧
        state.verified = false ∧ state.failedAttempts = 0 := by
    unfold recordPiece
    rw [hsize]
    dsimp only
    rw [if_neg (by omega), if_neg (Bool.eq_false_iff.mp hnot)]
    refine ⟨_, _, rfl, ?_, ?_⟩
    · split_ifs <;> exact hnot
    · split_ifs <;> exact h.failed k
  have hsize' : (r.setEntry k state).chunkSize k = .ok (r.chunkLen k) := hsize
  have hmark : (r.setEntry k state).markVerified k = (.ok (),
      { (r.setEntry k state).setEntry k
          { state with verified := true, ranges := [(0, r.chunkLen k)] } with
        verifiedChunksCount := r.verifiedChunksCount + 1 }) := by
    unfold markVerified
    rw [hsize']
    dsimp only
    rw [entry_setEntry_self, if_neg (Bool.eq_false_iff.mp hv)]
    rfl
  refine ⟨{ (r.setEntry k state).setEntry k
      { state with verified := true, ranges := [(0, r.chunkLen k)] } with
    verifiedChunksCount := r.verifiedChunksCount + 1 }, ?_, ?_⟩
  · unfold Tradr.deriveChunk
    rw [hsize]
    dsimp only
    rw [hpiece]
    dsimp only
    rw [hmark]
  have hother : ∀ (state' : ChunkState) {i : ℕ}, i ≠ k →
      ((r.setEntry k state).setEntry k state').entry i = r.entry i := fun state' i hi =>
    (entry_setEntry_of_ne _ _ hi).trans (entry_setEntry_of_ne _ _ hi)
  constructor
  · exact h.totalBytes
  · exact h.totalChunks
  · exact hk
  · intro i
    by_cases hi : i = k
    · subst hi
      exact (congrArg ChunkState.verified (entry_setEntry_self _ _ _)).trans
        (decide_eq_true (Nat.lt_succ_self _)).symm
    · refine (congrArg ChunkState.verified (hother _ hi)).trans ((h.verified i).trans ?_)
      exact decide_eq_decide.mpr (by omega)
  · intro i
    by_cases hi : i = k
    · subst hi
      exact (congrArg ChunkState.failedAttempts (entry_setEntry_self _ _ _)).trans hf
    · exact (congrArg ChunkState.failedAttempts (hother _ hi)).trans (h.failed i)
  · exact congrArg (· + 1) h.count

/-- So can any number of chunks. -/
theorem Prefixed.deriveChunks (n : ℕ) {r : ItemResumption} {k : ℕ} (h : r.Prefixed total k)
    (hn : k + n ≤ chunkCount total) :
    ∃ r', Tradr.deriveChunks n k r = .ok r' ∧ r'.Prefixed total (k + n) := by
  induction n generalizing r k with
  | zero => exact ⟨r, rfl, h⟩
  | succ n ih =>
    obtain ⟨r₁, hr₁, h₁⟩ := h.deriveChunk (by omega)
    obtain ⟨r₂, hr₂, h₂⟩ := ih h₁ (by omega)
    refine ⟨r₂, ?_, by rwa [Nat.add_assoc, Nat.add_comm 1] at h₂⟩
    rw [Tradr.deriveChunks, hr₁]
    exact hr₂

/-- How many chunks of an item a partial file of some size has. -/
def chunksOf (total sizeBytes : ℕ) : ℕ :=
  if total ≤ sizeBytes then chunkCount total else sizeBytes / referenceChunkSizeBytes

/-- **The progress a partial file stands for** is the chunks it has. -/
theorem prefixed_deriveFromSize (itemId : ItemId) (total sizeBytes : ℕ) :
    ∃ r, deriveFromSize (new itemId total) sizeBytes = .ok r ∧
      r.Prefixed total (chunksOf total sizeBytes) := by
  have hR := referenceChunkSizeBytes_pos
  obtain ⟨r, hr, h⟩ := (prefixed_new itemId total).deriveChunks
    (min (sizeBytes / referenceChunkSizeBytes) (chunkCount total)) (by omega)
  rw [Nat.zero_add] at h
  have hunfold : deriveFromSize (new itemId total) sizeBytes =
      if min (sizeBytes / referenceChunkSizeBytes) (chunkCount total) < chunkCount total ∧
          sizeBytes ≥ total then Tradr.deriveChunk r (chunkCount total - 1)
      else .ok r := by
    unfold deriveFromSize
    dsimp only
    rw [show (new itemId total).totalChunks = chunkCount total from rfl, hr]
    dsimp only
    rw [h.totalChunks, h.totalBytes]
  rw [hunfold]
  unfold chunksOf
  by_cases hfull : total ≤ sizeBytes
  · rw [if_pos hfull]
    by_cases hlast : min (sizeBytes / referenceChunkSizeBytes) (chunkCount total) <
        chunkCount total
    · -- only the last chunk is shorter than the others, so that it is the one that is left
      have hpos : 0 < total := by
        refine Nat.pos_of_ne_zero fun h0 => ?_
        rw [h0, chunkCount, if_pos rfl] at hlast
        exact Nat.not_lt_zero _ hlast
      have hk : min (sizeBytes / referenceChunkSizeBytes) (chunkCount total) =
          chunkCount total - 1 := by
        obtain ⟨hstart, -, -⟩ := chunkCount_spec hpos
        have hle : chunkCount total - 1 ≤ sizeBytes / referenceChunkSizeBytes :=
          (Nat.le_div_iff_mul_le hR).mpr (by omega)
        omega
      rw [if_pos ⟨hlast, hfull⟩]
      rw [hk] at h
      obtain ⟨r', hr', h'⟩ := h.deriveChunk (by omega)
      rw [Nat.sub_add_cancel (by omega)] at h'
      exact ⟨r', hr', h'⟩
    · rw [if_neg fun hc => hlast hc.1]
      refine ⟨r, rfl, ?_⟩
      rwa [show min (sizeBytes / referenceChunkSizeBytes) (chunkCount total) =
        chunkCount total by omega] at h
  · rw [if_neg fun hc => hfull hc.2, if_neg hfull]
    refine ⟨r, rfl, ?_⟩
    have hlt := div_lt_chunkCount (Nat.lt_of_not_le hfull)
    rwa [Nat.min_eq_left hlt.le] at h

/-- A chunk is worth asking for when it is not among the first ones. -/
theorem Prefixed.isChunkRequestable (h : r.Prefixed total k) (i : ℕ) :
    r.isChunkRequestable i = decide (k ≤ i) := by
  have hv := h.verified i
  have hf := h.failed i
  unfold ItemResumption.isChunkRequestable
  unfold entry at hv hf
  cases hstate : r.chunks i with
  | none =>
    rw [hstate] at hv
    have hle := of_decide_eq_false hv.symm
    exact (decide_eq_true (by omega)).symm
  | some state =>
    rw [hstate] at hv hf
    dsimp only [Option.getD] at hv hf ⊢
    rw [hv, hf]
    by_cases hi : i < k
    · simp [hi]
    · simp [hi, Nat.le_of_not_lt hi]

/-- **The next request** is for the first chunk that is not there; there is none when all are. -/
theorem Prefixed.nextChunkRequest (h : r.Prefixed total k) (hpos : 0 < total) {n : ℕ} (hn : 0 < n) :
    (r.nextChunkRequest n).map Prod.fst = if k < chunkCount total then some k else none := by
  obtain ⟨-, -, hcount⟩ := chunkCount_spec hpos
  unfold ItemResumption.nextChunkRequest
  by_cases hk : k < chunkCount total
  · have hstop : ¬(n = 0 ∨ r.totalChunks = 0 ∨ r.isItemComplete = true) := by
      rw [isItemComplete, h.totalBytes, h.totalChunks, h.count, decide_eq_true_iff]
      omega
    have hfirst := firstRequestable_spec r r.totalChunks 0
    rw [if_neg hstop, if_pos hk]
    rcases hscan : r.firstRequestable r.totalChunks 0 with _ | first
    · rw [hscan] at hfirst
      have hreq := hfirst k (Nat.zero_le _) (by rw [h.totalChunks]; omega)
      rw [h.isChunkRequestable, decide_eq_true le_rfl] at hreq
      cases hreq
    · rw [hscan] at hfirst
      obtain ⟨-, hlt, hfound, hbefore⟩ := hfirst
      rw [h.isChunkRequestable, decide_eq_true_iff] at hfound
      obtain rfl : first = k := by
        refine Nat.le_antisymm (Nat.le_of_not_lt fun hlt' => ?_) hfound
        have hreq := hbefore k (Nat.zero_le _) hlt'
        rw [h.isChunkRequestable, decide_eq_true le_rfl] at hreq
        cases hreq
      have hrun : r.requestableRun n first ≠ 0 := by
        obtain ⟨m, rfl⟩ := Nat.exists_eq_add_of_lt hn
        have hreq : r.isChunkRequestable first = true := by
          rw [h.isChunkRequestable, decide_eq_true le_rfl]
        rw [requestableRun, if_pos ⟨by rw [h.totalChunks]; exact hk, hreq⟩]
        exact Nat.succ_ne_zero _
      dsimp only
      rw [if_neg hrun]
      rfl
  · have hcomplete : r.isItemComplete = true := by
      rw [isItemComplete, h.count, h.totalChunks]
      exact decide_eq_true (Or.inr (Nat.le_antisymm h.le (by omega)))
    rw [if_pos (Or.inr (Or.inr hcomplete)), if_neg hk]
    rfl

end ItemResumption

/-! ### The answer for an item -/

/-- Both sides count the chunks of an item alike. -/
theorem OfferItem.chunkCount_eq (item : OfferItem) :
    item.chunkCount = ItemResumption.chunkCount item.size := by
  have hpos := item.size_pos
  have hR := referenceChunkSizeBytes_pos
  rw [ItemResumption.chunkCount, if_neg (by omega), OfferItem.chunkCount, Nat.add_sub_assoc hR]

/-- An item of an offer has a length of 64 bits. -/
theorem TransferOffer.size_lt (offer : TransferOffer) {item : OfferItem} (h : item ∈ offer.items) :
    item.size < UInt64.size := by
  have hle : item.size ≤ (offer.items.map OfferItem.size).sum :=
    List.single_le_sum (fun _ _ => Nat.zero_le _) _ (List.mem_map_of_mem h)
  have htotal := offer.total
  have hlt := offer.total_lt
  omega

/-- **The two derivations agree** on a partial file. -/
theorem deriveItemResumption_eq (item : OfferItem) (m : Metadata) :
    deriveItemResumption item (.ok m) =
      .ok (deriveResumption item.itemId item.size (.ok m)) := by
  obtain ⟨r, hr, h⟩ := (ItemResumption.prefixed_new item.itemId item.size).deriveChunks
    (min (m.sizeBytes / referenceChunkSizeBytes) (ItemResumption.chunkCount item.size)) (by omega)
  have htotal : (ItemResumption.new item.itemId item.size).totalChunks =
      ItemResumption.chunkCount item.size := rfl
  unfold deriveItemResumption deriveResumption deriveFromSize
  dsimp only
  rw [item.chunkCount_eq, htotal, hr]
  dsimp only
  rw [h.totalChunks, h.totalBytes]
  split_ifs
  · cases deriveChunk r (ItemResumption.chunkCount item.size - 1) <;> rfl
  · rfl

/-- The length of a partial file, as far as the filesystem answers; none at all is an empty one. -/
def partialLength : Except VfsError Metadata → Option ℕ
  | .ok m => some m.sizeBytes
  | .error .notFound => some 0
  | .error _ => none

/-- The progress that is derived is the chunks the partial file has. -/
theorem deriveItemResumption_spec (item : OfferItem) {meta? : Except VfsError Metadata}
    {r : ItemResumption} (h : deriveItemResumption item meta? = .ok r) :
    ∃ length, partialLength meta? = some length ∧
      r.Prefixed item.size (ItemResumption.chunksOf item.size length) := by
  cases meta? with
  | ok m =>
    refine ⟨m.sizeBytes, rfl, ?_⟩
    obtain ⟨r', hr', hr⟩ :=
      ItemResumption.prefixed_deriveFromSize item.itemId item.size m.sizeBytes
    rw [deriveItemResumption_eq, deriveResumption, hr'] at h
    obtain rfl := Except.ok.inj h
    exact hr
  | error e =>
    have hpos := item.size_pos
    cases e <;> try cases h
    refine ⟨0, rfl, ?_⟩
    rw [ItemResumption.chunksOf, if_neg (by omega), Nat.zero_div]
    exact ItemResumption.prefixed_new item.itemId item.size

/-- The first chunk a session asks for that finds a partial file; it asks for none when the file
is complete. -/
def Receiver.firstRequested (req : ReceiveRequest) (m : Metadata) : Option ℕ :=
  ((deriveResumption req.itemId req.totalBytes.toNat (.ok m)).nextChunkRequest
    chunkRequestBatch).map Prod.fst

/-- The first chunk a session asks for is the one behind those the partial file has. -/
theorem Receiver.firstRequested_eq (t : Transfer) {item : OfferItem} (hsize : item.size < UInt64.size)
    (m : Metadata) :
    Receiver.firstRequested (t.receiveRequest item) m =
      if item.size ≤ m.sizeBytes then none else some (m.sizeBytes / referenceChunkSizeBytes) := by
  obtain ⟨r, hr, h⟩ := ItemResumption.prefixed_deriveFromSize item.itemId item.size m.sizeBytes
  have htotal : (t.receiveRequest item).totalBytes.toNat = item.size := UInt64.toNat_ofNat_of_lt hsize
  unfold Receiver.firstRequested deriveResumption
  rw [htotal, show (t.receiveRequest item).itemId = item.itemId from rfl]
  dsimp only
  rw [hr]
  dsimp only
  rw [h.nextChunkRequest item.size_pos (by decide), ItemResumption.chunksOf]
  by_cases hfull : item.size ≤ m.sizeBytes
  · rw [if_pos hfull, if_pos hfull, if_neg (lt_irrefl _)]
  · rw [if_neg hfull, if_neg hfull,
      if_pos (ItemResumption.div_lt_chunkCount (Nat.lt_of_not_le hfull))]

/-- The answer that takes an item whose partial file has some length: go on with the first chunk
that the session will ask for, or with the last one where it will ask for none. -/
structure Takes (item : OfferItem) (length : ℕ) (answer : ItemAcceptance) : Prop where
  itemId : answer.itemId = item.itemId
  accepted : answer.accepted = true
  haveChunks : answer.haveChunks = []
  below : answer.resumeChunk < item.chunkCount
  first : ∀ (t : Transfer) (m : Metadata), m.sizeBytes = length →
    answer.resumeChunk =
      (Receiver.firstRequested (t.receiveRequest item) m).getD (item.chunkCount - 1)
  complete : ∀ (t : Transfer) (m : Metadata), m.sizeBytes = length →
    (Receiver.firstRequested (t.receiveRequest item) m = none ↔ item.size ≤ length)

/-- The chunk the listener names is the first one the session will ask for. -/
theorem takes_of_prefixed {item : OfferItem} (hsize : item.size < UInt64.size) {length : ℕ}
    {r : ItemResumption}
    (h : r.Prefixed item.size (ItemResumption.chunksOf item.size length)) :
    Takes item length ⟨item.itemId, true, resumeChunk item r, []⟩ := by
  obtain ⟨-, -, hcount⟩ := ItemResumption.chunkCount_spec item.size_pos
  have hnext := h.nextChunkRequest item.size_pos Nat.one_pos
  have hresume : resumeChunk item r =
      if item.size ≤ length then item.chunkCount - 1 else length / referenceChunkSizeBytes := by
    rw [ItemResumption.chunksOf] at hnext
    unfold resumeChunk
    by_cases hfull : item.size ≤ length
    · rw [if_pos hfull, if_neg (lt_irrefl _), Option.map_eq_none_iff] at hnext
      rw [hnext, if_pos hfull]
    · rw [if_neg hfull,
        if_pos (ItemResumption.div_lt_chunkCount (Nat.lt_of_not_le hfull))] at hnext
      obtain ⟨⟨first, count⟩, hrequest, hfirst⟩ := Option.map_eq_some_iff.mp hnext
      rw [hrequest, if_neg hfull]
      exact hfirst
  constructor
  · rfl
  · rfl
  · rfl
  · dsimp only
    rw [hresume, item.chunkCount_eq]
    split_ifs with hfull
    · omega
    · exact ItemResumption.div_lt_chunkCount (Nat.lt_of_not_le hfull)
  · rintro t m rfl
    dsimp only
    rw [hresume, Receiver.firstRequested_eq t hsize]
    by_cases hfull : item.size ≤ m.sizeBytes
    · rw [if_pos hfull, if_pos hfull, Option.getD_none]
    · rw [if_neg hfull, if_neg hfull, Option.getD_some]
  · rintro t m rfl
    rw [Receiver.firstRequested_eq t hsize]
    by_cases hfull : item.size ≤ m.sizeBytes
    · rw [if_pos hfull]
      exact iff_of_true rfl hfull
    · rw [if_neg hfull]
      exact iff_of_false (Option.some_ne_none _) hfull

/-! ### Drawing up the answer -/

/-- An item of an offer is the one found by its identifier. -/
theorem TransferOffer.find?_eq_some (offer : TransferOffer) {item : OfferItem}
    (h : item ∈ offer.items) :
    offer.items.find? (fun offered => offered.itemId = item.itemId) = some item := by
  have hsome : (offer.items.find? fun offered => offered.itemId = item.itemId).isSome :=
    List.find?_isSome.mpr ⟨item, h, decide_eq_true rfl⟩
  obtain ⟨found, hfound⟩ := Option.isSome_iff_exists.mp hsome
  have hid : found.itemId = item.itemId := by simpa using List.find?_some hfound
  have hmem := List.mem_of_find?_eq_some hfound
  rw [hfound, List.inj_on_of_nodup_map offer.nodup hmem h hid]

/-- At one of these states of the store the partial file of the item has this length. -/
def LengthSeen {σ H : Type*} (vfs : Vfs σ H) (offer : TransferOffer) (stores : List σ)
    (item : OfferItem) (length : ℕ) : Prop :=
  ∃ store ∈ stores,
    partialLength (vfs.stat store (partialFileRelPath offer.transferId item.itemId)).1 = some length

/-- The items of an offer that the filter takes. -/
def TransferOffer.taken (offer : TransferOffer) (env : ListenerEnv) : List OfferItem :=
  offer.items.filter (IncomingChannel.accepts env)

/-- What an answer has been drawn up from: the items that were looked at, and for those that are
taken the length that was seen of the partial file. -/
structure Drawn {σ H : Type*} (vfs : Vfs σ H) (env : ListenerEnv) (offer : TransferOffer)
    (stores : List σ) (n : Negotiation) : Prop where
  sameOffer : n.offer = offer
  split : ∃ seen, offer.items = seen ++ n.remaining ∧
    n.itemsToReceive = seen.filter (IncomingChannel.accepts env)
  answers : List.Forall₂
    (fun item answer => ∃ length, LengthSeen vfs offer stores item length ∧
      Takes item length answer) n.itemsToReceive n.acceptedItems

/-- **The accept fits the offer**: it can be built, it passes the check against the offer, and it
lists the items that are taken, in order, or all of them as declined. -/
structure Answered {σ H : Type*} (vfs : Vfs σ H) (env : ListenerEnv) (offer : TransferOffer)
    (stores : List σ) (accept : TransferAccept) : Prop where
  transferId : accept.transferId = offer.transferId
  built : TransferAccept.new offer.transferId accept.items none = .ok accept
  fits : accept.forOffer offer = .ok ()
  declines : offer.taken env = [] →
    accept.items = offer.items.map fun item => ⟨item.itemId, false, 0, []⟩
  takes : offer.taken env ≠ [] → List.Forall₂
    (fun item answer => ∃ length, LengthSeen vfs offer stores item length ∧
      Takes item length answer) (offer.taken env) accept.items

section Answer

variable {σ H : Type*} {vfs : Vfs σ H} {env : ListenerEnv} {offer : TransferOffer}
  {stores : List σ} {n : Negotiation}

/-- An answer for an item of the offer passes the check when it declines the item, or names one
of its chunks. -/
theorem ItemAcceptance.forOffer_eq_ok {item : OfferItem} (h : item ∈ offer.items)
    {answer : ItemAcceptance} (hid : answer.itemId = item.itemId)
    (hbelow : answer.accepted = true → answer.resumeChunk < item.chunkCount)
    (hnone : answer.haveChunks = []) : answer.forOffer offer = .ok () := by
  unfold ItemAcceptance.forOffer
  rw [hid, offer.find?_eq_some h]
  dsimp only
  rw [if_neg, hnone]
  · rfl
  · rintro ⟨haccepted, hge⟩
    exact absurd (hbelow haccepted) (Nat.not_lt.mpr hge)

/-- The answers of some items of the offer make an accept that fits. -/
theorem accept_fits (offer : TransferOffer) {items : List OfferItem}
    (hsub : items.Sublist offer.items) (answers : List ItemAcceptance) (hne : answers ≠ [])
    (hids : answers.map ItemAcceptance.itemId = items.map OfferItem.itemId)
    (hok : ∀ answer ∈ answers, answer.forOffer offer = .ok ()) :
    TransferAccept.new offer.transferId answers none = .ok ⟨offer.transferId, answers, none⟩ ∧
      TransferAccept.forOffer ⟨offer.transferId, answers, none⟩ offer = .ok () := by
  have hnodup : (answers.map ItemAcceptance.itemId).Nodup := by
    rw [hids]
    exact offer.nodup.sublist (hsub.map _)
  constructor
  · rw [TransferAccept.new, if_neg hne, firstDuplicate_eq_none hnodup fun _ _ => List.not_mem_nil]
  · unfold TransferAccept.forOffer
    rw [if_neg (not_not_intro rfl)]
    dsimp only
    clear hne hids hnodup
    induction answers with
    | nil => rfl
    | cons answer answers ih =>
      rw [List.forM_eq_forM, List.forM_cons, hok answer List.mem_cons_self]
      exact ih fun a ha => hok a (List.mem_cons_of_mem _ ha)

/-- Lists whose elements belong together have the same identifiers. -/
theorem map_itemId_of_takes {items : List OfferItem} {answers : List ItemAcceptance}
    {R : OfferItem → ℕ → Prop}
    (h : List.Forall₂ (fun item answer => ∃ length, R item length ∧ Takes item length answer)
      items answers) :
    answers.map ItemAcceptance.itemId = items.map OfferItem.itemId := by
  induction h with
  | nil => rfl
  | cons hhead _ ih =>
    obtain ⟨length, -, htakes⟩ := hhead
    rw [List.map_cons, List.map_cons, htakes.itemId, ih]

/-- **What is drawn up becomes an accept that fits.** -/
theorem Drawn.answered (h : Drawn vfs env offer stores n) (hdone : n.remaining = [])
    (proto : OfferProto) :
    ∃ accept, Answered vfs env offer stores accept ∧
      n.acceptFrame proto = (encodeTransferAcceptFrame proto accept n.peerMaxFrameSize).mapError
        .offerFrame := by
  obtain ⟨seen, hsplit, hitems⟩ := h.split
  rw [hdone, List.append_nil] at hsplit
  have htaken : n.itemsToReceive = offer.taken env := by rw [hitems, ← hsplit, TransferOffer.taken]
  have hanswers := h.answers
  rw [htaken] at hanswers
  have hsub : (offer.taken env).Sublist offer.items := List.filter_sublist
  have hlen := hanswers.length_eq
  have hframe : ∀ answers, n.answers = .ok answers →
      TransferAccept.new offer.transferId answers none = .ok ⟨offer.transferId, answers, none⟩ ∧
        TransferAccept.forOffer ⟨offer.transferId, answers, none⟩ offer = .ok () →
      n.acceptFrame proto = (encodeTransferAcceptFrame proto ⟨offer.transferId, answers, none⟩
        n.peerMaxFrameSize).mapError .offerFrame := by
    rintro answers hans ⟨hnew, hfor⟩
    unfold Negotiation.acceptFrame
    rw [hans, h.sameOffer]
    simp only [Fallible.mapError_ok, Fallible.ok_bind, hnew, hfor]
  by_cases hnone : n.acceptedItems = []
  · -- no item is taken, so that each is declined
    have hempty : offer.taken env = [] := by
      rw [hnone] at hlen
      exact List.length_eq_zero_iff.mp hlen
    have hans : n.answers = .ok (offer.items.map fun item => ⟨item.itemId, false, 0, []⟩) := by
      rw [Negotiation.answers, if_pos hnone, h.sameOffer]
      have hmapped : (offer.items.map fun item => item).mapM
          (fun item => ItemAcceptance.new item.itemId false 0 []) =
          .ok (offer.items.map fun item => ⟨item.itemId, false, 0, []⟩) :=
        Fallible.mapM_map_of_ok fun _ _ => rfl
      rwa [List.map_id'] at hmapped
    have hfits := accept_fits offer (List.Sublist.refl _)
      (offer.items.map fun item => ⟨item.itemId, false, 0, []⟩)
      (fun hnil => offer.items_ne_nil (List.map_eq_nil_iff.mp hnil))
      (by rw [List.map_map]; rfl)
      (by
        intro answer hanswer
        obtain ⟨item, hitem, rfl⟩ := List.mem_map.mp hanswer
        exact ItemAcceptance.forOffer_eq_ok hitem rfl nofun rfl)
    exact ⟨_, ⟨rfl, hfits.1, hfits.2, fun _ => rfl, fun hne => absurd hempty hne⟩,
      hframe _ hans hfits⟩
  · have hans : n.answers = .ok n.acceptedItems := if_neg hnone
    have hfits := accept_fits offer hsub _ hnone (map_itemId_of_takes hanswers) (by
      intro answer hanswer
      obtain ⟨k, hk, rfl⟩ := List.getElem_of_mem hanswer
      obtain ⟨length, -, htakes⟩ := hanswers.get (hlen ▸ hk) hk
      exact ItemAcceptance.forOffer_eq_ok (hsub.subset (List.getElem_mem (hlen ▸ hk)))
        htakes.itemId (fun _ => htakes.below) htakes.haveChunks)
    refine ⟨_, ⟨rfl, hfits.1, hfits.2, ?_, fun _ => hanswers⟩, hframe _ hans hfits⟩
    intro hempty
    rw [hempty] at hlen
    exact absurd (List.length_eq_zero_iff.mp hlen.symm) hnone

end Answer

/-! ### The listener's side -/

namespace IncomingChannel

variable {σ H : Type*} (vfs : Vfs σ H) (env : ListenerEnv) (ch : IncomingChannel σ H)

/-- The item whose data stream an input brings. -/
def takesUp (stage : ChannelStage σ H) (input : ChannelInput) : Option OfferItem :=
  match stage, input with
  | .awaitingData _ item, .data (.ok _) => some item
  | _, _ => none

/-- One step of a channel at any store: its stage, and the items whose data streams were accepted
so far. -/
def followStep (w : ChannelStage σ H × List OfferItem) (step : σ × ChannelInput) :
    ChannelStage σ H × List OfferItem :=
  ((handleIncomingChannel vfs env { ch with stage := w.1 } step.1 step.2).2,
    w.2 ++ (takesUp w.1 step.2).toList)

/-- A channel that has read an offer, after some steps; between two of them the store may change
in any way. -/
def afterSteps (offer : TransferOffer) (peerMaxFrameSize : UInt32) (controlSend : SendStream)
    (steps : List (σ × ChannelInput)) : ChannelStage σ H × List OfferItem :=
  steps.foldl (followStep vfs env ch)
    (ch.afterOffer peerMaxFrameSize controlSend (.ok offer), [])

/-- What holds of a channel that answers an offer and receives what it takes of it. -/
def Conducts (offer : TransferOffer) (stores : List σ) (items : List OfferItem) :
    ChannelStage σ H → Prop
  | .negotiating n => items = [] ∧ Drawn vfs env offer stores n
  | .awaitingData t item => offer.taken env = items ++ item :: t.remaining
  | .receiving t _ _ => offer.taken env = items ++ t.remaining
  | .removingDir _ | .closing (.ok _) | .ended (.ok _) => items = offer.taken env
  | .ended (.error failure) => items <+: offer.taken env ∧
      (∀ e, failure.error ≠ .acceptValidation e) ∧ ∀ e, failure.error ≠ .itemAcceptance e
  | _ => False

variable {vfs env ch} {offer : TransferOffer} {stores : List σ} {items : List OfferItem}

/-- The channel takes up the items in order. -/
theorem Conducts.isPrefix {stage : ChannelStage σ H} (h : Conducts vfs env offer stores items stage) :
    items <+: offer.taken env := by
  unfold Conducts at h
  split at h
  · rw [h.1]
    exact List.nil_prefix
  · rw [h]
    exact List.prefix_append _ _
  · rw [h]
    exact List.prefix_append _ _
  · rw [h]
  · rw [h]
  · rw [h]
  · exact h.1
  · exact h.elim

/-- What comes next is the next item. -/
theorem conducts_next {t : Transfer} (h : offer.taken env = items ++ t.remaining) :
    Conducts vfs env offer stores items (t.next : ChannelStage σ H) := by
  unfold Transfer.next
  split
  · rename_i hnil
    rw [hnil, List.append_nil] at h
    exact h.symm
  · rename_i item rest hcons
    rwa [hcons] at h

/-- A failure that has nothing to do with the answer. -/
theorem conducts_fail {phase : ChannelPhase} {error : ListenerError}
    (hitems : items <+: offer.taken env) (haccept : ∀ e, error ≠ .acceptValidation e)
    (hitem : ∀ e, error ≠ .itemAcceptance e) :
    Conducts vfs env offer stores items (ch.fail phase error) :=
  ⟨hitems, haccept, hitem⟩

/-- The next item of the offer is looked at, or the offer is answered. -/
theorem conducts_negotiate {n : Negotiation} (store : σ) (h : Drawn vfs env offer stores n) :
    Conducts vfs env offer (stores ++ [store]) [] (ch.negotiate vfs env store n).2 := by
  have hanswers : List.Forall₂
      (fun item answer => ∃ length, LengthSeen vfs offer (stores ++ [store]) item length ∧
        Takes item length answer) n.itemsToReceive n.acceptedItems := by
    refine h.answers.imp fun item answer => ?_
    rintro ⟨length, ⟨seenAt, hmem, hlength⟩, htakes⟩
    exact ⟨length, ⟨seenAt, List.mem_append_left _ hmem, hlength⟩, htakes⟩
  obtain ⟨seen, hsplit, hitems⟩ := h.split
  unfold negotiate
  split
  · rename_i hnil
    obtain ⟨accept, -, hframe⟩ := h.answered hnil env.offers
    rw [hnil, List.append_nil] at hsplit
    unfold answerOffer
    rw [hframe]
    split
    · rename_i e he
      refine conducts_fail List.nil_prefix ?_ ?_
      all_goals
        rintro e' rfl
        cases hencoded : encodeTransferAcceptFrame env.offers accept n.peerMaxFrameSize with
        | error e'' =>
          rw [hencoded] at he
          cases he
        | ok bytes =>
          rw [hencoded] at he
          cases he
    · split
      · exact conducts_fail List.nil_prefix nofun nofun
      · apply conducts_next
        rw [List.nil_append, hitems, ← hsplit, TransferOffer.taken]
  · rename_i item rest hcons
    have hmem : item ∈ offer.items := by
      rw [hsplit, hcons]
      exact List.mem_append_right _ List.mem_cons_self
    have hsplit' : offer.items = (seen ++ [item]) ++ rest := by
      rw [hsplit, hcons, List.append_assoc, List.singleton_append]
    split_ifs with haccepts
    · dsimp only
      split
      · exact conducts_fail List.nil_prefix nofun nofun
      · rename_i r hr
        obtain ⟨length, hlength, hprefixed⟩ := deriveItemResumption_spec item hr
        have htakes := takes_of_prefixed (offer.size_lt hmem) hprefixed
        rw [show ItemAcceptance.new item.itemId true (resumeChunk item r) [] =
          .ok ⟨item.itemId, true, resumeChunk item r, []⟩ from rfl]
        refine ⟨rfl, h.sameOffer, ⟨seen ++ [item], hsplit', ?_⟩, ?_⟩
        · dsimp only
          rw [List.filter_append, ← hitems, List.filter_cons_of_pos haccepts, List.filter_nil]
        · refine List.rel_append hanswers (List.Forall₂.cons ⟨length, ⟨store, ?_, ?_⟩, htakes⟩ .nil)
          · exact List.mem_append_right _ List.mem_cons_self
          · rwa [h.sameOffer] at hlength
    · refine ⟨rfl, h.sameOffer, ⟨seen ++ [item], hsplit', ?_⟩, hanswers⟩
      dsimp only
      rw [List.filter_append, ← hitems, List.filter_cons_of_neg haccepts, List.filter_nil,
        List.append_nil]

/-- What was seen stays seen. -/
theorem Conducts.mono {stage : ChannelStage σ H} (h : Conducts vfs env offer stores items stage)
    (store : σ) : Conducts vfs env offer (stores ++ [store]) items stage := by
  unfold Conducts at h ⊢
  split at h
  · obtain ⟨hitems, hdrawn⟩ := h
    refine ⟨hitems, hdrawn.sameOffer, hdrawn.split, hdrawn.answers.imp fun item answer => ?_⟩
    rintro ⟨length, ⟨seenAt, hmem, hlength⟩, htakes⟩
    exact ⟨length, ⟨seenAt, List.mem_append_left _ hmem, hlength⟩, htakes⟩
  all_goals exact h

/-- **What one step of a channel does for the offer.** -/
theorem conducts_step {stage : ChannelStage σ H} (h : Conducts vfs env offer stores items stage)
    (step : σ × ChannelInput) :
    Conducts vfs env offer (stores ++ [step.1]) (followStep vfs env ch (stage, items) step).2
      (followStep vfs env ch (stage, items) step).1 := by
  obtain ⟨store, input⟩ := step
  have hsame : Conducts vfs env offer (stores ++ [store]) (items ++ []) stage := by
    rw [List.append_nil]
    exact h.mono store
  cases stage with
  | handshaking => exact h.elim
  | linking => exact h.elim
  | offering => exact h.elim
  | browsing => exact h.elim
  | negotiating n =>
    cases input with
    | go =>
      obtain ⟨rfl, hdrawn⟩ := h
      exact conducts_negotiate store hdrawn
    | _ => exact hsame
  | awaitingData t item =>
    cases input with
    | data res =>
      cases res with
      | error e => exact conducts_fail hsame.isPrefix nofun nofun
      | ok streams =>
        have htaken : offer.taken env = items ++ item :: t.remaining := h
        exact htaken.trans (List.append_cons ..)
    | _ => exact hsame
  | receiving t item session =>
    cases input with
    | go =>
      have htaken : offer.taken env = (items ++ []) ++ t.remaining := by
        rw [List.append_nil]
        exact h
      change Conducts vfs env offer (stores ++ [store]) (items ++ [])
        (receive vfs env { ch with stage := .receiving t item session } store t item session).2
      unfold receive
      split
      · exact conducts_next htaken
      · exact conducts_fail hsame.isPrefix nofun nofun
      · exact htaken
    | _ => exact hsame
  | removingDir t =>
    cases input with
    | go => exact hsame
    | _ => exact hsame
  | closing outcome =>
    cases outcome with
    | error e => exact h.elim
    | ok placed => cases input <;> exact hsame
  | ended outcome => exact hsame

/-- **What some steps of a channel do for the offer.** -/
theorem conducts_afterSteps (vfs : Vfs σ H) (env : ListenerEnv) (ch : IncomingChannel σ H)
    (offer : TransferOffer) (peerMaxFrameSize : UInt32) (controlSend : SendStream)
    (steps : List (σ × ChannelInput)) :
    Conducts vfs env offer (steps.map Prod.fst)
      (afterSteps vfs env ch offer peerMaxFrameSize controlSend steps).2
      (afterSteps vfs env ch offer peerMaxFrameSize controlSend steps).1 := by
  induction steps using List.reverseRecOn with
  | nil => exact ⟨rfl, rfl, ⟨[], rfl, rfl⟩, .nil⟩
  | append_singleton steps step ih =>
    rw [List.map_append, List.map_singleton, afterSteps, List.foldl_append, List.foldl_cons,
      List.foldl_nil]
    exact conducts_step ih step

end IncomingChannel

/-! ### The offering side -/

/-- Why the offering side gave up. -/
inductive SendFilesError
  | openStream (e : TransportError)
  | initFrame (e : FrameError)
  | initStream (e : TransportError)
  | notOffered (id : ItemId)
  | missingPrepared (id : ItemId)
  | sending (e : SendError)
  | finish (e : TransportError)

/-- Where the loop of the offering side over the answers waits. -/
inductive SendFilesPhase
  | choosing
  | opening (item : OfferItem)
  | initializing (item : OfferItem)
  | serving (item : OfferItem)
  | finishing
  | done (result : Except SendFilesError (List RelPath))

/-- The loop of the offering side: the answers to come, the items that are prepared, those for
which a data stream was opened, and the paths of those that were sent. -/
structure SendFiles where
  phase : SendFilesPhase
  remaining : List ItemAcceptance
  prepared : List ItemId
  opened : List OfferItem
  sent : List RelPath

/-- What the world gives the loop: the outcome of a call at a stream, or of a sending session;
`go` is the loop's own. -/
inductive SendFilesInput
  | go
  | stream (res : Except TransportError Unit)
  | served (res : Except SendError Bool)

namespace SendFiles

/-- The frame with which a data stream is made known to the peer has this type. -/
def initFrameCode : UInt8 := 0x24

/-- The loop before the first answer: every offered item is prepared. -/
def start (offer : TransferOffer) (accept : TransferAccept) : SendFiles :=
  ⟨.choosing, accept.items, offer.items.map OfferItem.itemId, [], []⟩

/-- Give up. -/
def fail (w : SendFiles) (e : SendFilesError) : SendFiles :=
  { w with phase := .done (.error e) }

/-- Look at the next answer. -/
def choose (offer : TransferOffer) (w : SendFiles) : SendFiles :=
  match w.remaining with
  | [] => { w with phase := .finishing }
  | answer :: rest =>
    if answer.accepted then
      match offer.items.find? fun offered => offered.itemId = answer.itemId with
      | none => { w with remaining := rest }.fail (.notOffered answer.itemId)
      | some item => { w with remaining := rest, phase := .opening item }
    else { w with remaining := rest }

/-- The first frame of a data stream was written. -/
def writeInit (bound : UInt32) (w : SendFiles) (item : OfferItem)
    (res : Except TransportError Unit) : SendFiles :=
  match encodeFrame initFrameCode [] bound with
  | .error e => w.fail (.initFrame e)
  | .ok _ =>
    match res with
    | .error e => w.fail (.initStream e)
    | .ok () =>
      if item.itemId ∈ w.prepared then { w with phase := .serving item }
      else w.fail (.missingPrepared item.itemId)

/-- One step of the loop; what it is not waiting for changes nothing. -/
def step (offer : TransferOffer) (bound : UInt32) (w : SendFiles) (input : SendFilesInput) :
    SendFiles :=
  match w.phase, input with
  | .choosing, .go => w.choose offer
  | .opening _, .stream (.error e) => w.fail (.openStream e)
  | .opening item, .stream (.ok ()) =>
    { w with phase := .initializing item, opened := w.opened ++ [item] }
  | .initializing item, .stream res => w.writeInit bound item res
  | .serving _, .served (.error e) => w.fail (.sending e)
  | .serving item, .served (.ok verified) =>
    { w with
      phase := .choosing
      prepared := w.prepared.erase item.itemId
      sent := if verified then w.sent ++ [item.relPath] else w.sent }
  | .finishing, .stream (.error e) => w.fail (.finish e)
  | .finishing, .stream (.ok ()) => { w with phase := .done (.ok w.sent) }
  | _, _ => w

/-- The loop after some inputs. -/
def run (offer : TransferOffer) (bound : UInt32) (accept : TransferAccept)
    (inputs : List SendFilesInput) : SendFiles :=
  inputs.foldl (step offer bound) (start offer accept)

/-- The items that some answers take. -/
def wanted (offer : TransferOffer) (answers : List ItemAcceptance) : List OfferItem :=
  answers.filterMap fun answer =>
    if answer.accepted then offer.items.find? fun offered => offered.itemId = answer.itemId
    else none

/-- What holds of the loop in each phase, when it is to open data streams for some items: those
it has opened are the first of them, and the others are to come. -/
def Opens (offer : TransferOffer) (items : List OfferItem) (w : SendFiles) : Prop :=
  match w.phase with
  | .choosing | .initializing _ | .serving _ => items = w.opened ++ wanted offer w.remaining
  | .opening item => items = w.opened ++ item :: wanted offer w.remaining
  | .finishing | .done (.ok _) => items = w.opened
  | .done (.error e) =>
    w.opened <+: items ∧ (∀ id, e ≠ .notOffered id) ∧ ∀ id, e ≠ .missingPrepared id

/-- The item at hand. -/
def current (w : SendFiles) : List OfferItem :=
  match w.phase with
  | .opening item | .initializing item | .serving item => [item]
  | _ => []

/-- The invariant of the loop: besides, what is still to be served is prepared, and every answer
that takes an item is for an item of the offer. -/
structure Inv (offer : TransferOffer) (items : List OfferItem) (w : SendFiles) : Prop where
  opens : w.Opens offer items
  prepared : ∀ item ∈ w.current ++ wanted offer w.remaining, item.itemId ∈ w.prepared
  nodup : ((w.current ++ wanted offer w.remaining).map OfferItem.itemId).Nodup
  offered : ∀ answer ∈ w.remaining, answer.accepted = true →
    (offer.items.find? fun offered => offered.itemId = answer.itemId).isSome

variable {offer : TransferOffer} {items : List OfferItem} {w : SendFiles}

/-- The loop opens the streams in order. -/
theorem Inv.isPrefix (h : w.Inv offer items) : w.opened <+: items := by
  have hopens := h.opens
  unfold Opens at hopens
  split at hopens
  all_goals first
    | exact hopens.1
    | exact hopens ▸ List.prefix_append _ _
    | exact hopens ▸ List.prefix_rfl

/-- The loop has given up for a reason that is not in the answers. -/
theorem inv_fail {w' : SendFiles} (hopened : w'.opened <+: items)
    (hoffered : ∀ answer ∈ w'.remaining, answer.accepted = true →
      (offer.items.find? fun offered => offered.itemId = answer.itemId).isSome)
    (hprepared : ∀ item ∈ wanted offer w'.remaining, item.itemId ∈ w'.prepared)
    (hnodup : ((wanted offer w'.remaining).map OfferItem.itemId).Nodup) {e : SendFilesError}
    (hnot : (∀ id, e ≠ .notOffered id) ∧ ∀ id, e ≠ .missingPrepared id) :
    (w'.fail e).Inv offer items :=
  ⟨⟨hopened, hnot⟩, hprepared, hnodup, hoffered⟩

/-- The next answer is looked at. -/
theorem inv_choose (h : w.Inv offer items) (hphase : w.phase = .choosing) :
    (w.choose offer).Inv offer items := by
  obtain ⟨hopens, hprepared, hnodup, hoffered⟩ := h
  rw [Opens, hphase] at hopens
  rw [current, hphase, List.nil_append] at hprepared hnodup
  dsimp only at hopens
  unfold choose
  split
  · rename_i hnil
    rw [hnil, show wanted offer [] = [] from rfl, List.append_nil] at hopens
    exact ⟨hopens, hprepared, hnodup, hoffered⟩
  · rename_i answer rest hcons
    rw [hcons] at hopens hprepared hnodup hoffered
    have hrest := fun a (ha : a ∈ rest) => hoffered a (List.mem_cons_of_mem _ ha)
    split_ifs with haccepted
    · obtain ⟨item, hitem⟩ := Option.isSome_iff_exists.mp
        (hoffered answer List.mem_cons_self haccepted)
      have hwanted : wanted offer (answer :: rest) = item :: wanted offer rest := by
        rw [wanted, List.filterMap_cons, if_pos haccepted, hitem]
        rfl
      rw [hwanted] at hopens hprepared hnodup
      rw [hitem]
      exact ⟨hopens, hprepared, hnodup, hrest⟩
    · have hwanted : wanted offer (answer :: rest) = wanted offer rest := by
        rw [wanted, List.filterMap_cons, if_neg haccepted]
        rfl
      rw [hwanted] at hopens hprepared hnodup
      refine ⟨?_, ?_, ?_, hrest⟩
      · rw [Opens, hphase]
        exact hopens
      · rw [current, hphase]
        exact hprepared
      · rw [current, hphase]
        exact hnodup

/-- **What one step of the loop does.** -/
theorem inv_step (bound : UInt32) (h : w.Inv offer items) (input : SendFilesInput) :
    (w.step offer bound input).Inv offer items := by
  have hprefix := h.isPrefix
  have hprepared := fun item (hi : item ∈ wanted offer w.remaining) =>
    h.prepared item (List.mem_append_right _ hi)
  have hnodup : ((wanted offer w.remaining).map OfferItem.itemId).Nodup :=
    h.nodup.sublist ((List.sublist_append_right _ _).map _)
  unfold step
  split
  · rename_i hphase
    exact inv_choose h hphase
  · exact inv_fail hprefix h.offered hprepared hnodup ⟨nofun, nofun⟩
  · rename_i item hphase
    have hopens := h.opens
    rw [Opens, hphase] at hopens
    have hcurrent : w.current = [item] := by rw [current, hphase]
    have hprep := h.prepared
    have hdist := h.nodup
    rw [hcurrent] at hprep hdist
    refine ⟨?_, hprep, hdist, h.offered⟩
    exact hopens.trans (List.append_cons ..)
  · rename_i item res hphase
    have hopens := h.opens
    rw [Opens, hphase] at hopens
    have hcurrent : w.current = [item] := by rw [current, hphase]
    have hprep := h.prepared
    have hdist := h.nodup
    rw [hcurrent] at hprep hdist
    unfold writeInit
    split
    · exact inv_fail hprefix h.offered hprepared hnodup ⟨nofun, nofun⟩
    · split
      · exact inv_fail hprefix h.offered hprepared hnodup ⟨nofun, nofun⟩
      · rw [if_pos (hprep item List.mem_cons_self)]
        exact ⟨hopens, hprep, hdist, h.offered⟩
  · exact inv_fail hprefix h.offered hprepared hnodup ⟨nofun, nofun⟩
  · rename_i item verified hphase
    have hopens := h.opens
    rw [Opens, hphase] at hopens
    have hdist := h.nodup
    rw [current, hphase, List.singleton_append, List.map_cons, List.nodup_cons] at hdist
    refine ⟨hopens, ?_, hnodup, h.offered⟩
    -- the item that is no longer prepared does not come again
    intro other hother
    have hne : other.itemId ≠ item.itemId := by
      intro hid
      exact hdist.1 (hid ▸ List.mem_map_of_mem hother)
    exact (List.mem_erase_of_ne hne).mpr (hprepared other hother)
  · exact inv_fail hprefix h.offered hprepared hnodup ⟨nofun, nofun⟩
  · rename_i hphase
    have hopens := h.opens
    rw [Opens, hphase] at hopens
    exact ⟨hopens, hprepared, hnodup, h.offered⟩
  · exact h

/-- **What a run of the loop does.** -/
theorem inv_run (bound : UInt32) {accept : TransferAccept}
    (h : (start offer accept).Inv offer items) (inputs : List SendFilesInput) :
    (run offer bound accept inputs).Inv offer items := by
  induction inputs using List.reverseRecOn with
  | nil => exact h
  | append_singleton inputs input ih =>
    rw [run, List.foldl_append, List.foldl_cons, List.foldl_nil]
    exact inv_step bound ih input

end SendFiles

section Sending

variable {σ H : Type*} {vfs : Vfs σ H} {env : ListenerEnv} {offer : TransferOffer}
  {stores : List σ} {accept : TransferAccept}

/-- The answers in an accept that fits: each is for an item of the offer, and takes it or declines
it without progress. -/
theorem Answered.answers (h : Answered vfs env offer stores accept) :
    ∀ answer ∈ accept.items, answer.Valid ∧
      ∃ item ∈ offer.items, answer.itemId = item.itemId := by
  intro answer hanswer
  by_cases hnone : offer.taken env = []
  · rw [h.declines hnone] at hanswer
    obtain ⟨item, hitem, rfl⟩ := List.mem_map.mp hanswer
    exact ⟨⟨fun _ => ⟨rfl, rfl⟩, List.nodup_nil⟩, item, hitem, rfl⟩
  · have htakes := h.takes hnone
    obtain ⟨k, hk, rfl⟩ := List.getElem_of_mem hanswer
    have hk' : k < (offer.taken env).length := htakes.length_eq ▸ hk
    obtain ⟨length, -, htake⟩ := htakes.get hk' hk
    refine ⟨⟨?_, ?_⟩, (offer.taken env)[k], ?_, htake.itemId⟩
    · intro hdeclined
      have haccepted := htake.accepted
      rw [List.get_eq_getElem] at haccepted
      rw [haccepted] at hdeclined
      cases hdeclined
    · have hnil := htake.haveChunks
      rw [List.get_eq_getElem] at hnil
      rw [hnil]
      exact List.nodup_nil
    · exact List.mem_of_mem_filter (List.getElem_mem hk')

/-- The accept is one that may be sent. -/
theorem Answered.valid (h : Answered vfs env offer stores accept) : accept.Valid := by
  have hbuilt := h.built
  unfold TransferAccept.new at hbuilt
  split_ifs at hbuilt with hnil
  split at hbuilt
  · cases hbuilt
  rename_i hdup
  exact ⟨hnil, (nodup_of_firstDuplicate hdup).1, fun answer hanswer => (h.answers answer hanswer).1⟩

/-- **The items the accept takes** are those the filter takes, in the order of the offer. -/
theorem Answered.wanted_eq (h : Answered vfs env offer stores accept) :
    SendFiles.wanted offer accept.items = offer.taken env := by
  by_cases hnone : offer.taken env = []
  · rw [h.declines hnone, hnone, SendFiles.wanted, List.filterMap_map,
      List.filterMap_eq_nil_iff]
    intro item _
    rfl
  · have hmem : ∀ item ∈ offer.taken env, item ∈ offer.items :=
      fun item hitem => List.mem_of_mem_filter hitem
    have htakes := h.takes hnone
    generalize offer.taken env = taken at hmem htakes ⊢
    generalize accept.items = answers at htakes ⊢
    induction htakes with
    | nil => rfl
    | @cons item answer items answers hhead _ ih =>
      obtain ⟨length, -, htake⟩ := hhead
      rw [SendFiles.wanted, List.filterMap_cons, if_pos htake.accepted, htake.itemId,
        offer.find?_eq_some (hmem item List.mem_cons_self)]
      dsimp only
      rw [← SendFiles.wanted, ih fun item hitem => hmem item (List.mem_cons_of_mem _ hitem)]

/-- The loop starts in order on an accept that fits. -/
theorem Answered.inv_start (h : Answered vfs env offer stores accept) :
    (SendFiles.start offer accept).Inv offer (offer.taken env) where
  opens := h.wanted_eq.symm
  prepared := by
    intro item hitem
    rw [SendFiles.current, SendFiles.start, List.nil_append, h.wanted_eq] at hitem
    exact List.mem_map_of_mem (List.mem_of_mem_filter hitem)
  nodup := by
    rw [SendFiles.current, SendFiles.start, List.nil_append, h.wanted_eq]
    exact offer.nodup.sublist (List.filter_sublist.map _)
  offered := by
    intro answer hanswer _
    obtain ⟨-, item, hitem, hid⟩ := h.answers answer hanswer
    rw [hid, offer.find?_eq_some hitem]
    rfl

end Sending

/-! ### Both sides -/

/-- **The acceptance fits the offer and what follows.** The progress the listener derives is the
one the session will derive; once all items are looked at, the accept that is sent fits; through
all steps the channel takes up the items in order; and the offering side, which reads this accept
where protobuf does, opens its data streams for the same items in the same order. -/
structure AcceptanceFits {σ H : Type*} (vfs : Vfs σ H) (env : ListenerEnv) (offer : TransferOffer) :
    Prop where
  derived : ∀ item ∈ offer.items, ∀ (t : Transfer) (m : Metadata),
    deriveItemResumption item (.ok m) =
      .ok (deriveResumption (t.receiveRequest item).itemId
        (t.receiveRequest item).totalBytes.toNat (.ok m))
  answered : ∀ (ch : IncomingChannel σ H) peerMaxFrameSize controlSend steps n,
    (ch.afterSteps vfs env offer peerMaxFrameSize controlSend steps).1 = .negotiating n →
    n.remaining = [] →
    ∃ accept, Answered vfs env offer (steps.map Prod.fst) accept ∧
      n.acceptFrame env.offers =
        (encodeTransferAcceptFrame env.offers accept n.peerMaxFrameSize).mapError .offerFrame
  conducts : ∀ (ch : IncomingChannel σ H) peerMaxFrameSize controlSend steps,
    IncomingChannel.Conducts vfs env offer (steps.map Prod.fst)
      (ch.afterSteps vfs env offer peerMaxFrameSize controlSend steps).2
      (ch.afterSteps vfs env offer peerMaxFrameSize controlSend steps).1
  read : ∀ stores accept, Answered vfs env offer stores accept →
    env.offers.decodeAccept (env.offers.encodeAccept (transferAcceptToWire accept)) =
      some (transferAcceptToWire accept) →
    decodeTransferAcceptFrame env.offers ⟨MessageType.transferAccept.code,
      env.offers.encodeAccept (transferAcceptToWire accept)⟩ = .ok accept
  opens : ∀ stores accept, Answered vfs env offer stores accept → ∀ bound inputs,
    (SendFiles.run offer bound accept inputs).Opens offer (offer.taken env)

/-- **Every acceptance fits**, whatever the filter takes and the filesystem answers. -/
theorem acceptance_fits {σ H : Type*} (vfs : Vfs σ H) (env : ListenerEnv) (offer : TransferOffer) :
    AcceptanceFits vfs env offer where
  derived := by
    intro item hitem t m
    have htotal : (t.receiveRequest item).totalBytes.toNat = item.size :=
      UInt64.toNat_ofNat_of_lt (offer.size_lt hitem)
    rw [htotal]
    exact deriveItemResumption_eq item m
  answered := by
    intro ch peerMaxFrameSize controlSend steps n hstage hdone
    have hconducts := IncomingChannel.conducts_afterSteps vfs env ch offer peerMaxFrameSize
      controlSend steps
    rw [hstage] at hconducts
    exact hconducts.2.answered hdone env.offers
  conducts ch peerMaxFrameSize controlSend steps :=
    IncomingChannel.conducts_afterSteps vfs env ch offer peerMaxFrameSize controlSend steps
  read := by
    intro stores accept haccept hproto
    unfold decodeTransferAcceptFrame decodeOfferFrame
    rw [if_neg (not_not_intro rfl), hproto]
    dsimp only
    rw [transferAcceptFromWire_toWire haccept.valid]
    rfl
  opens _ _ haccept bound inputs := (SendFiles.inv_run bound haccept.inv_start inputs).opens

open Listener.TwoItems in
/-- Both items of an offer are looked at, and are taken from their first chunk on. -/
theorem acceptance_fits_two_items :
    ∃ n accept,
      (IncomingChannel.afterSteps PosixVfs.vfs env ⟨0, peer, 512, .handshaking⟩ offer 512 .fresh
        [(TwoBytes.tree, .go), (TwoBytes.tree, .go)]).1 = .negotiating n ∧
      n.remaining = [] ∧
      Answered PosixVfs.vfs env offer [TwoBytes.tree, TwoBytes.tree] accept := by
  obtain ⟨n, hn, hdone⟩ : ∃ n, (IncomingChannel.afterSteps PosixVfs.vfs env
      ⟨0, peer, 512, .handshaking⟩ offer 512 .fresh
      [(TwoBytes.tree, .go), (TwoBytes.tree, .go)]).1 = .negotiating n ∧ n.remaining = [] :=
    ⟨_, rfl, rfl⟩
  obtain ⟨accept, haccept, -⟩ := (acceptance_fits PosixVfs.vfs env offer).answered _ _ _ _ n hn hdone
  exact ⟨n, accept, hn, hdone, haccept⟩

/-- **A complete partial file has no first chunk.** The listener names the last chunk of the item,
and the session asks for none. -/
theorem complete_partial_requests_no_chunk :
    ¬∀ (item : OfferItem) (t : Transfer) (m : Metadata) (r : ItemResumption),
      deriveItemResumption item (.ok m) = .ok r →
      Receiver.firstRequested (t.receiveRequest item) m = some (resumeChunk item r) := by
  intro hall
  have hnone : Receiver.firstRequested
      (Transfer.receiveRequest ⟨TwoBytes.transferId, [], 1, 1, [], 512, .fresh⟩
        Listener.TwoItems.second) ⟨.file, 2, 0⟩ = none := by
    rw [Receiver.firstRequested_eq _ (by decide), if_pos (by decide)]
  rw [hall _ _ _ _ (deriveItemResumption_eq Listener.TwoItems.second ⟨.file, 2, 0⟩)] at hnone
  cases hnone

end Tradr
