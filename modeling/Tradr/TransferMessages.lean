import Tradr.Hello
import Tradr.Offer

/-!
# The Messages of a Transfer

The messages of the control and data planes that the sender's and the receiver's loops do not
need themselves: the refusal of an offer, flow control and progress; and the directions of the
others that only the far side uses.

On the wire an absent text is the empty one and an absent number is zero.

## Main definitions

* `TransferReject`, `FlowControl`, `TransferProgress`: the messages.

## Main results

* `transferOfferFromWire_toWire`, `transferAcceptFromWire_toWire` and those of the other
  messages: a message that may be written is read back.
* `transferOffer_of_fromWire`, `transferAccept_of_fromWire`: what is read was checked.
-/

namespace Tradr

open Fallible

/-! ### Turning an offer down -/

/-- Why an offer is turned down. -/
inductive RejectReason
  | userDeclined
  | noSpace
  | tooLarge
  | notTrusted
  | busy
  deriving DecidableEq, Repr

/-- The number of a reason on the wire. -/
def RejectReason.toWire : RejectReason → Int32
  | .userDeclined => 1
  | .noSpace => 2
  | .tooLarge => 3
  | .notTrusted => 4
  | .busy => 5

/-- The reason with a number, if one has it. -/
def RejectReason.ofWire (value : Int32) : Option RejectReason :=
  if value = 1 then some .userDeclined
  else if value = 2 then some .noSpace
  else if value = 3 then some .tooLarge
  else if value = 4 then some .notTrusted
  else if value = 5 then some .busy
  else none

/-- An optional reason is read back; no reason is zero. -/
theorem RejectReason.ofWire_getD (reason : Option RejectReason) :
    ofWire ((reason.map toWire).getD 0) = reason := by
  rcases reason with _ | reason
  · rfl
  · cases reason <;> rfl

/-- The refusal of an offer. -/
structure TransferReject where
  transferId : TransferId
  reason : Option RejectReason
  note : Option DisplayName
  deriving DecidableEq

/-- A refusal as protobuf carries it. -/
structure WireTransferReject where
  transferId : Text
  reason : Int32
  note : Text
  deriving DecidableEq, Repr

/-- Validate a refusal; a reason or a note that is none is left out. -/
def transferRejectFromWire (message : WireTransferReject) :
    Except OfferWireError TransferReject := do
  let transferId ← (TransferId.parse message.transferId).mapError .invalidTransferId
  return ⟨transferId, RejectReason.ofWire message.reason, (DisplayName.new message.note).toOption⟩

/-- A refusal on its way to protobuf. -/
def transferRejectToWire (reject : TransferReject) : WireTransferReject :=
  ⟨reject.transferId.display, (reject.reason.map RejectReason.toWire).getD 0,
    (reject.note.map DisplayName.value).getD []⟩

/-- The protobuf encoders and decoders of the three messages about an offer. -/
structure OfferExchangeProto extends OfferProto where
  encodeReject : WireTransferReject → List UInt8
  decodeReject : List UInt8 → Option WireTransferReject

/-- Frame a refusal. -/
def encodeTransferRejectFrame (proto : OfferExchangeProto) (reject : TransferReject)
    (maxFrameSize : UInt32) : Except OfferFrameError (List UInt8) :=
  (encodeFrame MessageType.transferReject.code (proto.encodeReject (transferRejectToWire reject))
    maxFrameSize).mapError .framing

/-- Decode a framed refusal. -/
def decodeTransferRejectFrame (proto : OfferExchangeProto) :
    Frame → Except OfferFrameError TransferReject :=
  decodeOfferFrame .transferReject proto.decodeReject transferRejectFromWire

/-- A refusal is read back. -/
theorem transferRejectFromWire_toWire (reject : TransferReject) :
    transferRejectFromWire (transferRejectToWire reject) = .ok reject := by
  simp only [transferRejectFromWire, transferRejectToWire, TransferId.parse_display, mapError_ok,
    ok_bind, RejectReason.ofWire_getD, DisplayName.toOption_new_getD]
  rfl

/-! ### Offers and accepts are read back -/

@[simp] theorem ItemId.new_value (id : ItemId) : ItemId.new id.value = .ok id := by
  unfold ItemId.new
  split
  · rfl
  · rename_i h
    rw [id.accepted] at h
    cases h

/-- A path that is not the root is read back. -/
theorem RelPath.new_of_ne_nil {path : RelPath} (h : path.value ≠ []) :
    RelPath.new path.value = .ok path :=
  RelPath.new_eq_ok (path.accepted.resolve_left h)

/-- What is read is not the root. -/
theorem RelPath.ne_nil_of_new {s : Text} {path : RelPath} (h : RelPath.new s = .ok path) :
    path.value ≠ [] := by
  rw [RelPath.new_value h]
  rintro rfl
  cases h

/-- An optional origin is read back; no origin is zero. -/
theorem OfferOrigin.ofWire_getD (origin : Option OfferOrigin) :
    ofWire ((origin.map toWire).getD 0) = origin := by
  rcases origin with _ | origin
  · rfl
  · cases origin <;> rfl

/-- Without repetitions there is no first one. -/
theorem firstDuplicate_eq_none {seen ids : List ItemId} (hnodup : ids.Nodup)
    (hnew : ∀ id ∈ ids, id ∉ seen) : firstDuplicate seen ids = none := by
  induction ids generalizing seen with
  | nil => rfl
  | cons id ids ih =>
      rw [List.nodup_cons] at hnodup
      rw [firstDuplicate, if_neg (hnew id List.mem_cons_self)]
      refine ih hnodup.2 ?_
      intro x hx hseen
      rcases List.mem_cons.mp hseen with rfl | hseen
      · exact hnodup.1 hx
      · exact hnew x (List.mem_cons_of_mem _ hx) hseen

/-- A sum that fits does not overflow on the way. -/
theorem checkedSum_of_lt {sizes : List ℕ} (h : sizes.sum < UInt64.size) :
    checkedSum sizes = (sizes.sum, false) := by
  induction sizes using List.reverseRecOn with
  | nil => rfl
  | append_singleton sizes n ih =>
      rw [List.sum_append, List.sum_singleton] at h
      have hprefix : checkedSum sizes = (sizes.sum, false) := ih (by omega)
      unfold checkedSum at hprefix ⊢
      rw [List.foldl_append, List.foldl_cons, List.foldl_nil, hprefix, if_pos h, List.sum_append,
        List.sum_singleton]

/-- An offer is made of its fields. -/
theorem TransferOffer.new_fields (offer : TransferOffer) :
    TransferOffer.new offer.transferId offer.items offer.totalBytes offer.senderLabel
      offer.origin = .ok offer := by
  have hdup : firstDuplicate [] (offer.items.map OfferItem.itemId) = none :=
    firstDuplicate_eq_none offer.nodup fun _ _ => List.not_mem_nil
  have hsum := checkedSum_of_lt (offer.total ▸ offer.total_lt)
  unfold TransferOffer.new
  rw [dif_neg offer.items_ne_nil]
  split
  · rename_i hid
    rw [hdup] at hid
    cases hid
  · rw [dif_pos ⟨congrArg Prod.snd hsum, (congrArg Prod.fst hsum).trans offer.total⟩]

/-- **An offer is read back**, unless it offers the root. -/
theorem transferOfferFromWire_toWire {offer : TransferOffer}
    (h : ∀ item ∈ offer.items, item.relPath.value ≠ []) :
    transferOfferFromWire (transferOfferToWire offer) = .ok offer := by
  have hitems : (transferOfferToWire offer).items.mapM offerItemFromWire = .ok offer.items := by
    have hmapped := mapM_map_of_ok (f := offerItemFromWire) (g := fun item : OfferItem =>
      (⟨item.itemId.value, item.relPath.value, item.size, item.contentHash.bytes, 0, [],
        referenceChunkSizeBytes⟩ : WireOfferItem)) (h := fun item => item) (l := offer.items) ?_
    · rw [List.map_id'] at hmapped
      exact hmapped
    · intro item hitem
      unfold offerItemFromWire
      simp only [require_of, ok_bind, ItemId.new_value, RelPath.new_of_ne_nil (h item hitem),
        mapError_ok]
      rw [dif_pos item.contentHash.length_bytes, dif_pos item.size_pos]
  unfold transferOfferFromWire
  rw [hitems]
  simp only [transferOfferToWire, TransferId.parse_display, mapError_ok, ok_bind,
    DisplayName.toOption_new_getD, OfferOrigin.ofWire_getD, TransferOffer.new_fields]

/-- A list that was read has the elements that were read. -/
theorem exists_of_mem_mapM {ε α β : Type} {f : α → Except ε β} {l : List α} {l' : List β}
    (h : l.mapM f = .ok l') {b : β} (hb : b ∈ l') : ∃ a ∈ l, f a = .ok b := by
  induction l generalizing l' with
  | nil =>
      obtain rfl := Except.ok.inj h
      cases hb
  | cons a l ih =>
      rw [List.mapM_cons, bind_eq_ok] at h
      obtain ⟨b', hb', htail⟩ := h
      obtain ⟨rest, hrest, hl'⟩ := bind_eq_ok.mp htail
      obtain rfl := Except.ok.inj hl'
      rcases List.mem_cons.mp hb with rfl | hb
      · exact ⟨a, List.mem_cons_self, hb'⟩
      · obtain ⟨a', ha', heq⟩ := ih hrest hb
        exact ⟨a', List.mem_cons_of_mem _ ha', heq⟩

/-- An offer that was read does not offer the root. -/
theorem transferOffer_of_fromWire {message : WireTransferOffer} {offer : TransferOffer}
    (h : transferOfferFromWire message = .ok offer) :
    ∀ item ∈ offer.items, item.relPath.value ≠ [] := by
  obtain ⟨transferId, -, hrest⟩ := bind_eq_ok.mp h
  obtain ⟨items, hitems, hnew⟩ := bind_eq_ok.mp hrest
  rw [mapError_eq_ok] at hnew
  have hsame : offer.items = items := by
    unfold TransferOffer.new at hnew
    split at hnew
    · cases hnew
    split at hnew
    · cases hnew
    split at hnew
    · obtain rfl := Except.ok.inj hnew
      rfl
    · cases hnew
  rw [hsame]
  intro item hitem
  obtain ⟨wire, -, hread⟩ := exists_of_mem_mapM hitems hitem
  obtain ⟨-, -, hread⟩ := bind_eq_ok.mp hread
  obtain ⟨itemId, -, hread⟩ := bind_eq_ok.mp hread
  obtain ⟨path, hpath, hread⟩ := bind_eq_ok.mp hread
  rw [mapError_eq_ok] at hpath
  split_ifs at hread
  obtain rfl := Except.ok.inj hread
  exact RelPath.ne_nil_of_new hpath

/-- The answer for an item is as it can be made. -/
def ItemAcceptance.Valid (item : ItemAcceptance) : Prop :=
  (item.accepted = false → item.resumeChunk = 0 ∧ item.haveChunks = []) ∧ item.haveChunks.Nodup

/-- An accept is as it can be made. -/
structure TransferAccept.Valid (accept : TransferAccept) : Prop where
  items_ne_nil : accept.items ≠ []
  nodup : (accept.items.map ItemAcceptance.itemId).Nodup
  items : ∀ item ∈ accept.items, item.Valid

/-- No chunk occurs a second time. -/
theorem firstRepeated_eq_none {seen chunks : List ℕ} :
    firstRepeated seen chunks = none ↔ chunks.Nodup ∧ ∀ chunk ∈ chunks, chunk ∉ seen := by
  induction chunks generalizing seen with
  | nil => simp [firstRepeated]
  | cons chunk chunks ih =>
      rw [firstRepeated, List.nodup_cons]
      split_ifs with hseen
      · constructor
        · rintro ⟨⟩
        · rintro ⟨-, hnew⟩
          exact absurd hseen (hnew chunk List.mem_cons_self)
      · rw [ih]
        constructor
        · rintro ⟨hnodup, hnew⟩
          refine ⟨⟨fun hin => hnew chunk hin List.mem_cons_self, hnodup⟩, ?_⟩
          intro x hx
          rcases List.mem_cons.mp hx with rfl | hx
          · exact hseen
          · exact fun hin => hnew x hx (List.mem_cons_of_mem _ hin)
        · rintro ⟨⟨hin, hnodup⟩, hnew⟩
          refine ⟨hnodup, ?_⟩
          intro x hx hxs
          rcases List.mem_cons.mp hxs with rfl | hxs
          · exact hin hx
          · exact hnew x (List.mem_cons_of_mem _ hx) hxs

/-- What can be made of the answer for an item. -/
theorem ItemAcceptance.new_eq_ok {itemId : ItemId} {accepted : Bool} {resumeChunk : ℕ}
    {haveChunks : List ℕ} {item : ItemAcceptance} :
    ItemAcceptance.new itemId accepted resumeChunk haveChunks = .ok item ↔
      item = ⟨itemId, accepted, resumeChunk, haveChunks⟩ ∧ item.Valid := by
  unfold ItemAcceptance.new ItemAcceptance.Valid
  constructor
  · intro h
    split_ifs at h with hdeclined
    split at h
    · cases h
    rename_i hrepeated
    obtain rfl := Except.ok.inj h
    refine ⟨rfl, ?_, (firstRepeated_eq_none.mp hrepeated).1⟩
    intro hfalse
    dsimp only at hfalse ⊢
    subst hfalse
    simpa using hdeclined
  · rintro ⟨rfl, hdeclined, hnodup⟩
    rw [if_neg, firstRepeated_eq_none.mpr ⟨hnodup, fun _ _ => List.not_mem_nil⟩]
    rintro ⟨hfalse, hprogress⟩
    obtain ⟨hresume, hhave⟩ := hdeclined (by simpa using hfalse)
    rcases hprogress with hne | hne
    · exact hne hresume
    · exact hne hhave

/-- **An accept is read back.** -/
theorem transferAcceptFromWire_toWire {accept : TransferAccept} (h : accept.Valid) :
    transferAcceptFromWire (transferAcceptToWire accept) = .ok accept := by
  have hitems : (transferAcceptToWire accept).items.mapM itemAcceptanceFromWire =
      .ok accept.items := by
    have hmapped := mapM_map_of_ok (f := itemAcceptanceFromWire) (g := fun item : ItemAcceptance =>
      (⟨item.itemId.value, item.accepted, item.resumeChunk, item.haveChunks⟩ :
        WireItemAcceptance)) (h := fun item => item) (l := accept.items) ?_
    · rw [List.map_id'] at hmapped
      exact hmapped
    · intro item hitem
      unfold itemAcceptanceFromWire
      simp only [ItemId.new_value, mapError_ok, ok_bind, mapError_eq_ok]
      exact ItemAcceptance.new_eq_ok.mpr ⟨rfl, h.items item hitem⟩
  unfold transferAcceptFromWire
  rw [hitems]
  simp only [transferAcceptToWire, TransferId.parse_display, mapError_ok, ok_bind,
    DisplayName.toOption_new_getD, mapError_eq_ok]
  rw [TransferAccept.new, if_neg h.items_ne_nil,
    firstDuplicate_eq_none h.nodup fun _ _ => List.not_mem_nil]

/-- An accept that was read is as it can be made. -/
theorem transferAccept_of_fromWire {message : WireTransferAccept} {accept : TransferAccept}
    (h : transferAcceptFromWire message = .ok accept) : accept.Valid := by
  obtain ⟨transferId, -, hrest⟩ := bind_eq_ok.mp h
  obtain ⟨items, hitems, hnew⟩ := bind_eq_ok.mp hrest
  rw [mapError_eq_ok] at hnew
  unfold TransferAccept.new at hnew
  split_ifs at hnew with hnil
  split at hnew
  · cases hnew
  rename_i hdup
  obtain rfl := Except.ok.inj hnew
  refine ⟨hnil, (nodup_of_firstDuplicate hdup).1, ?_⟩
  intro item hitem
  obtain ⟨wire, -, hread⟩ := exists_of_mem_mapM hitems hitem
  obtain ⟨itemId, -, hread⟩ := bind_eq_ok.mp hread
  exact (ItemAcceptance.new_eq_ok.mp (mapError_eq_ok.mp hread)).2

/-! ### The data plane -/

/-- How many chunks may be under way, and why. -/
structure FlowControl where
  transferId : TransferId
  maxInflightChunks : UInt32
  reason : Option Text
  deriving DecidableEq

/-- A floating point number of 64 bits. -/
structure F64 where
  bits : UInt64
  deriving DecidableEq, Repr

/-- The two zeros, which differ in their sign. -/
def F64.IsZero (x : F64) : Prop := x.bits = 0 ∨ x.bits = 0x8000000000000000

/-- Equal numbers: the same one, or the two zeros. -/
def F64.Same (x y : F64) : Prop := x = y ∨ x.IsZero ∧ y.IsZero

theorem F64.Same.refl (x : F64) : x.Same x := .inl rfl

/-- How far a transfer is. -/
structure TransferProgress where
  transferId : TransferId
  bytesReceived : UInt64
  bytesTotal : UInt64
  itemsCompleted : UInt32
  itemsTotal : UInt32
  throughputBps : F64
  activeTransport : Option Text
  deriving DecidableEq

/-- Equal reports: all fields are the same, and the throughput is the same number. -/
def TransferProgress.Same (a b : TransferProgress) : Prop :=
  a.throughputBps.Same b.throughputBps ∧ { a with throughputBps := b.throughputBps } = b

/-- Flow control as protobuf carries it. -/
structure WireFlowControl where
  transferId : Text
  maxInflightChunks : UInt32
  reason : Text
  deriving DecidableEq, Repr

/-- A report of progress as protobuf carries it. -/
structure WireTransferProgress where
  transferId : Text
  bytesReceived : UInt64
  bytesTotal : UInt64
  itemsCompleted : UInt32
  itemsTotal : UInt32
  throughputBps : F64
  activeTransport : Text
  deriving DecidableEq, Repr

/-- An optional text on the wire: the empty one is none. -/
def textOfWire (s : Text) : Option Text := if s = [] then none else some s

/-- An optional text that is not empty is read back. -/
theorem textOfWire_getD {text : Option Text} (h : text ≠ some []) :
    textOfWire (text.getD []) = text := by
  unfold textOfWire
  rcases text with _ | s
  · rfl
  · rw [Option.getD_some, if_neg]
    rintro rfl
    exact h rfl

/-- What is read is not empty. -/
theorem textOfWire_ne (s : Text) : textOfWire s ≠ some [] := by
  unfold textOfWire
  split_ifs with h
  · simp
  · intro hs
    exact h (Option.some.inj hs)

/-- Flow control on its way to protobuf. -/
def flowControlToWire (control : FlowControl) : WireFlowControl :=
  ⟨control.transferId.display, control.maxInflightChunks, control.reason.getD []⟩

/-- Validate flow control. -/
def flowControlFromWire (message : WireFlowControl) : Except TransferWireError FlowControl := do
  let transferId ← (TransferId.parse message.transferId).mapError .invalidTransferId
  return ⟨transferId, message.maxInflightChunks, textOfWire message.reason⟩

/-- A report of progress on its way to protobuf. -/
def transferProgressToWire (progress : TransferProgress) : WireTransferProgress :=
  ⟨progress.transferId.display, progress.bytesReceived, progress.bytesTotal,
    progress.itemsCompleted, progress.itemsTotal, progress.throughputBps,
    progress.activeTransport.getD []⟩

/-- Validate a report of progress. -/
def transferProgressFromWire (message : WireTransferProgress) :
    Except TransferWireError TransferProgress := do
  let transferId ← (TransferId.parse message.transferId).mapError .invalidTransferId
  return ⟨transferId, message.bytesReceived, message.bytesTotal, message.itemsCompleted,
    message.itemsTotal, message.throughputBps, textOfWire message.activeTransport⟩

/-- The protobuf encoders and decoders of all data plane messages. -/
structure DataPlaneProto extends SendCodec where
  encodeChunkRerequest : WireChunkRerequest → List UInt8
  encodeFlowControl : WireFlowControl → List UInt8
  decodeFlowControl : List UInt8 → Option WireFlowControl
  encodeTransferProgress : WireTransferProgress → List UInt8
  decodeTransferProgress : List UInt8 → Option WireTransferProgress

section Frames

variable (proto : DataPlaneProto)

/-- Frame a request for single chunks. -/
def encodeChunkRerequestFrame (req : ChunkRerequest) (maxFrameSize : UInt32) :
    Except TransferFrameError (List UInt8) :=
  (encodeFrame MessageType.chunkRerequest.code
    (proto.encodeChunkRerequest (chunkRerequestToWire req)) maxFrameSize).mapError .framing

/-- Frame flow control. -/
def encodeFlowControlFrame (control : FlowControl) (maxFrameSize : UInt32) :
    Except TransferFrameError (List UInt8) :=
  (encodeFrame MessageType.flowControl.code (proto.encodeFlowControl (flowControlToWire control))
    maxFrameSize).mapError .framing

/-- Decode framed flow control. -/
def decodeFlowControlFrame : Frame → Except TransferFrameError FlowControl :=
  decodeTransferFrame .flowControl proto.decodeFlowControl flowControlFromWire

/-- Frame a report of progress. -/
def encodeTransferProgressFrame (progress : TransferProgress) (maxFrameSize : UInt32) :
    Except TransferFrameError (List UInt8) :=
  (encodeFrame MessageType.transferProgress.code
    (proto.encodeTransferProgress (transferProgressToWire progress)) maxFrameSize).mapError
    .framing

/-- Decode a framed report of progress. -/
def decodeTransferProgressFrame : Frame → Except TransferFrameError TransferProgress :=
  decodeTransferFrame .transferProgress proto.decodeTransferProgress transferProgressFromWire

end Frames

/-- A chunk request for some chunks is read back. -/
theorem chunkRequestFromWire_toWire {req : ChunkRequest} (h : req.count ≠ 0) :
    chunkRequestFromWire (chunkRequestToWire req) = .ok req := by
  have hsome : (chunkRequestToWire req).count ≠ 0 := h
  unfold chunkRequestFromWire
  rw [require_of hsome]
  simp only [chunkRequestToWire, TransferId.parse_display, ItemId.new_value, mapError_ok, ok_bind]
  rfl

/-- A request for single chunks is read back. -/
theorem chunkRerequestFromWire_toWire {req : ChunkRerequest} (h : req.chunks ≠ []) :
    chunkRerequestFromWire (chunkRerequestToWire req) = .ok req := by
  have hsome : (chunkRerequestToWire req).chunks ≠ [] := h
  unfold chunkRerequestFromWire
  rw [require_of hsome]
  simp only [chunkRerequestToWire, TransferId.parse_display, ItemId.new_value, mapError_ok, ok_bind]
  rfl

/-- A chunk header is made of its fields. -/
theorem ChunkDataHeader.new_fields (header : ChunkDataHeader) :
    ChunkDataHeader.new header.transferId header.itemId header.chunkIndex header.payloadLen
      header.last header.offsetInChunk = .ok header := by
  rw [ChunkDataHeader.new, dif_pos header.offset_inside, dif_pos header.payload_nonempty,
    dif_pos header.index_fits]

/-- A chunk header is read back. -/
theorem chunkDataHeaderFromWire_toWire (header : ChunkDataHeader) :
    chunkDataHeaderFromWire (chunkDataHeaderToWire header) = .ok header := by
  simp only [chunkDataHeaderFromWire, chunkDataHeaderToWire, TransferId.parse_display,
    ItemId.new_value, mapError_ok, ok_bind, ChunkDataHeader.new_fields]

/-- A final path that is not the root is read back; none is the empty text. -/
theorem finalPathOfWire_getD {path : Option RelPath} (h : ∀ p, path = some p → p.value ≠ []) :
    finalPathOfWire ((path.map RelPath.value).getD []) = .ok path := by
  unfold finalPathOfWire
  rcases path with _ | p
  · rfl
  · have hp := h p rfl
    rw [Option.map_some, Option.getD_some, if_neg hp, RelPath.new_of_ne_nil hp]
    rfl

/-- A completion signal is read back. -/
theorem itemCompleteFromWire_toWire {item : ItemComplete}
    (h : ∀ p, item.finalPath = some p → p.value ≠ []) :
    itemCompleteFromWire (itemCompleteToWire item) = .ok item := by
  simp only [itemCompleteFromWire, itemCompleteToWire, TransferId.parse_display,
    ItemId.new_value, mapError_ok, ok_bind, finalPathOfWire_getD h]
  rfl

/-- A completion signal that was read names no root. -/
theorem itemComplete_of_fromWire {message : WireItemComplete} {item : ItemComplete}
    (h : itemCompleteFromWire message = .ok item) :
    ∀ p, item.finalPath = some p → p.value ≠ [] := by
  obtain ⟨transferId, -, h⟩ := bind_eq_ok.mp h
  obtain ⟨itemId, -, h⟩ := bind_eq_ok.mp h
  obtain ⟨finalPath, hpath, h⟩ := bind_eq_ok.mp h
  obtain rfl := Except.ok.inj h
  rintro p rfl
  unfold finalPathOfWire at hpath
  split_ifs at hpath
  · cases hpath
  rcases hnew : RelPath.new message.finalPath with _ | path
  · rw [hnew] at hpath
    cases hpath
  · rw [hnew] at hpath
    obtain rfl : path = p := Option.some.inj (Except.ok.inj hpath)
    exact RelPath.ne_nil_of_new hnew

/-- Flow control is read back. -/
theorem flowControlFromWire_toWire {control : FlowControl} (h : control.reason ≠ some []) :
    flowControlFromWire (flowControlToWire control) = .ok control := by
  simp only [flowControlFromWire, flowControlToWire, TransferId.parse_display, mapError_ok,
    ok_bind, textOfWire_getD h]
  rfl

/-- A report of progress is read back, also when protobuf left out a negative zero. -/
theorem transferProgressFromWire_toWire {progress : TransferProgress}
    (h : progress.activeTransport ≠ some []) {throughput : F64}
    (hsame : throughput.Same progress.throughputBps) :
    ∃ progress', transferProgressFromWire
        { transferProgressToWire progress with throughputBps := throughput } = .ok progress' ∧
      progress'.Same progress := by
  refine ⟨{ progress with throughputBps := throughput }, ?_, hsame, rfl⟩
  simp only [transferProgressFromWire, transferProgressToWire, TransferId.parse_display,
    mapError_ok, ok_bind, textOfWire_getD h]
  rfl

end Tradr
