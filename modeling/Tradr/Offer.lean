import Tradr.Link
import Tradr.Receive

/-!
# Offering and Accepting a Transfer

The two messages that open a transfer on the control stream: the offer lists the items with
their sizes and hashes, the accept says for each item whether it is taken and where to go
on. Both are checked when they are built, also when they arrive from protobuf.

The listening side skips unassigned frames while it waits for the offer; the offering side
reads one frame and takes it for the accept.

## Main definitions

* `TransferOffer`, `TransferAccept`: the messages, with what was checked of them.
* `readTransferOffer`, `readTransferAccept`: how each side waits for the other's message.
-/

namespace Tradr

open Fallible

/-! ### The messages -/

/-- Where an offer comes from. -/
inductive OfferOrigin
  | dragDrop
  | shareSheet
  | shareBrowse
  | clipboard
  deriving DecidableEq, Repr

/-- An origin on the wire; none is zero. -/
def OfferOrigin.toWire : OfferOrigin → ℤ
  | .dragDrop => 1
  | .shareSheet => 2
  | .shareBrowse => 3
  | .clipboard => 4

/-- An origin from the wire, when it is known. -/
def OfferOrigin.ofWire (value : ℤ) : Option OfferOrigin :=
  if value = 1 then some .dragDrop
  else if value = 2 then some .shareSheet
  else if value = 3 then some .shareBrowse
  else if value = 4 then some .clipboard
  else none

/-- An item of an offer; it is not empty. -/
structure OfferItem where
  itemId : ItemId
  relPath : RelPath
  size : ℕ
  contentHash : ContentHash
  size_pos : 0 < size
  deriving DecidableEq

/-- How many reference chunks an item covers. -/
def OfferItem.chunkCount (item : OfferItem) : ℕ :=
  (item.size + referenceChunkSizeBytes - 1) / referenceChunkSizeBytes

/-- Why an offer is refused. -/
inductive TransferOfferError
  | noItems
  | duplicateItemId (id : ItemId)
  | totalBytesMismatch (declared summed : ℕ)
  deriving DecidableEq

/-- An offer: at least one item, no two alike, and the sum of their sizes. -/
structure TransferOffer where
  transferId : TransferId
  items : List OfferItem
  totalBytes : ℕ
  senderLabel : Option DisplayName
  origin : Option OfferOrigin
  items_ne_nil : items ≠ []
  nodup : (items.map OfferItem.itemId).Nodup
  total : (items.map OfferItem.size).sum = totalBytes
  total_lt : totalBytes < UInt64.size

/-- The first identifier that occurs a second time. -/
def firstDuplicate : List ItemId → List ItemId → Option ItemId
  | _, [] => none
  | seen, id :: ids => if id ∈ seen then some id else firstDuplicate (id :: seen) ids

/-- No identifier occurs a second time. -/
theorem nodup_of_firstDuplicate {seen ids : List ItemId} (h : firstDuplicate seen ids = none) :
    ids.Nodup ∧ ∀ id ∈ ids, id ∉ seen := by
  induction ids generalizing seen with
  | nil => exact ⟨List.nodup_nil, by simp⟩
  | cons id ids ih =>
      unfold firstDuplicate at h
      split_ifs at h with hmem
      obtain ⟨hnodup, hnew⟩ := ih h
      refine ⟨List.nodup_cons.mpr ⟨fun hin => hnew id hin List.mem_cons_self, hnodup⟩, ?_⟩
      intro x hx
      rcases List.mem_cons.mp hx with rfl | hx
      · exact hmem
      · exact fun hseen => hnew x hx (List.mem_cons_of_mem _ hseen)

/-- The sum of the sizes while it fits: an item that no longer fits is left out. -/
def checkedSum (sizes : List ℕ) : ℕ × Bool :=
  sizes.foldl (fun acc n =>
    if acc.1 + n < UInt64.size then (acc.1 + n, acc.2) else (acc.1, true)) (0, false)

/-- A sum without an overflow is the sum. -/
theorem checkedSum_eq {sizes : List ℕ} (h : (checkedSum sizes).2 = false) :
    (checkedSum sizes).1 = sizes.sum ∧ sizes.sum < UInt64.size := by
  unfold checkedSum at h ⊢
  induction sizes using List.reverseRecOn with
  | nil => exact ⟨rfl, by decide⟩
  | append_singleton sizes n ih =>
      rw [List.foldl_append, List.foldl_cons, List.foldl_nil] at h ⊢
      split_ifs at h with hfits
      obtain ⟨heq, -⟩ := ih h
      rw [if_pos hfits, List.sum_append, List.sum_singleton, ← heq]
      exact ⟨rfl, hfits⟩

/-- An offer, when its items and its sum are in order. -/
def TransferOffer.new (transferId : TransferId) (items : List OfferItem) (totalBytes : ℕ)
    (senderLabel : Option DisplayName) (origin : Option OfferOrigin) :
    Except TransferOfferError TransferOffer :=
  if hnil : items = [] then .error .noItems
  else
    match hdup : firstDuplicate [] (items.map OfferItem.itemId) with
    | some id => .error (.duplicateItemId id)
    | none =>
      if hsum : (checkedSum (items.map OfferItem.size)).2 = false ∧
          (checkedSum (items.map OfferItem.size)).1 = totalBytes then
        .ok {
          transferId, items, totalBytes, senderLabel, origin
          items_ne_nil := hnil
          nodup := (nodup_of_firstDuplicate hdup).1
          total := by rw [← hsum.2, (checkedSum_eq hsum.1).1]
          total_lt := by
            rw [← hsum.2, (checkedSum_eq hsum.1).1]
            exact (checkedSum_eq hsum.1).2 }
      else
        .error (.totalBytesMismatch totalBytes (checkedSum (items.map OfferItem.size)).1)

/-- Why the answer for an item is refused. -/
inductive ItemAcceptanceError
  | declinedWithProgress
  | duplicateHaveChunk (chunk : ℕ)
  deriving DecidableEq, Repr

/-- The answer for one item. -/
structure ItemAcceptance where
  itemId : ItemId
  accepted : Bool
  resumeChunk : ℕ
  haveChunks : List ℕ
  deriving DecidableEq

/-- The first chunk that occurs a second time. -/
def firstRepeated : List ℕ → List ℕ → Option ℕ
  | _, [] => none
  | seen, chunk :: chunks =>
    if chunk ∈ seen then some chunk else firstRepeated (chunk :: seen) chunks

/-- The answer for an item: a declined one has no progress, and no chunk occurs twice. -/
def ItemAcceptance.new (itemId : ItemId) (accepted : Bool) (resumeChunk : ℕ)
    (haveChunks : List ℕ) : Except ItemAcceptanceError ItemAcceptance :=
  if ¬accepted ∧ (resumeChunk ≠ 0 ∨ haveChunks ≠ []) then .error .declinedWithProgress
  else
    match firstRepeated [] haveChunks with
    | some chunk => .error (.duplicateHaveChunk chunk)
    | none => .ok ⟨itemId, accepted, resumeChunk, haveChunks⟩

/-- Why an accept is refused. -/
inductive TransferAcceptError
  | noItems
  | duplicateItemId (id : ItemId)
  | transferIdMismatch
  | unknownItemId (id : ItemId)
  | resumeChunkOutOfRange (id : ItemId) (resumeChunk chunkCount : ℕ)
  | haveChunkOutOfRange (id : ItemId) (chunk chunkCount : ℕ)
  deriving DecidableEq

/-- The answer to an offer. -/
structure TransferAccept where
  transferId : TransferId
  items : List ItemAcceptance
  destinationLabel : Option DisplayName
  deriving DecidableEq

/-- An accept: at least one item, and no two for the same. -/
def TransferAccept.new (transferId : TransferId) (items : List ItemAcceptance)
    (destinationLabel : Option DisplayName) : Except TransferAcceptError TransferAccept :=
  if items = [] then .error .noItems
  else
    match firstDuplicate [] (items.map ItemAcceptance.itemId) with
    | some id => .error (.duplicateItemId id)
    | none => .ok ⟨transferId, items, destinationLabel⟩

/-- The answer for one item against the offer. -/
def ItemAcceptance.forOffer (offer : TransferOffer) (item : ItemAcceptance) :
    Except TransferAcceptError Unit :=
  match offer.items.find? fun offered => offered.itemId = item.itemId with
  | none => .error (.unknownItemId item.itemId)
  | some offered =>
    if item.accepted ∧ item.resumeChunk ≥ offered.chunkCount then
      .error (.resumeChunkOutOfRange item.itemId item.resumeChunk offered.chunkCount)
    else
      match item.haveChunks.find? fun chunk => chunk ≥ offered.chunkCount with
      | some chunk => .error (.haveChunkOutOfRange item.itemId chunk offered.chunkCount)
      | none => .ok ()

/-- An accept against the offer it answers. -/
def TransferAccept.forOffer (accept : TransferAccept) (offer : TransferOffer) :
    Except TransferAcceptError Unit :=
  if accept.transferId ≠ offer.transferId then .error .transferIdMismatch
  else accept.items.forM (ItemAcceptance.forOffer offer)

/-! ### The messages as protobuf carries them -/

structure WireOfferItem where
  itemId : Text
  relativePath : Text
  size : ℕ
  contentHash : List UInt8
  mtime : ℤ
  mime : Text
  chunkSize : ℕ

structure WireTransferOffer where
  transferId : Text
  items : List WireOfferItem
  totalBytes : ℕ
  senderLabel : Text
  origin : ℤ

structure WireItemAcceptance where
  itemId : Text
  accepted : Bool
  resumeChunk : ℕ
  haveChunks : List ℕ

structure WireTransferAccept where
  transferId : Text
  items : List WireItemAcceptance
  destinationLabel : Text

/-- The protobuf encoders and decoders of the two messages. -/
structure OfferProto where
  encodeOffer : WireTransferOffer → List UInt8
  decodeOffer : List UInt8 → Option WireTransferOffer
  encodeAccept : WireTransferAccept → List UInt8
  decodeAccept : List UInt8 → Option WireTransferAccept

/-- Why the fields of a decoded message are refused. -/
inductive OfferWireError
  | invalidTransferId (e : TransferIdError)
  | invalidChunkSize (got : ℕ)
  | invalidItemId (e : ItemIdError)
  | invalidRelPath (e : RelPathError)
  | invalidContentHash (len : ℕ)
  | emptySize
  | invalidOffer (e : TransferOfferError)
  | invalidItemAcceptance (e : ItemAcceptanceError)
  | invalidAccept (e : TransferAcceptError)
  deriving DecidableEq

/-- Why a framed message could not be encoded or decoded. -/
inductive OfferFrameError
  | wrongMessageType (expected got : UInt8)
  | framing (e : FrameError)
  | decode
  | wire (e : OfferWireError)
  deriving DecidableEq

/-- Validate an item of an offer. -/
def offerItemFromWire (item : WireOfferItem) : Except OfferWireError OfferItem := do
  require (item.chunkSize = referenceChunkSizeBytes) (.invalidChunkSize item.chunkSize)
  let itemId ← (ItemId.new item.itemId).mapError .invalidItemId
  let relPath ← (RelPath.new item.relativePath).mapError .invalidRelPath
  if hlen : item.contentHash.length = 32 then
    if hpos : 0 < item.size then .ok ⟨itemId, relPath, item.size, ⟨item.contentHash, hlen⟩, hpos⟩
    else .error .emptySize
  else .error (.invalidContentHash item.contentHash.length)

/-- Validate an offer; a label or an origin that is not one is left out. -/
def transferOfferFromWire (message : WireTransferOffer) : Except OfferWireError TransferOffer := do
  let transferId ← (TransferId.parse message.transferId).mapError .invalidTransferId
  let items ← message.items.mapM offerItemFromWire
  (TransferOffer.new transferId items message.totalBytes (DisplayName.new message.senderLabel).toOption
    (OfferOrigin.ofWire message.origin)).mapError .invalidOffer

/-- An offer on its way to protobuf. -/
def transferOfferToWire (offer : TransferOffer) : WireTransferOffer where
  transferId := offer.transferId.display
  items := offer.items.map fun item =>
    ⟨item.itemId.value, item.relPath.value, item.size, item.contentHash.bytes, 0, [],
      referenceChunkSizeBytes⟩
  totalBytes := offer.totalBytes
  senderLabel := (offer.senderLabel.map DisplayName.value).getD []
  origin := (offer.origin.map OfferOrigin.toWire).getD 0

/-- Validate the answer for an item. -/
def itemAcceptanceFromWire (item : WireItemAcceptance) : Except OfferWireError ItemAcceptance := do
  let itemId ← (ItemId.new item.itemId).mapError .invalidItemId
  (ItemAcceptance.new itemId item.accepted item.resumeChunk item.haveChunks).mapError
    .invalidItemAcceptance

/-- Validate an accept. -/
def transferAcceptFromWire (message : WireTransferAccept) :
    Except OfferWireError TransferAccept := do
  let transferId ← (TransferId.parse message.transferId).mapError .invalidTransferId
  let items ← message.items.mapM itemAcceptanceFromWire
  (TransferAccept.new transferId items
    (DisplayName.new message.destinationLabel).toOption).mapError .invalidAccept

/-- An accept on its way to protobuf. -/
def transferAcceptToWire (accept : TransferAccept) : WireTransferAccept where
  transferId := accept.transferId.display
  items := accept.items.map fun item =>
    ⟨item.itemId.value, item.accepted, item.resumeChunk, item.haveChunks⟩
  destinationLabel := (accept.destinationLabel.map DisplayName.value).getD []

/-- Frame an offer. -/
def encodeTransferOfferFrame (proto : OfferProto) (offer : TransferOffer) (maxFrameSize : UInt32) :
    Except OfferFrameError (List UInt8) :=
  (encodeFrame MessageType.transferOffer.code (proto.encodeOffer (transferOfferToWire offer))
    maxFrameSize).mapError .framing

/-- Frame an accept. -/
def encodeTransferAcceptFrame (proto : OfferProto) (accept : TransferAccept)
    (maxFrameSize : UInt32) : Except OfferFrameError (List UInt8) :=
  (encodeFrame MessageType.transferAccept.code (proto.encodeAccept (transferAcceptToWire accept))
    maxFrameSize).mapError .framing

/-- Decode a frame that must carry the message type `expected`. -/
def decodeOfferFrame {α β : Type} (expected : MessageType) (decode : List UInt8 → Option α)
    (fromWire : α → Except OfferWireError β) (frame : Frame) : Except OfferFrameError β :=
  if frame.typeCode ≠ expected.code then
    .error (.wrongMessageType expected.code frame.typeCode)
  else
    match decode frame.payload with
    | none => .error .decode
    | some wire => (fromWire wire).mapError .wire

/-- Decode a framed offer. -/
def decodeTransferOfferFrame (proto : OfferProto) : Frame → Except OfferFrameError TransferOffer :=
  decodeOfferFrame .transferOffer proto.decodeOffer transferOfferFromWire

/-- Decode a framed accept. -/
def decodeTransferAcceptFrame (proto : OfferProto) :
    Frame → Except OfferFrameError TransferAccept :=
  decodeOfferFrame .transferAccept proto.decodeAccept transferAcceptFromWire

/-! ### Waiting for them -/

/-- Why no offer, or no accept, was read. -/
inductive OfferReadError
  | session (e : TransferSessionError)
  | frame (e : OfferFrameError)
  | accept (e : TransferAcceptError)
  deriving DecidableEq

/-- Read the accept of an offer: the next frame must carry it. -/
def readTransferAccept (proto : OfferProto) (offer : TransferOffer) (recv : RecvStream)
    (maxFrameSize : UInt32) : Except OfferReadError TransferAccept × RecvStream :=
  match recv.readFrame maxFrameSize with
  | (.error e, recv) => (.error (.session e), recv)
  | (.ok frame, recv) =>
    match decodeTransferAcceptFrame proto frame with
    | .error e => (.error (.frame e), recv)
    | .ok accept =>
      match accept.forOffer offer with
      | .error e => (.error (.accept e), recv)
      | .ok () => (.ok accept, recv)

/-- What a frame is to the side that waits for an offer: the offer, one to skip, or the end
of the stream. -/
def offerOfFrame (proto : OfferProto) (ignorable : ℕ) (frame : Frame) :
    Except OfferReadError (Option TransferOffer) :=
  match classify frame.typeCode .control with
  | .known .transferOffer =>
    match decodeTransferOfferFrame proto frame with
    | .error e => .error (.frame e)
    | .ok offer => .ok (some offer)
  | .ignorable =>
    if ignorable + 1 > maxConsecutiveIgnorableFrames then
      .error (.session (.protocolViolation .tooManyIgnorable))
    else .ok none
  | .refused why => .error (.session (.protocolViolation (.refused why)))
  | .known other => .error (.session (.protocolViolation (.unexpectedMessage other)))

/-- Read the offer, skipping unassigned frames; each frame takes some of the bytes, so that
they bound the loop. -/
def readTransferOffer (proto : OfferProto) (maxFrameSize : UInt32) : ℕ → ℕ → RecvStream →
    Option (Except OfferReadError TransferOffer) × RecvStream
  | 0, _, recv => (none, recv)
  | fuel + 1, ignorable, recv =>
    match recv.readFrame maxFrameSize with
    | (.error e, recv) => (some (.error (.session e)), recv)
    | (.ok frame, recv) =>
      match offerOfFrame proto ignorable frame with
      | .error e => (some (.error e), recv)
      | .ok (some offer) => (some (.ok offer), recv)
      | .ok none => readTransferOffer proto maxFrameSize fuel (ignorable + 1) recv

end Tradr
