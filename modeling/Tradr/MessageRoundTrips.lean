import Tradr.TransferMessages

/-!
# Messages Are Read Back

Every message of the control and data planes comes out of its frame as it went in, and whatever a
decoder accepts may be framed and decoded again.

A message has a wire form, protobuf writes and reads wire forms, and a frame carries what protobuf
wrote behind the message's type byte. `RoundTrips.intro` is the argument for all of them; what is
left for one message is that its fields are read back and what a decoder has checked.

## Main definitions

* `ReadBack`: a frame comes out of a decoder and decodes to a message.
* `RoundTrips`: both directions for one message.

## Main results

* `messages_round_trip`: all fourteen messages.
-/

namespace Tradr

open Fallible

/-- The bytes of a frame come out of a decoder, whatever follows them, and decode to the message
they were made of. -/
def ReadBack {M F : Type} (decode : Frame → Except F M) (same : M → M → Prop) (limit : UInt32)
    (bytes : List UInt8) (m : M) : Prop :=
  ∀ rest, ∃ frame m', ((FrameDecoder.new limit).feed (bytes ++ rest)).nextFrame =
      (.ok (some frame), ⟨limit, rest, none⟩) ∧
    decode frame = .ok m' ∧ same m' m

/-- A message that may be written is read back when it is framed. What is decoded is as it should
be, and is read back when it is framed again. Protobuf is to read the messages of `reads`. -/
structure RoundTrips {M F : Type} (encode : M → UInt32 → Except F (List UInt8))
    (decode : Frame → Except F M) (reads plain valid : M → Prop) (same : M → M → Prop) :
    Prop where
  framed : ∀ m, plain m → reads m → ∀ limit bytes, encode m limit = .ok bytes →
    ReadBack decode same limit bytes m
  valid : ∀ frame m, decode frame = .ok m → valid m
  again : ∀ frame m, decode frame = .ok m → reads m → ∀ limit bytes, encode m limit = .ok bytes →
    ReadBack decode same limit bytes m

/-- A frame that was encoded comes out of a decoder. -/
theorem nextFrame_of_encodeFrame {typeCode : UInt8} {payload bytes : List UInt8} {limit : UInt32}
    (h : encodeFrame typeCode payload limit = .ok bytes) (rest : List UInt8) :
    ((FrameDecoder.new limit).feed (bytes ++ rest)).nextFrame =
      (.ok (some ⟨typeCode, payload⟩), ⟨limit, rest, none⟩) := by
  have hfed : (FrameDecoder.new limit).feed (bytes ++ rest) = ⟨limit, bytes ++ rest, none⟩ := rfl
  have hunit : frameVerdict limit (bytes ++ rest) = .unit ⟨typeCode, payload⟩ bytes.length :=
    frameParser_encodeFrame h rest
  rw [hfed, FrameDecoder.nextFrame_eq, hunit]
  dsimp only
  rw [List.drop_left]

section Intro

variable {M W E F : Type} {code : UInt8} {toWire : M → W} {fromWire : W → Except E M}
  {write : W → List UInt8} {read : List UInt8 → Option W} {framing : FrameError → F}
  {wrong : UInt8 → F} {unread : F} {wire : E → F} {encode : M → UInt32 → Except F (List UInt8)}
  {decode : Frame → Except F M} {reads plain valid : M → Prop} {same : M → M → Prop}

/-- **One message is read back** when its wire form is: frames and protobuf lose nothing. -/
theorem RoundTrips.intro
    (hencode : ∀ m limit, encode m limit =
      (encodeFrame code (write (toWire m)) limit).mapError framing)
    (hdecode : ∀ frame, decode frame = if frame.typeCode ≠ code then .error (wrong frame.typeCode)
      else match read frame.payload with
        | none => .error unread
        | some w => (fromWire w).mapError wire)
    (hreads : ∀ m, plain m → reads m → ∃ w, read (write (toWire m)) = some w ∧
      ∃ m', fromWire w = .ok m' ∧ same m' m)
    (hvalid : ∀ w m, fromWire w = .ok m → plain m ∧ valid m) :
    RoundTrips encode decode reads plain valid same := by
  have hback : ∀ m, plain m → reads m → ∀ limit bytes, encode m limit = .ok bytes →
      ReadBack decode same limit bytes m := by
    intro m hplain hread limit bytes hbytes rest
    rw [hencode, mapError_eq_ok] at hbytes
    obtain ⟨w, hw, m', hm', hsame⟩ := hreads m hplain hread
    refine ⟨⟨code, write (toWire m)⟩, m', nextFrame_of_encodeFrame hbytes rest, ?_, hsame⟩
    rw [hdecode, if_neg (not_not_intro rfl)]
    dsimp only
    rw [hw]
    dsimp only
    rw [hm', mapError_ok]
  have hdecoded : ∀ frame m, decode frame = .ok m → plain m ∧ valid m := by
    intro frame m h
    rw [hdecode] at h
    split at h
    · cases h
    split at h
    · cases h
    rename_i w _
    exact hvalid w m (mapError_eq_ok.mp h)
  refine ⟨hback, fun frame m h => (hdecoded frame m h).2, ?_⟩
  intro frame m h
  exact hback m (hdecoded frame m h).1

/-- The same, for a message that protobuf and its fields' checks read back as it is. -/
theorem RoundTrips.intro_eq
    (hencode : ∀ m limit, encode m limit =
      (encodeFrame code (write (toWire m)) limit).mapError framing)
    (hdecode : ∀ frame, decode frame = if frame.typeCode ≠ code then .error (wrong frame.typeCode)
      else match read frame.payload with
        | none => .error unread
        | some w => (fromWire w).mapError wire)
    (hfields : ∀ m, plain m → fromWire (toWire m) = .ok m)
    (hvalid : ∀ w m, fromWire w = .ok m → plain m ∧ valid m) :
    RoundTrips encode decode (fun m => read (write (toWire m)) = some (toWire m)) plain valid
      Eq :=
  .intro hencode hdecode (fun m hplain hread => ⟨_, hread, m, hfields m hplain, rfl⟩) hvalid

end Intro

/-- What an offer's constructor checks: distinct items that are not empty, and the exact sum. -/
structure TransferOffer.Checked (offer : TransferOffer) : Prop where
  items_ne_nil : offer.items ≠ []
  nodup : (offer.items.map OfferItem.itemId).Nodup
  total : (offer.items.map OfferItem.size).sum = offer.totalBytes
  size_pos : ∀ item ∈ offer.items, 0 < item.size

/-- What a chunk header's constructor checks: the offset is inside the reference chunk, and the
byte offset of the chunk fits. -/
structure ChunkDataHeader.Checked (header : ChunkDataHeader) : Prop where
  offset_inside : header.offsetInChunk.toNat < referenceChunkSizeBytes
  payload_nonempty : header.payloadLen ≠ 0
  index_fits : header.chunkIndex.toNat * referenceChunkSizeBytes < UInt64.size

/-- What a range of versions checks. -/
def PeerHello.Checked (hello : PeerHello) : Prop :=
  hello.versions.min ≠ 0 ∧ hello.versions.min ≤ hello.versions.max

/-- A reply that was read has a token. -/
theorem attestationToken_of_fromWire {message : WireLinkReply} {reply : LinkReply}
    (h : linkReplyFromWire message = .ok reply) : reply.attestationToken ≠ [] := by
  obtain ⟨inviteId, -, h⟩ := bind_eq_ok.mp h
  obtain ⟨device, -, h⟩ := bind_eq_ok.mp h
  obtain ⟨identityPub, -, h⟩ := bind_eq_ok.mp h
  obtain ⟨agreementPub, -, h⟩ := bind_eq_ok.mp h
  obtain ⟨attestation, -, h⟩ := bind_eq_ok.mp h
  obtain ⟨_, htoken, h⟩ := bind_eq_ok.mp h
  obtain ⟨half, -, h⟩ := bind_eq_ok.mp h
  obtain rfl := Except.ok.inj h
  exact require_eq_ok.mp htoken

/-- A chunk request that was read is for some chunks. -/
theorem count_of_fromWire {message : WireChunkRequest} {req : ChunkRequest}
    (h : chunkRequestFromWire message = .ok req) : req.count ≠ 0 := by
  obtain ⟨transferId, -, h⟩ := bind_eq_ok.mp h
  obtain ⟨itemId, -, h⟩ := bind_eq_ok.mp h
  obtain ⟨_, hcount, h⟩ := bind_eq_ok.mp h
  obtain rfl := Except.ok.inj h
  exact require_eq_ok.mp hcount

/-- A request for single chunks that was read is for some chunks. -/
theorem chunks_of_fromWire {message : WireChunkRerequest} {req : ChunkRerequest}
    (h : chunkRerequestFromWire message = .ok req) : req.chunks ≠ [] := by
  obtain ⟨transferId, -, h⟩ := bind_eq_ok.mp h
  obtain ⟨itemId, -, h⟩ := bind_eq_ok.mp h
  obtain ⟨_, hchunks, h⟩ := bind_eq_ok.mp h
  obtain rfl := Except.ok.inj h
  exact require_eq_ok.mp hchunks

/-- The reason of flow control that was read is not empty. -/
theorem reason_of_fromWire {message : WireFlowControl} {control : FlowControl}
    (h : flowControlFromWire message = .ok control) : control.reason ≠ some [] := by
  obtain ⟨transferId, -, h⟩ := bind_eq_ok.mp h
  obtain rfl := Except.ok.inj h
  exact textOfWire_ne _

/-- The transport of a report that was read is not empty. -/
theorem activeTransport_of_fromWire {message : WireTransferProgress} {progress : TransferProgress}
    (h : transferProgressFromWire message = .ok progress) :
    progress.activeTransport ≠ some [] := by
  obtain ⟨transferId, -, h⟩ := bind_eq_ok.mp h
  obtain rfl := Except.ok.inj h
  exact textOfWire_ne _

/-- The frame of a chunk header is decoded like the others. -/
theorem decodeChunkDataHeaderFrame_eq (codec : TransferCodec) :
    decodeChunkDataHeaderFrame codec =
      decodeTransferFrame .chunkData codec.decodeChunkData chunkDataHeaderFromWire := by
  funext frame
  unfold decodeChunkDataHeaderFrame decodeTransferFrame
  split_ifs
  · rfl
  · rcases codec.decodeChunkData frame.payload with _ | wire
    · rfl
    · rfl

/-- What protobuf reads of a report it wrote: every field, and as the throughput the same
number; a negative zero is left out like any zero. -/
def DataPlaneProto.ReadsProgress (data : DataPlaneProto) (progress : TransferProgress) : Prop :=
  ∃ throughput : F64, throughput.Same progress.throughputBps ∧
    data.decodeTransferProgress (data.encodeTransferProgress (transferProgressToWire progress)) =
      some { transferProgressToWire progress with throughputBps := throughput }

section Messages

variable (offers : OfferExchangeProto) (hellos : HelloProto) (links : LinkProto)
  (data : DataPlaneProto)

/-- All messages are read back: what protobuf is to read of each, which may be written, and what
was checked of one that is read. -/
structure MessagesRoundTrip : Prop where
  transferOffer : RoundTrips (encodeTransferOfferFrame offers.toOfferProto)
    (decodeTransferOfferFrame offers.toOfferProto)
    (fun m => offers.decodeOffer (offers.encodeOffer (transferOfferToWire m)) =
      some (transferOfferToWire m))
    (fun offer => ∀ item ∈ offer.items, item.relPath.value ≠ []) TransferOffer.Checked Eq
  transferAccept : RoundTrips (encodeTransferAcceptFrame offers.toOfferProto)
    (decodeTransferAcceptFrame offers.toOfferProto)
    (fun m => offers.decodeAccept (offers.encodeAccept (transferAcceptToWire m)) =
      some (transferAcceptToWire m))
    TransferAccept.Valid TransferAccept.Valid Eq
  transferReject : RoundTrips (encodeTransferRejectFrame offers) (decodeTransferRejectFrame offers)
    (fun m => offers.decodeReject (offers.encodeReject (transferRejectToWire m)) =
      some (transferRejectToWire m))
    (fun _ => True) (fun _ => True) Eq
  peerHello : RoundTrips (encodeHelloFrame hellos) (decodeHelloFrame hellos)
    (fun m => hellos.decodeHello (hellos.encodeHello (peerHelloToWire m)) =
      some (peerHelloToWire m))
    (fun _ => True) PeerHello.Checked Eq
  peerHelloAck : RoundTrips (encodeHelloAckFrame hellos) (decodeHelloAckFrame hellos)
    (fun m => hellos.decodeHelloAck (hellos.encodeHelloAck (peerHelloAckToWire m)) =
      some (peerHelloAckToWire m))
    (fun _ => True) (fun _ => True) Eq
  linkReply : RoundTrips (encodeLinkReplyFrame links) (decodeLinkReplyFrame links)
    links.ReadsReply
    (fun reply => reply.attestationToken ≠ []) (fun reply => reply.attestationToken ≠ []) Eq
  linkApprove : RoundTrips (encodeLinkApproveFrame links) (decodeLinkApproveFrame links)
    links.ReadsApprove (fun _ => True) (fun _ => True) Eq
  linkDecline : RoundTrips (encodeLinkDeclineFrame links) (decodeLinkDeclineFrame links)
    (fun m => links.decodeLinkDecline (links.encodeLinkDecline (linkDeclineToWire m)) =
      some (linkDeclineToWire m))
    (fun _ => True) (fun _ => True) Eq
  chunkRequest : RoundTrips (encodeChunkRequestFrame data.toTransferCodec)
    (decodeChunkRequestFrame data.toSendCodec)
    (fun m => data.decodeChunkRequest (data.encodeChunkRequest (chunkRequestToWire m)) =
      some (chunkRequestToWire m))
    (fun req => req.count ≠ 0) (fun req => req.count ≠ 0) Eq
  chunkRerequest : RoundTrips (encodeChunkRerequestFrame data)
    (decodeChunkRerequestFrame data.toSendCodec)
    (fun m => data.decodeChunkRerequest (data.encodeChunkRerequest (chunkRerequestToWire m)) =
      some (chunkRerequestToWire m))
    (fun req => req.chunks ≠ []) (fun req => req.chunks ≠ []) Eq
  chunkDataHeader : RoundTrips (encodeChunkDataHeaderFrame data.toSendCodec)
    (decodeChunkDataHeaderFrame data.toTransferCodec)
    (fun m => data.decodeChunkData (data.encodeChunkData (chunkDataHeaderToWire m)) =
      some (chunkDataHeaderToWire m))
    (fun _ => True) ChunkDataHeader.Checked Eq
  itemComplete : RoundTrips (encodeItemCompleteFrame data.toTransferCodec)
    (decodeItemCompleteFrame data.toSendCodec)
    (fun m => data.decodeItemComplete (data.encodeItemComplete (itemCompleteToWire m)) =
      some (itemCompleteToWire m))
    (fun item => ∀ p, item.finalPath = some p → p.value ≠ [])
    (fun item => ∀ p, item.finalPath = some p → p.value ≠ []) Eq
  flowControl : RoundTrips (encodeFlowControlFrame data) (decodeFlowControlFrame data)
    (fun m => data.decodeFlowControl (data.encodeFlowControl (flowControlToWire m)) =
      some (flowControlToWire m))
    (fun control => control.reason ≠ some []) (fun control => control.reason ≠ some []) Eq
  transferProgress : RoundTrips (encodeTransferProgressFrame data)
    (decodeTransferProgressFrame data) data.ReadsProgress
    (fun progress => progress.activeTransport ≠ some [])
    (fun progress => progress.activeTransport ≠ some []) TransferProgress.Same

/-- **All fourteen messages of the control and data planes are read back** from their frames, and
what is decoded was checked and may be framed and decoded again. -/
theorem messages_round_trip : MessagesRoundTrip offers hellos links data where
  transferOffer := .intro_eq (fun _ _ => rfl) (fun _ => rfl) (fun _ => transferOfferFromWire_toWire)
    fun _ offer h => ⟨transferOffer_of_fromWire h,
      offer.items_ne_nil, offer.nodup, offer.total, fun item _ => item.size_pos⟩
  transferAccept := .intro_eq (fun _ _ => rfl) (fun _ => rfl)
    (fun _ => transferAcceptFromWire_toWire)
    fun _ _ h => ⟨transferAccept_of_fromWire h, transferAccept_of_fromWire h⟩
  transferReject := .intro_eq (fun _ _ => rfl) (fun _ => rfl)
    (fun m _ => transferRejectFromWire_toWire m) fun _ _ _ => ⟨trivial, trivial⟩
  peerHello := .intro_eq (fun _ _ => rfl) (fun _ => rfl) (fun m _ => peerHelloFromWire_toWire m)
    fun _ hello _ => ⟨trivial, hello.versions.min_ne_zero, hello.versions.min_le_max⟩
  peerHelloAck := .intro_eq (fun _ _ => rfl) (fun _ => rfl)
    (fun m _ => peerHelloAckFromWire_toWire m) fun _ _ _ => ⟨trivial, trivial⟩
  linkReply := .intro_eq (fun _ _ => rfl) (fun _ => rfl) (fun _ => linkReplyFromWire_toWire)
    fun _ _ h => ⟨attestationToken_of_fromWire h, attestationToken_of_fromWire h⟩
  linkApprove := .intro_eq (fun _ _ => rfl) (fun _ => rfl)
    (fun m _ => linkApproveFromWire_toWire m) fun _ _ _ => ⟨trivial, trivial⟩
  linkDecline := .intro_eq (fun _ _ => rfl) (fun _ => rfl)
    (fun m _ => linkDeclineFromWire_toWire m) fun _ _ _ => ⟨trivial, trivial⟩
  chunkRequest := .intro_eq (fun _ _ => rfl) (fun _ => rfl) (fun _ => chunkRequestFromWire_toWire)
    fun _ _ h => ⟨count_of_fromWire h, count_of_fromWire h⟩
  chunkRerequest := .intro_eq (fun _ _ => rfl) (fun _ => rfl)
    (fun _ => chunkRerequestFromWire_toWire)
    fun _ _ h => ⟨chunks_of_fromWire h, chunks_of_fromWire h⟩
  chunkDataHeader := by
    rw [decodeChunkDataHeaderFrame_eq]
    refine .intro_eq (fun _ _ => rfl) (fun _ => rfl) (fun m _ => chunkDataHeaderFromWire_toWire m) ?_
    intro _ header _
    exact ⟨trivial, header.offset_inside, header.payload_nonempty, header.index_fits⟩
  itemComplete := .intro_eq (fun _ _ => rfl) (fun _ => rfl) (fun _ => itemCompleteFromWire_toWire)
    fun _ _ h => ⟨itemComplete_of_fromWire h, itemComplete_of_fromWire h⟩
  flowControl := .intro_eq (fun _ _ => rfl) (fun _ => rfl) (fun _ => flowControlFromWire_toWire)
    fun _ _ h => ⟨reason_of_fromWire h, reason_of_fromWire h⟩
  transferProgress := by
    refine .intro (fun _ _ => rfl) (fun _ => rfl) ?_ ?_
    · rintro progress hplain ⟨throughput, hsame, hread⟩
      exact ⟨_, hread, transferProgressFromWire_toWire hplain hsame⟩
    · intro w progress h
      exact ⟨activeTransport_of_fromWire h, activeTransport_of_fromWire h⟩

end Messages

section Example

/-- A transfer that is to pause. -/
def pause : FlowControl :=
  ⟨⟨[1, 2, 3, 4, 5, 6, 0x77, 8, 0x89, 10, 11, 12, 13, 14, 15, 16], rfl, rfl, rfl⟩, 0, none⟩

/-- Protobuf as far as pausing needs it: an identifier alone is one field, its length before
it. -/
def pauseProto : DataPlaneProto where
  encodeChunkRequest _ := []
  decodeChunkData _ := none
  encodeItemComplete _ := []
  decodeChunkRequest _ := none
  encodeChunkRerequest _ := []
  decodeChunkRerequest _ := none
  encodeChunkData _ := []
  decodeItemComplete _ := none
  encodeFlowControl wire := 0x0a :: 36 :: wire.transferId.map fun c => c.toNat.toUInt8
  decodeFlowControl bytes := some ⟨(bytes.drop 2).map fun b => Char.ofNat b.toNat, 0, []⟩
  encodeTransferProgress _ := []
  decodeTransferProgress _ := none

/-- The frame that pauses a transfer comes out of a decoder in front of anything, as what it
was. -/
theorem messages_round_trip_pause : ∃ bytes,
    encodeFlowControlFrame pauseProto pause 64 = .ok bytes ∧ bytes.length = 43 ∧
      ReadBack (decodeFlowControlFrame pauseProto) Eq 64 bytes pause := by
  obtain ⟨bytes, hbytes, hlen⟩ : ∃ bytes,
      encodeFlowControlFrame pauseProto pause 64 = .ok bytes ∧ bytes.length = 43 :=
    ⟨_, rfl, by decide +kernel⟩
  have hround := (messages_round_trip ⟨⟨fun _ => [], fun _ => none, fun _ => [], fun _ => none⟩,
    fun _ => [], fun _ => none⟩ ⟨fun _ => [], fun _ => none, fun _ => [], fun _ => none⟩
    ⟨fun _ => [], fun _ => none, fun _ => [], fun _ => none, fun _ => [], fun _ => none⟩
    pauseProto).flowControl
  exact ⟨bytes, hbytes, hlen, hround.framed pause (by decide) (by decide +kernel) 64 bytes hbytes⟩

end Example

end Tradr
