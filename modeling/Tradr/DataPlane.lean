import Tradr.Fallible
import Tradr.Framing
import Tradr.MessageType
import Tradr.RelPath
import Mathlib.Tactic.IntervalCases

/-!
# The Data Plane

The identifiers and messages of the Data plane. A Transfer is named by a UUIDv7, an Item
inside it by an opaque token narrower than any legal file name, a chunk by its index. A
`ChunkDataHeader` carries the three bounds that were checked before an absolute offset
is ever computed from a peer's claim.

The protobuf layer is third-party code: a `TransferCodec` holds its encoders and
decoders for the messages of the receiving side, a `SendCodec` those of both sides.

## Main results

* `hexBytes_hexText`, `TransferId.parse_display`: hexadecimal text and the canonical form
  of a transfer identifier read back.
* `ChunkDataHeader.offset_lt`: the absolute offset of a piece fits in 64 bits.
-/

namespace Tradr

open Fallible

/-! ### Transfer identifiers -/

/-- Why a text is not a transfer identifier. -/
inductive TransferIdError
  | invalidFormat
  | wrongVersion (version : UInt8)
  | wrongVariant
  deriving DecidableEq, Repr

/-- The canonical length of a hyphenated UUID. -/
def canonicalLen : ℕ := 36

/-- Where the hyphens of a hyphenated UUID stand. -/
def hyphenPositions : List ℕ := [8, 13, 18, 23]

/-- A Transfer's identifier: the sixteen bytes of a UUIDv7. -/
structure TransferId where
  bytes : List UInt8
  length_bytes : bytes.length = 16
  version : bytes.getD 6 0 >>> 4 = 7
  variant : bytes.getD 8 0 &&& 0xc0 = 0x80
  deriving DecidableEq

/-- The value of a hexadecimal digit of either case. -/
def hexDigit (c : Char) : Option UInt8 :=
  if '0' ≤ c ∧ c ≤ '9' then some (UInt8.ofNat (c.toNat - '0'.toNat))
  else if 'a' ≤ c ∧ c ≤ 'f' then some (UInt8.ofNat (c.toNat - 'a'.toNat + 10))
  else if 'A' ≤ c ∧ c ≤ 'F' then some (UInt8.ofNat (c.toNat - 'A'.toNat + 10))
  else none

/-- Pairs of hexadecimal digits, two for each byte. -/
def hexBytes : Text → Option (List UInt8)
  | [] => some []
  | [_] => none
  | hi :: lo :: rest => do
    let h ← hexDigit hi
    let l ← hexDigit lo
    let bs ← hexBytes rest
    return (h * 16 + l) :: bs

/-- A hyphenated UUID: the bytes of its digits, with the hyphens skipped. -/
def parseCanonical (s : Text) : Option (List UInt8) :=
  if utf8Len s ≠ canonicalLen then none
  else if ∃ p ∈ hyphenPositions, s[p]? ≠ some '-' then none
  else
    hexBytes (s.take 8 ++ (s.drop 9).take 4 ++ (s.drop 14).take 4 ++ (s.drop 19).take 4 ++
      s.drop 24)

/-- Parse the canonical form of a transfer identifier. -/
def TransferId.parse (s : Text) : Except TransferIdError TransferId :=
  match parseCanonical s with
  | none => .error .invalidFormat
  | some bytes =>
    if hlen : bytes.length = 16 then
      if hver : bytes.getD 6 0 >>> 4 = 7 then
        if hvar : bytes.getD 8 0 &&& 0xc0 = 0x80 then .ok ⟨bytes, hlen, hver, hvar⟩
        else .error .wrongVariant
      else .error (.wrongVersion (bytes.getD 6 0 >>> 4))
    else .error .invalidFormat

/-- The identifier `017f22e2-79b0-7cc3-98c4-dc0c0c07398f`. -/
def TransferId.sample : TransferId :=
  ⟨[0x01, 0x7f, 0x22, 0xe2, 0x79, 0xb0, 0x7c, 0xc3, 0x98, 0xc4, 0xdc, 0x0c, 0x0c, 0x07, 0x39,
    0x8f], by decide, by decide, by decide⟩

/-- The lowercase digits. -/
def hexChars : Text := "0123456789abcdef".toList

/-- A byte as two lowercase hexadecimal digits. -/
def hexByte (b : UInt8) : Text :=
  [hexChars.getD (b.toNat / 16) '0', hexChars.getD (b.toNat % 16) '0']

/-- Bytes as lowercase hexadecimal digits. -/
def hexText (bs : List UInt8) : Text :=
  bs.flatMap hexByte

/-- The canonical rendering: hyphenated lowercase hexadecimal. -/
def TransferId.display (t : TransferId) : Text :=
  hexText (t.bytes.take 4) ++ '-' :: hexText ((t.bytes.drop 4).take 2) ++
    '-' :: hexText ((t.bytes.drop 6).take 2) ++ '-' :: hexText ((t.bytes.drop 8).take 2) ++
    '-' :: hexText (t.bytes.drop 10)

/-- Each lowercase digit reads back as its own value. -/
theorem hexDigit_hexChars {v : ℕ} (h : v < 16) :
    hexDigit (hexChars.getD v '0') = some (UInt8.ofNat v) := by
  interval_cases v <;> rfl

/-- A digit occupies one byte. -/
theorem utf8Size_hexChars {v : ℕ} (h : v < 16) : (hexChars.getD v '0').utf8Size = 1 := by
  interval_cases v <;> rfl

/-- **Hexadecimal text reads back** as the bytes it was written from. -/
theorem hexBytes_hexText (bs : List UInt8) : hexBytes (hexText bs) = some bs := by
  induction bs with
  | nil => rfl
  | cons b bs ih =>
      have hb : b.toNat < 256 := b.toNat_lt
      have hhi := hexDigit_hexChars (show b.toNat / 16 < 16 by omega)
      have hlo := hexDigit_hexChars (show b.toNat % 16 < 16 by omega)
      have hbyte : UInt8.ofNat (b.toNat / 16) * 16 + UInt8.ofNat (b.toNat % 16) = b := by
        apply UInt8.toNat_inj.mp
        simp only [UInt8.toNat_add, UInt8.toNat_mul, UInt8.toNat_ofNat', UInt8.reduceToNat]
        omega
      have htext : hexText (b :: bs) = hexChars.getD (b.toNat / 16) '0' ::
          hexChars.getD (b.toNat % 16) '0' :: hexText bs := rfl
      rw [htext, hexBytes, hhi, hlo, ih]
      simp [hbyte]

/-- Two digits for each byte. -/
@[simp] theorem length_hexText (bs : List UInt8) : (hexText bs).length = 2 * bs.length := by
  simp [hexText, hexByte, Nat.mul_comm]

/-- Two bytes of text for each byte. -/
@[simp] theorem utf8Len_hexText (bs : List UInt8) : utf8Len (hexText bs) = 2 * bs.length := by
  induction bs with
  | nil => rfl
  | cons b bs ih =>
      have hb : b.toNat < 256 := b.toNat_lt
      have hhi := utf8Size_hexChars (show b.toNat / 16 < 16 by omega)
      have hlo := utf8Size_hexChars (show b.toNat % 16 < 16 by omega)
      have htext : hexText (b :: bs) = hexChars.getD (b.toNat / 16) '0' ::
          hexChars.getD (b.toNat % 16) '0' :: hexText bs := rfl
      rw [htext, utf8Len, List.map_cons, List.map_cons, List.sum_cons, List.sum_cons, hhi, hlo]
      simp only [utf8Len] at ih
      rw [ih, List.length_cons]
      omega

/-- The length of a text between two hyphens. -/
theorem utf8Len_hyphenated (s t : Text) :
    utf8Len (s ++ '-' :: t) = utf8Len s + 1 + utf8Len t := by
  have h : '-'.utf8Size = 1 := rfl
  simp [utf8Len, h, Nat.add_assoc]

/-- A text with hyphens in their places is read without them. -/
theorem parseCanonical_hyphenated {a b c d e : Text} (ha : a.length = 8) (hb : b.length = 4)
    (hc : c.length = 4) (hd : d.length = 4)
    (hlen : utf8Len (a ++ '-' :: (b ++ '-' :: (c ++ '-' :: (d ++ '-' :: e)))) = canonicalLen) :
    parseCanonical (a ++ '-' :: (b ++ '-' :: (c ++ '-' :: (d ++ '-' :: e)))) =
      hexBytes (a ++ b ++ c ++ d ++ e) := by
  rw [parseCanonical, if_neg (fun h => h hlen), if_neg]
  · simp [List.drop_append, List.drop_of_length_le, ha, hb, hc, hd]
  · rintro ⟨p, hp, hne⟩
    simp only [hyphenPositions, List.mem_cons, List.not_mem_nil, or_false] at hp
    rcases hp with rfl | rfl | rfl | rfl <;>
      exact hne (by simp [List.getElem?_append, ha, hb, hc, hd])

/-- Sixteen bytes in canonical form are read back. -/
theorem parseCanonical_hexText {bytes : List UInt8} (hlen : bytes.length = 16) :
    parseCanonical (hexText (bytes.take 4) ++ '-' :: hexText ((bytes.drop 4).take 2) ++
      '-' :: hexText ((bytes.drop 6).take 2) ++ '-' :: hexText ((bytes.drop 8).take 2) ++
      '-' :: hexText (bytes.drop 10)) = some bytes := by
  have hpieces : bytes.take 4 ++ (bytes.drop 4).take 2 ++ (bytes.drop 6).take 2 ++
      (bytes.drop 8).take 2 ++ bytes.drop 10 = bytes := by
    rw [List.append_assoc, List.append_assoc, List.append_assoc,
      show bytes.drop 10 = (bytes.drop 8).drop 2 by simp, List.take_append_drop,
      show bytes.drop 8 = (bytes.drop 6).drop 2 by simp, List.take_append_drop,
      show bytes.drop 6 = (bytes.drop 4).drop 2 by simp, List.take_append_drop,
      List.take_append_drop]
  simp only [List.append_assoc, List.cons_append]
  rw [parseCanonical_hyphenated]
  · calc hexBytes _ = hexBytes (hexText (bytes.take 4 ++ (bytes.drop 4).take 2 ++
          (bytes.drop 6).take 2 ++ (bytes.drop 8).take 2 ++ bytes.drop 10)) := by
          simp only [hexText, List.flatMap_append]
      _ = some bytes := by rw [hpieces, hexBytes_hexText]
  all_goals simp [utf8Len_hyphenated, canonicalLen, hlen]

/-- **The canonical rendering reads back** as the identifier it was written from. -/
theorem TransferId.parse_display (t : TransferId) : TransferId.parse t.display = .ok t := by
  obtain ⟨bytes, hlen, hver, hvar⟩ := t
  have hparse : parseCanonical (TransferId.display ⟨bytes, hlen, hver, hvar⟩) = some bytes :=
    parseCanonical_hexText hlen
  rw [TransferId.parse, hparse]
  simp only [hlen, hver, hvar, dif_pos]

/-! ### Item identifiers -/

/-- The most bytes an item identifier may occupy. -/
def itemIdMaxLen : ℕ := 64

/-- Why a text is not an item identifier. -/
inductive ItemIdError
  | wrongLength (len : ℕ)
  | invalidCharacter (c : Char)
  | reservedName (name : Text)
  deriving DecidableEq, Repr

/-- The Windows device names, in the lower case the alphabet forces. -/
def reservedNames : List Text :=
  ["con".toList, "prn".toList, "aux".toList, "nul".toList, "com1".toList, "com2".toList,
    "com3".toList, "com4".toList, "com5".toList, "com6".toList, "com7".toList,
    "com8".toList, "com9".toList, "lpt1".toList, "lpt2".toList, "lpt3".toList,
    "lpt4".toList, "lpt5".toList, "lpt6".toList, "lpt7".toList, "lpt8".toList,
    "lpt9".toList]

/-- Lowercase ASCII letters, digits, `-` and `_`. -/
def isPermittedChar (c : Char) : Bool :=
  c.isLower ∨ c.isDigit ∨ c = '-' ∨ c = '_'

/-- The rules an item identifier has to pass, in the order they are tried. -/
def itemIdRefusal (s : Text) : Option ItemIdError :=
  if s = [] ∨ utf8Len s > itemIdMaxLen then some (.wrongLength (utf8Len s))
  else
    match s.find? fun c => !isPermittedChar c with
    | some c => some (.invalidCharacter c)
    | none => if s ∈ reservedNames then some (.reservedName s) else none

/-- A sender-chosen identifier, unique within a Transfer. -/
structure ItemId where
  value : Text
  accepted : itemIdRefusal value = none
  deriving DecidableEq

/-- The identifier `a`. -/
def ItemId.sample : ItemId := ⟨"a".toList, by decide⟩

/-- Validate a text against the alphabet and the length rule. -/
def ItemId.new (s : Text) : Except ItemIdError ItemId :=
  match h : itemIdRefusal s with
  | none => .ok ⟨s, h⟩
  | some e => .error e

/-! ### Chunks -/

/-- The root of a content's hash tree. -/
structure ContentHash where
  bytes : List UInt8
  length_bytes : bytes.length = 32
  deriving DecidableEq, Repr

/-- Thirty-two zeros have the length of a hash. -/
theorem length_zeroes : (List.replicate 32 (0 : UInt8)).length = 32 := List.length_replicate

/-- The hash that stands for none. -/
def ContentHash.zeroes : ContentHash :=
  ⟨List.replicate 32 0, length_zeroes⟩

/-- The size of a reference chunk. -/
def referenceChunkSizeBytes : ℕ := 1024 * 1024

/-- A reference chunk has bytes. -/
theorem referenceChunkSizeBytes_pos : 0 < referenceChunkSizeBytes := by
  decide

/-- Why a chunk header is refused where the untrusted bytes are read. -/
inductive ChunkDataError
  | offsetOutsideReferenceChunk
  | emptyPayload
  | chunkIndexOverflow
  deriving DecidableEq, Repr

/-- The header preceding a bao slice on a data stream. -/
structure ChunkDataHeader where
  transferId : TransferId
  itemId : ItemId
  chunkIndex : UInt64
  payloadLen : UInt32
  last : Bool
  offsetInChunk : UInt32
  offset_inside : offsetInChunk.toNat < referenceChunkSizeBytes
  payload_nonempty : payloadLen ≠ 0
  index_fits : chunkIndex.toNat * referenceChunkSizeBytes < UInt64.size

/-- A header whose three bounds hold. -/
def ChunkDataHeader.new (transferId : TransferId) (itemId : ItemId) (chunkIndex : UInt64)
    (payloadLen : UInt32) (last : Bool) (offsetInChunk : UInt32) :
    Except ChunkDataError ChunkDataHeader :=
  if ho : offsetInChunk.toNat < referenceChunkSizeBytes then
    if hp : payloadLen ≠ 0 then
      if hi : chunkIndex.toNat * referenceChunkSizeBytes < UInt64.size then
        .ok ⟨transferId, itemId, chunkIndex, payloadLen, last, offsetInChunk, ho, hp, hi⟩
      else .error .chunkIndexOverflow
    else .error .emptyPayload
  else .error .offsetOutsideReferenceChunk

/-- Where a piece belongs in the item. -/
def ChunkDataHeader.offset (header : ChunkDataHeader) : ℕ :=
  header.chunkIndex.toNat * referenceChunkSizeBytes + header.offsetInChunk.toNat

/-- The absolute offset of a piece fits in 64 bits, so that computing it cannot wrap. -/
theorem ChunkDataHeader.offset_lt (header : ChunkDataHeader) :
    header.offset < UInt64.size := by
  have hsize : UInt64.size = 2 ^ 44 * referenceChunkSizeBytes := rfl
  have hi : header.chunkIndex.toNat + 1 ≤ 2 ^ 44 :=
    Nat.lt_of_mul_lt_mul_right (hsize ▸ header.index_fits)
  calc header.offset
      < header.chunkIndex.toNat * referenceChunkSizeBytes + referenceChunkSizeBytes :=
        Nat.add_lt_add_left header.offset_inside _
    _ = (header.chunkIndex.toNat + 1) * referenceChunkSizeBytes := (Nat.succ_mul _ _).symm
    _ ≤ 2 ^ 44 * referenceChunkSizeBytes := Nat.mul_le_mul_right _ hi
    _ = UInt64.size := hsize.symm

/-! ### Messages -/

/-- A pull-based request for a batch of sequential chunks of an Item. -/
structure ChunkRequest where
  transferId : TransferId
  itemId : ItemId
  fromChunk : ℕ
  count : ℕ

/-- A request for single chunks that did not verify. -/
structure ChunkRerequest where
  transferId : TransferId
  itemId : ItemId
  chunks : List UInt64
  deriving DecidableEq

/-- The signal that all chunks of an Item were received and processed. -/
structure ItemComplete where
  transferId : TransferId
  itemId : ItemId
  verified : Bool
  finalPath : Option RelPath

/-- A chunk request as protobuf carries it. -/
structure WireChunkRequest where
  transferId : Text
  itemId : Text
  fromChunk : ℕ
  count : ℕ
  deriving DecidableEq, Repr

/-- A request for single chunks as protobuf carries it. -/
structure WireChunkRerequest where
  transferId : Text
  itemId : Text
  chunks : List UInt64
  deriving DecidableEq, Repr

/-- A chunk header as protobuf carries it. -/
structure WireChunkData where
  transferId : Text
  itemId : Text
  chunkIndex : UInt64
  payloadLen : UInt32
  last : Bool
  offsetInChunk : UInt32
  deriving DecidableEq, Repr

/-- A completion signal as protobuf carries it. -/
structure WireItemComplete where
  transferId : Text
  itemId : Text
  verified : Bool
  finalPath : Text
  deriving DecidableEq, Repr

/-- The protobuf encoders and decoders of the messages used here. -/
structure TransferCodec where
  encodeChunkRequest : WireChunkRequest → List UInt8
  decodeChunkData : List UInt8 → Option WireChunkData
  encodeItemComplete : WireItemComplete → List UInt8

/-- The protobuf encoders and decoders of both sides of a transfer. -/
structure SendCodec extends TransferCodec where
  decodeChunkRequest : List UInt8 → Option WireChunkRequest
  decodeChunkRerequest : List UInt8 → Option WireChunkRerequest
  encodeChunkData : WireChunkData → List UInt8
  decodeItemComplete : List UInt8 → Option WireItemComplete

/-- Why the fields of a decoded message are refused. -/
inductive TransferWireError
  | invalidTransferId (e : TransferIdError)
  | invalidItemId (e : ItemIdError)
  | invalidPath (e : RelPathError)
  | zeroCount
  | emptyChunks
  | invalidChunkData (e : ChunkDataError)
  deriving DecidableEq, Repr

/-- Why a framed transfer message could not be encoded or decoded. -/
inductive TransferFrameError
  | wrongMessageType (expected got : UInt8)
  | framing (e : FrameError)
  | decode
  | wire (e : TransferWireError)
  deriving DecidableEq, Repr

/-- A chunk request on its way to protobuf. -/
def chunkRequestToWire (req : ChunkRequest) : WireChunkRequest :=
  ⟨req.transferId.display, req.itemId.value, req.fromChunk, req.count⟩

/-- A completion signal on its way to protobuf; no final path is the empty text. -/
def itemCompleteToWire (item : ItemComplete) : WireItemComplete :=
  ⟨item.transferId.display, item.itemId.value, item.verified,
    (item.finalPath.map RelPath.value).getD []⟩

/-- Validate a decoded chunk header through its checked constructor. -/
def chunkDataHeaderFromWire (message : WireChunkData) :
    Except TransferWireError ChunkDataHeader := do
  let transferId ← (TransferId.parse message.transferId).mapError .invalidTransferId
  let itemId ← (ItemId.new message.itemId).mapError .invalidItemId
  (ChunkDataHeader.new transferId itemId message.chunkIndex message.payloadLen message.last
    message.offsetInChunk).mapError .invalidChunkData

/-- Validate a chunk request. -/
def chunkRequestFromWire (message : WireChunkRequest) : Except TransferWireError ChunkRequest := do
  let transferId ← (TransferId.parse message.transferId).mapError .invalidTransferId
  let itemId ← (ItemId.new message.itemId).mapError .invalidItemId
  require (message.count ≠ 0) .zeroCount
  return ⟨transferId, itemId, message.fromChunk, message.count⟩

/-- A request for single chunks on its way to protobuf. -/
def chunkRerequestToWire (req : ChunkRerequest) : WireChunkRerequest :=
  ⟨req.transferId.display, req.itemId.value, req.chunks⟩

/-- Validate a request for single chunks. -/
def chunkRerequestFromWire (message : WireChunkRerequest) :
    Except TransferWireError ChunkRerequest := do
  let transferId ← (TransferId.parse message.transferId).mapError .invalidTransferId
  let itemId ← (ItemId.new message.itemId).mapError .invalidItemId
  require (message.chunks ≠ []) .emptyChunks
  return ⟨transferId, itemId, message.chunks⟩

/-- A chunk header on its way to protobuf. -/
def chunkDataHeaderToWire (header : ChunkDataHeader) : WireChunkData :=
  ⟨header.transferId.display, header.itemId.value, header.chunkIndex, header.payloadLen,
    header.last, header.offsetInChunk⟩

/-- The final path of a completion signal; the empty text is none. -/
def finalPathOfWire (s : Text) : Except TransferWireError (Option RelPath) :=
  if s = [] then .ok none else ((RelPath.new s).mapError .invalidPath).map some

/-- Validate a completion signal. -/
def itemCompleteFromWire (message : WireItemComplete) :
    Except TransferWireError ItemComplete := do
  let transferId ← (TransferId.parse message.transferId).mapError .invalidTransferId
  let itemId ← (ItemId.new message.itemId).mapError .invalidItemId
  let finalPath ← finalPathOfWire message.finalPath
  return ⟨transferId, itemId, message.verified, finalPath⟩

/-- Frame a chunk request. -/
def encodeChunkRequestFrame (codec : TransferCodec) (req : ChunkRequest)
    (maxFrameSize : UInt32) : Except TransferFrameError (List UInt8) :=
  (encodeFrame MessageType.chunkRequest.code
    (codec.encodeChunkRequest (chunkRequestToWire req)) maxFrameSize).mapError .framing

/-- Frame a completion signal. -/
def encodeItemCompleteFrame (codec : TransferCodec) (item : ItemComplete)
    (maxFrameSize : UInt32) : Except TransferFrameError (List UInt8) :=
  (encodeFrame MessageType.itemComplete.code
    (codec.encodeItemComplete (itemCompleteToWire item)) maxFrameSize).mapError .framing

/-- Decode a framed chunk header. -/
def decodeChunkDataHeaderFrame (codec : TransferCodec) (frame : Frame) :
    Except TransferFrameError ChunkDataHeader :=
  if frame.typeCode ≠ MessageType.chunkData.code then
    .error (.wrongMessageType MessageType.chunkData.code frame.typeCode)
  else
    match codec.decodeChunkData frame.payload with
    | none => .error .decode
    | some wire => (chunkDataHeaderFromWire wire).mapError .wire

/-- Decode a frame of one message: its type byte, protobuf, and its fields. -/
def decodeTransferFrame {W M : Type} (message : MessageType) (decode : List UInt8 → Option W)
    (fromWire : W → Except TransferWireError M) (frame : Frame) : Except TransferFrameError M :=
  if frame.typeCode ≠ message.code then
    .error (.wrongMessageType message.code frame.typeCode)
  else
    match decode frame.payload with
    | none => .error .decode
    | some wire => (fromWire wire).mapError .wire

/-- Decode a framed chunk request. -/
def decodeChunkRequestFrame (codec : SendCodec) :
    Frame → Except TransferFrameError ChunkRequest :=
  decodeTransferFrame .chunkRequest codec.decodeChunkRequest chunkRequestFromWire

/-- Decode a framed request for single chunks. -/
def decodeChunkRerequestFrame (codec : SendCodec) :
    Frame → Except TransferFrameError ChunkRerequest :=
  decodeTransferFrame .chunkRerequest codec.decodeChunkRerequest chunkRerequestFromWire

/-- Frame a chunk header. -/
def encodeChunkDataHeaderFrame (codec : SendCodec) (header : ChunkDataHeader) (maxFrameSize : UInt32) :
    Except TransferFrameError (List UInt8) :=
  (encodeFrame MessageType.chunkData.code (codec.encodeChunkData (chunkDataHeaderToWire header))
    maxFrameSize).mapError .framing

/-- Decode a framed completion signal. -/
def decodeItemCompleteFrame (codec : SendCodec) :
    Frame → Except TransferFrameError ItemComplete :=
  decodeTransferFrame .itemComplete codec.decodeItemComplete itemCompleteFromWire

end Tradr
