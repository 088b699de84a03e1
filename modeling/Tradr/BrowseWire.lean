import Tradr.DataPlane
import Tradr.Vfs

/-!
# Browse Messages on the Wire

The requests and responses of the Browse plane, their validation when they arrive from
protobuf, and the codec that frames them. Protobuf itself is third-party code: a
`BrowseProto` holds its encoders and decoders, one pair for each message.

The codec looks for one complete frame at the front of a buffer. It is the frame parser
of `Framing` followed by the decoding of the payload (`decodeFrame_eq`), so that what it
answers is settled by the bytes it counts.

## Main results

* `ProtoBrowseCodec.delimitFrame_eq`, `ProtoBrowseCodec.decodeFrame_eq`: the codec delimits
  frames as the frame parser does, and decodes what it delimited.
* `ProtoBrowseCodec.decodeFrame_append`: an answer stands whatever bytes follow.
* `ProtoBrowseCodec.length_le_of_decodeFrame`: an unanswered buffer is at most three bytes
  longer than the maximum frame size.
-/

namespace Tradr

/-! ### Messages -/

/-- Why a text is not a share identifier. -/
inductive ShareIdError
  | invalidFormat
  | wrongVersion (version : UInt8)
  | wrongVariant
  deriving DecidableEq, Repr

/-- A Share's identifier: the sixteen bytes of a UUIDv7. -/
structure ShareId where
  bytes : List UInt8
  length_bytes : bytes.length = 16
  version : bytes.getD 6 0 >>> 4 = 7
  variant : bytes.getD 8 0 &&& 0xc0 = 0x80

/-- A share identifier is its bytes. -/
theorem ShareId.bytes_inj (a b : ShareId) : a.bytes = b.bytes ↔ a = b := by
  cases a
  cases b
  simp

instance : DecidableEq ShareId := fun a b => decidable_of_iff _ (ShareId.bytes_inj a b)

/-- Parse the canonical form of a share identifier. -/
def ShareId.parse (s : Text) : Except ShareIdError ShareId :=
  match parseCanonical s with
  | none => .error .invalidFormat
  | some bytes =>
    if hlen : bytes.length = 16 then
      if hver : bytes.getD 6 0 >>> 4 = 7 then
        if hvar : bytes.getD 8 0 &&& 0xc0 = 0x80 then .ok ⟨bytes, hlen, hver, hvar⟩
        else .error .wrongVariant
      else .error (.wrongVersion (bytes.getD 6 0 >>> 4))
    else .error .invalidFormat

/-- The identifier of a transfer, of a share. -/
def ShareId.sample : ShareId :=
  ⟨TransferId.sample.bytes, TransferId.sample.length_bytes, TransferId.sample.version,
    TransferId.sample.variant⟩

/-- The canonical rendering: hyphenated lowercase hexadecimal. -/
def ShareId.display (t : ShareId) : Text :=
  hexText (t.bytes.take 4) ++ '-' :: hexText ((t.bytes.drop 4).take 2) ++
    '-' :: hexText ((t.bytes.drop 6).take 2) ++ '-' :: hexText ((t.bytes.drop 8).take 2) ++
    '-' :: hexText (t.bytes.drop 10)

/-- Request to list a directory. -/
structure ListDir where
  shareId : ShareId
  path : RelPath
  cursor : Text
  limit : UInt32
  withHash : Bool
  deriving DecidableEq

/-- Response containing a directory listing page. -/
structure DirListing where
  entries : List DirEntry
  nextCursor : Text
  totalEstimate : ℕ
  deriving DecidableEq

/-- Request to stat a file. -/
structure Stat where
  shareId : ShareId
  path : RelPath
  deriving DecidableEq

/-- Response containing stat results. -/
structure StatResult where
  entry : DirEntry
  deriving DecidableEq

/-- Request to read a file over the stream. -/
structure ReadFile where
  shareId : ShareId
  path : RelPath
  offset : UInt64
  length : UInt64
  deriving DecidableEq

/-- Initial response to a `ReadFile`. -/
structure ReadFileBegin where
  totalSize : ℕ
  contentHash : ContentHash
  chunkSize : UInt32
  deriving DecidableEq

/-- Mode for `WriteFile`. -/
inductive WriteMode
  | createNew
  | overwrite
  | renameIfExists
  deriving DecidableEq, Repr

/-- Request to write a file whose bytes follow on the stream. -/
structure WriteFile where
  shareId : ShareId
  path : RelPath
  size : UInt64
  contentHash : ContentHash
  mode : WriteMode
  deriving DecidableEq

/-- Request to create a directory. -/
structure Mkdir where
  shareId : ShareId
  path : RelPath
  parents : Bool
  deriving DecidableEq

/-- Request to delete a file or directory. -/
structure Delete where
  shareId : ShareId
  path : RelPath
  recursive : Bool
  deriving DecidableEq

/-- Request to rename a file or directory. -/
structure Rename where
  shareId : ShareId
  source : RelPath
  target : RelPath
  deriving DecidableEq

/-- Acknowledgement of a modifying operation. -/
structure Ack where
  requestId : Text
  deriving DecidableEq

/-- Why a browse operation was refused. -/
inductive RefusalReason
  | noAccess
  | notFound
  | alreadyExists
  | wrongKind
  | notAllowed
  | failed
  deriving DecidableEq, Repr

/-- Refusal response sent when a browse request cannot be served. -/
structure Refused where
  requestId : Text
  reason : RefusalReason
  deriving DecidableEq

/-- Any request or response in the Browse plane. -/
inductive BrowseMessage
  | listDir (req : ListDir)
  | dirListing (resp : DirListing)
  | stat (req : Stat)
  | statResult (resp : StatResult)
  | readFile (req : ReadFile)
  | readFileBegin (resp : ReadFileBegin)
  | writeFile (req : WriteFile)
  | mkdir (req : Mkdir)
  | delete (req : Delete)
  | rename (req : Rename)
  | ack (resp : Ack)
  | refused (resp : Refused)
  | watch
  | fsEvent
  deriving DecidableEq

/-- Why a framed Browse message could not be encoded or decoded, short of its fields. -/
inductive CodecFault
  | wrongMessageType (expected got : UInt8)
  | framing (e : FrameError)
  | decode
  deriving DecidableEq, Repr

/-- Why a Browse message is refused. -/
inductive BrowseDomainError
  | invalidShareId (e : ShareIdError)
  | invalidRelPath (e : RelPathError)
  | invalidContentHash (len : ℕ)
  | invalidWriteMode
  | codecError (fault : CodecFault)
  | unsupportedMessage
  deriving DecidableEq, Repr

/-! ### Messages as protobuf carries them -/

structure WireListDir where
  shareId : Text
  path : Text
  cursor : Text
  limit : UInt32
  withHash : Bool

structure WireFileEntry where
  relativePath : Text
  kind : ℤ
  size : ℕ
  mtime : ℤ
  mode : UInt32
  contentHash : List UInt8
  mime : Text

structure WireDirListing where
  entries : List WireFileEntry
  nextCursor : Text
  totalEstimate : ℕ

structure WireStat where
  shareId : Text
  path : Text

structure WireStatResult where
  entry : Option WireFileEntry

structure WireReadFile where
  shareId : Text
  path : Text
  offset : UInt64
  length : UInt64

structure WireReadFileBegin where
  totalSize : ℕ
  contentHash : List UInt8
  chunkSize : UInt32

structure WireWriteFile where
  shareId : Text
  path : Text
  size : UInt64
  contentHash : List UInt8
  mode : ℤ

structure WireMkdir where
  shareId : Text
  path : Text
  parents : Bool

structure WireDelete where
  shareId : Text
  path : Text
  recursive : Bool

structure WireRename where
  shareId : Text
  source : Text
  target : Text

structure WireAck where
  requestId : Text

structure WireRefused where
  requestId : Text
  reason : ℤ

/-- The protobuf encoder and decoder of one message. -/
structure ProtoMessage (α : Type) where
  encode : α → List UInt8
  decode : List UInt8 → Option α

/-- The protobuf encoders and decoders of the Browse plane. -/
structure BrowseProto where
  listDir : ProtoMessage WireListDir
  dirListing : ProtoMessage WireDirListing
  stat : ProtoMessage WireStat
  statResult : ProtoMessage WireStatResult
  readFile : ProtoMessage WireReadFile
  readFileBegin : ProtoMessage WireReadFileBegin
  writeFile : ProtoMessage WireWriteFile
  mkdir : ProtoMessage WireMkdir
  delete : ProtoMessage WireDelete
  rename : ProtoMessage WireRename
  ack : ProtoMessage WireAck
  refused : ProtoMessage WireRefused

/-- Validate a share identifier from the wire. -/
def shareIdFromWire (s : Text) : Except BrowseDomainError ShareId :=
  (ShareId.parse s).mapError .invalidShareId

/-- Validate a path from the wire. -/
def pathFromWire (s : Text) : Except BrowseDomainError RelPath :=
  (RelPath.new s).mapError .invalidRelPath

/-- A content hash from the wire; none at all reads as zeroes. -/
def contentHashFromWire (bytes : List UInt8) : Except BrowseDomainError ContentHash :=
  if bytes = [] then .ok .zeroes
  else if h : bytes.length = 32 then .ok ⟨bytes, h⟩
  else .error (.invalidContentHash bytes.length)

/-- Only a listing may name the root, by the empty text. -/
def listDirFromWire (msg : WireListDir) : Except BrowseDomainError ListDir := do
  let path ← if msg.path = [] then .ok RelPath.root else pathFromWire msg.path
  let shareId ← shareIdFromWire msg.shareId
  return ⟨shareId, path, msg.cursor, msg.limit, msg.withHash⟩

def listDirToWire (msg : ListDir) : WireListDir :=
  ⟨msg.shareId.display, msg.path.value, msg.cursor, msg.limit, msg.withHash⟩

/-- A kind that is neither a file nor a directory reads as a file. -/
def fileEntryFromWire (msg : WireFileEntry) : DirEntry :=
  ⟨msg.relativePath, if msg.kind = 2 then .directory else .file, msg.size, msg.mtime⟩

def fileEntryToWire (entry : DirEntry) : WireFileEntry where
  relativePath := entry.name
  kind :=
    match entry.kind with
    | .file => 1
    | .directory => 2
  size := entry.sizeBytes
  mtime := entry.modified
  mode := 0
  contentHash := []
  mime := []

def dirListingFromWire (msg : WireDirListing) : Except BrowseDomainError DirListing :=
  .ok ⟨msg.entries.map fileEntryFromWire, msg.nextCursor, msg.totalEstimate⟩

def dirListingToWire (msg : DirListing) : WireDirListing :=
  ⟨msg.entries.map fileEntryToWire, msg.nextCursor, msg.totalEstimate⟩

def statFromWire (msg : WireStat) : Except BrowseDomainError Stat := do
  let shareId ← shareIdFromWire msg.shareId
  let path ← pathFromWire msg.path
  return ⟨shareId, path⟩

def statToWire (msg : Stat) : WireStat :=
  ⟨msg.shareId.display, msg.path.value⟩

/-- An absent entry reads as an empty file without a name. -/
def statResultFromWire (msg : WireStatResult) : Except BrowseDomainError StatResult :=
  .ok ⟨(msg.entry.map fileEntryFromWire).getD ⟨[], .file, 0, 0⟩⟩

def statResultToWire (msg : StatResult) : WireStatResult :=
  ⟨some (fileEntryToWire msg.entry)⟩

def readFileFromWire (msg : WireReadFile) : Except BrowseDomainError ReadFile := do
  let shareId ← shareIdFromWire msg.shareId
  let path ← pathFromWire msg.path
  return ⟨shareId, path, msg.offset, msg.length⟩

def readFileToWire (msg : ReadFile) : WireReadFile :=
  ⟨msg.shareId.display, msg.path.value, msg.offset, msg.length⟩

def readFileBeginFromWire (msg : WireReadFileBegin) :
    Except BrowseDomainError ReadFileBegin := do
  let contentHash ← contentHashFromWire msg.contentHash
  return ⟨msg.totalSize, contentHash, msg.chunkSize⟩

def readFileBeginToWire (msg : ReadFileBegin) : WireReadFileBegin :=
  ⟨msg.totalSize, msg.contentHash.bytes, msg.chunkSize⟩

def writeModeFromWire (mode : ℤ) : Except BrowseDomainError WriteMode :=
  if mode = 1 then .ok .createNew
  else if mode = 2 then .ok .overwrite
  else if mode = 3 then .ok .renameIfExists
  else .error .invalidWriteMode

def writeModeToWire : WriteMode → ℤ
  | .createNew => 1
  | .overwrite => 2
  | .renameIfExists => 3

def writeFileFromWire (msg : WireWriteFile) : Except BrowseDomainError WriteFile := do
  let mode ← writeModeFromWire msg.mode
  let contentHash ← contentHashFromWire msg.contentHash
  let shareId ← shareIdFromWire msg.shareId
  let path ← pathFromWire msg.path
  return ⟨shareId, path, msg.size, contentHash, mode⟩

def writeFileToWire (msg : WriteFile) : WireWriteFile :=
  ⟨msg.shareId.display, msg.path.value, msg.size, msg.contentHash.bytes,
    writeModeToWire msg.mode⟩

def mkdirFromWire (msg : WireMkdir) : Except BrowseDomainError Mkdir := do
  let shareId ← shareIdFromWire msg.shareId
  let path ← pathFromWire msg.path
  return ⟨shareId, path, msg.parents⟩

def mkdirToWire (msg : Mkdir) : WireMkdir :=
  ⟨msg.shareId.display, msg.path.value, msg.parents⟩

def deleteFromWire (msg : WireDelete) : Except BrowseDomainError Delete := do
  let shareId ← shareIdFromWire msg.shareId
  let path ← pathFromWire msg.path
  return ⟨shareId, path, msg.recursive⟩

def deleteToWire (msg : Delete) : WireDelete :=
  ⟨msg.shareId.display, msg.path.value, msg.recursive⟩

def renameFromWire (msg : WireRename) : Except BrowseDomainError Rename := do
  let shareId ← shareIdFromWire msg.shareId
  let source ← pathFromWire msg.source
  let target ← pathFromWire msg.target
  return ⟨shareId, source, target⟩

def renameToWire (msg : Rename) : WireRename :=
  ⟨msg.shareId.display, msg.source.value, msg.target.value⟩

def ackFromWire (msg : WireAck) : Except BrowseDomainError Ack :=
  .ok ⟨msg.requestId⟩

def ackToWire (msg : Ack) : WireAck :=
  ⟨msg.requestId⟩

/-- A reason that is not known reads as a failure. -/
def refusalReasonFromWire (reason : ℤ) : RefusalReason :=
  if reason = 1 then .noAccess
  else if reason = 2 then .notFound
  else if reason = 3 then .alreadyExists
  else if reason = 4 then .wrongKind
  else if reason = 5 then .notAllowed
  else .failed

def refusalReasonToWire : RefusalReason → ℤ
  | .noAccess => 1
  | .notFound => 2
  | .alreadyExists => 3
  | .wrongKind => 4
  | .notAllowed => 5
  | .failed => 6

def refusedFromWire (msg : WireRefused) : Except BrowseDomainError Refused :=
  .ok ⟨msg.requestId, refusalReasonFromWire msg.reason⟩

def refusedToWire (msg : Refused) : WireRefused :=
  ⟨msg.requestId, refusalReasonToWire msg.reason⟩

/-! ### Framed messages -/

/-- Decode a frame that must carry the message type `expected`. -/
def decodeTypedFrame {α β : Type} (expected : MessageType) (proto : ProtoMessage α)
    (fromWire : α → Except BrowseDomainError β) (frame : Frame) :
    Except BrowseDomainError β :=
  if frame.typeCode ≠ expected.code then
    .error (.codecError (.wrongMessageType expected.code frame.typeCode))
  else
    match proto.decode frame.payload with
    | none => .error (.codecError .decode)
    | some wire => fromWire wire

/-- Frame a message under its type. -/
def encodeTypedFrame {α β : Type} (type : MessageType) (proto : ProtoMessage α)
    (toWire : β → α) (msg : β) (maxSize : UInt32) : Except BrowseDomainError (List UInt8) :=
  (encodeFrame type.code (proto.encode (toWire msg)) maxSize).mapError
    fun e => .codecError (.framing e)

/-- The codec of the Browse plane, built for a maximum frame size. -/
structure ProtoBrowseCodec where
  proto : BrowseProto
  maxFrameSize : UInt32

namespace ProtoBrowseCodec

variable (codec : ProtoBrowseCodec)

/-- Decode a frame by its type byte. -/
def decodeMessage (frame : Frame) : Except BrowseDomainError BrowseMessage :=
  if frame.typeCode = 0x40 then
    .listDir <$> decodeTypedFrame .listDir codec.proto.listDir listDirFromWire frame
  else if frame.typeCode = 0x41 then
    .dirListing <$> decodeTypedFrame .dirListing codec.proto.dirListing dirListingFromWire frame
  else if frame.typeCode = 0x42 then
    .stat <$> decodeTypedFrame .stat codec.proto.stat statFromWire frame
  else if frame.typeCode = 0x43 then
    .statResult <$> decodeTypedFrame .statResult codec.proto.statResult statResultFromWire frame
  else if frame.typeCode = 0x44 then
    .readFile <$> decodeTypedFrame .readFile codec.proto.readFile readFileFromWire frame
  else if frame.typeCode = 0x45 then
    .readFileBegin <$>
      decodeTypedFrame .readFileBegin codec.proto.readFileBegin readFileBeginFromWire frame
  else if frame.typeCode = 0x46 then
    .writeFile <$> decodeTypedFrame .writeFile codec.proto.writeFile writeFileFromWire frame
  else if frame.typeCode = 0x47 then
    .mkdir <$> decodeTypedFrame .mkdir codec.proto.mkdir mkdirFromWire frame
  else if frame.typeCode = 0x48 then
    .delete <$> decodeTypedFrame .delete codec.proto.delete deleteFromWire frame
  else if frame.typeCode = 0x49 then
    .rename <$> decodeTypedFrame .rename codec.proto.rename renameFromWire frame
  else if frame.typeCode = 0x4a then
    .ack <$> decodeTypedFrame .ack codec.proto.ack ackFromWire frame
  else if frame.typeCode = 0x4d then
    .refused <$> decodeTypedFrame .refused codec.proto.refused refusedFromWire frame
  else .error .unsupportedMessage

/-- Extract the next complete frame from the front of `buf` and decode it: the message and
how many bytes it took, or nothing if more bytes are needed. -/
def decodeFrame (buf : List UInt8) : Except BrowseDomainError (Option (BrowseMessage × ℕ)) :=
  if buf.length < 4 then .ok none
  else
    let announced := BigEndian.ofBE (buf.take 4)
    if announced = 0 then .error (.codecError (.framing .empty))
    else if announced > codec.maxFrameSize.toNat then
      .error (.codecError (.framing (.oversized announced codec.maxFrameSize)))
    else
      let totalLen := 4 + announced
      if buf.length < totalLen then .ok none
      else
        match (((FrameDecoder.new codec.maxFrameSize).feed (buf.take totalLen)).nextFrame).1 with
        | .error e => .error (.codecError (.framing e))
        | .ok none => .ok none
        | .ok (some frame) => (codec.decodeMessage frame).map fun msg => some (msg, totalLen)

/-- Encode a message into a frame the peer's `maxFrameSize` admits. -/
def encodeFrame (msg : BrowseMessage) (maxFrameSize : UInt32) :
    Except BrowseDomainError (List UInt8) :=
  match msg with
  | .listDir m => encodeTypedFrame .listDir codec.proto.listDir listDirToWire m maxFrameSize
  | .dirListing m =>
    encodeTypedFrame .dirListing codec.proto.dirListing dirListingToWire m maxFrameSize
  | .stat m => encodeTypedFrame .stat codec.proto.stat statToWire m maxFrameSize
  | .statResult m =>
    encodeTypedFrame .statResult codec.proto.statResult statResultToWire m maxFrameSize
  | .readFile m => encodeTypedFrame .readFile codec.proto.readFile readFileToWire m maxFrameSize
  | .readFileBegin m =>
    encodeTypedFrame .readFileBegin codec.proto.readFileBegin readFileBeginToWire m maxFrameSize
  | .writeFile m =>
    encodeTypedFrame .writeFile codec.proto.writeFile writeFileToWire m maxFrameSize
  | .mkdir m => encodeTypedFrame .mkdir codec.proto.mkdir mkdirToWire m maxFrameSize
  | .delete m => encodeTypedFrame .delete codec.proto.delete deleteToWire m maxFrameSize
  | .rename m => encodeTypedFrame .rename codec.proto.rename renameToWire m maxFrameSize
  | .ack m => encodeTypedFrame .ack codec.proto.ack ackToWire m maxFrameSize
  | .refused m => encodeTypedFrame .refused codec.proto.refused refusedToWire m maxFrameSize
  | .watch | .fsEvent => .error .unsupportedMessage

/-! ### Delimiting -/

/-- A decoder fed exactly one admissible frame yields it. -/
theorem nextFrame_whole {limit : UInt32} {buf : List UInt8}
    (hpos : BigEndian.ofBE (buf.take 4) ≠ 0)
    (hlim : BigEndian.ofBE (buf.take 4) ≤ limit.toNat)
    (hlen : 4 + BigEndian.ofBE (buf.take 4) ≤ buf.length) :
    (((FrameDecoder.new limit).feed
        (buf.take (4 + BigEndian.ofBE (buf.take 4)))).nextFrame).1 =
      .ok (some ⟨buf.getD 4 0, (buf.drop 5).take (BigEndian.ofBE (buf.take 4) - 1)⟩) := by
  generalize hn : BigEndian.ofBE (buf.take 4) = n at hpos hlim hlen ⊢
  have htake : (buf.take (4 + n)).take 4 = buf.take 4 := by
    rw [List.take_take, Nat.min_eq_left (by omega)]
  have hlength : (buf.take (4 + n)).length = 4 + n := by
    rw [List.length_take]
    omega
  have hget : (buf.take (4 + n)).getD 4 0 = buf.getD 4 0 := by
    simp only [List.getD_eq_getElem?_getD]
    rw [List.getElem?_take_of_lt (by omega)]
  have hdrop : ((buf.take (4 + n)).drop 5).take (4 + n - 5) = (buf.drop 5).take (n - 1) := by
    rw [List.drop_take, List.take_take]
    congr 1
    omega
  simp only [FrameDecoder.nextFrame, FrameDecoder.feed, FrameDecoder.new, List.nil_append,
    lenPrefixLen, frameHeaderLen, Nat.add_one_sub_one, htake, hlength, hn]
  rw [if_neg (by omega), if_neg hpos, if_neg (by omega), if_neg (by omega)]
  simp only [hget, hdrop]

/-- The delimiting of the frame at the front of a buffer: the frame and how many bytes it
takes. -/
def delimitFrame (buf : List UInt8) : Except FrameError (Option (Frame × ℕ)) :=
  if buf.length < 4 then .ok none
  else
    let announced := BigEndian.ofBE (buf.take 4)
    if announced = 0 then .error .empty
    else if announced > codec.maxFrameSize.toNat then
      .error (.oversized announced codec.maxFrameSize)
    else
      let totalLen := 4 + announced
      if buf.length < totalLen then .ok none
      else
        match (((FrameDecoder.new codec.maxFrameSize).feed (buf.take totalLen)).nextFrame).1 with
        | .error e => .error e
        | .ok none => .ok none
        | .ok (some frame) => .ok (some (frame, totalLen))

/-- The codec decodes what it delimited. -/
theorem decodeFrame_eq_delimitFrame (buf : List UInt8) :
    codec.decodeFrame buf =
      match codec.delimitFrame buf with
      | .error e => .error (.codecError (.framing e))
      | .ok none => .ok none
      | .ok (some (frame, n)) => (codec.decodeMessage frame).map fun msg => some (msg, n) := by
  unfold decodeFrame delimitFrame
  dsimp only
  split_ifs
  · rfl
  · rfl
  · rfl
  · rfl
  · rcases (((FrameDecoder.new codec.maxFrameSize).feed
      (buf.take (4 + BigEndian.ofBE (buf.take 4)))).nextFrame).1 with e | _ | frame
    · rfl
    · rfl
    · rfl

/-- The codec delimits frames as the frame parser does. -/
theorem delimitFrame_eq (buf : List UInt8) :
    codec.delimitFrame buf =
      match frameVerdict codec.maxFrameSize buf with
      | .more => .ok none
      | .fail e => .error e
      | .unit frame n => .ok (some (frame, n)) := by
  have hpre : lenPrefixLen = 4 := rfl
  unfold delimitFrame frameVerdict
  dsimp only
  by_cases h1 : buf.length < 4
  · rw [if_pos h1, if_pos (show buf.length < lenPrefixLen from h1)]
  rw [if_neg h1, if_neg (show ¬ buf.length < lenPrefixLen from h1), hpre]
  by_cases h2 : BigEndian.ofBE (buf.take 4) = 0
  · rw [if_pos h2, if_pos h2]
  rw [if_neg h2, if_neg h2]
  by_cases h3 : BigEndian.ofBE (buf.take 4) > codec.maxFrameSize.toNat
  · rw [if_pos h3, if_pos h3]
  rw [if_neg h3, if_neg h3]
  by_cases h4 : buf.length < 4 + BigEndian.ofBE (buf.take 4)
  · rw [if_pos h4, if_pos h4]
  · have hsub : 4 + BigEndian.ofBE (buf.take 4) - (4 + 1) =
        BigEndian.ofBE (buf.take 4) - 1 := by omega
    rw [if_neg h4, if_neg h4, nextFrame_whole h2 (by omega) (by omega), hsub]

/-- What the codec decodes, by the verdict of the frame parser. -/
theorem decodeFrame_eq (buf : List UInt8) :
    codec.decodeFrame buf =
      match frameVerdict codec.maxFrameSize buf with
      | .more => .ok none
      | .fail e => .error (.codecError (.framing e))
      | .unit frame n => (codec.decodeMessage frame).map fun msg => some (msg, n) := by
  rw [decodeFrame_eq_delimitFrame, delimitFrame_eq]
  rcases frameVerdict codec.maxFrameSize buf with _ | e | ⟨frame, n⟩
  · rfl
  · rfl
  · rfl

/-- An answer stands whatever bytes follow. -/
theorem decodeFrame_append {buf : List UInt8} {msg : BrowseMessage} {n : ℕ}
    (h : codec.decodeFrame buf = .ok (some (msg, n))) (rest : List UInt8) :
    codec.decodeFrame (buf ++ rest) = .ok (some (msg, n)) := by
  rw [decodeFrame_eq] at h ⊢
  split at h
  · exact absurd h (by simp)
  · exact absurd h (by simp)
  · rename_i frame m hv
    rw [show frameVerdict codec.maxFrameSize (buf ++ rest) = .unit frame m from
      (frameParser codec.maxFrameSize).unit_append hv rest]
    exact h

/-- A frame is decoded by itself. -/
theorem decodeFrame_take {buf : List UInt8} {msg : BrowseMessage} {n : ℕ}
    (h : codec.decodeFrame buf = .ok (some (msg, n))) :
    codec.decodeFrame (buf.take n) = .ok (some (msg, n)) := by
  rw [decodeFrame_eq] at h ⊢
  split at h
  · exact absurd h (by simp)
  · exact absurd h (by simp)
  · rename_i frame m hv
    rcases hmsg : codec.decodeMessage frame with e | msg'
    · rw [hmsg] at h
      exact absurd h (by simp [Except.map])
    · rw [hmsg] at h
      simp only [Except.map, Except.ok.injEq, Option.some.injEq, Prod.mk.injEq] at h
      obtain ⟨rfl, rfl⟩ := h
      rw [frameVerdict_take hv]
      dsimp only
      rw [hmsg]
      rfl

/-- A refusal stands whatever bytes follow. -/
theorem decodeFrame_error_append {buf : List UInt8} {e : BrowseDomainError}
    (h : codec.decodeFrame buf = .error e) (rest : List UInt8) :
    codec.decodeFrame (buf ++ rest) = .error e := by
  rw [decodeFrame_eq] at h ⊢
  split at h
  · exact absurd h (by simp)
  · rename_i e' hv
    rw [show frameVerdict codec.maxFrameSize (buf ++ rest) = .fail e' from
      (frameParser codec.maxFrameSize).fail_append hv rest]
    exact h
  · rename_i frame m hv
    rw [show frameVerdict codec.maxFrameSize (buf ++ rest) = .unit frame m from
      (frameParser codec.maxFrameSize).unit_append hv rest]
    exact h

/-- A decoded frame took bytes that were there. -/
theorem decodeFrame_consumed {buf : List UInt8} {msg : BrowseMessage} {n : ℕ}
    (h : codec.decodeFrame buf = .ok (some (msg, n))) : 0 < n ∧ n ≤ buf.length := by
  rw [decodeFrame_eq] at h
  split at h
  · exact absurd h (by simp)
  · exact absurd h (by simp)
  · rename_i frame m hv
    have hnm : n = m := by
      rcases hmsg : codec.decodeMessage frame with e | msg'
      · rw [hmsg] at h
        exact absurd h (by simp [Except.map])
      · rw [hmsg] at h
        simp only [Except.map, Except.ok.injEq, Option.some.injEq, Prod.mk.injEq] at h
        exact h.2.symm
    obtain ⟨h1, h2, -⟩ := frameVerdict_eq_unit hv
    omega

/-- An unanswered buffer is at most three bytes longer than the maximum frame size. -/
theorem length_le_of_decodeFrame {buf : List UInt8} (h : codec.decodeFrame buf = .ok none) :
    buf.length ≤ codec.maxFrameSize.toNat + 3 := by
  rw [decodeFrame_eq] at h
  split at h
  · rename_i hv
    have hpre : lenPrefixLen = 4 := rfl
    unfold frameVerdict at hv
    dsimp only at hv
    split_ifs at hv with h1 h2 h3 h4
    · omega
    · omega
  · exact absurd h (by simp)
  · rename_i frame m hv
    rcases hmsg : codec.decodeMessage frame with e | msg
    · rw [hmsg] at h
      exact absurd h (by simp [Except.map])
    · rw [hmsg] at h
      exact absurd h (by simp [Except.map])

end ProtoBrowseCodec

end Tradr
