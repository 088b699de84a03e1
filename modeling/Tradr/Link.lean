import Tradr.BroadcastKey
import Tradr.Fallible
import Tradr.KeyStore

/-!
# Account Linking

The values two devices exchange to link their accounts: an invite, shown by one device
and read by the other, and the three messages `LinkReply`, `LinkApprove` and
`LinkDecline`. Each side contributes half of the Link Secret; the Link's identifier is
derived from the secret and is what the two sides compare.

Protobuf and BLAKE3 are third-party code: a `LinkProto` holds the encoders and decoders
of the three messages, a `Blake3Kdf` the two hash functions.

## Main results

* `decodeLinkReplyFrame_of_encode`, `decodeLinkApproveFrame_of_encode`: a message that
  was framed is read back from its frame.
-/

namespace Tradr

open Fallible

/-! ### Identifiers and secrets -/

/-- The bytes of a half secret, of a link identifier and of an invite identifier. -/
def linkIdLen : ℕ := 16

/-- The bytes of a link secret. -/
def linkSecretLen : ℕ := 32

/-- Why bytes are not a value of the link domain. -/
inductive LinkError
  | wrongLength (expected actual : ℕ)
  deriving DecidableEq, Repr

/-- Exactly `n` bytes, or the length they have instead. -/
def exactBytes (n : ℕ) (bytes : List UInt8) : Except LinkError (Bytes n) :=
  if h : bytes.length = n then .ok ⟨bytes, h⟩ else .error (.wrongLength n bytes.length)

@[simp] theorem exactBytes_val {n : ℕ} (bytes : Bytes n) :
    exactBytes n bytes.val = .ok bytes := by
  rw [exactBytes, dif_pos bytes.property]

/-- Exactly `n` bytes from their hexadecimal digits. -/
def parseHex (n : ℕ) (s : Text) : Option (Bytes n) :=
  if utf8Len s ≠ n * 2 then none
  else
    match hexBytes s with
    | none => none
    | some bytes => if h : bytes.length = n then some ⟨bytes, h⟩ else none

/-- Digits read back as the bytes they were written from. -/
@[simp] theorem parseHex_hexText {n : ℕ} (bytes : Bytes n) :
    parseHex n (hexText bytes.val) = some bytes := by
  have hlen : bytes.val.length = n := bytes.property
  unfold parseHex
  rw [utf8Len_hexText, if_neg (by omega), hexBytes_hexText]
  dsimp only
  rw [dif_pos hlen]

/-- What one side contributes to the link secret. -/
structure HalfSecret where
  bytes : Bytes linkIdLen
  deriving DecidableEq

/-- The secret both sides of a link derive. -/
structure LinkSecret where
  bytes : Bytes linkSecretLen
  deriving DecidableEq

/-- A link's identifier. -/
structure LinkId where
  bytes : Bytes linkIdLen
  deriving DecidableEq

/-- An invite's identifier. -/
structure InviteId where
  bytes : Bytes linkIdLen
  deriving DecidableEq

/-- A half secret from exactly as many bytes as it has. -/
def HalfSecret.fromBytes (bytes : List UInt8) : Except LinkError HalfSecret :=
  (exactBytes linkIdLen bytes).map HalfSecret.mk

/-- A link identifier from exactly as many bytes as it has. -/
def LinkId.fromBytes (bytes : List UInt8) : Except LinkError LinkId :=
  (exactBytes linkIdLen bytes).map LinkId.mk

/-- An invite identifier from exactly as many bytes as it has. -/
def InviteId.fromBytes (bytes : List UInt8) : Except LinkError InviteId :=
  (exactBytes linkIdLen bytes).map InviteId.mk

@[simp] theorem HalfSecret.fromBytes_bytes (half : HalfSecret) :
    HalfSecret.fromBytes half.bytes.val = .ok half := by
  rw [fromBytes, exactBytes_val]
  rfl

@[simp] theorem LinkId.fromBytes_bytes (id : LinkId) :
    LinkId.fromBytes id.bytes.val = .ok id := by
  rw [fromBytes, exactBytes_val]
  rfl

@[simp] theorem InviteId.fromBytes_bytes (id : InviteId) :
    InviteId.fromBytes id.bytes.val = .ok id := by
  rw [fromBytes, exactBytes_val]
  rfl

/-! ### Derivations -/

/-- BLAKE3 with its key derivation mode, which takes a context string. -/
structure Blake3Kdf extends Blake3 where
  deriveKey : List UInt8 → List UInt8 → Bytes 32

/-- The context of the link secret's derivation. -/
def linkSecretContext : List UInt8 := ascii "tradr-link-v1"

/-- The link secret of the inviter's half and the replier's, in this order. -/
def deriveLinkSecret (blake3 : Blake3Kdf) (halfA halfB : HalfSecret) : LinkSecret :=
  ⟨blake3.deriveKey linkSecretContext (halfA.bytes.val ++ halfB.bytes.val)⟩

/-- The identifier of a link: the head of its secret's digest. -/
def deriveLinkId (blake3 : Blake3Kdf) (secret : LinkSecret) : LinkId :=
  ⟨⟨(blake3.hash secret.bytes.val).val.take linkIdLen, by
    rw [List.length_take, (blake3.hash secret.bytes.val).property]; rfl⟩⟩

/-- Eleven bits of a digest from bit `start` on, as a number. -/
def readBits (digest : Bytes 32) (start : ℕ) : ℕ :=
  (List.range 11).foldl
    (fun value offset =>
      let bit := start + offset
      value * 2 + ((digest.val.getD (bit / 8) 0).toNat >>> (7 - bit % 8)) % 2) 0

/-- What a person compares: the indices of twelve words. -/
structure Fingerprint where
  indices : List ℕ
  deriving DecidableEq, Repr

/-- The fingerprint of a digest of two keys. -/
def Fingerprint.fromKeyDigest (digest : Bytes 32) : Fingerprint :=
  ⟨(List.range 12).map fun i => readBits digest (i * 11)⟩

/-- What a fingerprint's digest starts with. -/
def fingerprintTag : List UInt8 := ascii "tradr-fp-v1"

/-- The fingerprint of a device with these two keys. -/
def deviceFingerprint (blake3 : Blake3Kdf) (identityPub agreementPub : PublicKeyPoint) :
    Fingerprint :=
  .fromKeyDigest
    (blake3.hash (fingerprintTag ++ identityPub.bytes.val ++ agreementPub.bytes.val))

/-! ### Names -/

/-- Why a bounded, printable text is refused. -/
inductive BoundedStringError
  | empty
  | tooLong (len : ℕ)
  | controlCharacter (c : Char)
  | misleadingDisplay (c : Char)
  deriving DecidableEq, Repr

/-- The rules for a text that is shown to a person: the first one broken. -/
def validateBoundedString (s : Text) (maxLen : ℕ) : Option BoundedStringError :=
  if s = [] then some .empty
  else if utf8Len s > maxLen then some (.tooLong (utf8Len s))
  else
    match s.find? isControl with
    | some c => some (.controlCharacter c)
    | none => (s.find? isMisleadingDisplayCharacter).map .misleadingDisplay

/-- The most bytes a display name may have. -/
def displayNameMaxLen : ℕ := 32

/-- A name a device published about itself. -/
structure DisplayName where
  value : Text
  valid : validateBoundedString value displayNameMaxLen = none
  deriving DecidableEq

/-- A display name, when the text may be one. -/
def DisplayName.new (s : Text) : Except BoundedStringError DisplayName :=
  match h : validateBoundedString s displayNameMaxLen with
  | none => .ok ⟨s, h⟩
  | some e => .error e

@[simp] theorem DisplayName.new_value (name : DisplayName) : new name.value = .ok name := by
  unfold new
  split
  · rfl
  · rename_i h
    rw [name.valid] at h
    cases h

/-- The empty text is no name. -/
theorem DisplayName.new_nil : new [] = .error .empty := rfl

/-- An optional name is read back; no name is the empty one, which is dropped. -/
theorem DisplayName.toOption_new_getD (name : Option DisplayName) :
    (DisplayName.new ((name.map DisplayName.value).getD [])).toOption = name := by
  rcases name with _ | name
  · rfl
  · rw [Option.map_some, Option.getD_some, DisplayName.new_value]
    rfl

/-! ### Time -/

/-- A signed 64-bit sum that stops at the bounds. -/
def saturatingAdd (a b : Int64) : Int64 :=
  Int64.ofInt (max (-2 ^ 63) (min (2 ^ 63 - 1) (a.toInt + b.toInt)))

/-- An allowance in seconds as a signed number, the largest one when it does not fit. -/
def skewSecs (secs : UInt64) : Int64 :=
  Int64.ofInt (min (2 ^ 63 - 1) secs.toNat)

/-- The seconds from an earlier time to a later one. -/
def UnixTime.elapsedSince (t earlier : UnixTime) : Option ℕ :=
  if earlier.secs > t.secs then none else some (t.secs.toInt - earlier.secs.toInt).toNat

/-! ### Invites and messages -/

/-- One side's offer to link. -/
structure Invite where
  inviteId : InviteId
  identityPub : PublicKeyPoint
  agreementPub : PublicKeyPoint
  attestationToken : Text
  halfSecret : HalfSecret
  expiresAt : UnixTime
  displayName : Option DisplayName
  deriving DecidableEq

/-- The last second at which an invite counts, with an allowance for clocks that differ. -/
def Invite.deadline (invite : Invite) (skew : UInt64) : UnixTime :=
  ⟨saturatingAdd invite.expiresAt.secs (skewSecs skew)⟩

/-- Whether an invite has expired, with an allowance for clocks that differ. -/
def Invite.isExpired (invite : Invite) (now : UnixTime) (skew : UInt64) : Bool :=
  (invite.deadline skew).secs < now.secs

/-- What a replier sends back. -/
structure LinkReply where
  inviteId : InviteId
  identityPub : PublicKeyPoint
  agreementPub : PublicKeyPoint
  attestationToken : Text
  halfSecret : HalfSecret
  displayName : Option DisplayName
  deriving DecidableEq

/-- The inviter's confirmation: the invite it answers and the identifier it derived. -/
structure LinkApprove where
  inviteId : InviteId
  linkId : LinkId
  deriving DecidableEq

/-- Why an inviter declined. -/
inductive LinkDeclineReason
  | userDeclined
  | inviteExpired
  | verificationFailed
  deriving DecidableEq, Repr

/-- The number of a reason on the wire. -/
def LinkDeclineReason.toWire : LinkDeclineReason → Int32
  | .userDeclined => 1
  | .inviteExpired => 2
  | .verificationFailed => 3

/-- The reason with a number, if one has it. -/
def LinkDeclineReason.ofWire (value : Int32) : Option LinkDeclineReason :=
  if value = 1 then some .userDeclined
  else if value = 2 then some .inviteExpired
  else if value = 3 then some .verificationFailed
  else none

/-- The inviter's refusal; its reason decides nothing. -/
structure LinkDecline where
  inviteId : InviteId
  reason : Option LinkDeclineReason
  deriving DecidableEq

/-- A link a device holds with a peer's account. -/
structure Link where
  linkId : LinkId
  peerAccount : AccountId
  peerLabel : Option Text
  createdAt : UnixTime
  fullAccess : Bool
  deriving DecidableEq

/-- A new link, labelled with the name the peer published, if any. -/
def Link.new (linkId : LinkId) (peerAccount : AccountId) (createdAt : UnixTime)
    (name : Option DisplayName) : Link :=
  ⟨linkId, peerAccount, name.map DisplayName.value, createdAt, false⟩

/-! ### The messages as protobuf carries them -/

/-- A device as protobuf carries it. -/
structure WireDeviceInfo where
  deviceId : List UInt8
  identityPub : List UInt8
  agreementPub : List UInt8
  displayName : Text
  platform : Int32
  capabilities : UInt32
  deriving DecidableEq

/-- An attestation as protobuf carries it. -/
structure WireAttestation where
  idToken : Text
  issuer : Text
  issuedAt : Int64
  deriving DecidableEq

/-- A reply as protobuf carries it. -/
structure WireLinkReply where
  inviteId : List UInt8
  device : Option WireDeviceInfo
  attestation : Option WireAttestation
  halfSecret : List UInt8
  deriving DecidableEq

/-- A confirmation as protobuf carries it. -/
structure WireLinkApprove where
  inviteId : List UInt8
  linkId : List UInt8
  deriving DecidableEq

/-- A refusal as protobuf carries it. -/
structure WireLinkDecline where
  inviteId : List UInt8
  reason : Int32
  deriving DecidableEq

/-- Why the fields of a decoded message are refused. -/
inductive LinkWireError
  | missingDevice
  | missingAttestation
  | emptyAttestationToken
  | invalidInviteId (e : LinkError)
  | invalidIdentityPub (e : PublicKeyPointError)
  | invalidAgreementPub (e : PublicKeyPointError)
  | invalidHalfSecret (e : LinkError)
  | invalidLinkId (e : LinkError)
  deriving DecidableEq, Repr

/-- Validate a decoded reply; a name that is none is dropped. -/
def linkReplyFromWire (message : WireLinkReply) : Except LinkWireError LinkReply := do
  let inviteId ← (InviteId.fromBytes message.inviteId).mapError .invalidInviteId
  let device ← okOr message.device .missingDevice
  let identityPub ← (PublicKeyPoint.fromBytes device.identityPub).mapError .invalidIdentityPub
  let agreementPub ←
    (PublicKeyPoint.fromBytes device.agreementPub).mapError .invalidAgreementPub
  let displayName := (DisplayName.new device.displayName).toOption
  let attestation ← okOr message.attestation .missingAttestation
  require (attestation.idToken ≠ []) .emptyAttestationToken
  let halfSecret ← (HalfSecret.fromBytes message.halfSecret).mapError .invalidHalfSecret
  return ⟨inviteId, identityPub, agreementPub, attestation.idToken, halfSecret, displayName⟩

/-- A reply on its way to protobuf; what nothing reads is left at its default. -/
def linkReplyToWire (reply : LinkReply) : WireLinkReply where
  inviteId := reply.inviteId.bytes.val
  device := some
    { deviceId := []
      identityPub := reply.identityPub.bytes.val
      agreementPub := reply.agreementPub.bytes.val
      displayName := (reply.displayName.map DisplayName.value).getD []
      platform := 0
      capabilities := 0 }
  attestation := some ⟨reply.attestationToken, [], 0⟩
  halfSecret := reply.halfSecret.bytes.val

/-- Validate a decoded confirmation. -/
def linkApproveFromWire (message : WireLinkApprove) : Except LinkWireError LinkApprove := do
  let inviteId ← (InviteId.fromBytes message.inviteId).mapError .invalidInviteId
  let linkId ← (LinkId.fromBytes message.linkId).mapError .invalidLinkId
  return ⟨inviteId, linkId⟩

/-- A confirmation on its way to protobuf. -/
def linkApproveToWire (approve : LinkApprove) : WireLinkApprove :=
  ⟨approve.inviteId.bytes.val, approve.linkId.bytes.val⟩

/-- Validate a decoded refusal; an unknown reason is dropped. -/
def linkDeclineFromWire (message : WireLinkDecline) : Except LinkWireError LinkDecline := do
  let inviteId ← (InviteId.fromBytes message.inviteId).mapError .invalidInviteId
  return ⟨inviteId, LinkDeclineReason.ofWire message.reason⟩

/-- A refusal on its way to protobuf. -/
def linkDeclineToWire (decline : LinkDecline) : WireLinkDecline :=
  ⟨decline.inviteId.bytes.val, (decline.reason.map LinkDeclineReason.toWire).getD 0⟩

/-- A reply with a token is read back; the name of a nameless one is empty, and dropped. -/
theorem linkReplyFromWire_toWire {reply : LinkReply} (h : reply.attestationToken ≠ []) :
    linkReplyFromWire (linkReplyToWire reply) = .ok reply := by
  simp only [linkReplyFromWire, linkReplyToWire, InviteId.fromBytes_bytes,
    PublicKeyPoint.fromBytes_bytes, HalfSecret.fromBytes_bytes, mapError_ok, okOr_some, ok_bind,
    require_of h, DisplayName.toOption_new_getD]
  rfl

/-- A reply without a token is refused. -/
theorem linkReplyFromWire_toWire_nil {reply : LinkReply} (h : reply.attestationToken = []) :
    linkReplyFromWire (linkReplyToWire reply) = .error .emptyAttestationToken := by
  simp only [linkReplyFromWire, linkReplyToWire, InviteId.fromBytes_bytes,
    PublicKeyPoint.fromBytes_bytes, mapError_ok, okOr_some, ok_bind, h]
  rfl

theorem linkApproveFromWire_toWire (approve : LinkApprove) :
    linkApproveFromWire (linkApproveToWire approve) = .ok approve := by
  simp only [linkApproveFromWire, linkApproveToWire, InviteId.fromBytes_bytes,
    LinkId.fromBytes_bytes, mapError_ok, ok_bind]
  rfl

theorem LinkDeclineReason.ofWire_toWire (reason : LinkDeclineReason) :
    ofWire reason.toWire = some reason := by
  cases reason <;> rfl

theorem linkDeclineFromWire_toWire (decline : LinkDecline) :
    linkDeclineFromWire (linkDeclineToWire decline) = .ok decline := by
  have hreason : LinkDeclineReason.ofWire
      ((decline.reason.map LinkDeclineReason.toWire).getD 0) = decline.reason := by
    rcases decline.reason with _ | reason
    · rfl
    · exact reason.ofWire_toWire
  simp only [linkDeclineFromWire, linkDeclineToWire, InviteId.fromBytes_bytes, mapError_ok,
    ok_bind, hreason]
  rfl

/-! ### Frames -/

/-- The protobuf encoders and decoders of the three messages. -/
structure LinkProto where
  encodeLinkReply : WireLinkReply → List UInt8
  decodeLinkReply : List UInt8 → Option WireLinkReply
  encodeLinkApprove : WireLinkApprove → List UInt8
  decodeLinkApprove : List UInt8 → Option WireLinkApprove
  encodeLinkDecline : WireLinkDecline → List UInt8
  decodeLinkDecline : List UInt8 → Option WireLinkDecline

/-- Protobuf reads a reply back. -/
def LinkProto.ReadsReply (proto : LinkProto) (reply : LinkReply) : Prop :=
  proto.decodeLinkReply (proto.encodeLinkReply (linkReplyToWire reply)) =
    some (linkReplyToWire reply)

/-- Protobuf reads a confirmation back. -/
def LinkProto.ReadsApprove (proto : LinkProto) (approve : LinkApprove) : Prop :=
  proto.decodeLinkApprove (proto.encodeLinkApprove (linkApproveToWire approve)) =
    some (linkApproveToWire approve)

/-- Why a framed link message could not be encoded or decoded. -/
inductive LinkFrameError
  | wrongMessageType (expected got : UInt8)
  | framing (e : FrameError)
  | decode
  | wire (e : LinkWireError)
  deriving DecidableEq, Repr

/-- Decode a frame of one message: its type byte, protobuf, and its fields. -/
def decodeLinkFrame {W M : Type} (message : MessageType) (decode : List UInt8 → Option W)
    (fromWire : W → Except LinkWireError M) (frame : Frame) : Except LinkFrameError M :=
  if frame.typeCode ≠ message.code then
    .error (.wrongMessageType message.code frame.typeCode)
  else
    match decode frame.payload with
    | none => .error .decode
    | some wire => (fromWire wire).mapError .wire

/-- A message that protobuf and its fields' checks read back is decoded from its frame. -/
theorem decodeLinkFrame_of_decode {W M : Type} {message : MessageType}
    {decode : List UInt8 → Option W} {fromWire : W → Except LinkWireError M}
    {payload : List UInt8} {wire : W} (h : decode payload = some wire) :
    decodeLinkFrame message decode fromWire ⟨message.code, payload⟩ =
      (fromWire wire).mapError .wire := by
  rw [decodeLinkFrame, if_neg (not_not_intro rfl), h]

section Frames

variable (proto : LinkProto)

/-- Frame a reply. -/
def encodeLinkReplyFrame (reply : LinkReply) (maxFrameSize : UInt32) :
    Except LinkFrameError (List UInt8) :=
  (encodeFrame MessageType.linkReply.code (proto.encodeLinkReply (linkReplyToWire reply))
    maxFrameSize).mapError .framing

/-- Decode a framed reply. -/
def decodeLinkReplyFrame (frame : Frame) : Except LinkFrameError LinkReply :=
  decodeLinkFrame .linkReply proto.decodeLinkReply linkReplyFromWire frame

/-- Frame a confirmation. -/
def encodeLinkApproveFrame (approve : LinkApprove) (maxFrameSize : UInt32) :
    Except LinkFrameError (List UInt8) :=
  (encodeFrame MessageType.linkApprove.code
    (proto.encodeLinkApprove (linkApproveToWire approve)) maxFrameSize).mapError .framing

/-- Decode a framed confirmation. -/
def decodeLinkApproveFrame (frame : Frame) : Except LinkFrameError LinkApprove :=
  decodeLinkFrame .linkApprove proto.decodeLinkApprove linkApproveFromWire frame

/-- Frame a refusal. -/
def encodeLinkDeclineFrame (decline : LinkDecline) (maxFrameSize : UInt32) :
    Except LinkFrameError (List UInt8) :=
  (encodeFrame MessageType.linkDecline.code
    (proto.encodeLinkDecline (linkDeclineToWire decline)) maxFrameSize).mapError .framing

/-- Decode a framed refusal. -/
def decodeLinkDeclineFrame (frame : Frame) : Except LinkFrameError LinkDecline :=
  decodeLinkFrame .linkDecline proto.decodeLinkDecline linkDeclineFromWire frame

variable {proto}

/-- What the frame of a reply decodes to: the reply, unless it has no token. -/
theorem decodeLinkReplyFrame_of_encode {reply reply' : LinkReply}
    (hproto : proto.ReadsReply reply) (h : decodeLinkReplyFrame proto
      ⟨MessageType.linkReply.code, proto.encodeLinkReply (linkReplyToWire reply)⟩ = .ok reply') :
    reply' = reply := by
  rw [decodeLinkReplyFrame, decodeLinkFrame_of_decode hproto, mapError_eq_ok] at h
  by_cases htoken : reply.attestationToken = []
  · rw [linkReplyFromWire_toWire_nil htoken] at h
    cases h
  · rw [linkReplyFromWire_toWire htoken] at h
    exact (Except.ok.inj h).symm

/-- A confirmation is read back from its frame. -/
theorem decodeLinkApproveFrame_of_encode {approve : LinkApprove}
    (hproto : proto.ReadsApprove approve) :
    decodeLinkApproveFrame proto
      ⟨MessageType.linkApprove.code, proto.encodeLinkApprove (linkApproveToWire approve)⟩ =
      .ok approve := by
  rw [decodeLinkApproveFrame, decodeLinkFrame_of_decode hproto,
    linkApproveFromWire_toWire]
  rfl

end Frames

end Tradr
