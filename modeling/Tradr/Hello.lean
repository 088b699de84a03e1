import Tradr.Link

/-!
# The Hello

Two devices that share an authenticated channel introduce themselves: each sends a `Hello`
with the protocol versions it supports, its keys, its attestation and a fresh nonce, and
answers the other's with a `HelloAck` that signs the other's nonce. Four steps, four types:
`open`, `AwaitingPeerHello`, `AwaitingVerification` and `AwaitingPeerAck`, which ends in a
`Session`.

## Main definitions

* `negotiateVersion`: the version both sides settle on.
* `openHello`, `AwaitingPeerHello.onPeerHello`, `AwaitingVerification.onVerified`,
  `AwaitingPeerAck.onPeerHelloAck`: the four steps.
* `encodeHelloFrame`, `decodeHelloFrame` and those of the acknowledgement: the messages as
  they travel.

## Main results

* `negotiateVersion_eq_ok`: the version is the greatest both sides support.
* `onPeerHello_eq_ok`, `onPeerHelloAck_eq_ok`: what a step that succeeds has checked.
* `payload_hello_inj`: a message signed for a `Hello` was signed for nothing else.
-/

open Fallible

namespace Tradr

/-! ### Versions -/

/-- Why two numbers are no range of versions. -/
inductive VersionRangeError
  | inverted (min max : UInt32)
  | zeroIsNotAVersion
  deriving DecidableEq, Repr

/-- The protocol versions one side supports. -/
structure VersionRange where
  min : UInt32
  max : UInt32
  min_ne_zero : min ≠ 0
  min_le_max : min ≤ max

/-- A range is its ends. -/
theorem VersionRange.ends_inj (r r' : VersionRange) : r.min = r'.min ∧ r.max = r'.max ↔ r = r' := by
  cases r
  cases r'
  simp

instance : DecidableEq VersionRange := fun r r' => decidable_of_iff _ (VersionRange.ends_inj r r')

/-- A range of versions; zero, which protobuf gives for an absent field, is none. -/
def VersionRange.new (min max : UInt32) : Except VersionRangeError VersionRange :=
  if hzero : min = 0 then .error .zeroIsNotAVersion
  else if hle : min ≤ max then .ok ⟨min, max, hzero, hle⟩
  else .error (.inverted min max)

/-- The ends of a range make that range. -/
theorem VersionRange.new_ends (r : VersionRange) : VersionRange.new r.min r.max = .ok r := by
  rw [new, dif_neg r.min_ne_zero, dif_pos r.min_le_max]

/-- A range has the ends it was made of. -/
theorem VersionRange.ends_of_new {min max : UInt32} {r : VersionRange}
    (h : VersionRange.new min max = .ok r) : r.min = min ∧ r.max = max := by
  unfold VersionRange.new at h
  split_ifs at h
  obtain rfl := Except.ok.inj h
  exact ⟨rfl, rfl⟩

/-- A version is supported. -/
def VersionRange.Supports (r : VersionRange) (v : UInt32) : Prop :=
  r.min ≤ v ∧ v ≤ r.max

/-- Two ranges have no version in common. -/
structure NoCommonVersion where
  ours : VersionRange
  theirs : VersionRange
  deriving DecidableEq

/-- The version two sides settle on: the lesser of the highest, unless one does not support
it. -/
def negotiateVersion (ours theirs : VersionRange) : Except NoCommonVersion UInt32 :=
  let negotiated := Min.min ours.max theirs.max
  let floor := Max.max ours.min theirs.min
  if negotiated < floor then .error ⟨ours, theirs⟩ else .ok negotiated

/-- The greater of two numbers is below what both are below. -/
theorem uint32_max_le_iff {a b c : UInt32} : Max.max a b ≤ c ↔ a ≤ c ∧ b ≤ c := by
  have hmax : Max.max a b = if a ≤ b then b else a := rfl
  rw [hmax]
  split_ifs with h
  · exact ⟨fun hb => ⟨UInt32.le_trans h hb, hb⟩, And.right⟩
  · exact ⟨fun ha => ⟨ha, UInt32.le_trans (UInt32.le_of_lt (UInt32.not_le.mp h)) ha⟩, And.left⟩

/-- **The negotiated version** is supported by both sides, and no greater one is. -/
theorem negotiateVersion_eq_ok {ours theirs : VersionRange} {v : UInt32} :
    negotiateVersion ours theirs = .ok v ↔
      (ours.Supports v ∧ theirs.Supports v) ∧
        ∀ w, ours.Supports w → theirs.Supports w → w ≤ v := by
  have hle : ∀ w : UInt32, w ≤ Min.min ours.max theirs.max ↔ w ≤ ours.max ∧ w ≤ theirs.max :=
    fun _ => Std.le_min_iff
  unfold negotiateVersion
  dsimp only
  constructor
  · intro h
    split_ifs at h with hlt
    obtain rfl := Except.ok.inj h
    obtain ⟨hours, htheirs⟩ := uint32_max_le_iff.mp (UInt32.not_lt.mp hlt)
    obtain ⟨hours', htheirs'⟩ := (hle _).mp (UInt32.le_refl _)
    refine ⟨⟨⟨hours, hours'⟩, htheirs, htheirs'⟩, ?_⟩
    rintro w ⟨-, hw⟩ ⟨-, hw'⟩
    exact (hle w).mpr ⟨hw, hw'⟩
  · rintro ⟨⟨⟨hours, hours'⟩, htheirs, htheirs'⟩, hgreatest⟩
    have hv : v ≤ Min.min ours.max theirs.max := (hle v).mpr ⟨hours', htheirs'⟩
    have hfloor : Max.max ours.min theirs.min ≤ Min.min ours.max theirs.max :=
      UInt32.le_trans (uint32_max_le_iff.mpr ⟨hours, htheirs⟩) hv
    obtain ⟨hmin, hmin'⟩ := (hle _).mp (UInt32.le_refl (Min.min ours.max theirs.max))
    obtain ⟨hlow, hlow'⟩ := uint32_max_le_iff.mp hfloor
    have hnegotiated := hgreatest _ ⟨hlow, hmin⟩ ⟨hlow', hmin'⟩
    rw [if_neg (UInt32.not_lt.mpr hfloor), UInt32.le_antisymm hnegotiated hv]

/-- Without a version both sides support there is no negotiated one. -/
theorem negotiateVersion_ne_ok {ours theirs : VersionRange}
    (h : ∀ v, ¬(ours.Supports v ∧ theirs.Supports v)) (v : UInt32) :
    negotiateVersion ours theirs ≠ .ok v := by
  intro hok
  exact h v (negotiateVersion_eq_ok.mp hok).1

/-! ### The messages -/

/-- The bytes of a nonce. -/
def helloNonceLen : ℕ := 16

/-- A nonce, fresh for each connection. -/
structure HelloNonce where
  bytes : Bytes helloNonceLen
  deriving DecidableEq

/-- What a device can do, as a bit mask. -/
structure Capabilities where
  bits : UInt16
  deriving DecidableEq, Repr

/-- What a device says of itself in its `Hello`: claims that nothing has verified yet. -/
structure PeerHello where
  versions : VersionRange
  identityPub : PublicKeyPoint
  agreementPub : PublicKeyPoint
  attestationToken : Text
  keyBinding : KeyBinding
  nonce : HelloNonce
  capabilities : Capabilities
  displayName : Option DisplayName
  deriving DecidableEq

/-- The answer to a `Hello`. -/
structure PeerHelloAck where
  negotiatedVersion : UInt32
  maxFrameSize : UInt32
  nonceSignature : Signature
  assignedTier : TrustTier
  deriving DecidableEq

/-- Why an integer names no tier. -/
inductive TrustTierError
  | unspecified
  | unknown (value : Int32)
  deriving DecidableEq, Repr

/-- The tier an integer on the wire names. -/
def TrustTier.ofWire (value : Int32) : Except TrustTierError TrustTier :=
  if value = 0 then .error .unspecified
  else if value = 1 then .ok .rejected
  else if value = 2 then .ok .nearbyEphemeral
  else if value = 3 then .ok .linked
  else if value = 4 then .ok .sameAccount
  else .error (.unknown value)

/-- The integer of a tier. -/
def TrustTier.toWire : TrustTier → Int32
  | .rejected => 1
  | .nearbyEphemeral => 2
  | .linked => 3
  | .sameAccount => 4

theorem TrustTier.ofWire_toWire (tier : TrustTier) : ofWire tier.toWire = .ok tier := by
  cases tier <;> rfl

/-! ### The messages as protobuf carries them -/

/-- A key binding as protobuf carries it. -/
structure WireKeyBinding where
  agreementPub : List UInt8
  signature : List UInt8
  notAfter : Int64
  deriving DecidableEq

/-- A `Hello` as protobuf carries it. -/
structure WireHello where
  minVersion : UInt32
  maxVersion : UInt32
  device : Option WireDeviceInfo
  attestation : Option WireAttestation
  keyBinding : Option WireKeyBinding
  nonce : List UInt8
  deriving DecidableEq

/-- A `HelloAck` as protobuf carries it; the shares it may list are written by nothing and
read by nothing. -/
structure WireHelloAck where
  negotiatedVersion : UInt32
  maxFrameSize : UInt32
  nonceSignature : List UInt8
  assignedTier : Int32
  deriving DecidableEq

/-- Why the fields of a decoded message are refused. -/
inductive HelloWireError
  | missingDevice
  | missingAttestation
  | missingKeyBinding
  | invalidVersionRange (e : VersionRangeError)
  | invalidIdentityPub (e : PublicKeyPointError)
  | invalidAgreementPub (e : PublicKeyPointError)
  | invalidKeyBindingAgreementPub (e : PublicKeyPointError)
  | invalidNonce (len : ℕ)
  | invalidAssignedTier (e : TrustTierError)
  deriving DecidableEq, Repr

/-- A nonce from exactly as many bytes as it has. -/
def helloNonceFromBytes (bytes : List UInt8) : Except HelloWireError HelloNonce :=
  if h : bytes.length = helloNonceLen then .ok ⟨⟨bytes, h⟩⟩
  else .error (.invalidNonce bytes.length)

@[simp] theorem helloNonceFromBytes_bytes (nonce : HelloNonce) :
    helloNonceFromBytes nonce.bytes.val = .ok nonce := by
  rw [helloNonceFromBytes, dif_pos nonce.bytes.property]

/-- Validate a decoded `Hello`; a name that is none is dropped, and of the capabilities the
low sixteen bits are kept. -/
def peerHelloFromWire (message : WireHello) : Except HelloWireError PeerHello := do
  let versions ←
    (VersionRange.new message.minVersion message.maxVersion).mapError .invalidVersionRange
  let device ← okOr message.device .missingDevice
  let identityPub ← (PublicKeyPoint.fromBytes device.identityPub).mapError .invalidIdentityPub
  let agreementPub ←
    (PublicKeyPoint.fromBytes device.agreementPub).mapError .invalidAgreementPub
  let displayName := (DisplayName.new device.displayName).toOption
  let attestation ← okOr message.attestation .missingAttestation
  let binding ← okOr message.keyBinding .missingKeyBinding
  let bindingPub ←
    (PublicKeyPoint.fromBytes binding.agreementPub).mapError .invalidKeyBindingAgreementPub
  let nonce ← helloNonceFromBytes message.nonce
  return ⟨versions, identityPub, agreementPub, attestation.idToken,
    ⟨bindingPub, ⟨binding.signature⟩, ⟨binding.notAfter⟩⟩, nonce,
    ⟨device.capabilities.toUInt16⟩, displayName⟩

/-- A `Hello` on its way to protobuf; what nothing reads is left at its default. -/
def peerHelloToWire (hello : PeerHello) : WireHello where
  minVersion := hello.versions.min
  maxVersion := hello.versions.max
  device := some
    { deviceId := []
      identityPub := hello.identityPub.bytes.val
      agreementPub := hello.agreementPub.bytes.val
      displayName := (hello.displayName.map DisplayName.value).getD []
      platform := 0
      capabilities := hello.capabilities.bits.toUInt32 }
  attestation := some ⟨hello.attestationToken, [], 0⟩
  keyBinding := some ⟨hello.keyBinding.agreementPub.bytes.val, hello.keyBinding.signature.bytes,
    hello.keyBinding.notAfter.secs⟩
  nonce := hello.nonce.bytes.val

/-- Validate a decoded `HelloAck`; a tier that is not specified is refused. -/
def peerHelloAckFromWire (message : WireHelloAck) : Except HelloWireError PeerHelloAck := do
  let assignedTier ← (TrustTier.ofWire message.assignedTier).mapError .invalidAssignedTier
  return ⟨message.negotiatedVersion, message.maxFrameSize, ⟨message.nonceSignature⟩, assignedTier⟩

/-- A `HelloAck` on its way to protobuf. -/
def peerHelloAckToWire (ack : PeerHelloAck) : WireHelloAck where
  negotiatedVersion := ack.negotiatedVersion
  maxFrameSize := ack.maxFrameSize
  nonceSignature := ack.nonceSignature.bytes
  assignedTier := ack.assignedTier.toWire

/-- A `Hello` is read back. -/
theorem peerHelloFromWire_toWire (hello : PeerHello) :
    peerHelloFromWire (peerHelloToWire hello) = .ok hello := by
  have hbits : hello.capabilities.bits.toUInt32.toUInt16 = hello.capabilities.bits :=
    UInt16.toUInt16_toUInt32 _
  simp only [peerHelloFromWire, peerHelloToWire, VersionRange.new_ends,
    PublicKeyPoint.fromBytes_bytes, helloNonceFromBytes_bytes, mapError_ok, okOr_some, ok_bind,
    DisplayName.toOption_new_getD, hbits]
  rfl

/-- A `HelloAck` is read back. -/
theorem peerHelloAckFromWire_toWire (ack : PeerHelloAck) :
    peerHelloAckFromWire (peerHelloAckToWire ack) = .ok ack := by
  simp only [peerHelloAckFromWire, peerHelloAckToWire, TrustTier.ofWire_toWire, mapError_ok,
    ok_bind]
  rfl

/-! ### Frames -/

/-- The protobuf encoders and decoders of the two messages. -/
structure HelloProto where
  encodeHello : WireHello → List UInt8
  decodeHello : List UInt8 → Option WireHello
  encodeHelloAck : WireHelloAck → List UInt8
  decodeHelloAck : List UInt8 → Option WireHelloAck

/-- Why a framed `Hello` or `HelloAck` could not be encoded or decoded. -/
inductive HelloFrameError
  | wrongMessageType (expected got : UInt8)
  | framing (e : FrameError)
  | decode
  | wire (e : HelloWireError)
  deriving DecidableEq, Repr

/-- Decode a frame of one message: its type byte, protobuf, and its fields. -/
def decodeHelloMessage {W M : Type} (message : MessageType) (decode : List UInt8 → Option W)
    (fromWire : W → Except HelloWireError M) (frame : Frame) : Except HelloFrameError M :=
  if frame.typeCode ≠ message.code then
    .error (.wrongMessageType message.code frame.typeCode)
  else
    match decode frame.payload with
    | none => .error .decode
    | some wire => (fromWire wire).mapError .wire

section Frames

variable (proto : HelloProto)

/-- Frame a `Hello`. -/
def encodeHelloFrame (hello : PeerHello) (maxFrameSize : UInt32) :
    Except HelloFrameError (List UInt8) :=
  (encodeFrame MessageType.hello.code (proto.encodeHello (peerHelloToWire hello))
    maxFrameSize).mapError .framing

/-- Decode a framed `Hello`. -/
def decodeHelloFrame : Frame → Except HelloFrameError PeerHello :=
  decodeHelloMessage .hello proto.decodeHello peerHelloFromWire

/-- Frame a `HelloAck`. -/
def encodeHelloAckFrame (ack : PeerHelloAck) (maxFrameSize : UInt32) :
    Except HelloFrameError (List UInt8) :=
  (encodeFrame MessageType.helloAck.code (proto.encodeHelloAck (peerHelloAckToWire ack))
    maxFrameSize).mapError .framing

/-- Decode a framed `HelloAck`. -/
def decodeHelloAckFrame : Frame → Except HelloFrameError PeerHelloAck :=
  decodeHelloMessage .helloAck proto.decodeHelloAck peerHelloAckFromWire

variable {proto}

/-- The frame of a `Hello` that protobuf reads back decodes to it. -/
theorem decodeHelloFrame_of_reads {hello : PeerHello}
    (hproto : proto.decodeHello (proto.encodeHello (peerHelloToWire hello)) =
      some (peerHelloToWire hello)) :
    decodeHelloFrame proto ⟨MessageType.hello.code, proto.encodeHello (peerHelloToWire hello)⟩ =
      .ok hello := by
  rw [decodeHelloFrame, decodeHelloMessage, if_neg (not_not_intro rfl)]
  dsimp only
  rw [hproto]
  dsimp only
  rw [peerHelloFromWire_toWire, mapError_ok]

end Frames

/-! ### The four steps -/

/-- Why a peer's message is refused. -/
inductive HelloRefused
  | noCommonVersion (e : NoCommonVersion)
  | keyDoesNotMatchChannel (authenticated claimed : DeviceId)
  | keyBindingNotForThisAgreementKey
  | keyBindingSignatureInvalid
  | keyBindingExpired (notAfter now : UnixTime)
  | malformedIdentityKey
  | nonceSignatureInvalid
  | versionDisagreement (ours theirs : UInt32)
  | frameSizeTooSmall (advertised minimum : UInt32)
  deriving DecidableEq

/-- The smallest frame a peer may admit. -/
def minNegotiableFrameSize : UInt32 := 512

/-- Our `Hello` is sent; the peer's has not come. -/
structure AwaitingPeerHello where
  ourVersions : VersionRange
  ourNonce : HelloNonce

/-- Our own `Hello`, with a fresh nonce. -/
def openHello (nonce : HelloNonce) (versions : VersionRange) (identity : PublicIdentity)
    (attestationToken : Text) (keyBinding : KeyBinding) (capabilities : Capabilities) :
    AwaitingPeerHello × PeerHello :=
  (⟨versions, nonce⟩, ⟨versions, identity.identityPub, identity.agreementPub, attestationToken,
    keyBinding, nonce, capabilities, none⟩)

/-- What a peer's attestation is verified with. -/
structure AttestationRequest where
  token : Text
  identityPub : PublicKeyPoint
  agreementPub : PublicKeyPoint
  deriving DecidableEq

/-- The peer's attestation is being verified. -/
structure AwaitingVerification where
  peerIdentity : PublicIdentity
  peerNonce : HelloNonce
  ourNonce : HelloNonce
  negotiatedVersion : UInt32

/-- Our acknowledgement is sent; the peer's has not come. -/
structure AwaitingPeerAck where
  peerIdentity : PublicIdentity
  ourNonce : HelloNonce
  negotiatedVersion : UInt32
  tier : TrustTier

/-- A completed exchange. -/
structure Session where
  peer : DeviceId
  peerIdentity : PublicIdentity
  tier : TrustTier
  negotiatedVersion : UInt32
  peerMaxFrameSize : UInt32
  deriving DecidableEq

/-- A refused key binding, in the terms of this exchange. -/
def HelloRefused.ofKeyBinding : KeyBindingRefused → HelloRefused
  | .notForThisAgreementKey => .keyBindingNotForThisAgreementKey
  | .signatureInvalid | .malformedIdentityKey => .keyBindingSignatureInvalid
  | .expired notAfter now => .keyBindingExpired notAfter now

/-- The version, the join of the key to the channel, and the binding of the agreement key,
in this order. -/
def AwaitingPeerHello.onPeerHello (ecdsa : Signatures) (blake3 : Blake3)
    (s : AwaitingPeerHello) (peer : PeerHello) (authenticated : DeviceId) (now : UnixTime) :
    Except HelloRefused (AwaitingVerification × AttestationRequest) := do
  let negotiatedVersion ←
    (negotiateVersion s.ourVersions peer.versions).mapError .noCommonVersion
  let claimed := blake3.deviceIdOf peer.identityPub
  require (claimed = authenticated) (.keyDoesNotMatchChannel authenticated claimed)
  let _ ← (verifyKeyBinding ecdsa blake3 peer.identityPub peer.keyBinding peer.agreementPub
    now).mapError .ofKeyBinding
  return (⟨⟨peer.identityPub, peer.agreementPub, claimed⟩, peer.nonce, s.ourNonce,
    negotiatedVersion⟩, ⟨peer.attestationToken, peer.identityPub, peer.agreementPub⟩)

/-- Sign the peer's nonce, whatever the verdict on its attestation. -/
def AwaitingVerification.onVerified (s : AwaitingVerification) (tier : TrustTier)
    (keyStore : KeyStore) (maxFrameSize : UInt32) :
    Except KeyStoreError (AwaitingPeerAck × PeerHelloAck) := do
  let nonceSignature ← keyStore.sign .hello s.peerNonce.bytes.val
  return (⟨s.peerIdentity, s.ourNonce, s.negotiatedVersion, tier⟩,
    ⟨s.negotiatedVersion, maxFrameSize, nonceSignature, tier⟩)

/-- The signature of our nonce, the version and the frame size, in this order. -/
def AwaitingPeerAck.onPeerHelloAck (ecdsa : Signatures) (s : AwaitingPeerAck)
    (ack : PeerHelloAck) : Except HelloRefused Session := do
  let key ← (parseVerifyingKey ecdsa s.peerIdentity.identityPub).mapError
    fun _ => .malformedIdentityKey
  require (signatureVerifies ecdsa key .hello s.ourNonce.bytes.val ack.nonceSignature = true)
    .nonceSignatureInvalid
  require (ack.negotiatedVersion = s.negotiatedVersion)
    (.versionDisagreement s.negotiatedVersion ack.negotiatedVersion)
  require (minNegotiableFrameSize ≤ ack.maxFrameSize)
    (.frameSizeTooSmall ack.maxFrameSize minNegotiableFrameSize)
  return ⟨s.peerIdentity.deviceId, s.peerIdentity, s.tier, s.negotiatedVersion, ack.maxFrameSize⟩

/-! ### What a step that succeeds has checked -/

section Steps

variable {ecdsa : Signatures} {blake3 : Blake3}

/-- **A `Hello` that is not refused** has a version in common with ours and comes from the
device the channel authenticated. -/
theorem onPeerHello_eq_ok {s : AwaitingPeerHello} {peer : PeerHello} {authenticated : DeviceId}
    {now : UnixTime} {s' : AwaitingVerification} {request : AttestationRequest}
    (h : s.onPeerHello ecdsa blake3 peer authenticated now = .ok (s', request)) :
    negotiateVersion s.ourVersions peer.versions = .ok s'.negotiatedVersion ∧
      blake3.deviceIdOf peer.identityPub = authenticated ∧
      s'.peerIdentity = ⟨peer.identityPub, peer.agreementPub, authenticated⟩ ∧
      s'.peerNonce = peer.nonce ∧ s'.ourNonce = s.ourNonce := by
  obtain ⟨v, hversion, h⟩ := bind_eq_ok.mp h
  obtain ⟨_, hjoin, h⟩ := bind_eq_ok.mp h
  obtain ⟨_, -, h⟩ := bind_eq_ok.mp h
  obtain ⟨rfl, -⟩ := Prod.mk.inj (pure_eq_ok.mp h)
  have hjoin := require_eq_ok.mp hjoin
  refine ⟨mapError_eq_ok.mp hversion, hjoin, ?_, rfl, rfl⟩
  rw [hjoin]

/-- The verdict is kept, and the peer's nonce is what was signed. -/
theorem onVerified_eq_ok {s : AwaitingVerification} {tier : TrustTier} {keyStore : KeyStore}
    {maxFrameSize : UInt32} {s' : AwaitingPeerAck} {ack : PeerHelloAck}
    (h : s.onVerified tier keyStore maxFrameSize = .ok (s', ack)) :
    s' = ⟨s.peerIdentity, s.ourNonce, s.negotiatedVersion, tier⟩ ∧
      keyStore.sign .hello s.peerNonce.bytes.val = .ok ack.nonceSignature ∧
      ack.negotiatedVersion = s.negotiatedVersion ∧ ack.maxFrameSize = maxFrameSize ∧
      ack.assignedTier = tier := by
  obtain ⟨signature, hsign, h⟩ := bind_eq_ok.mp h
  obtain ⟨rfl, rfl⟩ := Prod.mk.inj (pure_eq_ok.mp h)
  exact ⟨rfl, hsign, rfl, rfl, rfl⟩

/-- **A session** takes the peer's signature of our nonce and its agreement on the version;
of the acknowledgement it keeps nothing but the frame size. -/
theorem onPeerHelloAck_eq_ok {s : AwaitingPeerAck} {ack : PeerHelloAck} {session : Session}
    (h : s.onPeerHelloAck ecdsa ack = .ok session) :
    Signed ecdsa s.peerIdentity.identityPub .hello s.ourNonce.bytes.val ack.nonceSignature ∧
      ack.negotiatedVersion = s.negotiatedVersion ∧
      session = ⟨s.peerIdentity.deviceId, s.peerIdentity, s.tier, s.negotiatedVersion,
        ack.maxFrameSize⟩ := by
  obtain ⟨key, hkey, h⟩ := bind_eq_ok.mp h
  obtain ⟨_, hsigned, h⟩ := bind_eq_ok.mp h
  obtain ⟨_, hversion, h⟩ := bind_eq_ok.mp h
  obtain ⟨_, -, h⟩ := bind_eq_ok.mp h
  exact ⟨⟨key, mapError_eq_ok.mp hkey, require_eq_ok.mp hsigned⟩, require_eq_ok.mp hversion,
    pure_eq_ok.mp h⟩

end Steps

/-- The tags put before signed messages tell the contexts apart. -/
theorem payload_hello_inj {domain : DomainTag} {message payload : List UInt8} {nonce : HelloNonce}
    (h : domain.payload message = .ok payload)
    (hhello : DomainTag.hello.payload nonce.bytes.val = .ok payload) :
    domain = .hello ∧ message = nonce.bytes.val := by
  obtain rfl := Except.ok.inj hhello
  -- The first letter after the common part of the tags is enough.
  have hprepended : ∀ tag : List UInt8, tag.getD 6 0 ≠ 0x68 → 7 ≤ tag.length →
      tag ++ message ≠ ascii "tradr-hello-v1" ++ nonce.bytes.val := by
    intro tag htag hlen heq
    have h6 := congrArg (List.getD · 6 0) heq
    rw [List.getD_append _ _ _ _ (by omega)] at h6
    exact htag h6
  have hrequired : ∀ (head rest : List UInt8), head ≠ [] → head.getD 0 0 ≠ 0x74 →
      head ++ rest ≠ ascii "tradr-hello-v1" ++ nonce.bytes.val := by
    intro head rest hne hhead heq
    have h0 := congrArg (List.getD · 0 0) heq
    rw [List.getD_append _ _ _ _ (List.length_pos_iff.mpr hne)] at h0
    exact hhead h0
  cases domain with
  | hello =>
      exact ⟨rfl, List.append_cancel_left (Except.ok.inj h)⟩
  | keyBind => exact absurd (Except.ok.inj h) (hprepended _ (by decide) (by decide))
  | brokrChallenge => exact absurd (Except.ok.inj h) (hprepended _ (by decide) (by decide))
  | revoke => exact absurd (Except.ok.inj h) (hprepended _ (by decide) (by decide))
  | deferredDelivery => exact absurd (Except.ok.inj h) (hprepended _ (by decide) (by decide))
  | certificateTbs =>
      unfold DomainTag.payload DomainTag.separation at h
      dsimp only at h
      split_ifs at h with hhead
      obtain ⟨rest, rfl⟩ := hhead
      exact absurd (Except.ok.inj h) (hrequired _ rest (by decide) (by decide))
  | tlsCertificateVerify =>
      unfold DomainTag.payload DomainTag.separation at h
      dsimp only at h
      split_ifs at h with hhead
      obtain ⟨rest, rfl⟩ := hhead
      exact absurd (Except.ok.inj h) (hrequired _ rest (by decide) (by decide))

end Tradr
