import Tradr.Hello
import Tradr.Machine
import Tradr.Streams

/-!
# The Handshake

Both ends of a channel run the `Hello` exchange at once: the side that dialled writes its
`Hello` before it reads the other's, the side that listens has read one before it writes its
own, and from there on both do the same. A `Party` is one end, advanced by what the world
gives it at each place where it waits: a nonce, the outcome of a write, a frame or a failed
read, a verdict on the peer's attestation.

Parties are put together in two ways. In a `HelloPair` two of them share a channel that
delivers what the other wrote, in order. In a `HelloWorld` a device runs any number of them
against peers that send whatever they like; the log of signatures says which identity key
signed what, and a signature that verifies was made by the holder of its key.

## Main definitions

* `Party.step`: one end of a handshake.
* `HelloPair.step`: two ends of one channel.
* `HelloWorld.step`, `HelloWorld.Admissible`: a device among strangers.

## Main results

* `Party.consistent_step`: what a party knows in each of its phases.
* `hello_agreement`: two ends agree, and a stranger cannot pass for a device whose identity key
  has not signed this side's own nonce.
-/

open BigEndian Fallible

namespace Tradr

/-- Why a handshake failed. -/
inductive HandshakeError
  | rng
  | proto (e : HelloFrameError)
  | transport (e : TransportError)
  | unexpectedEof
  | refused (e : HelloRefused)
  | attestation (message : Text)
  | keyStore (e : KeyStoreError)
  deriving DecidableEq

/-- What a handshake is run with. -/
structure HandshakeParams where
  authenticatedPeer : DeviceId
  ourChannelMaxFrameSize : UInt32
  ourIdentity : PublicIdentity
  ourAttestationToken : Text
  ourKeyBinding : KeyBinding
  ourVersions : VersionRange
  ourCapabilities : Capabilities
  deriving DecidableEq

/-- Our `Hello` with a nonce. -/
def HandshakeParams.hello (params : HandshakeParams) (nonce : HelloNonce) : PeerHello :=
  (openHello nonce params.ourVersions params.ourIdentity params.ourAttestationToken
    params.ourKeyBinding params.ourCapabilities).2

/-- Where a handshake stands. -/
inductive HandshakePhase
  | starting
  | awaitingPeerHello (s : AwaitingPeerHello)
  | awaitingVerification (s : AwaitingVerification) (request : AttestationRequest)
  | awaitingPeerAck (s : AwaitingPeerAck)
  | ended (result : Except HandshakeError Session)

/-- One end of a handshake: the frames it wrote, the nonce it drew, the `Hello` it was sent
and the verdict it was given. -/
structure Party where
  params : HandshakeParams
  phase : HandshakePhase
  sent : List (List UInt8)
  opened : Option HelloNonce
  heard : Option PeerHello
  verdict : Option TrustTier

/-- A party that has done nothing yet. -/
def Party.new (params : HandshakeParams) : Party :=
  ⟨params, .starting, [], none, none, none⟩

/-- What the world gives a party where it waits: `start` and `answer` begin a handshake on
the side that dialled and on the side that listens. -/
inductive HandshakeInput
  | start (nonce : Option HelloNonce) (write : Except TransportError Unit)
  | answer (incoming : Except HandshakeError Frame) (nonce : Option HelloNonce)
    (write : Except TransportError Unit) (now : UnixTime)
  | peerHello (incoming : Except HandshakeError Frame) (now : UnixTime)
  | verified (verdict : Except Text TrustTier) (keyStore : KeyStore)
    (write : Except TransportError Unit)
  | peerAck (incoming : Except HandshakeError Frame)

/-- A party in this phase waits for this. -/
def HandshakePhase.awaits : HandshakePhase → HandshakeInput → Bool
  | .starting, .start _ _ => true
  | .starting, .answer _ _ _ _ => true
  | .awaitingPeerHello _, .peerHello _ _ => true
  | .awaitingVerification _ _, .verified _ _ _ => true
  | .awaitingPeerAck _, .peerAck _ => true
  | _, _ => false

/-- The frame a `Hello` is expected in. -/
def HandshakeInput.helloFrame : HandshakeInput → Option (Except HandshakeError Frame)
  | .answer incoming _ _ _ | .peerHello incoming _ => some incoming
  | _ => none

/-- The nonce an input draws. -/
def HandshakeInput.drawn : HandshakeInput → Option HelloNonce
  | .start nonce _ | .answer _ nonce _ _ => nonce
  | _ => none

namespace Party

section Step

variable (proto : HelloProto) (ecdsa : Signatures) (blake3 : Blake3)

/-- The handshake ends with an error. -/
def fail (p : Party) (e : HandshakeError) : Party :=
  { p with phase := .ended (.error e) }

/-- Draw a nonce and write our `Hello`. A write that fails may have been delivered. -/
def start (p : Party) (nonce : Option HelloNonce) (write : Except TransportError Unit) : Party :=
  match nonce with
  | none => p.fail .rng
  | some nonce =>
    match encodeHelloFrame proto (p.params.hello nonce) p.params.ourChannelMaxFrameSize with
    | .error e => { p with opened := some nonce }.fail (.proto e)
    | .ok bytes =>
      match write with
      | .error e => { p with opened := some nonce, sent := p.sent ++ [bytes] }.fail (.transport e)
      | .ok () =>
        { p with
          opened := some nonce
          sent := p.sent ++ [bytes]
          phase := .awaitingPeerHello ⟨p.params.ourVersions, nonce⟩ }

/-- Check the peer's `Hello`. -/
def onHello (p : Party) (s : AwaitingPeerHello) (hello : PeerHello) (now : UnixTime) : Party :=
  match s.onPeerHello ecdsa blake3 hello p.params.authenticatedPeer now with
  | .error e => { p with heard := some hello }.fail (.refused e)
  | .ok (s, request) => { p with heard := some hello, phase := .awaitingVerification s request }

/-- The `Hello` of a frame that was read. -/
def readHello (incoming : Except HandshakeError Frame) : Except HandshakeError PeerHello := do
  let frame ← incoming
  (decodeHelloFrame proto frame).mapError .proto

/-- Read the peer's `Hello` after ours was written. -/
def receiveHello (p : Party) (s : AwaitingPeerHello) (incoming : Except HandshakeError Frame)
    (now : UnixTime) : Party :=
  match readHello proto incoming with
  | .error e => p.fail e
  | .ok hello => p.onHello ecdsa blake3 s hello now

/-- Write our `Hello` after the peer's was read. -/
def answer (p : Party) (incoming : Except HandshakeError Frame) (nonce : Option HelloNonce)
    (write : Except TransportError Unit) (now : UnixTime) : Party :=
  match readHello proto incoming with
  | .error e => p.fail e
  | .ok hello =>
    match (p.start proto nonce write).phase with
    | .awaitingPeerHello s => (p.start proto nonce write).onHello ecdsa blake3 s hello now
    | _ => p.start proto nonce write

/-- Sign the peer's nonce and write our `HelloAck`: the nonce that was signed. -/
def onVerdict (p : Party) (s : AwaitingVerification) (verdict : Except Text TrustTier)
    (keyStore : KeyStore) (write : Except TransportError Unit) : Option HelloNonce × Party :=
  match verdict with
  | .error message => (none, p.fail (.attestation message))
  | .ok tier =>
    match s.onVerified tier keyStore p.params.ourChannelMaxFrameSize with
    | .error e => (none, { p with verdict := some tier }.fail (.keyStore e))
    | .ok (s', ack) =>
      match encodeHelloAckFrame proto ack p.params.ourChannelMaxFrameSize with
      | .error e => (some s.peerNonce, { p with verdict := some tier }.fail (.proto e))
      | .ok bytes =>
        match write with
        | .error e =>
          (some s.peerNonce,
            { p with verdict := some tier, sent := p.sent ++ [bytes] }.fail (.transport e))
        | .ok () =>
          (some s.peerNonce,
            { p with
              verdict := some tier
              sent := p.sent ++ [bytes]
              phase := .awaitingPeerAck s' })

/-- The `HelloAck` of a frame that was read. -/
def readAck (incoming : Except HandshakeError Frame) : Except HandshakeError PeerHelloAck := do
  let frame ← incoming
  (decodeHelloAckFrame proto frame).mapError .proto

/-- Read the peer's `HelloAck`. -/
def receiveAck (p : Party) (s : AwaitingPeerAck) (incoming : Except HandshakeError Frame) :
    Party :=
  match readAck proto incoming with
  | .error e => p.fail e
  | .ok ack =>
    { p with phase := .ended ((s.onPeerHelloAck ecdsa ack).mapError .refused) }

/-- Advance a party; what it is not waiting for changes nothing. -/
def step (p : Party) (input : HandshakeInput) : Option HelloNonce × Party :=
  match p.phase, input with
  | .starting, .start nonce write => (none, p.start proto nonce write)
  | .starting, .answer incoming nonce write now =>
    (none, p.answer proto ecdsa blake3 incoming nonce write now)
  | .awaitingPeerHello s, .peerHello incoming now =>
    (none, p.receiveHello proto ecdsa blake3 s incoming now)
  | .awaitingVerification s _, .verified verdict keyStore write =>
    p.onVerdict proto s verdict keyStore write
  | .awaitingPeerAck s, .peerAck incoming => (none, p.receiveAck proto ecdsa s incoming)
  | _, _ => (none, p)

end Step

/-! ### What a party knows -/

/-- The version and the identity a party took from a peer's `Hello`. -/
structure Met (blake3 : Blake3) (params : HandshakeParams) (hello : PeerHello)
    (identity : PublicIdentity) (version : UInt32) : Prop where
  version : negotiateVersion params.ourVersions hello.versions = .ok version
  joined : blake3.deviceIdOf hello.identityPub = params.authenticatedPeer
  identity : identity = ⟨hello.identityPub, hello.agreementPub, params.authenticatedPeer⟩

/-- What a party has established in each phase. What it takes from a signature is left to
the caller: `signed` says whose key signed which nonce. -/
def Knows (blake3 : Blake3) (signed : PublicKeyPoint → HelloNonce → Prop) (p : Party) : Prop :=
  match p.phase with
  | .starting => p.opened = none ∧ p.sent = [] ∧ p.heard = none
  | .awaitingPeerHello s =>
    s.ourVersions = p.params.ourVersions ∧ p.opened = some s.ourNonce ∧ p.sent ≠ [] ∧
      p.heard = none
  | .awaitingVerification s _ => ∃ hello, p.heard = some hello ∧ p.opened = some s.ourNonce ∧
    p.sent ≠ [] ∧ Met blake3 p.params hello s.peerIdentity s.negotiatedVersion
  | .awaitingPeerAck s => ∃ hello, p.heard = some hello ∧ p.opened = some s.ourNonce ∧
    Met blake3 p.params hello s.peerIdentity s.negotiatedVersion ∧ p.verdict = some s.tier
  | .ended (.ok session) => ∃ hello nonce, p.heard = some hello ∧ p.opened = some nonce ∧
    Met blake3 p.params hello session.peerIdentity session.negotiatedVersion ∧
    p.verdict = some session.tier ∧ session.peer = p.params.authenticatedPeer ∧
    signed hello.identityPub nonce
  | .ended (.error _) => True

/-- What a party has written begins with its own `Hello`. -/
def Spoke (proto : HelloProto) (p : Party) : Prop :=
  ∀ bytes rest, p.sent = bytes :: rest → ∃ nonce, p.opened = some nonce ∧
    encodeHelloFrame proto (p.params.hello nonce) p.params.ourChannelMaxFrameSize = .ok bytes

/-- A party that is as it should be. -/
structure Consistent (proto : HelloProto) (blake3 : Blake3)
    (signed : PublicKeyPoint → HelloNonce → Prop) (p : Party) : Prop where
  knows : p.Knows blake3 signed
  spoke : p.Spoke proto

variable {proto : HelloProto} {ecdsa : Signatures} {blake3 : Blake3}
  {signed : PublicKeyPoint → HelloNonce → Prop} {p : Party}

/-- A party that has done nothing is. -/
theorem consistent_new (params : HandshakeParams) :
    (Party.new params).Consistent proto blake3 signed :=
  ⟨⟨rfl, rfl, rfl⟩, by rintro _ _ ⟨⟩⟩

/-- A party that gives up knows nothing that could be wrong. -/
theorem consistent_fail (h : p.Spoke proto) (e : HandshakeError) :
    (p.fail e).Consistent proto blake3 signed :=
  ⟨trivial, h⟩

/-- What else is written comes after our `Hello`. -/
theorem Spoke.append {bytes : List UInt8} (h : p.Spoke proto) (hne : p.sent ≠ []) :
    ({ p with sent := p.sent ++ [bytes] }).Spoke proto := by
  intro first rest hsent
  obtain ⟨first', rest', hsent'⟩ := List.exists_cons_of_ne_nil hne
  rw [hsent', List.cons_append] at hsent
  obtain ⟨rfl, -⟩ := List.cons.inj hsent
  exact h first' rest' hsent'

/-- Writing our `Hello`. -/
theorem consistent_start (hsent : p.sent = []) (hheard : p.heard = none)
    (nonce : Option HelloNonce) (write : Except TransportError Unit) :
    (p.start proto nonce write).Consistent proto blake3 signed := by
  have hspoke : ∀ opened, ({ p with opened := opened }).Spoke proto := by
    intro opened bytes rest hcons
    rw [hsent] at hcons
    cases hcons
  unfold start
  rcases nonce with _ | nonce
  · exact consistent_fail (hspoke p.opened) _
  dsimp only
  rcases henc : encodeHelloFrame proto (p.params.hello nonce) p.params.ourChannelMaxFrameSize with
    e | bytes
  · exact consistent_fail (hspoke (some nonce)) _
  have hspoke' : ({ p with opened := some nonce, sent := p.sent ++ [bytes] }).Spoke proto := by
    intro first rest hcons
    rw [hsent] at hcons
    obtain ⟨rfl, -⟩ := List.cons.inj hcons
    exact ⟨nonce, rfl, henc⟩
  dsimp only
  rcases write with e | _
  · exact consistent_fail hspoke' _
  · refine ⟨⟨rfl, rfl, ?_, hheard⟩, hspoke'⟩
    exact List.append_ne_nil_of_right_ne_nil _ (List.cons_ne_nil _ _)

/-- Checking the peer's `Hello`. -/
theorem consistent_onHello {s : AwaitingPeerHello} (hphase : p.phase = .awaitingPeerHello s)
    (h : p.Consistent proto blake3 signed) (hello : PeerHello) (now : UnixTime) :
    (p.onHello ecdsa blake3 s hello now).Consistent proto blake3 signed := by
  have hknows := h.knows
  unfold Knows at hknows
  rw [hphase] at hknows
  obtain ⟨hversions, hopened, hsent, -⟩ := hknows
  unfold onHello
  rcases hon : s.onPeerHello ecdsa blake3 hello p.params.authenticatedPeer now with
    e | ⟨s', request⟩
  · exact ⟨trivial, h.spoke⟩
  · obtain ⟨hversion, hjoined, hidentity, -, hnonce⟩ := onPeerHello_eq_ok hon
    rw [hversions] at hversion
    refine ⟨⟨hello, rfl, ?_, hsent, hversion, hjoined, hidentity⟩, h.spoke⟩
    rw [hnonce]
    exact hopened

/-- Signing the peer's nonce. -/
theorem consistent_onVerdict {s : AwaitingVerification} {request : AttestationRequest}
    (hphase : p.phase = .awaitingVerification s request) (h : p.Consistent proto blake3 signed)
    (verdict : Except Text TrustTier) (keyStore : KeyStore) (write : Except TransportError Unit) :
    (p.onVerdict proto s verdict keyStore write).2.Consistent proto blake3 signed := by
  have hknows := h.knows
  unfold Knows at hknows
  rw [hphase] at hknows
  obtain ⟨hello, hheard, hopened, hsent, hmet⟩ := hknows
  unfold onVerdict
  rcases verdict with message | tier
  · exact consistent_fail h.spoke _
  dsimp only
  rcases hon : s.onVerified tier keyStore p.params.ourChannelMaxFrameSize with e | ⟨s', ack⟩
  · exact ⟨trivial, h.spoke⟩
  obtain ⟨rfl, -⟩ := onVerified_eq_ok hon
  dsimp only
  rcases encodeHelloAckFrame proto ack p.params.ourChannelMaxFrameSize with e | bytes
  · exact ⟨trivial, h.spoke⟩
  dsimp only
  rcases write with e | _
  · exact ⟨trivial, h.spoke.append hsent⟩
  · exact ⟨⟨hello, hheard, hopened, hmet, rfl⟩, h.spoke.append hsent⟩

/-- Reading the peer's `HelloAck`, when what verifies was signed. -/
theorem consistent_receiveAck {s : AwaitingPeerAck} (hphase : p.phase = .awaitingPeerAck s)
    (h : p.Consistent proto blake3 signed) (incoming : Except HandshakeError Frame)
    (hsigned : ∀ ack, readAck proto incoming = .ok ack →
      Signed ecdsa s.peerIdentity.identityPub .hello s.ourNonce.bytes.val ack.nonceSignature →
      signed s.peerIdentity.identityPub s.ourNonce) :
    (p.receiveAck proto ecdsa s incoming).Consistent proto blake3 signed := by
  have hknows := h.knows
  unfold Knows at hknows
  rw [hphase] at hknows
  obtain ⟨hello, hheard, hopened, hmet, hverdict⟩ := hknows
  unfold receiveAck
  rcases hread : readAck proto incoming with e | ack
  · exact consistent_fail h.spoke _
  dsimp only
  rcases hon : s.onPeerHelloAck ecdsa ack with e | session
  · exact ⟨trivial, h.spoke⟩
  · obtain ⟨hverifies, -, rfl⟩ := onPeerHelloAck_eq_ok hon
    have hid : s.peerIdentity.identityPub = hello.identityPub := by rw [hmet.identity]
    refine ⟨⟨hello, s.ourNonce, hheard, hopened, hmet, hverdict, ?_, ?_⟩, h.spoke⟩
    · rw [hmet.identity]
    · rw [← hid]
      exact hsigned ack hread hverifies

/-- **What a party knows stays right**, if a nonce signature that verifies was made by the key
it is of. -/
theorem consistent_step (h : p.Consistent proto blake3 signed) (input : HandshakeInput)
    (hsigned : ∀ s incoming ack, p.phase = .awaitingPeerAck s → input = .peerAck incoming →
      readAck proto incoming = .ok ack →
      Signed ecdsa s.peerIdentity.identityPub .hello s.ourNonce.bytes.val ack.nonceSignature →
      signed s.peerIdentity.identityPub s.ourNonce) :
    (p.step proto ecdsa blake3 input).2.Consistent proto blake3 signed := by
  have hknows := h.knows
  unfold step
  split
  · rename_i nonce write hphase
    unfold Knows at hknows
    rw [hphase] at hknows
    exact consistent_start hknows.2.1 hknows.2.2 nonce write
  · rename_i incoming nonce write now hphase
    unfold Knows at hknows
    rw [hphase] at hknows
    have hstart : (p.start proto nonce write).Consistent proto blake3 signed :=
      consistent_start hknows.2.1 hknows.2.2 nonce write
    dsimp only
    unfold answer
    rcases readHello proto incoming with e | hello
    · exact consistent_fail h.spoke _
    · dsimp only
      split
      · rename_i s hs
        exact consistent_onHello hs hstart hello now
      · exact hstart
  · rename_i s incoming now hphase
    dsimp only
    unfold receiveHello
    rcases readHello proto incoming with e | hello
    · exact consistent_fail h.spoke _
    · exact consistent_onHello hphase h hello now
  · rename_i s request verdict keyStore write hphase
    exact consistent_onVerdict hphase h verdict keyStore write
  · rename_i s incoming hphase
    exact consistent_receiveAck hphase h incoming fun ack => hsigned s incoming ack hphase rfl
  · exact h

/-! ### What a step leaves alone -/

/-- The peer's `Hello` has not been read yet. -/
def Early (p : Party) : Prop :=
  p.phase = .starting ∨ ∃ s, p.phase = .awaitingPeerHello s

/-- A party that has ended is not early. -/
theorem not_early_fail (p : Party) (e : HandshakeError) : ¬(p.fail e).Early := by
  rintro (h | ⟨s, h⟩)
  · cases h
  · cases h

@[simp] theorem fail_params (e : HandshakeError) : (p.fail e).params = p.params := rfl

@[simp] theorem fail_opened (e : HandshakeError) : (p.fail e).opened = p.opened := rfl

@[simp] theorem fail_heard (e : HandshakeError) : (p.fail e).heard = p.heard := rfl

variable (proto p) in
/-- Writing our `Hello` changes neither the parameters nor what was heard. -/
theorem start_frame (nonce : Option HelloNonce) (write : Except TransportError Unit) :
    (p.start proto nonce write).params = p.params ∧
      (p.start proto nonce write).heard = p.heard := by
  unfold start
  split
  · exact ⟨rfl, rfl⟩
  · split
    · exact ⟨rfl, rfl⟩
    · split
      · exact ⟨rfl, rfl⟩
      · exact ⟨rfl, rfl⟩

variable (ecdsa blake3 p) in
/-- Checking a `Hello` records it, and changes neither the parameters nor the nonce. -/
theorem onHello_frame (s : AwaitingPeerHello) (hello : PeerHello) (now : UnixTime) :
    (p.onHello ecdsa blake3 s hello now).params = p.params ∧
      (p.onHello ecdsa blake3 s hello now).opened = p.opened ∧
      (p.onHello ecdsa blake3 s hello now).heard = some hello ∧
      ¬(p.onHello ecdsa blake3 s hello now).Early := by
  unfold onHello
  split
  · exact ⟨rfl, rfl, rfl, not_early_fail _ _⟩
  · refine ⟨rfl, rfl, rfl, ?_⟩
    rintro (h | ⟨s, h⟩)
    · cases h
    · cases h

variable (proto ecdsa blake3 p) in
/-- A `Hello` that is read first. -/
theorem answer_frame (incoming : Except HandshakeError Frame) (nonce : Option HelloNonce)
    (write : Except TransportError Unit) (now : UnixTime) :
    (p.answer proto ecdsa blake3 incoming nonce write now).params = p.params ∧
      (∀ hello, (p.answer proto ecdsa blake3 incoming nonce write now).heard = some hello →
        p.heard = some hello ∨ readHello proto incoming = .ok hello) ∧
      ¬(p.answer proto ecdsa blake3 incoming nonce write now).Early := by
  obtain ⟨hparams, hheard⟩ := start_frame proto p nonce write
  unfold answer
  rcases hread : readHello proto incoming with e | hello
  · exact ⟨rfl, fun _ h => .inl h, not_early_fail _ _⟩
  dsimp only
  split
  · rename_i s hs
    obtain ⟨hparams', -, hheard', hlate⟩ := onHello_frame ecdsa blake3
      (p.start proto nonce write) s hello now
    refine ⟨hparams'.trans hparams, ?_, hlate⟩
    intro hello' h
    rw [hheard'] at h
    exact .inr (congrArg _ (Option.some.inj h))
  · rename_i hphase
    refine ⟨hparams, ?_, ?_⟩
    · intro hello' h
      rw [hheard] at h
      exact .inl h
    · rintro (h | ⟨s, h⟩)
      · unfold start at h
        split at h
        · cases h
        · split at h
          · cases h
          · split at h
            · cases h
            · cases h
      · exact hphase s h

variable (proto ecdsa blake3 p) in
/-- A `Hello` that is read after ours was written. -/
theorem receiveHello_frame (s : AwaitingPeerHello) (incoming : Except HandshakeError Frame)
    (now : UnixTime) :
    (p.receiveHello proto ecdsa blake3 s incoming now).params = p.params ∧
      (p.receiveHello proto ecdsa blake3 s incoming now).opened = p.opened ∧
      (∀ hello, (p.receiveHello proto ecdsa blake3 s incoming now).heard = some hello →
        p.heard = some hello ∨ readHello proto incoming = .ok hello) ∧
      ¬(p.receiveHello proto ecdsa blake3 s incoming now).Early := by
  unfold receiveHello
  rcases hread : readHello proto incoming with e | hello
  · exact ⟨rfl, rfl, fun _ h => .inl h, not_early_fail _ _⟩
  obtain ⟨hparams, hopened, hheard, hlate⟩ := onHello_frame ecdsa blake3 p s hello now
  refine ⟨hparams, hopened, ?_, hlate⟩
  intro hello' h
  rw [hheard] at h
  exact .inr (congrArg _ (Option.some.inj h))

variable (proto p) in
/-- Signing the peer's nonce changes nothing that was settled before. -/
theorem onVerdict_frame (s : AwaitingVerification) (verdict : Except Text TrustTier)
    (keyStore : KeyStore) (write : Except TransportError Unit) :
    (p.onVerdict proto s verdict keyStore write).2.params = p.params ∧
      (p.onVerdict proto s verdict keyStore write).2.opened = p.opened ∧
      (p.onVerdict proto s verdict keyStore write).2.heard = p.heard ∧
      ¬(p.onVerdict proto s verdict keyStore write).2.Early := by
  unfold onVerdict
  rcases verdict with message | tier
  · exact ⟨rfl, rfl, rfl, not_early_fail _ _⟩
  dsimp only
  rcases s.onVerified tier keyStore p.params.ourChannelMaxFrameSize with e | ⟨s', ack⟩
  · exact ⟨rfl, rfl, rfl, not_early_fail _ _⟩
  dsimp only
  rcases encodeHelloAckFrame proto ack p.params.ourChannelMaxFrameSize with e | bytes
  · exact ⟨rfl, rfl, rfl, not_early_fail _ _⟩
  dsimp only
  rcases write with e | _
  · exact ⟨rfl, rfl, rfl, not_early_fail _ _⟩
  · refine ⟨rfl, rfl, rfl, ?_⟩
    rintro (h | ⟨s, h⟩)
    · cases h
    · cases h

variable (proto ecdsa p) in
/-- Nor does reading the peer's `HelloAck`. -/
theorem receiveAck_frame (s : AwaitingPeerAck) (incoming : Except HandshakeError Frame) :
    (p.receiveAck proto ecdsa s incoming).params = p.params ∧
      (p.receiveAck proto ecdsa s incoming).opened = p.opened ∧
      (p.receiveAck proto ecdsa s incoming).heard = p.heard ∧
      ¬(p.receiveAck proto ecdsa s incoming).Early := by
  unfold receiveAck
  split
  · exact ⟨rfl, rfl, rfl, not_early_fail _ _⟩
  · refine ⟨rfl, rfl, rfl, ?_⟩
    rintro (h | ⟨s, h⟩)
    · cases h
    · cases h

variable (ecdsa) in
/-- **What a step leaves alone**: the parameters and the nonce, and the peer's `Hello` once it
was read. Only starting leaves it unread. -/
theorem step_frame (h : p.Consistent proto blake3 signed) (input : HandshakeInput) :
    (p.step proto ecdsa blake3 input).2.params = p.params ∧
      (∀ nonce, p.opened = some nonce →
        (p.step proto ecdsa blake3 input).2.opened = some nonce) ∧
      (∀ hello, (p.step proto ecdsa blake3 input).2.heard = some hello →
        p.heard = some hello ∨ p.Early ∧ ∃ incoming, input.helloFrame = some incoming ∧
          readHello proto incoming = .ok hello) ∧
      (p.phase.awaits input = true → (∃ nonce write, input = .start nonce write) ∨
        ¬(p.step proto ecdsa blake3 input).2.Early) := by
  have hknows := h.knows
  unfold step
  split
  · rename_i nonce write hphase
    unfold Knows at hknows
    rw [hphase] at hknows
    obtain ⟨hparams, hheard⟩ := start_frame proto p nonce write
    refine ⟨hparams, ?_, ?_, fun _ => .inl ⟨nonce, write, rfl⟩⟩
    · intro n hn
      rw [hknows.1] at hn
      cases hn
    · intro hello hh
      exact .inl (hheard.symm.trans hh)
  · rename_i incoming nonce write now hphase
    unfold Knows at hknows
    rw [hphase] at hknows
    obtain ⟨hparams, hheard, hlate⟩ := answer_frame proto ecdsa blake3 p incoming nonce write now
    refine ⟨hparams, ?_, ?_, fun _ => .inr hlate⟩
    · intro n hn
      rw [hknows.1] at hn
      cases hn
    · intro hello hh
      exact (hheard hello hh).imp id fun hr => ⟨.inl hphase, incoming, rfl, hr⟩
  · rename_i s incoming now hphase
    obtain ⟨hparams, hopened, hheard, hlate⟩ :=
      receiveHello_frame proto ecdsa blake3 p s incoming now
    refine ⟨hparams, fun n hn => hopened.trans hn, ?_, fun _ => .inr hlate⟩
    intro hello hh
    exact (hheard hello hh).imp id fun hr => ⟨.inr ⟨s, hphase⟩, incoming, rfl, hr⟩
  · rename_i s request verdict keyStore write hphase
    obtain ⟨hparams, hopened, hheard, hlate⟩ := onVerdict_frame proto p s verdict keyStore write
    exact ⟨hparams, fun n hn => hopened.trans hn, fun hello hh => .inl (hheard.symm.trans hh),
      fun _ => .inr hlate⟩
  · rename_i s incoming hphase
    obtain ⟨hparams, hopened, hheard, hlate⟩ := receiveAck_frame proto ecdsa p s incoming
    exact ⟨hparams, fun n hn => hopened.trans hn, fun hello hh => .inl (hheard.symm.trans hh),
      fun _ => .inr hlate⟩
  · rename_i h1 h2 h3 h4 h5
    refine ⟨rfl, fun _ hn => hn, fun _ hh => .inl hh, ?_⟩
    intro hawaits
    unfold HandshakePhase.awaits at hawaits
    split at hawaits
    · rename_i nonce write hp
      exact absurd rfl (h1 nonce write hp)
    · rename_i incoming nonce write now hp
      exact absurd rfl (h2 incoming nonce write now hp)
    · rename_i s incoming now hp
      exact absurd rfl (h3 s incoming now hp)
    · rename_i s request verdict keyStore write hp
      exact absurd rfl (h4 s request verdict keyStore write hp)
    · rename_i s incoming hp
      exact absurd rfl (h5 s incoming hp)
    · cases hawaits

/-- A nonce that is new was drawn in this step. -/
theorem opened_of_step {input : HandshakeInput} {nonce : HelloNonce}
    (h : (p.step proto ecdsa blake3 input).2.opened = some nonce) :
    p.opened = some nonce ∨ input.drawn = some nonce := by
  have hstart : ∀ {drawn : Option HelloNonce} {write : Except TransportError Unit},
      (p.start proto drawn write).opened = some nonce →
        p.opened = some nonce ∨ drawn = some nonce := by
    intro drawn write h
    unfold start at h
    rcases drawn with _ | drawn
    · exact .inl h
    · dsimp only at h
      split at h
      · exact .inr h
      · split at h
        · exact .inr h
        · exact .inr h
  unfold step at h
  split at h
  · exact hstart h
  · dsimp only at h
    unfold answer at h
    split at h
    · exact .inl h
    · split at h
      · rw [(onHello_frame ecdsa blake3 _ _ _ _).2.1] at h
        exact hstart h
      · exact hstart h
  · rename_i s incoming now hphase
    rw [(receiveHello_frame proto ecdsa blake3 p s incoming now).2.1] at h
    exact .inl h
  · rename_i s request verdict keyStore write hphase
    rw [(onVerdict_frame proto p s verdict keyStore write).2.1] at h
    exact .inl h
  · rename_i s incoming hphase
    rw [(receiveAck_frame proto ecdsa p s incoming).2.1] at h
    exact .inl h
  · exact .inl h

/-- More signatures do not make a party know less. -/
theorem Consistent.mono {signed' : PublicKeyPoint → HelloNonce → Prop}
    (h : p.Consistent proto blake3 signed) (hmono : ∀ k n, signed k n → signed' k n) :
    p.Consistent proto blake3 signed' := by
  refine ⟨?_, h.spoke⟩
  have hknows := h.knows
  unfold Knows at hknows ⊢
  split
  · rename_i hphase
    rw [hphase] at hknows
    exact hknows
  · rename_i hphase
    rw [hphase] at hknows
    exact hknows
  · rename_i hphase
    rw [hphase] at hknows
    exact hknows
  · rename_i hphase
    rw [hphase] at hknows
    exact hknows
  · rename_i hphase
    rw [hphase] at hknows
    obtain ⟨hello, nonce, hheard, hopened, hmet, hverdict, hpeer, hs⟩ := hknows
    exact ⟨hello, nonce, hheard, hopened, hmet, hverdict, hpeer, hmono _ _ hs⟩
  · trivial

end Party

/-! ### Two ends of one channel -/

/-- The one frame that was written, read under this side's own limit. -/
def readFrameWritten (limit : UInt32) (bytes : List UInt8) : Except HandshakeError Frame :=
  match ((FrameDecoder.new limit).feed bytes).nextFrame.1 with
  | .ok (some frame) => .ok frame
  | .ok none => .error .unexpectedEof
  | .error e => .error (.proto (.framing e))

/-- What is read of a frame that was written is that frame, whatever the two limits. -/
theorem readFrameWritten_eq {limit limit' : UInt32} {typeCode : UInt8}
    {payload bytes : List UInt8} {frame : Frame}
    (henc : encodeFrame typeCode payload limit' = .ok bytes)
    (h : readFrameWritten limit bytes = .ok frame) : frame = ⟨typeCode, payload⟩ := by
  have hunit := frameParser_encodeFrame henc []
  rw [List.append_nil] at hunit
  unfold readFrameWritten at h
  rw [show (FrameDecoder.new limit).feed bytes = ⟨limit, bytes, none⟩ from rfl,
    FrameDecoder.nextFrame_eq] at h
  rcases hv : frameVerdict limit bytes with _ | e | ⟨f, n⟩
  · rw [hv] at h
    cases h
  · rw [hv] at h
    cases h
  · rw [hv] at h
    obtain rfl := Except.ok.inj h
    exact (frameVerdict_unit_unique hunit hv).1

/-- Two parties, and how many of the other's frames each has read. -/
structure HelloPair where
  side : Bool → Party
  read : Bool → ℕ

/-- What happens at one side; a read fails as the channel decides, or takes the next frame
the other side wrote. -/
inductive PairMove
  | start (nonce : Option HelloNonce) (write : Except TransportError Unit)
  | answer (fault : Option HandshakeError) (nonce : Option HelloNonce)
    (write : Except TransportError Unit) (now : UnixTime)
  | peerHello (fault : Option HandshakeError) (now : UnixTime)
  | verified (verdict : Except Text TrustTier) (keyStore : KeyStore)
    (write : Except TransportError Unit)
  | peerAck (fault : Option HandshakeError)

namespace HelloPair

/-- Both sides before the exchange. -/
def new (params : Bool → HandshakeParams) : HelloPair :=
  ⟨fun b => .new (params b), fun _ => 0⟩

/-- What a side reads: nothing yet, a failure, or the next frame of the other side. -/
def incoming (x : HelloPair) (b : Bool) (fault : Option HandshakeError) :
    Option (Except HandshakeError Frame) :=
  match fault with
  | some e => some (.error e)
  | none =>
    ((x.side !b).sent[x.read b]?).map (readFrameWritten (x.side b).params.ourChannelMaxFrameSize)

/-- The input of a move, and how many frames it reads. -/
def input (x : HelloPair) (b : Bool) : PairMove → Option (ℕ × HandshakeInput)
  | .start nonce write => some (0, .start nonce write)
  | .answer fault nonce write now =>
    (x.incoming b fault).map fun frame => (1, .answer frame nonce write now)
  | .peerHello fault now => (x.incoming b fault).map fun frame => (1, .peerHello frame now)
  | .verified verdict keyStore write => some (0, .verified verdict keyStore write)
  | .peerAck fault => (x.incoming b fault).map fun frame => (1, .peerAck frame)

variable (proto : HelloProto) (ecdsa : Signatures) (blake3 : Blake3)

/-- One side goes on, if it waits for this and the other side has written what it reads. -/
def step (x : HelloPair) (act : Bool × PairMove) : Unit × HelloPair :=
  match x.input act.1 act.2 with
  | none => ((), x)
  | some (n, input) =>
    if (x.side act.1).phase.awaits input then
      ((), ⟨Function.update x.side act.1 ((x.side act.1).step proto ecdsa blake3 input).2,
        Function.update x.read act.1 (x.read act.1 + n)⟩)
    else ((), x)

/-- What holds of both sides throughout: each is consistent, has read nothing before the
other's `Hello`, and heard the `Hello` the other sent. -/
structure Inv (x : HelloPair) : Prop where
  consistent : ∀ b, (x.side b).Consistent proto blake3 fun _ _ => True
  unread : ∀ b, (x.side b).Early → x.read b = 0
  heard : ∀ b hello, (x.side b).heard = some hello → ∃ nonce,
    (x.side !b).opened = some nonce ∧ hello = (x.side !b).params.hello nonce

variable {proto ecdsa blake3} {x : HelloPair}

/-- What a side reads as the other's `Hello` is the other's `Hello`. -/
theorem hello_of_incoming (h : x.Inv proto blake3)
    (hproto : ∀ b nonce, proto.decodeHello (proto.encodeHello
      (peerHelloToWire ((x.side b).params.hello nonce))) =
        some (peerHelloToWire ((x.side b).params.hello nonce)))
    {b : Bool} {fault : Option HandshakeError} {frame : Except HandshakeError Frame}
    (hearly : (x.side b).Early) (hin : x.incoming b fault = some frame) {hello : PeerHello}
    (hread : Party.readHello proto frame = .ok hello) :
    ∃ nonce, (x.side !b).opened = some nonce ∧ hello = (x.side !b).params.hello nonce := by
  obtain ⟨f, hframe, hdecode⟩ := bind_eq_ok.mp hread
  unfold incoming at hin
  rcases fault with _ | e
  · rw [h.unread b hearly] at hin
    obtain ⟨bytes, hbytes, hin⟩ := Option.map_eq_some_iff.mp hin
    rw [hframe] at hin
    rcases hsent : (x.side !b).sent with _ | ⟨first, rest⟩
    · rw [hsent] at hbytes
      cases hbytes
    · rw [hsent] at hbytes
      obtain rfl := Option.some.inj hbytes
      obtain ⟨nonce, hopened, henc⟩ := (h.consistent !b).spoke first rest hsent
      refine ⟨nonce, hopened, ?_⟩
      obtain rfl := readFrameWritten_eq (mapError_eq_ok.mp henc) hin
      rw [mapError_eq_ok, decodeHelloFrame_of_reads (hproto (!b) nonce)] at hdecode
      exact (Except.ok.inj hdecode).symm
  · rw [hframe] at hin
    cases hin

/-- Where the `Hello` in an input came from. -/
theorem incoming_of_input {b : Bool} {move : PairMove} {n : ℕ} {input : HandshakeInput}
    (h : x.input b move = some (n, input)) {frame : Except HandshakeError Frame}
    (hframe : input.helloFrame = some frame) : ∃ fault, x.incoming b fault = some frame := by
  cases move with
  | start nonce write =>
      cases h
      cases hframe
  | answer fault nonce write now =>
      obtain ⟨frame', hin, h⟩ := Option.map_eq_some_iff.mp h
      cases h
      cases hframe
      exact ⟨fault, hin⟩
  | peerHello fault now =>
      obtain ⟨frame', hin, h⟩ := Option.map_eq_some_iff.mp h
      cases h
      cases hframe
      exact ⟨fault, hin⟩
  | verified verdict keyStore write =>
      cases h
      cases hframe
  | peerAck fault =>
      obtain ⟨frame', hin, h⟩ := Option.map_eq_some_iff.mp h
      cases h
      cases hframe

/-- Starting reads no frame. -/
theorem input_start {b : Bool} {move : PairMove} {n : ℕ} {nonce : Option HelloNonce}
    {write : Except TransportError Unit} (h : x.input b move = some (n, .start nonce write)) :
    n = 0 := by
  cases move with
  | start nonce' write' =>
      cases h
      rfl
  | verified verdict keyStore write' => cases h
  | answer fault nonce' write' now =>
      obtain ⟨frame', -, h⟩ := Option.map_eq_some_iff.mp h
      cases h
  | peerHello fault now =>
      obtain ⟨frame', -, h⟩ := Option.map_eq_some_iff.mp h
      cases h
  | peerAck fault =>
      obtain ⟨frame', -, h⟩ := Option.map_eq_some_iff.mp h
      cases h

/-- The parameters of the two sides, and that protobuf reads their `Hello`s back. -/
def Runs (proto : HelloProto) (params : Bool → HandshakeParams) (x : HelloPair) : Prop :=
  (∀ b, (x.side b).params = params b) ∧
    ∀ b nonce, proto.decodeHello (proto.encodeHello
      (peerHelloToWire ((params b).hello nonce))) = some (peerHelloToWire ((params b).hello nonce))

/-- One step keeps both sides as they should be. -/
theorem inv_step {params : Bool → HandshakeParams} (hruns : x.Runs proto params)
    (h : x.Inv proto blake3) (act : Bool × PairMove) :
    (x.step proto ecdsa blake3 act).2.Inv proto blake3 ∧
      (x.step proto ecdsa blake3 act).2.Runs proto params := by
  obtain ⟨b, move⟩ := act
  unfold step
  dsimp only
  rcases hinput : x.input b move with _ | ⟨n, input⟩
  · exact ⟨h, hruns⟩
  dsimp only
  split_ifs with hawaits
  swap
  · exact ⟨h, hruns⟩
  obtain ⟨hparams, hopened, hheard, hlate⟩ :=
    Party.step_frame ecdsa (h.consistent b) input
  set p' := ((x.side b).step proto ecdsa blake3 input).2 with hp'
  have hself : Function.update x.side b p' b = p' := Function.update_self ..
  have hother : Function.update x.side b p' (!b) = x.side !b :=
    Function.update_of_ne (by simp) ..
  have hread : ∀ hello, p'.heard = some hello → ∃ nonce,
      (x.side !b).opened = some nonce ∧ hello = (x.side !b).params.hello nonce := by
    intro hello hh
    rcases hheard hello hh with hold | ⟨hearly, frame, hframe, hfresh⟩
    · exact h.heard b hello hold
    · obtain ⟨fault, hin⟩ := incoming_of_input hinput hframe
      refine hello_of_incoming h ?_ hearly hin hfresh
      intro b' nonce
      rw [hruns.1 b']
      exact hruns.2 b' nonce
  refine ⟨⟨?_, ?_, ?_⟩, ?_, hruns.2⟩
  · intro b'
    by_cases hb : b' = b
    · subst hb
      dsimp only
      rw [hself]
      exact Party.consistent_step (h.consistent b') input fun _ _ _ _ _ _ _ => trivial
    · dsimp only
      rw [Function.update_of_ne hb]
      exact h.consistent b'
  · intro b' hearly
    by_cases hb : b' = b
    · subst hb
      dsimp only at hearly ⊢
      rw [hself] at hearly
      rcases hlate hawaits with ⟨nonce, write, rfl⟩ | hnot
      · obtain rfl := input_start hinput
        have hstarting : (x.side b').Early := by
          left
          unfold HandshakePhase.awaits at hawaits
          split at hawaits
          · assumption
          all_goals contradiction
        rw [Function.update_self, h.unread b' hstarting]
      · exact absurd hearly hnot
    · dsimp only at hearly ⊢
      rw [Function.update_of_ne hb] at hearly ⊢
      exact h.unread b' hearly
  · intro b' hello hh
    by_cases hb : b' = b
    · subst hb
      dsimp only at hh ⊢
      rw [hself] at hh
      rw [hother]
      exact hread hello hh
    · obtain rfl : b' = !b := by
        cases b <;> cases b' <;> simp_all
      dsimp only at hh ⊢
      rw [hother] at hh
      rw [Bool.not_not, hself, hparams]
      obtain ⟨nonce, hnonce, rfl⟩ := h.heard (!b) hello hh
      rw [Bool.not_not] at hnonce
      refine ⟨nonce, hopened nonce hnonce, ?_⟩
      rw [Bool.not_not]
  · intro b'
    by_cases hb : b' = b
    · subst hb
      dsimp only
      rw [hself, hparams]
      exact hruns.1 b'
    · dsimp only
      rw [Function.update_of_ne hb]
      exact hruns.1 b'

variable (ecdsa) in
/-- Both sides are as they should be after every run. -/
theorem inv_run {params : Bool → HandshakeParams}
    (hproto : ∀ b nonce, proto.decodeHello (proto.encodeHello
      (peerHelloToWire ((params b).hello nonce))) = some (peerHelloToWire ((params b).hello nonce)))
    (acts : List (Bool × PairMove)) :
    (Machine.run (step proto ecdsa blake3) (new params) acts).2.Inv proto blake3 ∧
      (Machine.run (step proto ecdsa blake3) (new params) acts).2.Runs proto params := by
  refine Machine.run_invariant (step proto ecdsa blake3)
    (I := fun _ x => x.Inv proto blake3 ∧ x.Runs proto params) ?_ ?_ acts
  · refine ⟨⟨fun b => Party.consistent_new (params b), fun _ _ => rfl, ?_⟩, fun _ => rfl, hproto⟩
    rintro b hello ⟨⟩
  · rintro _ x act ⟨hinv, hruns⟩
    exact inv_step hruns hinv act

/-- The session of a side, in the terms of both sides' parameters. -/
structure Agreed (blake3 : Blake3) (ours theirs : HandshakeParams) (session : Session) : Prop where
  supported : ours.ourVersions.Supports session.negotiatedVersion ∧
    theirs.ourVersions.Supports session.negotiatedVersion
  greatest : ∀ v, ours.ourVersions.Supports v → theirs.ourVersions.Supports v →
    v ≤ session.negotiatedVersion
  peer : session.peer = ours.authenticatedPeer
  joined : blake3.deviceIdOf theirs.ourIdentity.identityPub = session.peer
  identity : session.peerIdentity.identityPub = theirs.ourIdentity.identityPub

/-- A session of one side agrees with the parameters of both. -/
theorem agreed_of_ended {params : Bool → HandshakeParams} (hruns : x.Runs proto params)
    (h : x.Inv proto blake3) {b : Bool} {session : Session}
    (hphase : (x.side b).phase = .ended (.ok session)) :
    Agreed blake3 (params b) (params !b) session := by
  have hknows := (h.consistent b).knows
  unfold Party.Knows at hknows
  rw [hphase] at hknows
  obtain ⟨hello, nonce, hheard, -, hmet, -, hpeer, -⟩ := hknows
  obtain ⟨nonce', -, rfl⟩ := h.heard b hello hheard
  have hversion := hmet.version
  have hjoined := hmet.joined
  rw [hruns.1 b, hruns.1 !b] at hversion hjoined
  rw [hruns.1 b] at hpeer
  obtain ⟨hsupported, hgreatest⟩ := negotiateVersion_eq_ok.mp hversion
  refine ⟨hsupported, hgreatest, hpeer, hjoined.trans hpeer.symm, ?_⟩
  rw [hmet.identity, hruns.1 !b]
  rfl

end HelloPair

/-! ### A device among strangers -/

/-- A signature that was made: the identity key it is of, the context and the message. -/
structure SigningEvent where
  identityPub : PublicKeyPoint
  domain : DomainTag
  message : List UInt8
  deriving DecidableEq

/-- The handshakes of a device, each with how many signatures had been made when it drew its
nonce, and all signatures made so far. -/
structure HelloWorld where
  parties : ℕ → Option Party
  openedAt : ℕ → ℕ
  log : List SigningEvent

/-- What happens: a connection, something at one of the handshakes, or a signature of some
other device. -/
inductive HelloWorldAction
  | connect (n : ℕ) (params : HandshakeParams)
  | input (n : ℕ) (i : HandshakeInput)
  | sign (event : SigningEvent)

/-- The signature is no forgery: where it verifies, the holder of the key has signed these
bytes. -/
def Unforged (ecdsa : Signatures) (log : List SigningEvent) (signature : Signature) : Prop :=
  ∀ (identityPub : PublicKeyPoint) key payload raw,
    ecdsa.fromSec1Bytes identityPub.bytes.val = some key →
    ecdsa.fromSlice signature.bytes = some raw → ecdsa.verify key payload raw = true →
    ∃ event ∈ log, event.identityPub = identityPub ∧
      event.domain.payload event.message = .ok payload

namespace HelloWorld

variable (proto : HelloProto) (ecdsa : Signatures) (blake3 : Blake3) (own : PublicIdentity)

/-- A device that has met nobody yet. -/
def new : HelloWorld := ⟨fun _ => none, fun _ => 0, []⟩

/-- When a nonce is drawn, note how many signatures had been made. -/
def noteOpening (w : HelloWorld) (n : ℕ) (i : HandshakeInput) (p : Party) : ℕ → ℕ :=
  if i.drawn.isSome ∧ p.opened = none then Function.update w.openedAt n w.log.length
  else w.openedAt

/-- What happens to the device and to the log. -/
def step (w : HelloWorld) : HelloWorldAction → Unit × HelloWorld
  | .connect n params =>
    match w.parties n with
    | none =>
      ((), { w with
        parties := Function.update w.parties n (some (.new { params with ourIdentity := own })) })
    | some _ => ((), w)
  | .input n i =>
    match w.parties n with
    | none => ((), w)
    | some p =>
      ((), { parties := Function.update w.parties n (some (p.step proto ecdsa blake3 i).2)
             openedAt := w.noteOpening n i p
             log := w.log ++ (p.step proto ecdsa blake3 i).1.toList.map fun nonce =>
               ⟨own.identityPub, .hello, nonce.bytes.val⟩ })
  | .sign event => ((), { w with log := w.log ++ [event] })

/-- What the world may do: a nonce that is drawn is fresh, a signature is no forgery, and
nobody else signs with this device's key. -/
def Admissible (w : HelloWorld) : HelloWorldAction → Prop
  | .connect _ _ => True
  | .input _ i =>
    (∀ nonce, i.drawn = some nonce → ∀ event ∈ w.log, event.domain = .hello →
      event.message ≠ nonce.bytes.val) ∧
    ∀ frame ack, i = .peerAck frame → Party.readAck proto frame = .ok ack →
      Unforged ecdsa w.log ack.nonceSignature
  | .sign event => event.identityPub ≠ own.identityPub

/-- The holder of an identity key has signed a nonce. -/
def HasSigned (w : HelloWorld) (identityPub : PublicKeyPoint) (nonce : HelloNonce) : Prop :=
  ⟨identityPub, .hello, nonce.bytes.val⟩ ∈ w.log

/-- What holds throughout: each handshake is consistent with the signatures that were made,
and none of them is older than the nonce it is of. -/
structure Inv (w : HelloWorld) : Prop where
  consistent : ∀ n p, w.parties n = some p → p.Consistent proto blake3 w.HasSigned
  bound : ∀ n, w.openedAt n ≤ w.log.length
  fresh : ∀ n p nonce, w.parties n = some p → p.opened = some nonce →
    ∀ event ∈ w.log.take (w.openedAt n), event.domain = .hello → event.message ≠ nonce.bytes.val

variable {proto ecdsa blake3 own} {w : HelloWorld}

/-- A signature of a nonce that verifies and is no forgery was made. -/
theorem hasSigned_of_unforged {identityPub : PublicKeyPoint} {nonce : HelloNonce}
    {signature : Signature} (hunforged : Unforged ecdsa w.log signature)
    (h : Signed ecdsa identityPub .hello nonce.bytes.val signature) :
    w.HasSigned identityPub nonce := by
  obtain ⟨key, hkey, hverifies⟩ := h
  have hpoint : ecdsa.fromSec1Bytes identityPub.bytes.val = some key := by
    unfold parseVerifyingKey at hkey
    split at hkey
    · rename_i key' hsome
      rw [hsome, Except.ok.inj hkey]
    · cases hkey
  unfold signatureVerifies at hverifies
  split at hverifies
  · rename_i payload raw hpayload hraw
    obtain ⟨event, hmem, hpub, hevent⟩ :=
      hunforged identityPub key payload raw hpoint hraw hverifies
    obtain ⟨hdomain, hmessage⟩ := payload_hello_inj hevent hpayload
    unfold HasSigned
    rw [← hpub, ← hdomain, ← hmessage]
    exact hmem
  · cases hverifies

/-- More is signed, and nothing is unsigned. -/
theorem inv_log (h : w.Inv proto blake3) (more : List SigningEvent) :
    ({ w with log := w.log ++ more } : HelloWorld).Inv proto blake3 := by
  refine ⟨?_, ?_, ?_⟩
  · intro n p hp
    exact (h.consistent n p hp).mono fun _ _ hs => List.mem_append_left _ hs
  · intro n
    dsimp only
    rw [List.length_append]
    exact Nat.le_add_right_of_le (h.bound n)
  · intro n p nonce hp hopened
    dsimp only
    rw [List.take_append_of_le_length (h.bound n)]
    exact h.fresh n p nonce hp hopened

/-- One handshake is replaced by another. -/
theorem inv_setParty (h : w.Inv proto blake3) {n : ℕ} {p : Party} {openedAt : ℕ → ℕ}
    (hp : p.Consistent proto blake3 w.HasSigned) (hbound : openedAt n ≤ w.log.length)
    (hother : ∀ m, m ≠ n → openedAt m = w.openedAt m)
    (hfresh : ∀ nonce, p.opened = some nonce → ∀ event ∈ w.log.take (openedAt n),
      event.domain = .hello → event.message ≠ nonce.bytes.val) :
    (⟨Function.update w.parties n (some p), openedAt, w.log⟩ : HelloWorld).Inv proto blake3 := by
  refine ⟨?_, ?_, ?_⟩
  · intro m q hq
    by_cases hm : m = n
    · subst hm
      dsimp only at hq
      rw [Function.update_self] at hq
      obtain rfl := Option.some.inj hq
      exact hp
    · dsimp only at hq
      rw [Function.update_of_ne hm] at hq
      exact h.consistent m q hq
  · intro m
    by_cases hm : m = n
    · subst hm
      exact hbound
    · dsimp only
      rw [hother m hm]
      exact h.bound m
  · intro m q nonce hq hopened event hevent
    by_cases hm : m = n
    · subst hm
      dsimp only at hq
      rw [Function.update_self] at hq
      obtain rfl := Option.some.inj hq
      exact hfresh nonce hopened event hevent
    · dsimp only at hq hevent
      rw [Function.update_of_ne hm] at hq
      rw [hother m hm] at hevent
      exact h.fresh m q nonce hq hopened event hevent

theorem noteOpening_of_ne {n m : ℕ} {i : HandshakeInput} {p : Party} (hm : m ≠ n) :
    w.noteOpening n i p m = w.openedAt m := by
  unfold noteOpening
  split_ifs
  · exact Function.update_of_ne hm ..
  · rfl

/-- One step keeps every handshake consistent. -/
theorem inv_world_step (h : w.Inv proto blake3) (a : HelloWorldAction)
    (hadm : w.Admissible proto ecdsa own a) :
    (w.step proto ecdsa blake3 own a).2.Inv proto blake3 := by
  cases a with
  | connect n params =>
      unfold step
      dsimp only
      split
      · refine inv_setParty h (Party.consistent_new _) (h.bound n) (fun _ _ => rfl) ?_
        rintro nonce ⟨⟩
      · exact h
  | sign event => exact inv_log h [event]
  | input n i =>
      obtain ⟨hfresh, hunforged⟩ := hadm
      unfold step
      dsimp only
      split
      · exact h
      rename_i p hp
      -- First the step of the party, then the signature it may have made.
      refine inv_log (inv_setParty h ?_ ?_ (fun m hm => noteOpening_of_ne hm) ?_) _
      · refine Party.consistent_step (h.consistent n p hp) i ?_
        intro s incoming ack _ hi hread hsigned
        exact hasSigned_of_unforged (hunforged incoming ack hi hread) hsigned
      · unfold noteOpening
        split_ifs
        · rw [Function.update_self]
        · exact h.bound n
      · intro nonce hopened event hevent
        rcases hwas : p.opened with _ | nonce'
        · rcases Party.opened_of_step hopened with hold | hdrawn
          · rw [hwas] at hold
            cases hold
          · rw [noteOpening, if_pos ⟨Option.isSome_iff_exists.mpr ⟨nonce, hdrawn⟩, hwas⟩,
              Function.update_self, List.take_length] at hevent
            exact hfresh nonce hdrawn event hevent
        · have hkeep := (Party.step_frame ecdsa (h.consistent n p hp) i).2.1 nonce' hwas
          obtain rfl := Option.some.inj (hkeep.symm.trans hopened)
          rw [noteOpening, if_neg (by simp [hwas])] at hevent
          exact h.fresh n p nonce' hp hwas event hevent

/-- Every handshake is consistent after every run the world may make. -/
theorem inv_world_run {acts : List HelloWorldAction}
    (h : Machine.Allows (step proto ecdsa blake3 own) (Admissible proto ecdsa own) new acts) :
    (Machine.run (step proto ecdsa blake3 own) new acts).2.Inv proto blake3 := by
  refine Machine.run_invariant_of_allows (step proto ecdsa blake3 own)
    (I := fun _ w => w.Inv proto blake3) ?_ ?_ h
  · refine ⟨?_, fun _ => Nat.zero_le _, ?_⟩
    · rintro n p ⟨⟩
    · rintro n p nonce ⟨⟩
  · intro _ w a hadm hinv
    exact inv_world_step hinv a hadm

/-- A session with a stranger is with the holder of the identity key the channel's device has,
who signed the nonce since it was drawn. -/
structure Authenticated (blake3 : Blake3) (own : PublicIdentity) (w : HelloWorld) (n : ℕ)
    (p : Party) (session : Session) : Prop where
  peer : session.peer = p.params.authenticatedPeer
  tier : p.verdict = some session.tier
  joined : blake3.deviceIdOf session.peerIdentity.identityPub = session.peer
  heard : ∃ hello, p.heard = some hello ∧
    hello.identityPub = session.peerIdentity.identityPub ∧ hello.identityPub ≠ own.identityPub
  signed : ∃ nonce, p.opened = some nonce ∧
    ⟨session.peerIdentity.identityPub, .hello, nonce.bytes.val⟩ ∈ w.log.drop (w.openedAt n)

/-- **A session is with the device the channel authenticated.** -/
theorem authenticated_of_ended (h : w.Inv proto blake3) {n : ℕ} {p : Party} {session : Session}
    (hp : w.parties n = some p) (hphase : p.phase = .ended (.ok session))
    (hstranger : p.params.authenticatedPeer ≠ blake3.deviceIdOf own.identityPub) :
    w.Authenticated blake3 own n p session := by
  have hknows := (h.consistent n p hp).knows
  unfold Party.Knows at hknows
  rw [hphase] at hknows
  obtain ⟨hello, nonce, hheard, hopened, hmet, hverdict, hpeer, hsigned⟩ := hknows
  have hid : session.peerIdentity.identityPub = hello.identityPub := by rw [hmet.identity]
  refine ⟨hpeer, hverdict, ?_, ⟨hello, hheard, hid.symm, ?_⟩, nonce, hopened, ?_⟩
  · rw [hid, hmet.joined, hpeer]
  · intro hown
    apply hstranger
    rw [← hmet.joined, hown]
  · have hmem : ⟨hello.identityPub, .hello, nonce.bytes.val⟩ ∈
        w.log.take (w.openedAt n) ++ w.log.drop (w.openedAt n) := by
      rw [List.take_append_drop]
      exact hsigned
    rw [hid]
    rcases List.mem_append.mp hmem with hold | hnew
    · exact absurd rfl (h.fresh n p nonce hp hopened _ hold rfl)
    · exact hnew

end HelloWorld

/-- **Two ends agree on the Hello, and no stranger passes for another device.** On one channel,
in every order of what happens at its ends, a session of either side is for the greatest
version both support and for the device the channel authenticated, which has the identity
key in the other's `Hello`; so two sessions are for the same version, without a common
version there is none, and the tier is the side's own verdict. Against anyone at all on a
channel authenticated as another device, a session takes that device's signature of the nonce
of this very handshake, made since the nonce was drawn, and the tier is again the own
verdict. -/
theorem hello_agreement (proto : HelloProto) (ecdsa : Signatures) (blake3 : Blake3)
    (params : Bool → HandshakeParams) (own : PublicIdentity)
    (hproto : ∀ b nonce, proto.decodeHello (proto.encodeHello
      (peerHelloToWire ((params b).hello nonce))) =
        some (peerHelloToWire ((params b).hello nonce))) :
    (∀ acts, let x := (Machine.run (HelloPair.step proto ecdsa blake3) (.new params) acts).2
      (∀ b session, (x.side b).phase = .ended (.ok session) →
        HelloPair.Agreed blake3 (params b) (params !b) session ∧
          (x.side b).verdict = some session.tier) ∧
      (∀ s s', (x.side true).phase = .ended (.ok s) → (x.side false).phase = .ended (.ok s') →
        s.negotiatedVersion = s'.negotiatedVersion) ∧
      ((∀ v, ¬((params true).ourVersions.Supports v ∧ (params false).ourVersions.Supports v)) →
        ∀ b session, (x.side b).phase ≠ .ended (.ok session))) ∧
    ∀ acts, Machine.Allows (HelloWorld.step proto ecdsa blake3 own)
        (HelloWorld.Admissible proto ecdsa own) .new acts →
      let w := (Machine.run (HelloWorld.step proto ecdsa blake3 own) .new acts).2
      ∀ n p session, w.parties n = some p → p.phase = .ended (.ok session) →
        p.params.authenticatedPeer ≠ blake3.deviceIdOf own.identityPub →
        w.Authenticated blake3 own n p session := by
  constructor
  · intro acts x
    obtain ⟨hinv, hruns⟩ := HelloPair.inv_run ecdsa hproto acts
    have hagreed : ∀ b session, (x.side b).phase = .ended (.ok session) →
        HelloPair.Agreed blake3 (params b) (params !b) session :=
      fun b session hphase => HelloPair.agreed_of_ended hruns hinv hphase
    refine ⟨?_, ?_, ?_⟩
    · intro b session hphase
      refine ⟨hagreed b session hphase, ?_⟩
      have hknows := (hinv.consistent b).knows
      unfold Party.Knows at hknows
      rw [hphase] at hknows
      obtain ⟨hello, nonce, -, -, -, hverdict, -⟩ := hknows
      exact hverdict
    · intro s s' hs hs'
      have h := hagreed true s hs
      have h' := hagreed false s' hs'
      exact UInt32.le_antisymm (h'.greatest _ h.supported.2 h.supported.1)
        (h.greatest _ h'.supported.2 h'.supported.1)
    · intro hnone b session hphase
      have h := (hagreed b session hphase).supported
      cases b with
      | true => exact hnone _ h
      | false => exact hnone _ h.symm
  · intro acts hallows w n p session hp hphase hstranger
    exact HelloWorld.authenticated_of_ended (HelloWorld.inv_world_run hallows) hp hphase hstranger

/-- The session of a handshake that has ended well. -/
def HandshakePhase.session? : HandshakePhase → Option Session
  | .ended (.ok session) => some session
  | _ => none

theorem HandshakePhase.eq_of_session? {phase : HandshakePhase} {session : Session}
    (h : phase.session? = some session) : phase = .ended (.ok session) := by
  unfold session? at h
  split at h
  · rw [Option.some.inj h]
  · cases h

namespace HelloPair.Sample

/-- A point in SEC-1 form. -/
def sec1 (x y : ℕ) : PublicKeyPoint :=
  ⟨⟨0x04 :: (toBE 32 x ++ toBE 32 y), length_sec1 x y⟩⟩

/-- The identity keys of the device that dials and of the one that listens. -/
def identity : Bool → PublicKeyPoint
  | true => sec1 0xd3b3153d30799f92f6246f2fb1d9245f38d8e2df65472a4b8ba152be11cf5917
      0x67457c3e6cc2f0f5cac21dd91712ae76ef87659dfdf0e19fd53aca46992062c9
  | false => sec1 0x820642d9db6d37eaf187c90c3730299f43b1964c916ed9ec21bdfdeebefb3b87
      0x726d87a4e1c8279fe9560d5d7599e5a959a923ca4068246769184f1262f5395a

/-- Their agreement keys. -/
def agreement : Bool → PublicKeyPoint
  | true => sec1 0x39ffb9fe1017e0b65d253d47b3f9dd9e10f163e8a5f7079c838095fd2c149470
      0xddfc341d4816cc3ed88cdbd6b12be123f0485689e2c02c7ecbe3ed6d2112ad8a
  | false => sec1 0xea0104c3776906676d18243c64e14e53e2a65f3b7b051c9024bd8cf523a931ce
      0x8289d1e85958430fc3a10bb6d04fa75bdb47c99ed0d6aed0d2e54fb517d1eafe

/-- The BLAKE3 hashes of their identity keys. -/
def digest : Bool → Bytes 32
  | true => .ofBE 32 0x6c5e96fe2393c4b321c9ed40671ab7ae4bd4a94efc6eea1bb28bc8b5cab828c8
  | false => .ofBE 32 0x381d779651ab7915fbfc8b00eac91da188d2f914c6562970409dc755a987a417

/-- Their words for their agreement keys. -/
def binding : Bool → List UInt8
  | true => List.flatMap (toBE 32)
      [0xf34430b7f67e8efa680368c0b9f52bbe6739245137cfb331bd85c79349496d0f,
        0x1b67e58bd35daf22718c4105aabc70982e0886b1815fcb9fc5b42fe00e668f59]
  | false => List.flatMap (toBE 32)
      [0x3321b4c18f74d8eb24cde3a735d1c2b8222720934cb1af5956731639a1b103ba,
        0x63269fcc4ed088a104f4bae8d4c5dda3cbf820e0949d06f39cf7f02dc901389e]

/-- Their nonces. -/
def nonce : Bool → HelloNonce
  | true => ⟨⟨toBE 16 0x0102030405060708090a0b0c0d0e0f10, by simp [helloNonceLen]⟩⟩
  | false => ⟨⟨toBE 16 0x2122232425262728292a2b2c2d2e2f30, by simp [helloNonceLen]⟩⟩

/-- Their signatures of each other's nonces. -/
def signature : Bool → List UInt8
  | true => List.flatMap (toBE 32)
      [0x8422ed43866f37bb42f8cb0e4a92a9bd8c2c720ade9c1877d8c9ac5052411ec1,
        0x20722156af80ab0738f6d3c0010e07393c4532d0fe594ca1be3f0ae28db97e69]
  | false => List.flatMap (toBE 32)
      [0xa8157bdd4356481f9cf4a56d7bdf7f4316381f53e228f57c48c1dc78de46d48e,
        0xa1952ece0c1489558e578e1bc0763508facbf8dc376c5d0f4bd626525afbac0e]

/-- What the two devices signed. -/
def signedPayloads : List (List UInt8 × List UInt8 × List UInt8) :=
  [true, false].flatMap fun b =>
    [((identity b).bytes.val, ascii "tradr-keybind-v1" ++ (agreement b).bytes.val, binding b),
      ((identity b).bytes.val, ascii "tradr-hello-v1" ++ (nonce !b).bytes.val, signature b)]

/-- ECDSA, as it answers about these keys. -/
def ecdsa : Signatures where
  VerifyingKey := List UInt8
  EcdsaSignature := List UInt8
  fromSec1Bytes bytes :=
    if bytes = (identity true).bytes.val ∨ bytes = (identity false).bytes.val then some bytes
    else none
  fromSlice bytes := if bytes.length = 64 then some bytes else none
  verify key payload sig := (key, payload, sig) ∈ signedPayloads

/-- BLAKE3, as it answers about these keys. -/
def blake3 : Blake3 where
  hash bytes := if bytes = (identity true).bytes.val then digest true else digest false

/-- Their lowest versions are versions. -/
theorem lowest_ne_zero : ∀ b : Bool, (if b then 1 else 2 : UInt32) ≠ 0 := by decide

/-- The one device supports the versions 1 to 3, the other 2 to 5. -/
def versions : Bool → VersionRange
  | true => ⟨1, 3, lowest_ne_zero true, by decide⟩
  | false => ⟨2, 5, lowest_ne_zero false, by decide⟩

/-- What the two handshakes are run with. -/
def params (b : Bool) : HandshakeParams where
  authenticatedPeer := .fromIdentityDigest (digest !b)
  ourChannelMaxFrameSize := 1024
  ourIdentity := ⟨identity b, agreement b, .fromIdentityDigest (digest b)⟩
  ourAttestationToken := "token".toList
  ourKeyBinding := ⟨agreement b, ⟨binding b⟩, ⟨1000⟩⟩
  ourVersions := versions b
  ourCapabilities := ⟨0⟩

/-- A device's key store. -/
def keyStore (b : Bool) : KeyStore where
  sign domain message :=
    if domain = .hello ∧ message = (nonce !b).bytes.val then .ok ⟨signature b⟩
    else .error (.backend [])
  agree _ := .error (.backend [])

/-- A protobuf field of fewer than 128 bytes. -/
def bytesField (tag : UInt8) (bytes : List UInt8) : List UInt8 :=
  tag :: UInt8.ofNat bytes.length :: bytes

/-- A device's `Hello` in protobuf up to its nonce; the device takes 134 bytes and the key
binding 136. -/
def helloHead (b : Bool) : List UInt8 :=
  [0x08, (versions b).min.toUInt8, 0x10, (versions b).max.toUInt8] ++
    [0x1a, 0x86, 0x01] ++ bytesField 0x12 (identity b).bytes.val ++
    bytesField 0x1a (agreement b).bytes.val ++
    bytesField 0x22 (bytesField 0x0a (ascii "token")) ++
    [0x2a, 0x88, 0x01] ++ bytesField 0x0a (agreement b).bytes.val ++
    bytesField 0x12 (binding b) ++ [0x18, 0xe8, 0x07] ++ [0x32, 0x10]

/-- A device's `Hello` as protobuf carries it, but for its nonce. -/
def wireHello (b : Bool) : WireHello :=
  { peerHelloToWire ((params b).hello (nonce b)) with nonce := [] }

/-- Protobuf on the messages of this exchange; the frame size takes two bytes. -/
def proto : HelloProto where
  encodeHello m :=
    if { m with nonce := [] } = wireHello true then helloHead true ++ m.nonce
    else helloHead false ++ m.nonce
  decodeHello bytes :=
    if bytes.take 291 = helloHead true then some { wireHello true with nonce := bytes.drop 291 }
    else if bytes.take 291 = helloHead false then
      some { wireHello false with nonce := bytes.drop 291 }
    else none
  encodeHelloAck m :=
    [0x08, m.negotiatedVersion.toUInt8, 0x10, (m.maxFrameSize % 128 + 128).toUInt8,
      (m.maxFrameSize / 128).toUInt8] ++ bytesField 0x1a m.nonceSignature ++
      [0x20, UInt8.ofNat m.assignedTier.toInt.toNat]
  decodeHelloAck bytes :=
    some ⟨(bytes.getD 1 0).toUInt32,
      (bytes.getD 3 0).toUInt32 % 128 + (bytes.getD 4 0).toUInt32 * 128, (bytes.drop 7).take 64,
      Int32.ofNat (bytes.getD 72 0).toNat⟩

theorem length_helloHead : (helloHead true).length = 291 ∧ (helloHead false).length = 291 ∧
    helloHead false ≠ helloHead true := by
  decide +kernel

/-- Protobuf reads both devices' `Hello`s back, whatever the nonce. -/
theorem reads (b : Bool) (n : HelloNonce) :
    proto.decodeHello (proto.encodeHello (peerHelloToWire ((params b).hello n))) =
      some (peerHelloToWire ((params b).hello n)) := by
  obtain ⟨hl, hl', hne⟩ := length_helloHead
  have hwire : ∀ b, { peerHelloToWire ((params b).hello n) with nonce := [] } = wireHello b :=
    fun _ => rfl
  have hdiffer : wireHello false ≠ wireHello true := by decide +kernel
  cases b with
  | true =>
      simp only [proto, hwire, if_true, List.take_left' hl, List.drop_left' hl]
      rfl
  | false =>
      simp only [proto, hwire, if_neg hdiffer, List.take_left' hl', List.drop_left' hl',
        if_neg hne, if_true]
      rfl

/-- What happens on the channel: the one side dials, the other answers, and each admits the
other. -/
def acts : List (Bool × PairMove) :=
  [(true, .start (some (nonce true)) (.ok ())),
    (false, .answer none (some (nonce false)) (.ok ()) ⟨0⟩),
    (true, .peerHello none ⟨0⟩),
    (true, .verified (.ok .sameAccount) (keyStore true) (.ok ())),
    (false, .verified (.ok .linked) (keyStore false) (.ok ())),
    (true, .peerAck none), (false, .peerAck none)]

/-- The session of each side. -/
def session (b : Bool) : Session where
  peer := .fromIdentityDigest (digest !b)
  peerIdentity := ⟨identity !b, agreement !b, .fromIdentityDigest (digest !b)⟩
  tier := if b then .sameAccount else .linked
  negotiatedVersion := 3
  peerMaxFrameSize := 1024

/-- Each side has its session at the end. -/
theorem ended (b : Bool) :
    ((Machine.run (step proto ecdsa blake3) (.new params) acts).2.side b).phase =
      .ended (.ok (session b)) := by
  apply HandshakePhase.eq_of_session?
  cases b <;> decide +kernel

/-- The other device's frames, as this one reads them. -/
def helloFrame : Frame :=
  ⟨MessageType.hello.code, proto.encodeHello (peerHelloToWire ((params false).hello (nonce false)))⟩

/-- The other device's `HelloAck`. -/
def ackFrame : Frame :=
  ⟨MessageType.helloAck.code,
    proto.encodeHelloAck (peerHelloAckToWire ⟨3, 1024, ⟨signature false⟩, .linked⟩)⟩

/-- The handshake the device runs among strangers: the other device signs its nonce. -/
def worldActs : List HelloWorldAction :=
  [.connect 0 (params true), .input 0 (.start (some (nonce true)) (.ok ())),
    .sign ⟨identity false, .hello, (nonce true).bytes.val⟩,
    .input 0 (.peerHello (.ok helloFrame) ⟨0⟩),
    .input 0 (.verified (.ok .sameAccount) (keyStore true) (.ok ())),
    .input 0 (.peerAck (.ok ackFrame))]

/-- The device's world at the end. -/
def world : HelloWorld :=
  (Machine.run (HelloWorld.step proto ecdsa blake3 (params true).ourIdentity) .new worldActs).2

/-- The other device's signature is no forgery once it has signed. -/
theorem unforged {log : List SigningEvent}
    (h : ⟨identity false, .hello, (nonce true).bytes.val⟩ ∈ log) :
    Unforged ecdsa log ⟨signature false⟩ := by
  rintro identityPub key payload raw hkey hraw hverify
  have hkey' : key = identityPub.bytes.val := by
    simp only [ecdsa] at hkey
    split at hkey
    · exact (Option.some.inj hkey).symm
    · cases hkey
  have hraw' : raw = signature false := by
    simp only [ecdsa] at hraw
    split at hraw
    · exact (Option.some.inj hraw).symm
    · cases hraw
  subst hkey' hraw'
  have hmem : (identityPub.bytes.val, payload, signature false) ∈ signedPayloads :=
    of_decide_eq_true hverify
  have hother : signature false ≠ binding true ∧ signature false ≠ signature true ∧
      signature false ≠ binding false := by
    decide +kernel
  simp only [signedPayloads, List.flatMap_cons, List.flatMap_nil, List.mem_append, List.mem_cons,
    Prod.mk.injEq, List.not_mem_nil, hother.1, hother.2.1, hother.2.2, and_false, or_false,
    false_or, and_true] at hmem
  obtain ⟨hpub, rfl⟩ := hmem
  refine ⟨_, h, ?_, rfl⟩
  obtain ⟨bytes⟩ := identityPub
  exact congrArg PublicKeyPoint.mk (Subtype.ext hpub.symm)

/-- The world may run so. -/
theorem allowed :
    Machine.Allows (HelloWorld.step proto ecdsa blake3 (params true).ourIdentity)
      (HelloWorld.Admissible proto ecdsa (params true).ourIdentity) .new worldActs := by
  refine ⟨trivial, ⟨?_, ?_⟩, ?_, ⟨?_, ?_⟩, ⟨?_, ?_⟩, ⟨?_, ?_⟩, trivial⟩
  · rintro n - event ⟨⟩
  · rintro frame ack ⟨⟩
  · show identity false ≠ identity true
    decide +kernel
  · rintro n ⟨⟩
  · rintro frame ack ⟨⟩
  · rintro n ⟨⟩
  · rintro frame ack ⟨⟩
  · rintro n ⟨⟩
  · rintro frame ack hframe hread
    obtain rfl := HandshakeInput.peerAck.inj hframe
    have hack : Party.readAck proto (.ok ackFrame) =
        .ok ⟨3, 1024, ⟨signature false⟩, .linked⟩ := by
      decide +kernel
    obtain rfl := Except.ok.inj (hack.symm.trans hread)
    apply unforged
    decide +kernel

end HelloPair.Sample

open HelloPair.Sample in
/-- Two devices end the handshake with the version 3, the greatest of their ranges 1 to 3 and
2 to 5; and the one of them, among strangers, with the other. -/
theorem hello_agreement_two_devices :
    (∀ b, HelloPair.Agreed blake3 (params b) (params !b) (session b)) ∧
      ∃ p, world.parties 0 = some p ∧
        world.Authenticated blake3 (params true).ourIdentity 0 p (session true) := by
  obtain ⟨hpair, hworld⟩ :=
    hello_agreement proto ecdsa blake3 params (params true).ourIdentity reads
  refine ⟨fun b => ((hpair acts).1 b (session b) (ended b)).1, ?_⟩
  have hparty : (world.parties 0).isSome ∧
      ((world.parties 0).bind fun p => p.phase.session?) = some (session true) ∧
      ((world.parties 0).map fun p => p.params.authenticatedPeer) =
        some (.fromIdentityDigest (digest false)) := by
    decide +kernel
  obtain ⟨hsome, hsession, hpeer⟩ := hparty
  obtain ⟨p, hp⟩ := Option.isSome_iff_exists.mp hsome
  rw [hp] at hsession hpeer
  refine ⟨p, hp, hworld worldActs allowed 0 p _ hp (HandshakePhase.eq_of_session? hsession) ?_⟩
  rw [show p.params.authenticatedPeer = .fromIdentityDigest (digest false) from
    Option.some.inj hpeer]
  decide +kernel

end Tradr
