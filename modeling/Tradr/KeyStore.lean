import Tradr.BigEndian
import Tradr.DataPlane

/-!
# Keys and Identities

What a device is to its peers: two public keys and the identifier derived from one of
them. A `DomainTag` separates the signatures of one context from those of every other;
a key binding ties the agreement key to the identity key.

P-256, ECDSA and BLAKE3 are third-party code: a `Signatures` and a `Blake3` hold the
operations used here. A private key is only reached through a `KeyStore`.

## Main results

* `verifyKeyBinding_eq_ok`: a binding over the agreement key, signed by the identity key
  and not expired, is accepted.
-/

open BigEndian

namespace Tradr

/-- A byte string of a fixed length. -/
abbrev Bytes (n : ℕ) := { bs : List UInt8 // bs.length = n }

/-- The same byte over and over. -/
def Bytes.replicate (n : ℕ) (b : UInt8) : Bytes n := ⟨List.replicate n b, List.length_replicate⟩

/-- A number, the most significant byte first. -/
def Bytes.ofBE (n value : ℕ) : Bytes n := ⟨toBE n value, length_toBE n value⟩

/-- The bytes of an ASCII text. -/
def ascii (s : String) : List UInt8 :=
  s.toList.map fun c => UInt8.ofNat c.toNat

/-! ### Time -/

/-- Seconds since the Unix epoch. -/
structure UnixTime where
  secs : Int64
  deriving DecidableEq

/-! ### Public keys -/

/-- The bytes of a P-256 point in uncompressed SEC-1 form. -/
def publicKeyPointLen : ℕ := 65

/-- A P-256 point in uncompressed SEC-1 form; only its length is checked. -/
structure PublicKeyPoint where
  bytes : Bytes publicKeyPointLen
  deriving DecidableEq

/-- The length of a point that is given by its coordinates. -/
theorem length_sec1 (x y : ℕ) :
    ((0x04 : UInt8) :: (toBE 32 x ++ toBE 32 y)).length = publicKeyPointLen := by
  simp [publicKeyPointLen]

/-- Why bytes are not a public key point. -/
inductive PublicKeyPointError
  | wrongLength (len : ℕ)
  deriving DecidableEq, Repr

/-- A point from exactly as many bytes as it has. -/
def PublicKeyPoint.fromBytes (bytes : List UInt8) :
    Except PublicKeyPointError PublicKeyPoint :=
  if h : bytes.length = publicKeyPointLen then .ok ⟨⟨bytes, h⟩⟩
  else .error (.wrongLength bytes.length)

/-- The bytes of a point make that point. -/
@[simp] theorem PublicKeyPoint.fromBytes_bytes (p : PublicKeyPoint) :
    PublicKeyPoint.fromBytes p.bytes.val = .ok p := by
  rw [fromBytes, dif_pos p.bytes.property]

/-- The bytes of a device identifier. -/
def deviceIdLen : ℕ := 16

/-- A device's identifier: the head of its identity key's digest. -/
structure DeviceId where
  bytes : Bytes deviceIdLen
  deriving DecidableEq

/-- Why a device identifier is refused. -/
inductive DeviceIdError
  | wrongLength (len : ℕ)
  | invalidHex
  deriving DecidableEq, Repr

/-- A device identifier from exactly as many bytes as it has. -/
def DeviceId.fromBytes (bytes : List UInt8) : Except DeviceIdError DeviceId :=
  if h : bytes.length = deviceIdLen then .ok ⟨⟨bytes, h⟩⟩
  else .error (.wrongLength bytes.length)

/-- The bytes of an identifier make that identifier. -/
@[simp] theorem DeviceId.fromBytes_bytes (id : DeviceId) :
    DeviceId.fromBytes id.bytes.val = .ok id := by
  rw [fromBytes, dif_pos id.bytes.property]

/-- An identifier has the bytes it was made of. -/
theorem DeviceId.bytes_of_fromBytes {bytes : List UInt8} {id : DeviceId}
    (h : DeviceId.fromBytes bytes = .ok id) : id.bytes.val = bytes := by
  unfold fromBytes at h
  split_ifs at h
  obtain rfl := Except.ok.inj h
  rfl

/-- The identifier of the identity key with this digest. -/
def DeviceId.fromIdentityDigest (digest : Bytes 32) : DeviceId :=
  ⟨⟨digest.val.take deviceIdLen, by rw [List.length_take, digest.property]; rfl⟩⟩

/-- A device's public identity. -/
structure PublicIdentity where
  identityPub : PublicKeyPoint
  agreementPub : PublicKeyPoint
  deviceId : DeviceId
  deriving DecidableEq

/-- The BLAKE3 hash. -/
structure Blake3 where
  hash : List UInt8 → Bytes 32

/-- The device identifier an identity key stands for. -/
def Blake3.deviceIdOf (blake3 : Blake3) (identityPub : PublicKeyPoint) : DeviceId :=
  .fromIdentityDigest (blake3.hash identityPub.bytes.val)

/-! ### Domain separation -/

/-- How a context's signed bytes are kept apart from every other context's. -/
inductive Separation
  | prepended (tag : List UInt8)
  | required (head : List UInt8)

/-- The contexts an identity key signs in. -/
inductive DomainTag
  | keyBind
  | hello
  | brokrChallenge
  | revoke
  | deferredDelivery
  | certificateTbs
  | tlsCertificateVerify
  deriving DecidableEq, Repr

/-- The head of TLS 1.3's `CertificateVerify` content: sixty-four spaces and a text. -/
def tlsCertificateVerifyHead : List UInt8 :=
  List.replicate 64 0x20 ++ ascii "TLS 1.3, "

/-- The separation of each context. -/
def DomainTag.separation : DomainTag → Separation
  | .keyBind => .prepended (ascii "tradr-keybind-v1")
  | .hello => .prepended (ascii "tradr-hello-v1")
  | .brokrChallenge => .prepended (ascii "tradr-brokr-v1")
  | .revoke => .prepended (ascii "tradr-revoke-v1")
  | .deferredDelivery => .prepended (ascii "tradr-deferred-v1")
  | .certificateTbs => .required [0x30]
  | .tlsCertificateVerify => .required tlsCertificateVerifyHead

/-- A message did not begin as its context requires. -/
structure MissingSeparation where
  tag : DomainTag
  deriving DecidableEq, Repr

/-- The bytes that are signed for a message in a context. -/
def DomainTag.payload (tag : DomainTag) (message : List UInt8) :
    Except MissingSeparation (List UInt8) :=
  match tag.separation with
  | .prepended head => .ok (head ++ message)
  | .required head => if head <+: message then .ok message else .error ⟨tag⟩

/-! ### Key stores -/

/-- The bytes of a signature. -/
structure Signature where
  bytes : List UInt8
  deriving DecidableEq

/-- What a key agreement yields. -/
structure SharedSecret where
  bytes : List UInt8
  deriving DecidableEq

/-- Why a key store fails. -/
inductive KeyStoreError
  | backend (message : Text)
  | domainSeparation (e : MissingSeparation)
  deriving DecidableEq, Repr

/-- A device's private keys, reached through operations only. -/
structure KeyStore where
  sign : DomainTag → List UInt8 → Except KeyStoreError Signature
  agree : PublicKeyPoint → Except KeyStoreError SharedSecret

/-- ECDSA over P-256: keys, signatures and the check of one against the other. -/
structure Signatures where
  VerifyingKey : Type
  EcdsaSignature : Type
  fromSec1Bytes : List UInt8 → Option VerifyingKey
  fromSlice : List UInt8 → Option EcdsaSignature
  verify : VerifyingKey → List UInt8 → EcdsaSignature → Bool

/-! ### Key bindings -/

/-- The identity key's word for an agreement key, until a time. -/
structure KeyBinding where
  agreementPub : PublicKeyPoint
  signature : Signature
  notAfter : UnixTime
  deriving DecidableEq

/-- Why a key binding is refused. -/
inductive KeyBindingRefused
  | notForThisAgreementKey
  | signatureInvalid
  | expired (notAfter now : UnixTime)
  | malformedIdentityKey
  deriving DecidableEq

/-- The verifying key of a point. -/
def parseVerifyingKey (ecdsa : Signatures) (point : PublicKeyPoint) :
    Except KeyBindingRefused ecdsa.VerifyingKey :=
  match ecdsa.fromSec1Bytes point.bytes.val with
  | some key => .ok key
  | none => .error .malformedIdentityKey

/-- Whether a signature is the key's over the message in the context. -/
def signatureVerifies (ecdsa : Signatures) (key : ecdsa.VerifyingKey) (domain : DomainTag)
    (message : List UInt8) (signature : Signature) : Bool :=
  match domain.payload message, ecdsa.fromSlice signature.bytes with
  | .ok payload, some raw => ecdsa.verify key payload raw
  | _, _ => false

/-- Check a binding against the agreement key it is presented with. -/
def verifyKeyBinding (ecdsa : Signatures) (blake3 : Blake3) (identityPub : PublicKeyPoint)
    (binding : KeyBinding) (authenticatedAgreementPub : PublicKeyPoint) (now : UnixTime) :
    Except KeyBindingRefused DeviceId :=
  if binding.agreementPub ≠ authenticatedAgreementPub then .error .notForThisAgreementKey
  else
    match parseVerifyingKey ecdsa identityPub with
    | .error e => .error e
    | .ok key =>
      if ¬signatureVerifies ecdsa key .keyBind binding.agreementPub.bytes.val
          binding.signature then .error .signatureInvalid
      else if binding.notAfter.secs < now.secs then .error (.expired binding.notAfter now)
      else .ok (blake3.deviceIdOf identityPub)

/-- The identity key has signed the message in the context. -/
def Signed (ecdsa : Signatures) (identityPub : PublicKeyPoint) (domain : DomainTag)
    (message : List UInt8) (signature : Signature) : Prop :=
  ∃ key, parseVerifyingKey ecdsa identityPub = .ok key ∧
    signatureVerifies ecdsa key domain message signature = true

/-- The key store signs with the private half of the identity key: what it signs
verifies. -/
def KeyStore.SignsFor (store : KeyStore) (ecdsa : Signatures)
    (identityPub : PublicKeyPoint) : Prop :=
  ∀ domain message signature, store.sign domain message = .ok signature →
    Signed ecdsa identityPub domain message signature

/-- **A binding is accepted** when it covers the agreement key, the identity key signed it
and it has not expired. -/
theorem verifyKeyBinding_eq_ok {ecdsa : Signatures} {blake3 : Blake3}
    {identityPub agreementPub : PublicKeyPoint} {binding : KeyBinding} {now : UnixTime}
    (hcover : binding.agreementPub = agreementPub)
    (hsigned : Signed ecdsa identityPub .keyBind agreementPub.bytes.val binding.signature)
    (hfresh : now.secs ≤ binding.notAfter.secs) :
    verifyKeyBinding ecdsa blake3 identityPub binding agreementPub now =
      .ok (blake3.deviceIdOf identityPub) := by
  obtain ⟨key, hkey, hverifies⟩ := hsigned
  subst hcover
  rw [verifyKeyBinding, if_neg (not_not.mpr rfl)]
  simp only [hkey, hverifies, not_true_eq_false, if_false]
  rw [if_neg (Int64.not_lt.mpr hfresh)]

end Tradr
