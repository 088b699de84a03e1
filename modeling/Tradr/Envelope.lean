import Tradr.BroadcastKey
import Tradr.Fallible
import Tradr.Hpke

/-!
# Deferred Delivery Envelopes

A parked transfer travels as an envelope: an outer header that anyone may read, a sealed
manifest, and the contents of the items, back to back, in sealed records of one mebibyte.
`EnvelopeWriter` streams an envelope out as the bytes of the items arrive and
`EnvelopeReader` opens it from bytes fed in arbitrary slices; `sealEnvelope` and
`openEnvelope` do both at once.

The writer marks the record that completes the declared size as the final one, in the
record's associated data. The reader takes for final the record that completes the length
of the header. Records know nothing of the boundaries between items.

JSON is third-party code: a `ManifestJson` holds the encoder and the decoder of the
manifest. Times are 64-bit, and arithmetic on them wraps.

## Main results

* `parseOuterHeader_outerHeader`: an outer header reads back.
* `checkManifest_answer`, `checkManifest_honest`: an honest manifest is accepted exactly when
  the clock finds it within the window and its attestation earns a tier that may deliver.
* `inWindow_iff`: a time within the window is seen to be so exactly when the bounds of the
  window do not wrap around.
-/

open BigEndian Fallible

namespace Tradr

/-- The bytes of the unencrypted outer header. -/
def outerHeaderLen : ℕ := 106

/-- The plaintext bytes of a full data record. -/
def chunkSize : ℕ := 1024 * 1024

/-- The most bytes a sealed manifest may have. -/
def maxManifestRecord : ℕ := 16 * 1024 * 1024

/-- How far back an envelope may have been created. -/
def thirtyDaysSecs : Int64 := 30 * 24 * 3600

/-- How far ahead a sender's clock may be. -/
def threeHundredSecs : Int64 := 300

/-- What is needed of a sender to seal an envelope. -/
structure EnvelopeSender where
  identity : PublicIdentity
  keyBinding : KeyBinding
  attestationToken : Text

/-- One item of an envelope. -/
structure EnvelopeItem where
  relPath : RelPath
  size : UInt64
  contentHash : ContentHash
  deriving DecidableEq

/-- The outer header. -/
structure OuterHeader where
  version : UInt8
  recipientDeviceId : DeviceId
  senderDeviceId : DeviceId
  enc : Bytes 65
  totalLen : ℕ
  deriving DecidableEq

/-- What a manifest says, once it is verified. -/
structure OpenedManifest where
  transferId : TransferId
  sender : PublicIdentity
  createdAt : UnixTime
  tier : TrustTier
  items : List EnvelopeItem
  deriving DecidableEq

/-- A verified and decrypted envelope. -/
structure OpenedEnvelope where
  transferId : TransferId
  sender : PublicIdentity
  createdAt : UnixTime
  tier : TrustTier
  items : List EnvelopeItem
  contents : List (List UInt8)
  deriving DecidableEq

/-- Why a manifest or a record is malformed. -/
inductive Malformed
  | text (message : String)
  | json (message : Text)
  | publicKeyPoint (e : PublicKeyPointError)
  | relPath (e : RelPathError)
  deriving DecidableEq, Repr

/-- Why an envelope is not sealed or not opened. -/
inductive EnvelopeError
  | headerTooShort
  | unsupportedVersion (version : UInt8)
  | totalLengthMismatch (expected actual : ℕ)
  | recipientMismatch
  | senderMismatch
  | truncated
  | noDataRecords
  | itemSizeMismatch
  | contentHashMismatch
  | signatureInvalid
  | keyBinding (e : KeyBindingRefused)
  | createdAtOutOfRange (createdAt now : UnixTime)
  | untrustedTier (tier : TrustTier)
  | attestationRefused (message : Text)
  | hpke (e : HpkeError)
  | keyStore (e : KeyStoreError)
  | json (message : Text)
  | manifestMalformed (why : Malformed)
  | trailingBytes
  | alreadyFailed
  deriving DecidableEq

/-! ### The manifest on the wire -/

/-- A key binding in the manifest. -/
structure KeyBindingWire where
  agreementPub : Text
  signature : Text
  notAfter : Int64
  deriving DecidableEq

/-- An item in the manifest. -/
structure ManifestItemWire where
  relPath : Text
  size : UInt64
  contentHash : Text
  deriving DecidableEq

/-- The manifest as JSON carries it. -/
structure ManifestWire where
  transferId : Text
  identityPub : Text
  agreementPub : Text
  keyBinding : KeyBindingWire
  attestationToken : Text
  createdAt : Int64
  items : List ManifestItemWire
  signature : Text
  deriving DecidableEq

/-- The JSON encoder and decoder of the manifest. -/
structure ManifestJson where
  toVec : ManifestWire → Except Text (List UInt8)
  fromSlice : List UInt8 → Except Text ManifestWire

/-- What an encoder wrote, the decoder reads back. -/
def ManifestJson.RoundTrips (json : ManifestJson) : Prop :=
  ∀ wire bytes, json.toVec wire = .ok bytes → json.fromSlice bytes = .ok wire

/-- The third-party code an envelope is made with. -/
structure Primitives where
  suite : HpkeSuite
  blake3 : Blake3
  ecdsa : Signatures
  json : ManifestJson

/-- The bytes of hexadecimal text. -/
def decodeHex (s : Text) : Option (List UInt8) := hexBytes s

/-- Bytes as hexadecimal text. -/
def encodeHex (bytes : List UInt8) : Text := hexText bytes

/-- Read pairs of digits until there is no room, skipping hyphens and stopping at what is
neither. -/
def transferIdDigits : ℕ → Text → List UInt8
  | 0, _ => []
  | _, [] => []
  | room + 1, '-' :: rest => transferIdDigits (room + 1) rest
  | _ + 1, [_] => []
  | room + 1, hi :: lo :: rest =>
    match hexDigit hi, hexDigit lo with
    | some h, some l => (h <<< 4 ||| l) :: transferIdDigits room rest
    | _, _ => []

/-- The sixteen bytes of an identifier, out of its canonical rendering. -/
def transferIdToBytes (id : TransferId) : List UInt8 :=
  let bytes := transferIdDigits 16 id.display
  bytes ++ List.replicate (16 - bytes.length) 0

/-- The associated data of a record: its number and whether it is the last. -/
def makeAad (seq : UInt64) (isFinal : Bool) : List UInt8 :=
  toBE 8 seq.toNat ++ [if isFinal then 1 else 0]

/-- What an HPKE context is bound to. -/
def makeHpkeInfo (recipientId senderId : DeviceId) : List UInt8 :=
  ascii "tradr-deferred-v1" ++ recipientId.bytes.val ++ senderId.bytes.val

/-- A text in UTF-8. -/
def utf8Bytes (s : Text) : List UInt8 :=
  s.flatMap String.utf8EncodeChar

/-- The items in the bytes a manifest's signature covers. -/
def signatureItems : List (Text × UInt64 × ContentHash) → Except EnvelopeError (List UInt8)
  | [] => .ok []
  | (path, size, hash) :: rest => do
    require ((utf8Bytes path).length < 2 ^ 32)
      (.manifestMalformed (.text "item path length exceeds u32"))
    let more ← signatureItems rest
    return toBE 4 (utf8Bytes path).length ++ utf8Bytes path ++ toBE 8 size.toNat ++
      hash.bytes ++ more

/-- The bytes a manifest's signature covers. -/
def buildSignaturePayload (enc : Bytes 65) (recipientDeviceId senderDeviceId : DeviceId)
    (createdAtSecs : Int64) (transferIdBytes : List UInt8)
    (items : List (Text × UInt64 × ContentHash)) : Except EnvelopeError (List UInt8) := do
  let itemBytes ← signatureItems items
  return enc.val ++ recipientDeviceId.bytes.val ++ senderDeviceId.bytes.val ++
    toBE 8 createdAtSecs.toUInt64.toNat ++ transferIdBytes ++ itemBytes

/-- Read the outer header of an envelope. -/
def parseOuterHeader (bytes : List UInt8) : Except EnvelopeError OuterHeader :=
  if hlen : bytes.length < outerHeaderLen then .error .headerTooShort
  else do
    let version := bytes.headD 0
    require (version = 1) (.unsupportedVersion version)
    let recipientDeviceId ← (DeviceId.fromBytes ((bytes.drop 1).take 16)).mapError
      fun _ => .manifestMalformed (.text "recipient device id")
    let senderDeviceId ← (DeviceId.fromBytes ((bytes.drop 17).take 16)).mapError
      fun _ => .manifestMalformed (.text "sender device id")
    let enc : Bytes 65 := ⟨(bytes.drop 33).take 65, by
      simp only [outerHeaderLen] at hlen
      simp only [List.length_take, List.length_drop]
      omega⟩
    return ⟨version, recipientDeviceId, senderDeviceId, enc, ofBE ((bytes.drop 98).take 8)⟩

/-- Addition of 64-bit numbers, unless it overflows. -/
def checkedAdd (a b : ℕ) : Option ℕ :=
  if a + b < 2 ^ 64 then some (a + b) else none

/-- The declared size of all items together. -/
def declaredSize (items : List EnvelopeItem) : Option ℕ :=
  items.foldlM (fun declared item => checkedAdd declared item.size.toNat) 0

/-- Multiplication of 64-bit numbers, unless it overflows. -/
def checkedMul (a b : ℕ) : Option ℕ :=
  if a * b < 2 ^ 64 then some (a * b) else none

/-- The outcome of a sealed or opened message; a writer or reader that saw a failure is
not used again. -/
def hpkeOutcome : Except HpkeError (List UInt8) × HpkeContext →
    Except EnvelopeError (List UInt8 × HpkeContext)
  | (.ok bytes, ctx) => .ok (bytes, ctx)
  | (.error e, _) => .error (.hpke e)

theorem hpkeOutcome_eq_ok {answer : Except HpkeError (List UInt8) × HpkeContext}
    {bytes : List UInt8} {ctx : HpkeContext} :
    hpkeOutcome answer = .ok (bytes, ctx) ↔ answer = (.ok bytes, ctx) := by
  obtain ⟨e | out, ctx'⟩ := answer <;> simp [hpkeOutcome]

/-- An item as the manifest's signature covers it. -/
def EnvelopeItem.signed (item : EnvelopeItem) : Text × UInt64 × ContentHash :=
  (item.relPath.value, item.size, item.contentHash)

/-- An item as the manifest carries it. -/
def EnvelopeItem.toWire (item : EnvelopeItem) : ManifestItemWire :=
  ⟨item.relPath.value, item.size, encodeHex item.contentHash.bytes⟩

/-- The manifest of an envelope. -/
def manifestWire (sender : EnvelopeSender) (transferId : TransferId) (createdAt : UnixTime)
    (items : List EnvelopeItem) (manifestSig : Signature) : ManifestWire where
  transferId := transferId.display
  identityPub := encodeHex sender.identity.identityPub.bytes.val
  agreementPub := encodeHex sender.identity.agreementPub.bytes.val
  keyBinding :=
    { agreementPub := encodeHex sender.keyBinding.agreementPub.bytes.val
      signature := encodeHex sender.keyBinding.signature.bytes
      notAfter := sender.keyBinding.notAfter.secs }
  attestationToken := sender.attestationToken
  createdAt := createdAt.secs
  items := items.map EnvelopeItem.toWire
  signature := encodeHex manifestSig.bytes

/-- The bytes of an outer header. -/
def outerHeader (recipientId senderId : DeviceId) (enc : Bytes 65) (totalLen : ℕ) :
    List UInt8 :=
  1 :: (recipientId.bytes.val ++ senderId.bytes.val ++ enc.val ++ toBE 8 totalLen)

variable (p : Primitives)

/-! ### Checking the manifest -/

/-- A public key point of the manifest. -/
def decodePoint (what : String) (s : Text) : Except EnvelopeError PublicKeyPoint := do
  let bytes ← okOr (decodeHex s) (.manifestMalformed (.text what))
  (PublicKeyPoint.fromBytes bytes).mapError fun e => .manifestMalformed (.publicKeyPoint e)

/-- An item of the manifest, as its signature covers it. -/
def itemMeta (item : ManifestItemWire) :
    Except EnvelopeError (Text × UInt64 × ContentHash) := do
  let hash ← okOr (decodeHex item.contentHash) (.manifestMalformed (.text "content_hash hex"))
  if h : hash.length = 32 then return (item.relPath, item.size, ⟨hash, h⟩)
  else .error (.manifestMalformed (.text "content_hash length"))

/-- The items of the manifest, with their paths validated and their sizes adding up. -/
def openItems : ℕ → List (Text × UInt64 × ContentHash) →
    Except EnvelopeError (List EnvelopeItem)
  | _, [] => .ok []
  | declared, (path, size, hash) :: rest => do
    let declared ← okOr (checkedAdd declared size.toNat) .itemSizeMismatch
    let relPath ← (RelPath.new path).mapError fun e => .manifestMalformed (.relPath e)
    let items ← openItems declared rest
    return ⟨relPath, size, hash⟩ :: items

/-- Only devices of the same or of a linked account may deliver. -/
def deliveringTier : Except Text TrustTier → Except EnvelopeError TrustTier
  | .ok .sameAccount => .ok .sameAccount
  | .ok .linked => .ok .linked
  | .ok other => .error (.untrustedTier other)
  | .error e => .error (.attestationRefused e)

/-- The check of an attestation token. -/
abbrev AttestFn := Text → PublicIdentity → UnixTime → Except Text TrustTier

/-- The manifest was created neither too long ago nor ahead of the clock. The bounds are
computed in 64 bits. -/
def inWindow (createdSecs nowSecs : Int64) : Bool :=
  !(createdSecs < nowSecs - thirtyDaysSecs || createdSecs > nowSecs + threeHundredSecs)

/-- The acceptance checks on a decrypted manifest, in the order they are made. -/
def checkManifest (header : OuterHeader) (manifestJson : List UInt8) (now : UnixTime)
    (verifyAttestation : AttestFn) : Except EnvelopeError OpenedManifest := do
  let manifest ← (p.json.fromSlice manifestJson).mapError fun e => .manifestMalformed (.json e)
  let identityPub ← decodePoint "identity_pub hex" manifest.identityPub
  let derivedDeviceId := p.blake3.deviceIdOf identityPub
  require (derivedDeviceId = header.senderDeviceId) .senderMismatch
  let transferId ← (TransferId.parse manifest.transferId).mapError
    fun _ => .manifestMalformed (.text "transfer_id format")
  let itemsMeta ← manifest.items.mapM itemMeta
  let sigPayload ← buildSignaturePayload header.enc header.recipientDeviceId
    header.senderDeviceId manifest.createdAt (transferIdToBytes transferId) itemsMeta
  let sigBytes ← okOr (decodeHex manifest.signature) .signatureInvalid
  let verifyingKey ← (parseVerifyingKey p.ecdsa identityPub).mapError fun _ => .signatureInvalid
  require (signatureVerifies p.ecdsa verifyingKey .deferredDelivery sigPayload ⟨sigBytes⟩)
    .signatureInvalid
  let agreementPub ← decodePoint "agreement_pub hex" manifest.agreementPub
  let kbAgreement ← decodePoint "key_binding agreement hex" manifest.keyBinding.agreementPub
  let kbSigBytes ← okOr (decodeHex manifest.keyBinding.signature)
    (.manifestMalformed (.text "key_binding signature hex"))
  let _ ← (verifyKeyBinding p.ecdsa p.blake3 identityPub
    ⟨kbAgreement, ⟨kbSigBytes⟩, ⟨manifest.keyBinding.notAfter⟩⟩ agreementPub
    ⟨manifest.createdAt⟩).mapError .keyBinding
  require (inWindow manifest.createdAt now.secs) (.createdAtOutOfRange ⟨manifest.createdAt⟩ now)
  let sender : PublicIdentity := ⟨identityPub, agreementPub, derivedDeviceId⟩
  let tier ← deliveringTier
    (verifyAttestation manifest.attestationToken sender ⟨manifest.createdAt⟩)
  let items ← openItems 0 itemsMeta
  return ⟨transferId, sender, ⟨manifest.createdAt⟩, tier, items⟩

/-! ### Reading back what was written -/

/-- A part of a concatenation, by its position and its length. -/
theorem take_drop_append {α : Type} {a b c : List α} {i k : ℕ} (ha : a.length = i)
    (hb : b.length = k) : ((a ++ b ++ c).drop i).take k = b := by
  rw [List.append_assoc, List.drop_left' ha, List.take_left' hb]

/-- **An outer header reads back**, whatever follows it. -/
theorem parseOuterHeader_outerHeader (recipientId senderId : DeviceId) (enc : Bytes 65)
    {totalLen : ℕ} (h : totalLen < 2 ^ 64) (rest : List UInt8) :
    parseOuterHeader (outerHeader recipientId senderId enc totalLen ++ rest) =
      .ok ⟨1, recipientId, senderId, enc, totalLen⟩ := by
  have hr : recipientId.bytes.val.length = 16 := recipientId.bytes.property
  have hs : senderId.bytes.val.length = 16 := senderId.bytes.property
  have he : enc.val.length = 65 := enc.property
  have hlen : ¬(outerHeader recipientId senderId enc totalLen ++ rest).length < outerHeaderLen := by
    simp only [outerHeader, outerHeaderLen, List.length_append, List.length_cons, hr, hs, he,
      length_toBE]
    omega
  have h₁ : ((outerHeader recipientId senderId enc totalLen ++ rest).drop 1).take 16 =
      recipientId.bytes.val := by
    have := take_drop_append (a := [1]) (c := senderId.bytes.val ++ enc.val ++ toBE 8 totalLen ++
      rest) rfl hr
    simpa [outerHeader] using this
  have h₂ : ((outerHeader recipientId senderId enc totalLen ++ rest).drop 17).take 16 =
      senderId.bytes.val := by
    have := take_drop_append (a := 1 :: recipientId.bytes.val) (i := 17)
      (c := enc.val ++ toBE 8 totalLen ++ rest) (by simp [hr]) hs
    simpa [outerHeader] using this
  have h₃ : ((outerHeader recipientId senderId enc totalLen ++ rest).drop 33).take 65 =
      enc.val := by
    have := take_drop_append (a := 1 :: (recipientId.bytes.val ++ senderId.bytes.val)) (i := 33)
      (c := toBE 8 totalLen ++ rest) (by simp [hr, hs]) he
    simpa [outerHeader] using this
  have h₄ : ((outerHeader recipientId senderId enc totalLen ++ rest).drop 98).take 8 =
      toBE 8 totalLen := by
    have := take_drop_append (a := 1 :: (recipientId.bytes.val ++ senderId.bytes.val ++ enc.val))
      (i := 98) (c := rest) (by simp [hr, hs, he]) (length_toBE 8 totalLen)
    simpa [outerHeader] using this
  have htotal : ofBE (toBE 8 totalLen) = totalLen := ofBE_toBE (h.trans_eq (by norm_num))
  have hversion : (outerHeader recipientId senderId enc totalLen ++ rest).headD 0 = 1 := rfl
  rw [parseOuterHeader, dif_neg hlen]
  simp only [h₁, h₂, h₃, h₄, htotal, hversion, require_of, DeviceId.fromBytes_bytes, mapError_ok,
    ok_bind]
  rfl

/-- A point of the manifest reads back. -/
theorem decodePoint_encodeHex (what : String) (point : PublicKeyPoint) :
    decodePoint what (encodeHex point.bytes.val) = .ok point := by
  rw [decodePoint, decodeHex, encodeHex, hexBytes_hexText, okOr_some, ok_bind,
    PublicKeyPoint.fromBytes_bytes, mapError_ok]

/-- An item of the manifest reads back. -/
theorem itemMeta_toWire (item : EnvelopeItem) : itemMeta item.toWire = .ok item.signed := by
  rw [itemMeta, EnvelopeItem.toWire, decodeHex, encodeHex, hexBytes_hexText, okOr_some, ok_bind,
    dif_pos item.contentHash.length_bytes]
  rfl

/-- The items read back, when their sizes add up and none of them is the root. -/
theorem openItems_signed {items : List EnvelopeItem} (hroot : ∀ item ∈ items, item.relPath ≠ .root)
    {before declared : ℕ}
    (hsize : items.foldlM (fun d item => checkedAdd d item.size.toNat) before = some declared) :
    openItems before (items.map EnvelopeItem.signed) = .ok items := by
  induction items generalizing before with
  | nil => rfl
  | cons item items ih =>
      rw [List.foldlM_cons] at hsize
      obtain ⟨sum, hsum, hsize⟩ := Option.bind_eq_some_iff.mp hsize
      have hpath : RelPath.new item.relPath.value = .ok item.relPath := by
        rcases item.relPath.accepted with h | h
        · exact absurd (RelPath.ext h) (hroot item List.mem_cons_self)
        · exact RelPath.new_eq_ok h
      rw [List.map_cons, EnvelopeItem.signed, openItems, hsum, okOr_some, ok_bind, hpath,
        mapError_ok, ok_bind, ih (fun i hi => hroot i (List.mem_cons_of_mem _ hi)) hsize]
      rfl

/-- The clock is far enough from the ends of its range for the window to be computed. -/
def WindowFits (now : UnixTime) : Prop :=
  Int64.minValue.toInt ≤ now.secs.toInt - 30 * 24 * 3600 ∧
    now.secs.toInt + 300 ≤ Int64.maxValue.toInt

/-- **A time within the window is seen to be so** exactly when the bounds do not wrap
around. -/
theorem inWindow_iff {created now : UnixTime}
    (hpast : now.secs.toInt - 30 * 24 * 3600 ≤ created.secs.toInt)
    (hahead : created.secs.toInt ≤ now.secs.toInt + 300) :
    inWindow created.secs now.secs = true ↔ WindowFits now := by
  have hmin : Int64.minValue.toInt = -9223372036854775808 := by decide
  have hmax : Int64.maxValue.toInt = 9223372036854775807 := by decide
  have h30 : thirtyDaysSecs.toInt = 2592000 := by decide
  have h300 : threeHundredSecs.toInt = 300 := by decide
  have hlo := now.secs.le_toInt
  have hhi := now.secs.toInt_lt
  have hlo' := created.secs.le_toInt
  have hhi' := created.secs.toInt_lt
  have hsub := Int64.toInt_sub now.secs thirtyDaysSecs
  have hadd := Int64.toInt_add now.secs threeHundredSecs
  rw [h30] at hsub
  rw [h300] at hadd
  simp only [inWindow, Bool.not_eq_true', Bool.or_eq_false_iff, decide_eq_false_iff_not,
    Int64.lt_iff_toInt_lt, gt_iff_lt, WindowFits, hmin, hmax, hsub, hadd, Int.bmod_def]
  norm_num at *
  omega

/-- What a sender has to bring so that its envelopes are accepted: the device identifier of
its identity key, and a binding of that key over its agreement key. -/
structure EnvelopeSender.Valid (p : Primitives) (sender : EnvelopeSender)
    (createdAt : UnixTime) : Prop where
  deviceId : sender.identity.deviceId = p.blake3.deviceIdOf sender.identity.identityPub
  covers : sender.keyBinding.agreementPub = sender.identity.agreementPub
  bound : Signed p.ecdsa sender.identity.identityPub .keyBind
    sender.identity.agreementPub.bytes.val sender.keyBinding.signature
  fresh : createdAt.secs ≤ sender.keyBinding.notAfter.secs

variable {p}

/-- **An honest manifest passes every check** but those that depend on the recipient: the
clock has to find it within the window, and the attestation has to earn a tier that may
deliver. -/
theorem checkManifest_answer {header : OuterHeader} {sender : EnvelopeSender}
    {transferId : TransferId} {createdAt now : UnixTime} {items : List EnvelopeItem}
    {sigMessage json : List UInt8} {manifestSig : Signature} {declared : ℕ}
    (hsender : sender.Valid p createdAt)
    (hheader : header.senderDeviceId = sender.identity.deviceId)
    (hjson : p.json.fromSlice json =
      .ok (manifestWire sender transferId createdAt items manifestSig))
    (hpayload : buildSignaturePayload header.enc header.recipientDeviceId header.senderDeviceId
      createdAt.secs (transferIdToBytes transferId) (items.map EnvelopeItem.signed) =
      .ok sigMessage)
    (hsigned : Signed p.ecdsa sender.identity.identityPub .deferredDelivery sigMessage manifestSig)
    (hroot : ∀ item ∈ items, item.relPath ≠ .root) (hsize : declaredSize items = some declared)
    (verifyAttestation : AttestFn) :
    checkManifest p header json now verifyAttestation =
      if inWindow createdAt.secs now.secs then do
        let tier ← deliveringTier
          (verifyAttestation sender.attestationToken sender.identity createdAt)
        .ok ⟨transferId, sender.identity, createdAt, tier, items⟩
      else .error (.createdAtOutOfRange createdAt now) := by
  obtain ⟨key, hkey, hverifies⟩ := hsigned
  have hbinding : verifyKeyBinding p.ecdsa p.blake3 sender.identity.identityPub sender.keyBinding
      sender.identity.agreementPub createdAt = .ok _ :=
    verifyKeyBinding_eq_ok hsender.covers hsender.bound hsender.fresh
  have hmeta : (items.map EnvelopeItem.toWire).mapM itemMeta = .ok (items.map EnvelopeItem.signed) :=
    mapM_map_of_ok fun item _ => itemMeta_toWire item
  have hidentity : (⟨sender.identity.identityPub, sender.identity.agreementPub,
      p.blake3.deviceIdOf sender.identity.identityPub⟩ : PublicIdentity) = sender.identity := by
    rw [← hsender.deviceId]
  have hderived : p.blake3.deviceIdOf sender.identity.identityPub = header.senderDeviceId := by
    rw [hheader, hsender.deviceId]
  have hopen := openItems_signed hroot hsize
  rw [checkManifest, hjson, mapError_ok, ok_bind]
  dsimp +instances only [manifestWire]
  simp only [decodePoint_encodeHex, ok_bind, require_of hderived,
    TransferId.parse_display, mapError_ok, hmeta, hpayload]
  simp only [decodeHex, encodeHex, hexBytes_hexText, okOr_some, ok_bind, hkey, mapError_ok,
    require_of hverifies]
  rw [hbinding, mapError_ok, ok_bind]
  by_cases hwindow : inWindow createdAt.secs now.secs = true
  · rw [require_of hwindow, if_pos hwindow, ok_bind, hidentity]
    simp only [hopen, ok_bind]
    rfl
  · rw [require_of_not hwindow, if_neg hwindow, error_bind]

/-- **An honest manifest is accepted** exactly when the clock finds it within the window:
the other checks all pass. -/
theorem checkManifest_honest {header : OuterHeader} {sender : EnvelopeSender}
    {transferId : TransferId} {createdAt now : UnixTime} {items : List EnvelopeItem}
    {sigMessage json : List UInt8} {manifestSig : Signature} {verifyAttestation : AttestFn}
    {tier : TrustTier} {declared : ℕ} (hsender : sender.Valid p createdAt)
    (hheader : header.senderDeviceId = sender.identity.deviceId)
    (hjson : p.json.fromSlice json =
      .ok (manifestWire sender transferId createdAt items manifestSig))
    (hpayload : buildSignaturePayload header.enc header.recipientDeviceId header.senderDeviceId
      createdAt.secs (transferIdToBytes transferId) (items.map EnvelopeItem.signed) =
      .ok sigMessage)
    (hsigned : Signed p.ecdsa sender.identity.identityPub .deferredDelivery sigMessage manifestSig)
    (hroot : ∀ item ∈ items, item.relPath ≠ .root) (hsize : declaredSize items = some declared)
    (htier : tier = .sameAccount ∨ tier = .linked)
    (hattest : verifyAttestation sender.attestationToken sender.identity createdAt = .ok tier) :
    checkManifest p header json now verifyAttestation =
      if inWindow createdAt.secs now.secs then
        .ok ⟨transferId, sender.identity, createdAt, tier, items⟩
      else .error (.createdAtOutOfRange createdAt now) := by
  have hdelivering : deliveringTier (.ok tier) = .ok tier := by
    rcases htier with rfl | rfl <;> rfl
  rw [checkManifest_answer hsender hheader hjson hpayload hsigned hroot hsize, hattest,
    hdelivering, ok_bind]

end Tradr
