import Tradr.BigEndian
import Tradr.Fallible
import Tradr.KeyStore

/-!
# Hybrid Public Key Encryption

HPKE in base mode over DHKEM(P-256, HKDF-SHA256), HKDF-SHA256 and ChaCha20-Poly1305. A
sender encapsulates a fresh secret to a public key; both sides then hold a context that
numbers its messages, and the number of a message goes into its nonce.

The curve, the key derivation and the cipher are third-party code: an `HpkeSuite` holds
them, and `HpkeSuite.Lawful` states what is documented of them.

## Main results

* `setupBaseReceiver_of_sender`: the two sides derive one context.
* `openMessage_of_sealMessage`: contexts that agree stay in step, and what one sealed the
  other opens.
-/

open BigEndian

namespace Tradr

/-! ### The primitives -/

/-- P-256, HKDF-SHA256 and ChaCha20-Poly1305. -/
structure HpkeSuite where
  /-- Whether the bytes encode a point of the curve. -/
  isPoint : List UInt8 → Bool
  /-- Whether the bytes are a private key. -/
  isScalar : Bytes 32 → Bool
  /-- The uncompressed encoding of a private key's public half. -/
  publicKey : Bytes 32 → List UInt8
  /-- The raw secret of a private key and a point. -/
  diffieHellman : Bytes 32 → List UInt8 → Bytes 32
  hkdfExtract : Option (List UInt8) → List UInt8 → Bytes 32
  hkdfExpand : Bytes 32 → List UInt8 → ℕ → Option (List UInt8)
  encrypt : Bytes 32 → Bytes 12 → List UInt8 → List UInt8 → Option (List UInt8)
  decrypt : Bytes 32 → Bytes 12 → List UInt8 → List UInt8 → Option (List UInt8)

/-- The bytes a Poly1305 tag adds to a ciphertext. -/
def tagLen : ℕ := 16

/-- What the primitives are documented to do: a public key is an uncompressed point, a
ciphertext is a tag longer than its plaintext, and decryption under the same key, nonce
and associated data inverts encryption. -/
structure HpkeSuite.Lawful (suite : HpkeSuite) : Prop where
  isPoint_publicKey : ∀ sk, suite.isScalar sk → suite.isPoint (suite.publicKey sk)
  head_publicKey : ∀ sk, suite.isScalar sk → (suite.publicKey sk).head? = some 0x04
  length_encrypt : ∀ key nonce aad pt ct,
    suite.encrypt key nonce aad pt = some ct → ct.length = pt.length + tagLen
  decrypt_encrypt : ∀ key nonce aad pt ct,
    suite.encrypt key nonce aad pt = some ct → suite.decrypt key nonce aad ct = some pt

/-- Why an HPKE operation fails. -/
inductive HpkeError
  | openFailed
  | sealFailed
  | invalidPoint
  | invalidScalar
  | agreement (e : KeyStoreError)
  | invalidSharedSecretLength (len : ℕ)
  | rng (message : Text)
  | rngExhausted
  | kdfFailed
  | exportLengthTooLarge
  | messageLimitReached
  deriving DecidableEq, Repr

/-! ### Key derivation -/

/-- The suite in the KEM's derivations. -/
def kemSuiteId : List UInt8 := ascii "KEM" ++ [0x00, 0x10]

/-- The suite in the key schedule. -/
def hpkeSuiteId : List UInt8 := ascii "HPKE" ++ [0x00, 0x10, 0x00, 0x01, 0x00, 0x03]

/-- The label every derivation starts with. -/
def hpkeVersionLabel : List UInt8 := ascii "HPKE-v1"

variable (suite : HpkeSuite)

/-- `LabeledExtract` of RFC 9180. -/
def labeledExtract (suiteId salt label ikm : List UInt8) : Bytes 32 :=
  suite.hkdfExtract (if salt = [] then none else some salt)
    (hpkeVersionLabel ++ suiteId ++ label ++ ikm)

/-- `LabeledExpand` of RFC 9180. -/
def labeledExpand (suiteId : List UInt8) (prk : Bytes 32) (label info : List UInt8)
    (len : ℕ) : Except HpkeError (List UInt8) :=
  if len > 255 * 32 then .error .exportLengthTooLarge
  else if len ≥ 2 ^ 16 then .error .exportLengthTooLarge
  else
    match suite.hkdfExpand prk (toBE 2 len ++ hpkeVersionLabel ++ suiteId ++ label ++ info)
        len with
    | some okm => .ok okm
    | none => .error .kdfFailed

/-- `LabeledExpand` to a fixed length. -/
def labeledExpandTo (n : ℕ) (suiteId : List UInt8) (prk : Bytes 32)
    (label info : List UInt8) : Except HpkeError (Bytes n) := do
  let bytes ← labeledExpand suite suiteId prk label info n
  if h : bytes.length = n then .ok ⟨bytes, h⟩ else .error .kdfFailed

/-- What the key schedule yields. -/
structure KeyScheduleMaterial where
  key : Bytes 32
  baseNonce : Bytes 12
  exporterSecret : Bytes 32

/-- `KeySchedule` of RFC 9180 in base mode. -/
def keySchedule (sharedSecret : Bytes 32) (info : List UInt8) :
    Except HpkeError KeyScheduleMaterial := do
  let pskIdHash := labeledExtract suite hpkeSuiteId [] (ascii "psk_id_hash") []
  let infoHash := labeledExtract suite hpkeSuiteId [] (ascii "info_hash") info
  let context := 0x00 :: pskIdHash.val ++ infoHash.val
  let secret := labeledExtract suite hpkeSuiteId sharedSecret.val (ascii "secret") []
  let key ← labeledExpandTo suite 32 hpkeSuiteId secret (ascii "key") context
  let baseNonce ← labeledExpandTo suite 12 hpkeSuiteId secret (ascii "base_nonce") context
  let exporterSecret ← labeledExpandTo suite 32 hpkeSuiteId secret (ascii "exp") context
  return ⟨key, baseNonce, exporterSecret⟩

/-! ### Contexts -/

/-- One side of an established secret. The sender's and the receiver's context hold the
same data. -/
structure HpkeContext where
  key : Bytes 32
  baseNonce : Bytes 12
  seq : UInt64
  exporterSecret : Bytes 32
  overflowed : Bool
  deriving DecidableEq

/-- The sending side. -/
abbrev SenderContext := HpkeContext

/-- The receiving side. -/
abbrev ReceiverContext := HpkeContext

namespace HpkeContext

/-- The nonce of a message: the base nonce with the sequence number in its last eight
bytes. -/
def nonceOf (baseNonce : Bytes 12) (seq : UInt64) : Bytes 12 :=
  ⟨baseNonce.val.take 4 ++ List.zipWith (· ^^^ ·) (baseNonce.val.drop 4) (toBE 8 seq.toNat),
    by simp [baseNonce.property]⟩

/-- Combining twice with the same bytes changes nothing. -/
theorem zipWith_xor_cancel {a b : List UInt8} (h : a.length = b.length) :
    List.zipWith (· ^^^ ·) a (List.zipWith (· ^^^ ·) a b) = b := by
  induction a generalizing b with
  | nil =>
      cases b with
      | nil => rfl
      | cons y b => exact absurd h (by simp)
  | cons x a ih =>
      cases b with
      | nil => exact absurd h (by simp)
      | cons y b =>
          have hxy : x ^^^ (x ^^^ y) = y := by
            rw [← UInt8.xor_assoc, UInt8.xor_self, UInt8.zero_xor]
          simp only [List.zipWith_cons_cons, hxy, ih (Nat.succ.inj h)]

/-- Different messages have different nonces. -/
theorem nonceOf_inj {baseNonce : Bytes 12} {a b : UInt64}
    (h : nonceOf baseNonce a = nonceOf baseNonce b) : a = b := by
  have hlen : ∀ seq : UInt64, (baseNonce.val.drop 4).length = (toBE 8 seq.toNat).length := by
    intro seq
    rw [List.length_drop, baseNonce.property, length_toBE]
  have hxor := List.append_cancel_left (congrArg Subtype.val h)
  have hword : toBE 8 a.toNat = toBE 8 b.toNat := by
    rw [← zipWith_xor_cancel (hlen a), ← zipWith_xor_cancel (hlen b), hxor]
  have hnat := congrArg ofBE hword
  rw [ofBE_toBE (by exact a.toNat_lt), ofBE_toBE (by exact b.toNat_lt)] at hnat
  exact UInt64.toNat_inj.mp hnat

/-- The nonce of the next message. -/
def computeNonce (ctx : HpkeContext) : Except HpkeError (Bytes 12) :=
  if ctx.overflowed then .error .messageLimitReached
  else .ok (nonceOf ctx.baseNonce ctx.seq)

/-- Advance the sequence number, unless it is the last one. -/
def incrementSeq (ctx : HpkeContext) : Except HpkeError Unit × HpkeContext :=
  if ctx.seq.toNat = 2 ^ 64 - 1 then
    (.error .messageLimitReached, { ctx with overflowed := true })
  else (.ok (), { ctx with seq := ctx.seq + 1 })

/-- Put one message through the cipher and advance. -/
def message (ctx : HpkeContext) (cipher : Bytes 32 → Bytes 12 → Option (List UInt8))
    (failure : HpkeError) : Except HpkeError (List UInt8) × HpkeContext :=
  if ctx.overflowed then (.error .messageLimitReached, ctx)
  else
    match ctx.computeNonce with
    | .error e => (.error e, ctx)
    | .ok nonce =>
      match cipher ctx.key nonce with
      | none => (.error failure, ctx)
      | some out =>
        match ctx.incrementSeq with
        | (.error e, ctx) => (.error e, ctx)
        | (.ok (), ctx) => (.ok out, ctx)

/-- **A message goes through** exactly when the context is not used up and the cipher
answers; the context then only advances its number. -/
theorem message_eq_ok_iff {ctx ctx' : HpkeContext}
    {cipher : Bytes 32 → Bytes 12 → Option (List UInt8)} {failure : HpkeError}
    {out : List UInt8} :
    ctx.message cipher failure = (.ok out, ctx') ↔
      ctx.overflowed = false ∧ cipher ctx.key (nonceOf ctx.baseNonce ctx.seq) = some out ∧
        ctx.seq.toNat ≠ 2 ^ 64 - 1 ∧ ctx' = { ctx with seq := ctx.seq + 1 } := by
  unfold message computeNonce incrementSeq
  by_cases ho : ctx.overflowed = true
  · simp [ho]
  · rw [Bool.not_eq_true] at ho
    rcases hc : cipher ctx.key (nonceOf ctx.baseNonce ctx.seq) with _ | found
    · simp [ho, hc]
    · by_cases hs : ctx.seq.toNat = 2 ^ 64 - 1
      · simp [ho, hc, hs]
      · simp only [ho, hc, Bool.false_eq_true, if_false, Prod.mk.injEq,
          Except.ok.injEq, Option.some.injEq, ne_eq, hs, not_false_eq_true, true_and]
        constructor
        · rintro ⟨rfl, rfl⟩
          exact ⟨rfl, rfl⟩
        · rintro ⟨rfl, rfl⟩
          exact ⟨rfl, rfl⟩

end HpkeContext

/-- Encrypt the next message. -/
def SenderContext.sealMessage (ctx : SenderContext) (aad pt : List UInt8) :
    Except HpkeError (List UInt8) × SenderContext :=
  HpkeContext.message ctx (fun key nonce => suite.encrypt key nonce aad pt) .sealFailed

/-- Decrypt the next message. -/
def ReceiverContext.openMessage (ctx : ReceiverContext) (aad ct : List UInt8) :
    Except HpkeError (List UInt8) × ReceiverContext :=
  HpkeContext.message ctx (fun key nonce => suite.decrypt key nonce aad ct) .openFailed

/-- Derive a secret for another use. -/
def HpkeContext.exportSecret (ctx : HpkeContext) (exporterContext : List UInt8) (len : ℕ) :
    Except HpkeError (List UInt8) :=
  labeledExpand suite hpkeSuiteId ctx.exporterSecret (ascii "sec") exporterContext len

/-! ### Setup -/

/-- Whether the bytes are an uncompressed point. -/
def parseUncompressedPoint (bytes : List UInt8) : Except HpkeError Unit :=
  if bytes.head? ≠ some 0x04 then .error .invalidPoint
  else if suite.isPoint bytes then .ok () else .error .invalidPoint

/-- The context of a raw secret, an encapsulated key and a recipient. -/
def contextOf (dh : List UInt8) (enc : Bytes 65) (pkR : PublicKeyPoint)
    (info : List UInt8) : Except HpkeError HpkeContext := do
  let kemContext := enc.val ++ pkR.bytes.val
  let eaePrk := labeledExtract suite kemSuiteId [] (ascii "eae_prk") dh
  let sharedSecret ← labeledExpandTo suite 32 kemSuiteId eaePrk (ascii "shared_secret")
    kemContext
  let material ← keySchedule suite sharedSecret info
  return ⟨material.key, material.baseNonce, 0, material.exporterSecret, false⟩

/-- Set up the sending side with a given ephemeral key. -/
def setupBaseSenderWithEphemeral (pkR : PublicKeyPoint) (skE : Bytes 32)
    (info : List UInt8) : Except HpkeError (Bytes 65 × SenderContext) := do
  parseUncompressedPoint suite pkR.bytes.val
  if suite.isScalar skE then
    let encPoint := suite.publicKey skE
    if h : encPoint.length = 65 then
      let ctx ← contextOf suite (suite.diffieHellman skE pkR.bytes.val).val ⟨encPoint, h⟩
        pkR info
      return (⟨encPoint, h⟩, ctx)
    else .error .invalidPoint
  else .error .invalidScalar

/-- How often a scalar is drawn before giving up. -/
def scalarDrawLimit : ℕ := 16

/-- What a source of randomness answers, draw by draw. -/
abbrev Draws := ℕ → Except Text (Bytes 32)

/-- Set up the sending side with one of the next draws, the first that is a scalar. -/
def setupBaseSenderFrom (pkR : PublicKeyPoint) (draws : Draws) (info : List UInt8) :
    ℕ → ℕ → Except HpkeError (Bytes 65 × SenderContext)
  | 0, _ => .error .rngExhausted
  | left + 1, k => do
    let bytes ← (draws k).mapError .rng
    if suite.isScalar bytes then setupBaseSenderWithEphemeral suite pkR bytes info
    else setupBaseSenderFrom pkR draws info left (k + 1)

/-- Set up the sending side. -/
def setupBaseSender (pkR : PublicKeyPoint) (draws : Draws) (info : List UInt8) :
    Except HpkeError (Bytes 65 × SenderContext) :=
  setupBaseSenderFrom suite pkR draws info scalarDrawLimit 0

/-- Set up the receiving side from an encapsulated key. -/
def setupBaseReceiver (enc : Bytes 65) (pkR : PublicKeyPoint) (info : List UInt8)
    (agree : PublicKeyPoint → Except KeyStoreError SharedSecret) :
    Except HpkeError ReceiverContext := do
  parseUncompressedPoint suite enc.val
  parseUncompressedPoint suite pkR.bytes.val
  let sharedSecretDh ← (agree ⟨enc⟩).mapError .agreement
  if sharedSecretDh.bytes.length = 32 then contextOf suite sharedSecretDh.bytes enc pkR info
  else .error (.invalidSharedSecretLength sharedSecretDh.bytes.length)

/-! ### The two sides agree -/

variable {suite}

/-- The function performs the Diffie-Hellman agreement of the private half of `pkR`. -/
def AgreesFor (suite : HpkeSuite) (pkR : PublicKeyPoint)
    (agree : PublicKeyPoint → Except KeyStoreError SharedSecret) : Prop :=
  ∀ skE (point : PublicKeyPoint), suite.isScalar skE → point.bytes.val = suite.publicKey skE →
    agree point = .ok ⟨(suite.diffieHellman skE pkR.bytes.val).val⟩

/-- What a set up sender came from: one of the draws, as the ephemeral key. -/
theorem exists_ephemeral_of_setupBaseSender {pkR : PublicKeyPoint} {draws : Draws}
    {info : List UInt8} {enc : Bytes 65} {ctx : SenderContext}
    (h : setupBaseSender suite pkR draws info = .ok (enc, ctx)) :
    ∃ skE, suite.isScalar skE = true ∧
      setupBaseSenderWithEphemeral suite pkR skE info = .ok (enc, ctx) := by
  suffices ∀ left k, setupBaseSenderFrom suite pkR draws info left k = .ok (enc, ctx) →
      ∃ skE, suite.isScalar skE = true ∧
        setupBaseSenderWithEphemeral suite pkR skE info = .ok (enc, ctx) from
    this _ _ h
  intro left
  induction left with
  | zero =>
      intro k h
      exact absurd h (by simp [setupBaseSenderFrom])
  | succ left ih =>
      intro k h
      rw [setupBaseSenderFrom] at h
      rcases hd : draws k with e | bytes
      · rw [hd] at h
        cases h
      · rw [hd] at h
        simp only [Fallible.mapError_ok, bind, Except.bind] at h
        split_ifs at h with hs
        · exact ⟨bytes, hs, h⟩
        · exact ih _ h

/-- What the sending side derives from an ephemeral key. -/
theorem setupBaseSenderWithEphemeral_eq_ok {pkR : PublicKeyPoint} {skE : Bytes 32}
    {info : List UInt8} {enc : Bytes 65} {ctx : SenderContext}
    (h : setupBaseSenderWithEphemeral suite pkR skE info = .ok (enc, ctx)) :
    parseUncompressedPoint suite pkR.bytes.val = .ok () ∧ enc.val = suite.publicKey skE ∧
      contextOf suite (suite.diffieHellman skE pkR.bytes.val).val enc pkR info = .ok ctx := by
  unfold setupBaseSenderWithEphemeral at h
  rcases hp : parseUncompressedPoint suite pkR.bytes.val with e | _
  · rw [hp] at h
    exact absurd h (by simp [bind, Except.bind])
  · rw [hp] at h
    simp only [bind, Except.bind] at h
    split_ifs at h with hs hl
    split at h
    · exact absurd h (by simp)
    · rename_i ctx' hctx
      obtain ⟨rfl, rfl⟩ := Prod.mk.inj (Except.ok.inj h)
      exact ⟨rfl, rfl, hctx⟩

/-- What is expanded to a fixed length has it. -/
theorem labeledExpandTo_eq_ok {n : ℕ} {suiteId label info : List UInt8} {prk : Bytes 32}
    {bytes : Bytes n} (h : labeledExpandTo suite n suiteId prk label info = .ok bytes) :
    suite.hkdfExpand prk (toBE 2 n ++ hpkeVersionLabel ++ suiteId ++ label ++ info) n =
      some bytes.val := by
  obtain ⟨okm, hokm, h⟩ := Fallible.bind_eq_ok.mp h
  split_ifs at h
  obtain rfl := Except.ok.inj h
  unfold labeledExpand at hokm
  split_ifs at hokm
  split at hokm
  · rename_i found hfound
    rw [hfound, Except.ok.inj hokm]
  · exact absurd hokm (by simp)

/-- A context starts with the first number. -/
theorem seq_of_contextOf {dh : List UInt8} {enc : Bytes 65} {pkR : PublicKeyPoint}
    {info : List UInt8} {ctx : HpkeContext} (h : contextOf suite dh enc pkR info = .ok ctx) :
    ctx.seq = 0 := by
  obtain ⟨secret, -, h⟩ := Fallible.bind_eq_ok.mp h
  obtain ⟨material, -, h⟩ := Fallible.bind_eq_ok.mp h
  obtain rfl := Except.ok.inj h
  rfl

/-- The sending side starts with the first number. -/
theorem seq_of_setupBaseSender {pkR : PublicKeyPoint} {draws : Draws} {info : List UInt8}
    {enc : Bytes 65} {ctx : SenderContext}
    (h : setupBaseSender suite pkR draws info = .ok (enc, ctx)) : ctx.seq = 0 := by
  obtain ⟨skE, -, h⟩ := exists_ephemeral_of_setupBaseSender h
  obtain ⟨-, -, hctx⟩ := setupBaseSenderWithEphemeral_eq_ok h
  exact seq_of_contextOf hctx

/-- What a set up receiver came from. -/
theorem setupBaseReceiver_eq_ok {enc : Bytes 65} {pkR : PublicKeyPoint} {info : List UInt8}
    {agree : PublicKeyPoint → Except KeyStoreError SharedSecret} {ctx : ReceiverContext}
    (h : setupBaseReceiver suite enc pkR info agree = .ok ctx) :
    ∃ dh, agree ⟨enc⟩ = .ok dh ∧ contextOf suite dh.bytes enc pkR info = .ok ctx := by
  obtain ⟨_, -, h⟩ := Fallible.bind_eq_ok.mp h
  obtain ⟨_, -, h⟩ := Fallible.bind_eq_ok.mp h
  obtain ⟨dh, hdh, h⟩ := Fallible.bind_eq_ok.mp h
  split_ifs at h
  exact ⟨dh, Fallible.mapError_eq_ok.mp hdh, h⟩

/-- The receiving side starts with the first number. -/
theorem seq_of_setupBaseReceiver {enc : Bytes 65} {pkR : PublicKeyPoint} {info : List UInt8}
    {agree : PublicKeyPoint → Except KeyStoreError SharedSecret} {ctx : ReceiverContext}
    (h : setupBaseReceiver suite enc pkR info agree = .ok ctx) : ctx.seq = 0 := by
  obtain ⟨dh, -, hctx⟩ := setupBaseReceiver_eq_ok h
  exact seq_of_contextOf hctx

/-- **The two sides derive one context** from an encapsulated key, when the receiver's
agreement is that of its own key. -/
theorem setupBaseReceiver_of_sender (hsuite : suite.Lawful) {pkR : PublicKeyPoint}
    {draws : Draws} {info : List UInt8} {enc : Bytes 65} {ctx : SenderContext}
    {agree : PublicKeyPoint → Except KeyStoreError SharedSecret}
    (hagree : AgreesFor suite pkR agree)
    (h : setupBaseSender suite pkR draws info = .ok (enc, ctx)) :
    setupBaseReceiver suite enc pkR info agree = .ok ctx := by
  obtain ⟨skE, hs, h⟩ := exists_ephemeral_of_setupBaseSender h
  obtain ⟨hpkR, henc, hctx⟩ := setupBaseSenderWithEphemeral_eq_ok h
  have hpoint : parseUncompressedPoint suite enc.val = .ok () := by
    rw [henc, parseUncompressedPoint, hsuite.head_publicKey skE hs, if_neg (not_not.mpr rfl),
      if_pos (hsuite.isPoint_publicKey skE hs)]
  have hsecret := hagree skE ⟨enc⟩ hs henc
  rw [setupBaseReceiver, hpoint, hpkR, hsecret]
  simp only [bind, Except.bind, Fallible.mapError_ok]
  rw [if_pos (suite.diffieHellman skE pkR.bytes.val).property, hctx]

/-- **Contexts that agree stay in step**: what one sealed the other opens, under the same
associated data. -/
theorem openMessage_of_sealMessage (hsuite : suite.Lawful) {ctx ctx' : HpkeContext}
    {aad pt ct : List UInt8} (h : SenderContext.sealMessage suite ctx aad pt = (.ok ct, ctx')) :
    ReceiverContext.openMessage suite ctx aad ct = (.ok pt, ctx') := by
  obtain ⟨hover, hct, hseq, hctx⟩ := HpkeContext.message_eq_ok_iff.mp h
  exact HpkeContext.message_eq_ok_iff.mpr
    ⟨hover, hsuite.decrypt_encrypt _ _ _ _ _ hct, hseq, hctx⟩

/-- Sealing takes the next number, which never wraps around. -/
theorem toNat_seq_of_sealMessage {ctx ctx' : HpkeContext} {aad pt ct : List UInt8}
    (h : SenderContext.sealMessage suite ctx aad pt = (.ok ct, ctx')) :
    ctx'.seq.toNat = ctx.seq.toNat + 1 := by
  obtain ⟨-, -, hseq, rfl⟩ := HpkeContext.message_eq_ok_iff.mp h
  have hlt := ctx.seq.toNat_lt
  change (ctx.seq + 1).toNat = _
  rw [UInt64.toNat_add]
  exact Nat.mod_eq_of_lt (by change ctx.seq.toNat + 1 < _; omega)

/-- A sealed message is a tag longer than its plaintext. -/
theorem length_sealMessage (hsuite : suite.Lawful) {ctx ctx' : HpkeContext}
    {aad pt ct : List UInt8} (h : SenderContext.sealMessage suite ctx aad pt = (.ok ct, ctx')) :
    ct.length = pt.length + tagLen := by
  obtain ⟨-, hct, -, -⟩ := HpkeContext.message_eq_ok_iff.mp h
  exact hsuite.length_encrypt _ _ _ _ _ hct

end Tradr
