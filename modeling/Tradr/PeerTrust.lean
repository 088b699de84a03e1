import Tradr.Envelope

/-!
# Trust in a Peer

A device believes what an attestation token says about a peer when the token's signature
verifies under a key the provider publishes. The keys are cached, and a token that names a
key the cache lacks makes the device fetch them again, but not more than once in five
minutes: the budget belongs to the cache, and whoever names an unknown key first spends it.
A token that names an unknown key while the budget is spent is refused like a forged one.

Base64, JSON, RSA and SHA-256 are parameters; a fetched document is whatever the network
answered.

## Main definitions

* `JwksCache.claimRefetchFor`: the budget.
* `PeerTrust.verifyAttestation`, `PeerTrust.verifyLinkAttestation`: the seven steps, and the
  first five of them for a link.
* `PeerTrust.classifyCached`, `PeerTrust.warm`: classification without a fetch, and the fetch.

## Main results

* `PeerTrust.classifyCached_of_holds`, `PeerTrust.classifyCached_of_lacks`: what a genuine
  token is answered, by the state of the cache.
-/

open Fallible

namespace Tradr

/-! ### JSON and tokens -/

/-- A JSON value; of a number only whether it is a 64-bit integer matters. -/
inductive Json
  | null
  | bool (b : Bool)
  | number (n : Option Int64)
  | string (s : Text)
  | array (xs : List Json)
  | object (fields : List (Text × Json))

namespace Json

/-- A member of an object. -/
def get (j : Json) (name : String) : Option Json :=
  match j with
  | .object fields => (fields.find? fun f => f.1 = name.toList).map Prod.snd
  | _ => none

/-- The text of a string. -/
def asStr : Json → Option Text
  | .string s => some s
  | _ => none

/-- The value of an integer. -/
def asI64 : Json → Option Int64
  | .number n => n
  | _ => none

/-- The elements of an array. -/
def asArray : Json → Option (List Json)
  | .array xs => some xs
  | _ => none

/-- Whether the value is an object. -/
def isObject : Json → Bool
  | .object _ => true
  | _ => false

end Json

/-- The code outside the identity layer that tokens need: unpadded base64url, JSON, RSA
signatures over SHA-256, and the two hashes of a nonce. -/
structure TokenPrimitives where
  decode64 : Text → Option (List UInt8)
  encode64 : List UInt8 → Text
  parseJson : List UInt8 → Option Json
  rsaVerifies : List UInt8 → List UInt8 → List UInt8 → List UInt8 → Bool
  blake3 : Blake3
  sha256 : List UInt8 → List UInt8

/-- A signature algorithm a token may be verified with. -/
inductive SignatureAlgorithm
  | rs256
  deriving DecidableEq, Repr

/-- One key of a provider's published set. -/
structure Jwk where
  kid : Text
  algorithm : SignatureAlgorithm
  modulus : List UInt8
  exponent : List UInt8
  deriving DecidableEq, Repr

/-- What is wrong with the shape of a token. -/
inductive TokenFault
  | segments
  | base64
  | json (which : String)
  | header (field : String)
  | claim (name : String)
  deriving DecidableEq, Repr

/-- Why a token failed to verify. -/
inductive TokenError
  | malformed (why : TokenFault)
  | algorithmNotPermitted (alg : Text)
  | unknownKeyId (kid : Text)
  | keyAlgorithmMismatch (kid : Text)
  | signatureInvalid
  deriving DecidableEq, Repr

/-- How a provider stores the nonce. -/
inductive NonceBinding
  | verbatim
  | hashed
  deriving DecidableEq, Repr

/-- What a provider brings to verification. -/
structure ProviderProfile where
  issuer : Text
  clientIds : List Text
  nonceBinding : NonceBinding
  algorithms : List SignatureAlgorithm
  jwksUri : Text
  deriving DecidableEq, Repr

/-- The claims of a token whose signature was checked. -/
structure VerifiedClaims where
  iss : Text
  sub : Text
  aud : Text
  iat : UnixTime
  nonce : Text
  deriving DecidableEq

/-- The account of a token: the pair of issuer and subject. -/
def VerifiedClaims.account (claims : VerifiedClaims) : AccountId :=
  ⟨String.ofList claims.iss, String.ofList claims.sub⟩

section Token

variable (tp : TokenPrimitives)

/-- The three segments of a token. -/
def splitSegments (token : Text) : Except TokenError (Text × Text × Text) :=
  match token.splitOn '.' with
  | [header, payload, signature] => .ok (header, payload, signature)
  | _ => .error (.malformed .segments)

/-- The bytes of a segment. -/
def decodeSegment (segment : Text) : Except TokenError (List UInt8) :=
  okOr (tp.decode64 segment) (.malformed .base64)

/-- The JSON of a segment. -/
def parseSegment (bytes : List UInt8) (which : String) : Except TokenError Json :=
  okOr (tp.parseJson bytes) (.malformed (.json which))

/-- A claim that is a string. -/
def requireStr (payload : Json) (name : String) : Except TokenError Text :=
  okOr ((payload.get name).bind Json.asStr) (.malformed (.claim name))

/-- A claim that is an integer. -/
def requireI64 (payload : Json) (name : String) : Except TokenError Int64 :=
  okOr ((payload.get name).bind Json.asI64) (.malformed (.claim name))

/-- Compare the algorithm a token names with those of the profile. -/
def permittedAlgorithm (profile : ProviderProfile) (alg : Text) :
    Except TokenError SignatureAlgorithm :=
  if alg = "RS256".toList ∧ .rs256 ∈ profile.algorithms then .ok .rs256
  else .error (.algorithmNotPermitted alg)

/-- Verify the signature of a token under a key. -/
def verifySignature (algorithm : SignatureAlgorithm) (key : Jwk)
    (signingInput signature : List UInt8) : Except TokenError Unit :=
  match algorithm with
  | .rs256 =>
    require (tp.rsaVerifies key.modulus key.exponent signingInput signature) .signatureInvalid

/-- The claims of a payload; none is defaulted. -/
def parseClaims (payload : Json) : Except TokenError VerifiedClaims := do
  let iss ← requireStr payload "iss"
  let sub ← requireStr payload "sub"
  let aud ← requireStr payload "aud"
  let iat ← requireI64 payload "iat"
  let nonce ← requireStr payload "nonce"
  return ⟨iss, sub, aud, ⟨iat⟩, nonce⟩

/-- What a token's header says once its shape was checked: the algorithm and the key
identifier, with the parts the signature covers. -/
structure TokenHeader where
  algorithm : SignatureAlgorithm
  kid : Text
  signingInput : List UInt8
  signature : List UInt8
  payload : List UInt8

/-- Read a token up to the choice of a key. -/
def readHeader (profile : ProviderProfile) (token : Text) : Except TokenError TokenHeader := do
  let (header64, payload64, signature64) ← splitSegments token
  let headerBytes ← decodeSegment tp header64
  let payload ← decodeSegment tp payload64
  let signature ← decodeSegment tp signature64
  let header ← parseSegment tp headerBytes "header"
  let alg ← okOr ((header.get "alg").bind Json.asStr) (.malformed (.header "alg"))
  let algorithm ← permittedAlgorithm profile alg
  let kid ← okOr ((header.get "kid").bind Json.asStr) (.malformed (.header "kid"))
  return ⟨algorithm, kid, utf8Bytes (header64 ++ '.' :: payload64), signature, payload⟩

/-- Verify a token with the key its header names. -/
def verifyWith (keys : List Jwk) (h : TokenHeader) : Except TokenError VerifiedClaims := do
  let key ← okOr (keys.find? fun k => k.kid = h.kid) (.unknownKeyId h.kid)
  require (key.algorithm = h.algorithm) (.keyAlgorithmMismatch h.kid)
  verifySignature tp h.algorithm key h.signingInput h.signature
  let payload ← parseSegment tp h.payload "payload"
  parseClaims payload

/-- Verify a token against a profile and keys. -/
def verifyIdToken (profile : ProviderProfile) (keys : List Jwk) (token : Text) :
    Except TokenError VerifiedClaims := do
  let h ← readHeader tp profile token
  verifyWith tp keys h

/-- Read the issuer of a token that is not verified yet. -/
def peekIssuer (token : Text) : Except TokenError Text := do
  let (_, payload64, _) ← splitSegments token
  let bytes ← decodeSegment tp payload64
  let payload ← parseSegment tp bytes "payload"
  requireStr payload "iss"

end Token

/-! ### Published keys -/

/-- Why a document is no usable set of keys. -/
inductive JwksError
  | malformed
  | duplicateKeyId (kid : Text)
  | weakKey (kid : Text) (modulusBytes : ℕ)
  | noUsableKeys
  deriving DecidableEq, Repr

/-- The least modulus, in bytes. -/
def minModulusBytes : ℕ := 256

section Jwks

variable (tp : TokenPrimitives)

/-- The key identifier of an entry this build can use. -/
def usableEntry (object : Json) : Option Text :=
  if (object.get "kty").bind Json.asStr ≠ some "RSA".toList then none
  else if (object.get "alg").bind Json.asStr ≠ some "RS256".toList then none
  else if (object.get "use").any fun v => v.asStr ≠ some "sig".toList then none
  else (object.get "kid").bind Json.asStr

/-- A number of a key. -/
def decodeKeyMaterial (object : Json) (field : String) : Except JwksError (List UInt8) := do
  let raw ← okOr ((object.get field).bind Json.asStr) .malformed
  let bytes ← okOr (tp.decode64 raw) .malformed
  require (bytes ≠ []) .malformed
  return bytes

/-- Add an entry of a document to the keys before it. -/
def addEntry (keys : List Jwk) (entry : Json) : Except JwksError (List Jwk) := do
  require (entry.isObject = true) .malformed
  match usableEntry entry with
  | none => return keys
  | some kid =>
    let modulus ← decodeKeyMaterial tp entry "n"
    let exponent ← decodeKeyMaterial tp entry "e"
    let modulusBytes := (modulus.dropWhile (· = 0)).length
    require (minModulusBytes ≤ modulusBytes) (.weakKey kid modulusBytes)
    require (¬keys.any fun k => k.kid = kid) (.duplicateKeyId kid)
    return keys ++ [⟨kid, .rs256, modulus, exponent⟩]

/-- The keys of a published document. -/
def parseJwks (document : List UInt8) : Except JwksError (List Jwk) := do
  let root ← okOr (tp.parseJson document) .malformed
  let member ← okOr (root.get "keys") .malformed
  let entries ← okOr member.asArray .malformed
  let keys ← entries.foldlM (addEntry tp) []
  require (keys ≠ []) .noUsableKeys
  return keys

end Jwks

/-! ### The cache -/

/-- The least time between two fetches, in nanoseconds of the monotonic clock. -/
def refetchFloor : ℕ := 5 * 60 * 1000000000

/-- A provider's keys, and when a fetch was last granted. -/
structure JwksCache where
  jwksUri : Text
  keys : List Jwk
  lastClaim : Option ℕ
  deriving DecidableEq, Repr

namespace JwksCache

/-- An empty cache. -/
def new (jwksUri : Text) : JwksCache := ⟨jwksUri, [], none⟩

/-- Replace the keys by those of a document; one that does not parse changes nothing. -/
def install (tp : TokenPrimitives) (cache : JwksCache) (document : List UInt8) :
    Except JwksError Unit × JwksCache :=
  match parseJwks tp document with
  | .error e => (.error e, cache)
  | .ok keys => (.ok (), { cache with keys })

/-- A key of this identifier is cached. -/
def Holds (cache : JwksCache) (kid : Text) : Prop :=
  ∃ k ∈ cache.keys, k.kid = kid

/-- A fetch may be granted again. -/
def BudgetFree (cache : JwksCache) (now : ℕ) : Prop :=
  ∀ last, cache.lastClaim = some last → refetchFloor ≤ now - last

instance (cache : JwksCache) (kid : Text) : Decidable (cache.Holds kid) :=
  inferInstanceAs (Decidable (∃ k ∈ cache.keys, k.kid = kid))

instance (cache : JwksCache) (now : ℕ) : Decidable (cache.BudgetFree now) :=
  match h : cache.lastClaim with
  | none => isTrue fun last hl => by rw [h] at hl; cases hl
  | some last =>
    if hle : refetchFloor ≤ now - last then
      isTrue fun last' hl => by
        rw [h] at hl
        obtain rfl := Option.some.inj hl
        exact hle
    else isFalse fun hf => hle (hf last h)

/-- Whether the caller may fetch because of this key identifier; granting spends the
budget of the whole cache. -/
def claimRefetchFor (cache : JwksCache) (kid : Text) (now : ℕ) : Bool × JwksCache :=
  if cache.Holds kid then (false, cache)
  else if cache.BudgetFree now then (true, { cache with lastClaim := some now })
  else (false, cache)

end JwksCache

/-! ### The seven steps -/

/-- Why an attestation was rejected. -/
inductive AttestationError
  | unknownIssuer
  | audienceNotRecognised
  | nonceMismatch
  | stale
  | clockSkew
  | untrustedAccount
  deriving DecidableEq, Repr

/-- Why a token could not be verified. -/
inductive VerifyError
  | token (e : TokenError)
  | attestation (e : AttestationError)
  | cacheIsForAnotherProvider (expected held : Text)
  deriving DecidableEq, Repr

/-- The policy applied to a peer's attestation. -/
structure AttestationPolicy where
  profiles : List ProviderProfile
  ownAccount : AccountId
  linkedAccounts : List AccountId
  stalenessLimitSecs : ℕ
  futureSkewLimitSecs : ℕ
  ephemeralReceive : Bool

/-- The answer of a verification: the tier earned, or a fetch that is due. -/
inductive Verification (A : Type)
  | verified (a : A)
  | jwksNeeded (jwksUri : Text)
  deriving DecidableEq, Repr

namespace PeerTrust

/-- How old an attestation may be. -/
def stalenessLimitSecs : ℕ := 30 * 24 * 60 * 60

/-- How far ahead of the clock an attestation may be. -/
def futureSkewLimitSecs : ℕ := 300

variable (tp : TokenPrimitives)

/-- The nonce that binds a peer's keys. -/
def expectedNonce (binding : NonceBinding) (identityPub agreementPub : PublicKeyPoint) : Text :=
  let verbatim := tp.encode64 (tp.blake3.hash (identityPub.bytes.val ++ agreementPub.bytes.val)).val
  match binding with
  | .verbatim => verbatim
  | .hashed => tp.encode64 (tp.sha256 (utf8Bytes verbatim))

/-- Steps 3 to 5: audience, nonce and age. -/
def checkClaims (profile : ProviderProfile) (claims : VerifiedClaims)
    (identityPub agreementPub : PublicKeyPoint) (stalenessLimit futureSkewLimit : ℕ)
    (now : UnixTime) : Except AttestationError Unit := do
  require (claims.aud ∈ profile.clientIds) .audienceNotRecognised
  require (claims.nonce = expectedNonce tp profile.nonceBinding identityPub agreementPub)
    .nonceMismatch
  if claims.iat.secs ≤ now.secs then
    require ((now.secs.toInt - claims.iat.secs.toInt).toNat ≤ stalenessLimit) .stale
  else
    require ((claims.iat.secs.toInt - now.secs.toInt).toNat ≤ futureSkewLimit) .clockSkew

/-- Steps 3 to 6: the tier an attestation earns. -/
def classifyWithProfile (profile : ProviderProfile) (policy : AttestationPolicy)
    (claims : VerifiedClaims) (identityPub agreementPub : PublicKeyPoint) (now : UnixTime) :
    Except AttestationError TrustTier := do
  checkClaims tp profile claims identityPub agreementPub policy.stalenessLimitSecs
    policy.futureSkewLimitSecs now
  let account := claims.account
  if account = policy.ownAccount then return .sameAccount
  else if account ∈ policy.linkedAccounts then return .linked
  else if policy.ephemeralReceive then return .nearbyEphemeral
  else .error .untrustedAccount

/-- Steps 1 and 2: select the profile, and verify the signature with its cached keys. An
unknown key spends the budget of the cache, or is an error. -/
def verifyStepsOneAndTwo (profiles : List ProviderProfile) (cache : JwksCache) (token : Text)
    (mono : ℕ) :
    Except VerifyError (Verification (ProviderProfile × VerifiedClaims)) × JwksCache :=
  match peekIssuer tp token with
  | .error e => (.error (.token e), cache)
  | .ok iss =>
    match profiles.find? fun p => p.issuer = iss with
    | none => (.error (.attestation .unknownIssuer), cache)
    | some profile =>
      if cache.jwksUri ≠ profile.jwksUri then
        (.error (.cacheIsForAnotherProvider profile.jwksUri cache.jwksUri), cache)
      else
        match verifyIdToken tp profile cache.keys token with
        | .ok claims => (.ok (.verified (profile, claims)), cache)
        | .error (.unknownKeyId kid) =>
          match cache.claimRefetchFor kid mono with
          | (true, cache) => (.ok (.jwksNeeded profile.jwksUri), cache)
          | (false, cache) => (.error (.token (.unknownKeyId kid)), cache)
        | .error e => (.error (.token e), cache)

/-- The seven steps against a token. -/
def verifyAttestation (policy : AttestationPolicy) (cache : JwksCache) (token : Text)
    (identityPub agreementPub : PublicKeyPoint) (wall : UnixTime) (mono : ℕ) :
    Except VerifyError (Verification TrustTier) × JwksCache :=
  match verifyStepsOneAndTwo tp policy.profiles cache token mono with
  | (.error e, cache) => (.error e, cache)
  | (.ok (.jwksNeeded uri), cache) => (.ok (.jwksNeeded uri), cache)
  | (.ok (.verified (profile, claims)), cache) =>
    match classifyWithProfile tp profile policy claims identityPub agreementPub wall with
    | .error e => (.error (.attestation e), cache)
    | .ok tier => (.ok (.verified tier), cache)

/-- Why a link attestation could not be verified. -/
inductive LinkVerifyError
  | attestation (e : VerifyError)
  | keyDoesNotMatchChannel (authenticated claimed : DeviceId)
  deriving DecidableEq

/-- The join of the keys and steps 1 to 5, for a link: the account the token names. -/
def verifyLinkAttestation (profiles : List ProviderProfile) (cache : JwksCache) (token : Text)
    (identityPub agreementPub : PublicKeyPoint) (authenticated : DeviceId) (wall : UnixTime)
    (mono : ℕ) : Except LinkVerifyError (Verification AccountId) × JwksCache :=
  if tp.blake3.deviceIdOf identityPub ≠ authenticated then
    (.error (.keyDoesNotMatchChannel authenticated (tp.blake3.deviceIdOf identityPub)), cache)
  else
    match verifyStepsOneAndTwo tp profiles cache token mono with
    | (.error e, cache) => (.error (.attestation e), cache)
    | (.ok (.jwksNeeded uri), cache) => (.ok (.jwksNeeded uri), cache)
    | (.ok (.verified (profile, claims)), cache) =>
      match checkClaims tp profile claims identityPub agreementPub stalenessLimitSecs
          futureSkewLimitSecs wall with
      | .error e => (.error (.attestation (.attestation e)), cache)
      | .ok () => (.ok (.verified claims.account), cache)

/-! ### The device's cache -/

/-- Why a classification gave no tier. -/
inductive ClassifyCachedError
  | jwksNeeded (jwksUri : Text)
  | refused (e : VerifyError)
  deriving DecidableEq, Repr

/-- The policy a device applies: its one profile and the limits. -/
def policyOf (profile : ProviderProfile) (ownAccount : AccountId)
    (linkedAccounts : List AccountId) : AttestationPolicy :=
  ⟨[profile], ownAccount, linkedAccounts, stalenessLimitSecs, futureSkewLimitSecs, false⟩

/-- Classify a token from the cache alone, judging its age at a time the caller chose. -/
def classifyCached (profile : ProviderProfile) (ownAccount : AccountId)
    (linkedAccounts : List AccountId) (cache : JwksCache) (token : Text)
    (identityPub agreementPub : PublicKeyPoint) (wall : UnixTime) (mono : ℕ) :
    Except ClassifyCachedError TrustTier × JwksCache :=
  match verifyAttestation tp (policyOf profile ownAccount linkedAccounts) cache token identityPub
      agreementPub wall mono with
  | (.ok (.verified tier), cache) => (.ok tier, cache)
  | (.ok (.jwksNeeded uri), cache) => (.error (.jwksNeeded uri), cache)
  | (.error e, cache) => (.error (.refused e), cache)

/-- What a fetch of the provider's keys came to: the answer of the network. -/
abbrev Fetched := Except Text (List UInt8)

/-- Why warming the cache failed. -/
inductive WarmError
  | fetch (message : Text)
  | anotherCache (jwksUri held : Text)
  | install (e : JwksError)
  deriving DecidableEq, Repr

/-- Fetch a provider's keys and install them. -/
def warm (cache : JwksCache) (jwksUri : Text) (fetched : Fetched) :
    Except WarmError Unit × JwksCache :=
  match fetched with
  | .error message => (.error (.fetch message), cache)
  | .ok document =>
    if jwksUri ≠ cache.jwksUri then (.error (.anotherCache jwksUri cache.jwksUri), cache)
    else
      match cache.install tp document with
      | (.error e, cache) => (.error (.install e), cache)
      | (.ok (), cache) => (.ok (), cache)

/-- What else uses the cache: classifying a peer and verifying a link, at first and again
with the document that was fetched, and warming the cache. -/
inductive Traffic
  | classify (token : Text) (identityPub agreementPub : PublicKeyPoint) (ownAccount : AccountId)
    (linkedAccounts : List AccountId) (wall : UnixTime) (mono : ℕ) (fetched : Option (List UInt8))
  | verifyLink (token : Text) (identityPub agreementPub : PublicKeyPoint)
    (authenticated : DeviceId) (wall : UnixTime) (mono : ℕ) (fetched : Option (List UInt8))
  | warm (jwksUri : Text) (fetched : Fetched)

/-- Install what was fetched and look again, unless it does not parse. -/
def lookAgain (cache : JwksCache) (fetched : Option (List UInt8))
    (look : JwksCache → JwksCache) : JwksCache :=
  match fetched with
  | none => look cache
  | some document =>
    match cache.install tp document with
    | (.error _, cache) => cache
    | (.ok (), cache) => look cache

/-- The cache after something else used it. -/
def Traffic.perform (profile : ProviderProfile) (cache : JwksCache) : Traffic → JwksCache
  | .classify token identityPub agreementPub ownAccount linkedAccounts wall mono fetched =>
    lookAgain tp cache fetched fun cache =>
      (verifyAttestation tp (policyOf profile ownAccount linkedAccounts) cache token identityPub
        agreementPub wall mono).2
  | .verifyLink token identityPub agreementPub authenticated wall mono fetched =>
    lookAgain tp cache fetched fun cache =>
      (verifyLinkAttestation tp [profile] cache token identityPub agreementPub authenticated wall
        mono).2
  | .warm jwksUri fetched => (PeerTrust.warm tp cache jwksUri fetched).2

/-- The document something else fetched. -/
def Traffic.document : Traffic → Option (List UInt8)
  | .classify _ _ _ _ _ _ _ fetched | .verifyLink _ _ _ _ _ _ fetched => fetched
  | .warm _ (.ok document) => some document
  | .warm _ (.error _) => none

/-! ### What happens to the keys -/

variable {tp} {profile : ProviderProfile} {profiles : List ProviderProfile} {cache : JwksCache}
  {token : Text} {identityPub agreementPub : PublicKeyPoint} {wall : UnixTime} {mono : ℕ}

/-- Granting a fetch leaves the keys alone. -/
theorem claimRefetchFor_keys (cache : JwksCache) (kid : Text) (now : ℕ) :
    (cache.claimRefetchFor kid now).2.keys = cache.keys ∧
      (cache.claimRefetchFor kid now).2.jwksUri = cache.jwksUri := by
  unfold JwksCache.claimRefetchFor
  split_ifs
  · exact ⟨rfl, rfl⟩
  · exact ⟨rfl, rfl⟩
  · exact ⟨rfl, rfl⟩

/-- So does verifying a token. -/
theorem verifyStepsOneAndTwo_keys (profiles : List ProviderProfile) (cache : JwksCache)
    (token : Text) (mono : ℕ) :
    (verifyStepsOneAndTwo tp profiles cache token mono).2.keys = cache.keys ∧
      (verifyStepsOneAndTwo tp profiles cache token mono).2.jwksUri = cache.jwksUri := by
  unfold verifyStepsOneAndTwo
  split
  · exact ⟨rfl, rfl⟩
  split
  · exact ⟨rfl, rfl⟩
  split_ifs
  · exact ⟨rfl, rfl⟩
  split
  · exact ⟨rfl, rfl⟩
  · rename_i kid _
    have hkeys := claimRefetchFor_keys cache kid mono
    split
    · rename_i h
      rw [h] at hkeys
      exact hkeys
    · rename_i h
      rw [h] at hkeys
      exact hkeys
  · exact ⟨rfl, rfl⟩

theorem verifyAttestation_snd (policy : AttestationPolicy) (cache : JwksCache) (token : Text)
    (identityPub agreementPub : PublicKeyPoint) (wall : UnixTime) (mono : ℕ) :
    (verifyAttestation tp policy cache token identityPub agreementPub wall mono).2 =
      (verifyStepsOneAndTwo tp policy.profiles cache token mono).2 := by
  unfold verifyAttestation
  rcases verifyStepsOneAndTwo tp policy.profiles cache token mono with
    ⟨e | ⟨profile, claims⟩ | uri, cache'⟩
  · rfl
  · dsimp only
    split
    · rfl
    · rfl
  · rfl

theorem classifyCached_snd (ownAccount : AccountId) (linkedAccounts : List AccountId)
    (cache : JwksCache) (token : Text) (identityPub agreementPub : PublicKeyPoint)
    (wall : UnixTime) (mono : ℕ) :
    (classifyCached tp profile ownAccount linkedAccounts cache token identityPub agreementPub wall
      mono).2 = (verifyStepsOneAndTwo tp [profile] cache token mono).2 := by
  refine Eq.trans ?_ (verifyAttestation_snd (policyOf profile ownAccount linkedAccounts) cache
    token identityPub agreementPub wall mono)
  unfold classifyCached
  rcases verifyAttestation tp (policyOf profile ownAccount linkedAccounts) cache token identityPub
    agreementPub wall mono with ⟨e | tier | uri, cache'⟩
  · rfl
  · rfl
  · rfl

theorem verifyLinkAttestation_snd (profiles : List ProviderProfile) (cache : JwksCache)
    (token : Text) (identityPub agreementPub : PublicKeyPoint) (authenticated : DeviceId)
    (wall : UnixTime) (mono : ℕ) :
    (verifyLinkAttestation tp profiles cache token identityPub agreementPub authenticated wall
        mono).2 = cache ∨
      (verifyLinkAttestation tp profiles cache token identityPub agreementPub authenticated wall
        mono).2 = (verifyStepsOneAndTwo tp profiles cache token mono).2 := by
  unfold verifyLinkAttestation
  split_ifs
  · exact .inl rfl
  · right
    rcases verifyStepsOneAndTwo tp profiles cache token mono with
      ⟨e | ⟨profile, claims⟩ | uri, cache'⟩
    · rfl
    · dsimp only
      split
      · rfl
      · rfl
    · rfl

variable (tp) in
/-- Installing a document leaves the keys alone or replaces them by those of the document. -/
theorem install_keys (cache : JwksCache) (document : List UInt8) :
    (cache.install tp document).2.jwksUri = cache.jwksUri ∧
      ((cache.install tp document).2.keys = cache.keys ∨
        parseJwks tp document = .ok (cache.install tp document).2.keys) := by
  unfold JwksCache.install
  rcases parseJwks tp document with e | keys
  · exact ⟨rfl, .inl rfl⟩
  · exact ⟨rfl, .inr rfl⟩

variable (tp) in
/-- So does warming the cache. -/
theorem warm_keys (cache : JwksCache) (jwksUri : Text) (fetched : Fetched) :
    (warm tp cache jwksUri fetched).2.jwksUri = cache.jwksUri ∧
      ((warm tp cache jwksUri fetched).2.keys = cache.keys ∨
        ∃ document, fetched = .ok document ∧
          parseJwks tp document = .ok (warm tp cache jwksUri fetched).2.keys) := by
  unfold warm
  rcases fetched with message | document
  · exact ⟨rfl, .inl rfl⟩
  dsimp only
  split_ifs
  · exact ⟨rfl, .inl rfl⟩
  obtain ⟨huri, hkeys⟩ := install_keys tp cache document
  have hsnd : (match cache.install tp document with
      | (.error e, cache) => ((.error (.install e), cache) : Except WarmError Unit × JwksCache)
      | (.ok (), cache) => (.ok (), cache)).2 = (cache.install tp document).2 := by
    rcases cache.install tp document with ⟨e | _, cache'⟩
    · rfl
    · rfl
  rw [hsnd]
  exact ⟨huri, hkeys.imp id fun h => ⟨document, rfl, h⟩⟩

/-- Looking again leaves the keys alone or replaces them by those that were fetched. -/
theorem lookAgain_keys {look : JwksCache → JwksCache}
    (hlook : ∀ c, (look c).keys = c.keys ∧ (look c).jwksUri = c.jwksUri) (cache : JwksCache)
    (fetched : Option (List UInt8)) :
    (lookAgain tp cache fetched look).jwksUri = cache.jwksUri ∧
      ((lookAgain tp cache fetched look).keys = cache.keys ∨
        ∃ document, fetched = some document ∧
          parseJwks tp document = .ok (lookAgain tp cache fetched look).keys) := by
  unfold lookAgain
  rcases fetched with _ | document
  · exact ⟨(hlook cache).2, .inl (hlook cache).1⟩
  obtain ⟨huri, hkeys⟩ := install_keys tp cache document
  dsimp only
  rcases hinstall : cache.install tp document with ⟨e | _, cache'⟩
  · rw [hinstall] at huri hkeys
    exact ⟨huri, hkeys.imp id fun h => ⟨document, rfl, h⟩⟩
  · rw [hinstall] at huri hkeys
    dsimp only
    rw [(hlook cache').1, (hlook cache').2]
    exact ⟨huri, hkeys.imp id fun h => ⟨document, rfl, h⟩⟩

/-- Whatever else uses the cache leaves its keys alone or replaces them by those of a
document that was fetched. -/
theorem Traffic.perform_keys (cache : JwksCache) (t : Traffic) :
    (t.perform tp profile cache).jwksUri = cache.jwksUri ∧
      ((t.perform tp profile cache).keys = cache.keys ∨
        ∃ document, t.document = some document ∧
          parseJwks tp document = .ok (t.perform tp profile cache).keys) := by
  cases t with
  | classify token identityPub agreementPub ownAccount linkedAccounts wall mono fetched =>
      refine lookAgain_keys ?_ cache fetched
      intro c
      rw [verifyAttestation_snd]
      exact verifyStepsOneAndTwo_keys _ c token mono
  | verifyLink token identityPub agreementPub authenticated wall mono fetched =>
      refine lookAgain_keys ?_ cache fetched
      intro c
      rcases verifyLinkAttestation_snd [profile] c token identityPub agreementPub authenticated
        wall mono with h | h
      · rw [h]
        exact ⟨rfl, rfl⟩
      · rw [h]
        exact verifyStepsOneAndTwo_keys _ c token mono
  | warm jwksUri fetched =>
      obtain ⟨huri, hkeys⟩ := warm_keys tp cache jwksUri fetched
      refine ⟨huri, hkeys.imp id ?_⟩
      rintro ⟨document, rfl, hdoc⟩
      exact ⟨document, rfl, hdoc⟩

/-! ### A genuine token -/

/-- The key identifier a token names. -/
def kidOf (tp : TokenPrimitives) (profile : ProviderProfile) (token : Text) : Option Text :=
  match readHeader tp profile token with
  | .ok h => some h.kid
  | .error _ => none

/-- A token earns a tier under a set of keys. -/
def Verifies (tp : TokenPrimitives) (profile : ProviderProfile) (ownAccount : AccountId)
    (linkedAccounts : List AccountId) (token : Text) (identityPub agreementPub : PublicKeyPoint)
    (wall : UnixTime) (tier : TrustTier) (keys : List Jwk) : Prop :=
  (classifyCached tp profile ownAccount linkedAccounts ⟨profile.jwksUri, keys, none⟩ token
    identityPub agreementPub wall 0).1 = .ok tier

variable {ownAccount : AccountId} {linkedAccounts : List AccountId} {tier : TrustTier}
  {keys : List Jwk}

/-- The answer to a token of the profile's issuer, once its header was read. -/
theorem classifyCached_eq (huri : cache.jwksUri = profile.jwksUri)
    (hpeek : peekIssuer tp token = .ok profile.issuer) :
    classifyCached tp profile ownAccount linkedAccounts cache token identityPub agreementPub wall
        mono =
      match verifyIdToken tp profile cache.keys token with
      | .ok claims =>
        ((classifyWithProfile tp profile (policyOf profile ownAccount linkedAccounts) claims
          identityPub agreementPub wall).mapError fun e => .refused (.attestation e), cache)
      | .error (.unknownKeyId kid) =>
        match cache.claimRefetchFor kid mono with
        | (true, cache) => (.error (.jwksNeeded profile.jwksUri), cache)
        | (false, cache) => (.error (.refused (.token (.unknownKeyId kid))), cache)
      | .error e => (.error (.refused (.token e)), cache) := by
  have hfind : [profile].find? (fun p => p.issuer = profile.issuer) = some profile := by
    rw [List.find?_cons_of_pos]
    exact decide_eq_true rfl
  unfold classifyCached verifyAttestation verifyStepsOneAndTwo policyOf
  dsimp only
  rw [hpeek]
  dsimp only
  rw [hfind]
  dsimp only
  rw [if_neg fun hne => hne huri]
  rcases verifyIdToken tp profile cache.keys token with e | claims
  · cases e with
    | unknownKeyId kid =>
        dsimp only
        rcases cache.claimRefetchFor kid mono with ⟨granted, cache'⟩
        cases granted with
        | true => rfl
        | false => rfl
    | _ => rfl
  · dsimp only
    rcases classifyWithProfile tp profile _ claims identityPub agreementPub wall with e | tier
    · rfl
    · rfl

/-- A token that is answered with a tier names the issuer of the profile. -/
theorem peekIssuer_of_classifyCached
    (h : (classifyCached tp profile ownAccount linkedAccounts cache token identityPub agreementPub
      wall mono).1 = .ok tier) : peekIssuer tp token = .ok profile.issuer := by
  unfold classifyCached verifyAttestation verifyStepsOneAndTwo policyOf at h
  rcases hpeek : Tradr.peekIssuer tp token with e | iss
  · rw [hpeek] at h
    cases h
  · rw [hpeek] at h
    dsimp only at h
    rcases hfind : [profile].find? (fun p => p.issuer = iss) with _ | p
    · rw [hfind] at h
      cases h
    · have hissuer := List.find?_some hfind
      have hp := List.mem_singleton.mp (List.mem_of_find?_eq_some hfind)
      rw [hp] at hissuer
      rw [of_decide_eq_true hissuer]

/-- A token that is answered with a tier verifies with the key it names. -/
theorem claims_of_classifyCached (huri : cache.jwksUri = profile.jwksUri)
    (h : (classifyCached tp profile ownAccount linkedAccounts cache token identityPub agreementPub
      wall mono).1 = .ok tier) :
    ∃ claims, verifyIdToken tp profile cache.keys token = .ok claims ∧
      classifyWithProfile tp profile (policyOf profile ownAccount linkedAccounts) claims
        identityPub agreementPub wall = .ok tier := by
  rw [classifyCached_eq huri (peekIssuer_of_classifyCached h)] at h
  rcases hverify : verifyIdToken tp profile cache.keys token with e | claims
  · rw [hverify] at h
    cases e with
    | unknownKeyId kid =>
        dsimp only at h
        rcases hclaim : cache.claimRefetchFor kid mono with ⟨granted, cache'⟩
        rw [hclaim] at h
        cases granted with
        | true => cases h
        | false => cases h
    | _ => cases h
  · rw [hverify] at h
    exact ⟨claims, rfl, mapError_eq_ok.mp h⟩

/-- Under keys of the profile's own, nothing but the issuer, the key and the claims counts. -/
theorem verifies_iff : Verifies tp profile ownAccount linkedAccounts token identityPub
      agreementPub wall tier keys ↔
    peekIssuer tp token = .ok profile.issuer ∧
      ∃ claims, verifyIdToken tp profile keys token = .ok claims ∧
        classifyWithProfile tp profile (policyOf profile ownAccount linkedAccounts) claims
          identityPub agreementPub wall = .ok tier := by
  constructor
  · intro h
    exact ⟨peekIssuer_of_classifyCached h, claims_of_classifyCached rfl h⟩
  · rintro ⟨hpeek, claims, hverify, htier⟩
    unfold Verifies
    rw [classifyCached_eq rfl hpeek]
    dsimp only
    rw [hverify]
    dsimp only
    rw [htier]
    rfl

/-- A token that is answered with a tier earns it under the keys that were cached. -/
theorem verifies_of_classifyCached (huri : cache.jwksUri = profile.jwksUri)
    (h : (classifyCached tp profile ownAccount linkedAccounts cache token identityPub agreementPub
      wall mono).1 = .ok tier) :
    Verifies tp profile ownAccount linkedAccounts token identityPub agreementPub wall tier
      cache.keys :=
  verifies_iff.mpr ⟨peekIssuer_of_classifyCached h, claims_of_classifyCached huri h⟩

/-- A token that earns a tier names the issuer of the profile. -/
theorem Verifies.peekIssuer
    (h : Verifies tp profile ownAccount linkedAccounts token identityPub agreementPub wall tier
      keys) : peekIssuer tp token = .ok profile.issuer :=
  (verifies_iff.mp h).1

/-- And it verifies with the key it names. -/
theorem Verifies.claims
    (h : Verifies tp profile ownAccount linkedAccounts token identityPub agreementPub wall tier
      keys) :
    ∃ claims, verifyIdToken tp profile keys token = .ok claims ∧
      classifyWithProfile tp profile (policyOf profile ownAccount linkedAccounts) claims
        identityPub agreementPub wall = .ok tier :=
  (verifies_iff.mp h).2

/-- The key a token names is among those it verifies under. -/
theorem Verifies.kidOf
    (h : Verifies tp profile ownAccount linkedAccounts token identityPub agreementPub wall tier
      keys) : ∃ kid, kidOf tp profile token = some kid ∧ ∃ k ∈ keys, k.kid = kid := by
  obtain ⟨claims, hverify, -⟩ := h.claims
  obtain ⟨header, hheader, hwith⟩ := bind_eq_ok.mp hverify
  obtain ⟨key, hkey, -⟩ := bind_eq_ok.mp hwith
  have hfind := okOr_eq_ok.mp hkey
  refine ⟨header.kid, ?_, key, List.mem_of_find?_eq_some hfind, ?_⟩
  · rw [PeerTrust.kidOf, hheader]
  · simpa using List.find?_some hfind

/-- **A genuine token under keys it verifies under** earns its tier. -/
theorem classifyCached_of_holds
    (h : Verifies tp profile ownAccount linkedAccounts token identityPub agreementPub wall tier
      cache.keys) (huri : cache.jwksUri = profile.jwksUri) (mono : ℕ) :
    classifyCached tp profile ownAccount linkedAccounts cache token identityPub agreementPub wall
      mono = (.ok tier, cache) := by
  obtain ⟨claims, hverify, htier⟩ := h.claims
  rw [classifyCached_eq huri h.peekIssuer, hverify]
  dsimp only
  rw [htier]
  rfl

/-- **A genuine token whose key is not cached** makes a fetch due, or is refused when the
budget is spent. -/
theorem classifyCached_of_lacks
    (h : Verifies tp profile ownAccount linkedAccounts token identityPub agreementPub wall tier
      keys) (huri : cache.jwksUri = profile.jwksUri) {kid : Text}
    (hkid : kidOf tp profile token = some kid) (hlacks : ¬cache.Holds kid)
    (linkedAccounts' : List AccountId) (identityPub' agreementPub' : PublicKeyPoint)
    (wall' : UnixTime) (mono : ℕ) :
    classifyCached tp profile ownAccount linkedAccounts' cache token identityPub' agreementPub'
        wall' mono =
      if cache.BudgetFree mono then
        (.error (.jwksNeeded profile.jwksUri), { cache with lastClaim := some mono })
      else (.error (.refused (.token (.unknownKeyId kid))), cache) := by
  obtain ⟨claims, hverify, -⟩ := h.claims
  obtain ⟨header, hheader, -⟩ := bind_eq_ok.mp hverify
  have hkid' : header.kid = kid := by
    rw [PeerTrust.kidOf, hheader] at hkid
    exact Option.some.inj hkid
  have hfind : cache.keys.find? (fun k => k.kid = header.kid) = none := by
    rw [List.find?_eq_none]
    intro k hk hc
    exact hlacks ⟨k, hk, (of_decide_eq_true hc).trans hkid'⟩
  have hunknown : verifyIdToken tp profile cache.keys token = .error (.unknownKeyId kid) := by
    rw [verifyIdToken, hheader, ok_bind, verifyWith, hfind, hkid']
    rfl
  rw [classifyCached_eq huri h.peekIssuer, hunknown]
  dsimp only
  rw [JwksCache.claimRefetchFor, if_neg hlacks]
  split_ifs
  · rfl
  · rfl

end PeerTrust

end Tradr
