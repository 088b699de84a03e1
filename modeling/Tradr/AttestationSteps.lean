import Mathlib.Data.List.Nodup
import Tradr.BrowseAccess

/-!
# The Seven Steps

Verifying an attestation reads the token twice: the issuer is peeked at to select a profile
before any signature is checked, and the claims are parsed after it was. The cache is handed
over by the caller, and so are the keys the nonce has to bind. This module states in one
predicate what a verified token is (one reading of one token, one profile, one key) and
proves that verification answers with an account or a tier for exactly the tokens of which
it holds.

## Main definitions

* `readToken`: a token read once.
* `Attested`: the steps up to the age of the token, about one reading, one profile and one key.
* `EarnsTier`: the rule for the account.
* `JwksCache.FetchedFor`: how a cache comes to its keys.

## Main results

* `verified_iff_steps`: verification is sound and complete, for a tier and for a link, and
  every key it accepts came with a document fetched for the provider the token names.
-/

open Fallible

namespace Tradr

/-! ### One reading of a token -/

/-- What a token consists of: its header and its payload, its signature, and the text the
signature is over. -/
structure ReadToken where
  header : Json
  payload : Json
  signingInput : List UInt8
  signature : List UInt8

/-- Read all of a token. -/
def readToken (tp : TokenPrimitives) (token : Text) : Option ReadToken :=
  match token.splitOn '.' with
  | [header64, payload64, signature64] => do
    let header ← (tp.decode64 header64).bind tp.parseJson
    let payload ← (tp.decode64 payload64).bind tp.parseJson
    let signature ← tp.decode64 signature64
    return ⟨header, payload, utf8Bytes (header64 ++ '.' :: payload64), signature⟩
  | _ => none

/-- A payload makes these claims. -/
structure Json.Claims (payload : Json) (claims : VerifiedClaims) : Prop where
  iss : (payload.get "iss").bind Json.asStr = some claims.iss
  sub : (payload.get "sub").bind Json.asStr = some claims.sub
  aud : (payload.get "aud").bind Json.asStr = some claims.aud
  iat : (payload.get "iat").bind Json.asI64 = some claims.iat.secs
  nonce : (payload.get "nonce").bind Json.asStr = some claims.nonce

/-- An issuer selects a profile: the first that carries it. -/
def Selects (profiles : List ProviderProfile) (iss : Text) (profile : ProviderProfile) : Prop :=
  ∃ before after, profiles = before ++ profile :: after ∧ profile.issuer = iss ∧
    ∀ other ∈ before, other.issuer ≠ iss

/-- Selecting is looking for the first. -/
theorem selects_iff_find? {profiles : List ProviderProfile} {iss : Text}
    {profile : ProviderProfile} :
    Selects profiles iss profile ↔ profiles.find? (fun p => p.issuer = iss) = some profile := by
  rw [List.find?_eq_some_iff_append]
  constructor
  · rintro ⟨before, after, hprofiles, hiss, hbefore⟩
    refine ⟨decide_eq_true hiss, before, after, hprofiles, ?_⟩
    intro other hother
    simpa using hbefore other hother
  · rintro ⟨hiss, before, after, hprofiles, hbefore⟩
    refine ⟨before, after, hprofiles, of_decide_eq_true hiss, ?_⟩
    intro other hother
    simpa using hbefore other hother

/-- Where no two profiles share an issuer, the one that carries it is selected. -/
theorem selects_iff_mem {profiles : List ProviderProfile} {iss : Text}
    {profile : ProviderProfile} (hdistinct : (profiles.map ProviderProfile.issuer).Nodup) :
    Selects profiles iss profile ↔ profile ∈ profiles ∧ profile.issuer = iss := by
  constructor
  · rintro ⟨before, after, rfl, hiss, -⟩
    exact ⟨List.mem_append_right _ List.mem_cons_self, hiss⟩
  · rintro ⟨hmem, hiss⟩
    obtain ⟨before, after, rfl⟩ := List.append_of_mem hmem
    refine ⟨before, after, rfl, hiss, ?_⟩
    intro other hother hsame
    rw [List.map_append, List.map_cons, List.nodup_append] at hdistinct
    refine hdistinct.2.2 other.issuer (List.mem_map_of_mem hother) profile.issuer
      List.mem_cons_self ?_
    rw [hsame, hiss]

/-- The age of a token, and how far it may be ahead of the clock. -/
def Fresh (stalenessLimit futureSkewLimit : ℕ) (iat now : UnixTime) : Prop :=
  now.secs.toInt - iat.secs.toInt ≤ stalenessLimit ∧
    iat.secs.toInt - now.secs.toInt ≤ futureSkewLimit

/-- The steps up to the age of a token, about one reading of it, the profile its own issuer
selects and one key of the cache made for that profile. -/
structure Attested (tp : TokenPrimitives) (profiles : List ProviderProfile) (cache : JwksCache)
    (token : Text) (identityPub agreementPub : PublicKeyPoint)
    (stalenessLimit futureSkewLimit : ℕ) (now : UnixTime) (r : ReadToken)
    (claims : VerifiedClaims) (profile : ProviderProfile) (key : Jwk) : Prop where
  read : readToken tp token = some r
  claimed : r.payload.Claims claims
  selected : Selects profiles claims.iss profile
  bound : cache.jwksUri = profile.jwksUri
  named : (r.header.get "alg").bind Json.asStr = some "RS256".toList
  permitted : .rs256 ∈ profile.algorithms
  cached : key ∈ cache.keys
  chosen : (r.header.get "kid").bind Json.asStr = some key.kid
  published : key.algorithm = .rs256
  signed : tp.rsaVerifies key.modulus key.exponent r.signingInput r.signature = true
  audience : claims.aud ∈ profile.clientIds
  nonce : claims.nonce =
    PeerTrust.expectedNonce tp profile.nonceBinding identityPub agreementPub
  fresh : Fresh stalenessLimit futureSkewLimit claims.iat now

/-- The rule for the account: one's own, a linked one, or anyone's while ephemeral receiving
is on. -/
inductive EarnsTier (policy : AttestationPolicy) (account : AccountId) : TrustTier → Prop
  | sameAccount (h : account = policy.ownAccount) : EarnsTier policy account .sameAccount
  | linked (h : account ≠ policy.ownAccount) (hlinked : account ∈ policy.linkedAccounts) :
    EarnsTier policy account .linked
  | nearbyEphemeral (h : account ≠ policy.ownAccount)
    (hlinked : account ∉ policy.linkedAccounts) (hreceive : policy.ephemeralReceive = true) :
    EarnsTier policy account .nearbyEphemeral

/-! ### The keys of a cache -/

/-- How a cache made for a provider's keys comes to be: documents fetched for that provider
are installed one after another, and fetches are granted. -/
inductive JwksCache.FetchedFor (tp : TokenPrimitives) (jwksUri : Text) :
    List (List UInt8) → JwksCache → Prop
  | new : FetchedFor tp jwksUri [] (JwksCache.new jwksUri)
  | install {documents : List (List UInt8)} {cache : JwksCache}
    (h : FetchedFor tp jwksUri documents cache) (document : List UInt8) :
    FetchedFor tp jwksUri (documents ++ [document]) (cache.install tp document).2
  | claim {documents : List (List UInt8)} {cache : JwksCache}
    (h : FetchedFor tp jwksUri documents cache) (kid : Text) (mono : ℕ) :
    FetchedFor tp jwksUri documents (cache.claimRefetchFor kid mono).2

variable {tp : TokenPrimitives}

/-- An entry of a document adds no second key of one identifier. -/
theorem nodup_addEntry {keys keys' : List Jwk} {entry : Json}
    (h : addEntry tp keys entry = .ok keys') (hkeys : (keys.map Jwk.kid).Nodup) :
    (keys'.map Jwk.kid).Nodup := by
  obtain ⟨_, -, hentry⟩ := bind_eq_ok.mp h
  cases hkid : usableEntry entry with
  | none =>
      rw [hkid] at hentry
      rw [pure_eq_ok.mp hentry]
      exact hkeys
  | some kid =>
      rw [hkid] at hentry
      obtain ⟨modulus, -, hentry⟩ := bind_eq_ok.mp hentry
      obtain ⟨exponent, -, hentry⟩ := bind_eq_ok.mp hentry
      obtain ⟨_, -, hentry⟩ := bind_eq_ok.mp hentry
      obtain ⟨_, hunused, hentry⟩ := bind_eq_ok.mp hentry
      have hnew := require_eq_ok.mp hunused
      rw [pure_eq_ok.mp hentry, List.map_append, List.nodup_append]
      refine ⟨hkeys, List.nodup_singleton _, ?_⟩
      intro a ha b hb hab
      obtain ⟨k, hk, rfl⟩ := List.mem_map.mp ha
      obtain rfl := List.mem_singleton.mp hb
      apply hnew
      rw [List.any_eq_true]
      exact ⟨k, hk, decide_eq_true hab⟩

/-- Nor do the entries of a whole document. -/
theorem nodup_foldlM_addEntry {entries : List Json} {keys keys' : List Jwk}
    (h : entries.foldlM (addEntry tp) keys = .ok keys') (hkeys : (keys.map Jwk.kid).Nodup) :
    (keys'.map Jwk.kid).Nodup := by
  induction entries generalizing keys with
  | nil =>
      rw [pure_eq_ok.mp h]
      exact hkeys
  | cons entry entries ih =>
      rw [List.foldlM_cons] at h
      obtain ⟨keys₁, hentry, h⟩ := bind_eq_ok.mp h
      exact ih h (nodup_addEntry hentry hkeys)

/-- The keys of a document have distinct identifiers. -/
theorem nodup_parseJwks {document : List UInt8} {keys : List Jwk}
    (h : parseJwks tp document = .ok keys) : (keys.map Jwk.kid).Nodup := by
  obtain ⟨root, -, h⟩ := bind_eq_ok.mp h
  obtain ⟨member, -, h⟩ := bind_eq_ok.mp h
  obtain ⟨entries, -, h⟩ := bind_eq_ok.mp h
  obtain ⟨keys', hfold, h⟩ := bind_eq_ok.mp h
  obtain ⟨_, -, h⟩ := bind_eq_ok.mp h
  rw [pure_eq_ok.mp h]
  exact nodup_foldlM_addEntry hfold List.nodup_nil

/-- What is known of a cache and of the documents fetched for it. -/
structure JwksCache.Genuine (tp : TokenPrimitives) (jwksUri : Text)
    (documents : List (List UInt8)) (cache : JwksCache) : Prop where
  bound : cache.jwksUri = jwksUri
  distinct : (cache.keys.map Jwk.kid).Nodup
  fetched : ∀ key ∈ cache.keys, ∃ document ∈ documents, ∃ keys,
    parseJwks tp document = .ok keys ∧ key ∈ keys

/-- **Every key of a cache came with a document fetched for its provider.** -/
theorem JwksCache.FetchedFor.genuine {jwksUri : Text} {documents : List (List UInt8)}
    {cache : JwksCache} (h : JwksCache.FetchedFor tp jwksUri documents cache) :
    cache.Genuine tp jwksUri documents := by
  induction h with
  | new => exact ⟨rfl, List.nodup_nil, fun _ hkey => absurd hkey List.not_mem_nil⟩
  | @install documents cache _ document ih =>
      obtain ⟨huri, hkeys⟩ := PeerTrust.install_keys tp cache document
      refine ⟨huri.trans ih.bound, ?_, ?_⟩
      · rcases hkeys with hkeys | hkeys
        · rw [hkeys]
          exact ih.distinct
        · exact nodup_parseJwks hkeys
      · intro key hkey
        rcases hkeys with hkeys | hkeys
        · rw [hkeys] at hkey
          obtain ⟨d, hd, hparse⟩ := ih.fetched key hkey
          exact ⟨d, List.mem_append_left _ hd, hparse⟩
        · exact ⟨document, List.mem_append_right _ List.mem_cons_self, _, hkeys, hkey⟩
  | @claim documents cache _ kid mono ih =>
      obtain ⟨hkeys, huri⟩ := PeerTrust.claimRefetchFor_keys cache kid mono
      refine ⟨huri.trans ih.bound, ?_, ?_⟩
      · rw [hkeys]
        exact ih.distinct
      · rw [hkeys]
        exact ih.fetched

/-- Among keys of distinct identifiers the one that is found is the one that is there. -/
theorem find?_kid_eq_some {keys : List Jwk} (hdistinct : (keys.map Jwk.kid).Nodup) {kid : Text}
    {key : Jwk} :
    keys.find? (fun k => k.kid = kid) = some key ↔ key ∈ keys ∧ key.kid = kid := by
  constructor
  · intro h
    exact ⟨List.mem_of_find?_eq_some h, by simpa using List.find?_some h⟩
  · rintro ⟨hmem, rfl⟩
    obtain ⟨before, after, rfl⟩ := List.append_of_mem hmem
    rw [List.find?_eq_some_iff_append]
    refine ⟨decide_eq_true rfl, before, after, rfl, ?_⟩
    intro other hother
    rw [List.map_append, List.map_cons, List.nodup_append] at hdistinct
    have hne := hdistinct.2.2 other.kid (List.mem_map_of_mem hother) key.kid List.mem_cons_self
    simpa using hne

/-! ### What each part of the verification checks -/

/-- An issuer that is peeked at is that of the payload. -/
theorem peekIssuer_eq_ok {token iss : Text} {r : ReadToken} (hr : readToken tp token = some r) :
    peekIssuer tp token = .ok iss ↔ (r.payload.get "iss").bind Json.asStr = some iss := by
  unfold readToken at hr
  split at hr
  · rename_i header64 payload64 signature64 hsplit
    obtain ⟨header, -, hr⟩ := Option.bind_eq_some_iff.mp hr
    obtain ⟨payload, hpayload, hr⟩ := Option.bind_eq_some_iff.mp hr
    obtain ⟨signature, -, hr⟩ := Option.bind_eq_some_iff.mp hr
    obtain ⟨bytes, hbytes, hparse⟩ := Option.bind_eq_some_iff.mp hpayload
    obtain rfl := Option.some.inj hr
    rw [peekIssuer, splitSegments, hsplit]
    dsimp only [ok_bind]
    rw [decodeSegment, hbytes, okOr_some, ok_bind, parseSegment, hparse, okOr_some, ok_bind]
    exact okOr_eq_ok
  · cases hr

/-- The claims of a payload are those it makes. -/
theorem parseClaims_eq_ok {payload : Json} {claims : VerifiedClaims} :
    parseClaims payload = .ok claims ↔ payload.Claims claims := by
  constructor
  · intro h
    obtain ⟨iss, hiss, h⟩ := bind_eq_ok.mp h
    obtain ⟨sub, hsub, h⟩ := bind_eq_ok.mp h
    obtain ⟨aud, haud, h⟩ := bind_eq_ok.mp h
    obtain ⟨iat, hiat, h⟩ := bind_eq_ok.mp h
    obtain ⟨nonce, hnonce, h⟩ := bind_eq_ok.mp h
    obtain rfl := pure_eq_ok.mp h
    exact ⟨okOr_eq_ok.mp hiss, okOr_eq_ok.mp hsub, okOr_eq_ok.mp haud, okOr_eq_ok.mp hiat,
      okOr_eq_ok.mp hnonce⟩
  · rintro ⟨hiss, hsub, haud, hiat, hnonce⟩
    rw [parseClaims, requireStr, hiss, okOr_some, ok_bind, requireStr, hsub, okOr_some, ok_bind,
      requireStr, haud, okOr_some, ok_bind, requireI64, hiat, okOr_some, ok_bind, requireStr,
      hnonce, okOr_some, ok_bind]
    rfl

/-- A permitted algorithm is the one there is. -/
theorem permittedAlgorithm_eq_ok {profile : ProviderProfile} {alg : Text}
    {algorithm : SignatureAlgorithm} : permittedAlgorithm profile alg = .ok algorithm ↔
      alg = "RS256".toList ∧ .rs256 ∈ profile.algorithms := by
  cases algorithm
  unfold permittedAlgorithm
  split_ifs with h
  · exact iff_of_true rfl h
  · refine iff_of_false ?_ h
    rintro ⟨⟩

/-- Three segments are what the token splits into. -/
theorem splitSegments_eq_ok {token header64 payload64 signature64 : Text} :
    splitSegments token = .ok (header64, payload64, signature64) ↔
      token.splitOn '.' = [header64, payload64, signature64] := by
  unfold splitSegments
  split
  · rename_i hsegments
    simp [hsegments]
  · rename_i hnone
    refine iff_of_false ?_ fun h => hnone _ _ _ h
    rintro ⟨⟩

/-- A header that was read is that of the token, and names a permitted algorithm and a key. -/
theorem readToken_of_readHeader {profile : ProviderProfile} {token : Text} {h : TokenHeader}
    (hread : readHeader tp profile token = .ok h) {payload : Json}
    (hpayload : tp.parseJson h.payload = some payload) :
    ∃ header, readToken tp token = some ⟨header, payload, h.signingInput, h.signature⟩ ∧
      (header.get "alg").bind Json.asStr = some "RS256".toList ∧
      .rs256 ∈ profile.algorithms ∧ (header.get "kid").bind Json.asStr = some h.kid := by
  obtain ⟨⟨header64, payload64, signature64⟩, hsplit, hread⟩ := bind_eq_ok.mp hread
  obtain ⟨headerBytes, hheaderBytes, hread⟩ := bind_eq_ok.mp hread
  obtain ⟨payloadBytes, hpayloadBytes, hread⟩ := bind_eq_ok.mp hread
  obtain ⟨signature, hsignature, hread⟩ := bind_eq_ok.mp hread
  obtain ⟨header, hheader, hread⟩ := bind_eq_ok.mp hread
  obtain ⟨alg, halg, hread⟩ := bind_eq_ok.mp hread
  obtain ⟨algorithm, hpermitted, hread⟩ := bind_eq_ok.mp hread
  obtain ⟨kid, hkid, hread⟩ := bind_eq_ok.mp hread
  obtain rfl := pure_eq_ok.mp hread
  obtain ⟨rfl, hpermits⟩ := permittedAlgorithm_eq_ok.mp hpermitted
  refine ⟨header, ?_, okOr_eq_ok.mp halg, hpermits, okOr_eq_ok.mp hkid⟩
  unfold readToken
  rw [splitSegments_eq_ok.mp hsplit]
  dsimp only
  rw [okOr_eq_ok.mp hheaderBytes, Option.bind_some, okOr_eq_ok.mp hheader,
    okOr_eq_ok.mp hpayloadBytes, Option.bind_some, hpayload, okOr_eq_ok.mp hsignature]
  rfl

/-- **A token that verifies** was read whole: its header names a permitted algorithm and a key,
the key verifies the signature over this header and this payload, and the claims are those
of this payload. -/
theorem verifyIdToken_eq_ok {profile : ProviderProfile} {keys : List Jwk} {token : Text}
    {claims : VerifiedClaims} : verifyIdToken tp profile keys token = .ok claims ↔
      ∃ r key, readToken tp token = some r ∧ r.payload.Claims claims ∧
        (r.header.get "alg").bind Json.asStr = some "RS256".toList ∧
        .rs256 ∈ profile.algorithms ∧
        (r.header.get "kid").bind Json.asStr = some key.kid ∧
        keys.find? (fun k => k.kid = key.kid) = some key ∧ key.algorithm = .rs256 ∧
        tp.rsaVerifies key.modulus key.exponent r.signingInput r.signature = true := by
  constructor
  · intro h
    obtain ⟨header, hheader, hwith⟩ := bind_eq_ok.mp h
    obtain ⟨key, hkey, hwith⟩ := bind_eq_ok.mp hwith
    obtain ⟨_, halgorithm, hwith⟩ := bind_eq_ok.mp hwith
    obtain ⟨_, hsigned, hwith⟩ := bind_eq_ok.mp hwith
    obtain ⟨payload, hpayload, hclaims⟩ := bind_eq_ok.mp hwith
    obtain ⟨json, hread, halg, hpermits, hkid⟩ :=
      readToken_of_readHeader hheader (okOr_eq_ok.mp hpayload)
    have hfind := okOr_eq_ok.mp hkey
    have hkid' : key.kid = header.kid := by simpa using List.find?_some hfind
    rw [← hkid'] at hkid hfind
    obtain ⟨algorithm, kid, signingInput, signature, bytes⟩ := header
    cases algorithm
    exact ⟨_, key, hread, parseClaims_eq_ok.mp hclaims, halg, hpermits, hkid, hfind,
      require_eq_ok.mp halgorithm, require_eq_ok.mp hsigned⟩
  · rintro ⟨r, key, hr, hclaims, halg, hpermits, hkid, hfind, hpublished, hsigned⟩
    unfold readToken at hr
    split at hr
    · rename_i header64 payload64 signature64 hsplit
      obtain ⟨header, hheader, hr⟩ := Option.bind_eq_some_iff.mp hr
      obtain ⟨payload, hpayload, hr⟩ := Option.bind_eq_some_iff.mp hr
      obtain ⟨signature, hsignature, hr⟩ := Option.bind_eq_some_iff.mp hr
      obtain ⟨headerBytes, hheaderBytes, hheaderJson⟩ := Option.bind_eq_some_iff.mp hheader
      obtain ⟨payloadBytes, hpayloadBytes, hpayloadJson⟩ := Option.bind_eq_some_iff.mp hpayload
      obtain rfl := Option.some.inj hr
      have hheader : readHeader tp profile token = .ok ⟨.rs256, key.kid,
          utf8Bytes (header64 ++ '.' :: payload64), signature, payloadBytes⟩ := by
        rw [readHeader, splitSegments, hsplit]
        dsimp only [ok_bind]
        rw [decodeSegment, hheaderBytes, okOr_some, ok_bind, decodeSegment, hpayloadBytes,
          okOr_some, ok_bind, decodeSegment, hsignature, okOr_some, ok_bind, parseSegment,
          hheaderJson, okOr_some, ok_bind, halg, okOr_some, ok_bind,
          permittedAlgorithm_eq_ok.mpr ⟨rfl, hpermits⟩, ok_bind, hkid, okOr_some, ok_bind]
        rfl
      rw [verifyIdToken, hheader, ok_bind, verifyWith, hfind, okOr_some, ok_bind,
        require_of hpublished, ok_bind, verifySignature, require_of hsigned, ok_bind, parseSegment,
        hpayloadJson, okOr_some, ok_bind]
      exact parseClaims_eq_ok.mpr hclaims
    · cases hr

namespace PeerTrust

variable {profiles : List ProviderProfile} {profile : ProviderProfile} {claims : VerifiedClaims}
  {identityPub agreementPub : PublicKeyPoint} {wall : UnixTime}

/-- Audience, nonce and age. -/
theorem checkClaims_eq_ok {stalenessLimit futureSkewLimit : ℕ} :
    checkClaims tp profile claims identityPub agreementPub stalenessLimit futureSkewLimit wall =
        .ok () ↔
      claims.aud ∈ profile.clientIds ∧
        claims.nonce = expectedNonce tp profile.nonceBinding identityPub agreementPub ∧
        Fresh stalenessLimit futureSkewLimit claims.iat wall := by
  have hage : (if claims.iat.secs ≤ wall.secs then
        require ((wall.secs.toInt - claims.iat.secs.toInt).toNat ≤ stalenessLimit)
          AttestationError.stale
      else
        require ((claims.iat.secs.toInt - wall.secs.toInt).toNat ≤ futureSkewLimit)
          AttestationError.clockSkew) = .ok () ↔
      Fresh stalenessLimit futureSkewLimit claims.iat wall := by
    unfold Fresh
    split_ifs with hle
    · rw [require_eq_ok]
      rw [Int64.le_iff_toInt_le] at hle
      omega
    · rw [require_eq_ok]
      rw [Int64.le_iff_toInt_le] at hle
      omega
  constructor
  · intro h
    obtain ⟨_, haud, h⟩ := bind_eq_ok.mp h
    obtain ⟨_, hnonce, h⟩ := bind_eq_ok.mp h
    exact ⟨require_eq_ok.mp haud, require_eq_ok.mp hnonce, hage.mp h⟩
  · rintro ⟨haud, hnonce, hfresh⟩
    rw [checkClaims, require_of haud, ok_bind, require_of hnonce, ok_bind]
    exact hage.mpr hfresh

/-- Audience, nonce, age and the rule for the account. -/
theorem classifyWithProfile_eq_ok {policy : AttestationPolicy} {tier : TrustTier} :
    classifyWithProfile tp profile policy claims identityPub agreementPub wall = .ok tier ↔
      checkClaims tp profile claims identityPub agreementPub policy.stalenessLimitSecs
          policy.futureSkewLimitSecs wall = .ok () ∧ EarnsTier policy claims.account tier := by
  have htier : (if claims.account = policy.ownAccount then pure .sameAccount
      else if claims.account ∈ policy.linkedAccounts then pure .linked
      else if policy.ephemeralReceive then pure .nearbyEphemeral
      else .error .untrustedAccount : Except AttestationError TrustTier) = .ok tier ↔
      EarnsTier policy claims.account tier := by
    split_ifs with hown hlinked hreceive
    · rw [pure_eq_ok]
      constructor
      · rintro rfl
        exact .sameAccount hown
      · rintro (_ | ⟨h, -⟩ | ⟨h, -, -⟩)
        · rfl
        · exact absurd hown h
        · exact absurd hown h
    · rw [pure_eq_ok]
      constructor
      · rintro rfl
        exact .linked hown hlinked
      · rintro (h | _ | ⟨-, h, -⟩)
        · exact absurd h hown
        · rfl
        · exact absurd hlinked h
    · rw [pure_eq_ok]
      constructor
      · rintro rfl
        exact .nearbyEphemeral hown hlinked hreceive
      · rintro (h | ⟨-, h⟩ | _)
        · exact absurd h hown
        · exact absurd h hlinked
        · rfl
    · constructor
      · rintro ⟨⟩
      · rintro (h | ⟨-, h⟩ | ⟨-, -, h⟩)
        · exact absurd h hown
        · exact absurd h hlinked
        · exact absurd h hreceive
  unfold classifyWithProfile
  rw [bind_eq_ok]
  constructor
  · rintro ⟨_, hchecks, h⟩
    exact ⟨hchecks, htier.mp h⟩
  · rintro ⟨hchecks, h⟩
    exact ⟨(), hchecks, htier.mpr h⟩

/-- Steps 1 and 2 give the profile the token's issuer selects, and the token's claims. -/
theorem verifyStepsOneAndTwo_eq_verified {cache : JwksCache} {token : Text} {mono : ℕ} :
    (verifyStepsOneAndTwo tp profiles cache token mono).1 = .ok (.verified (profile, claims)) ↔
      peekIssuer tp token = .ok claims.iss ∧ Selects profiles claims.iss profile ∧
        cache.jwksUri = profile.jwksUri ∧
        verifyIdToken tp profile cache.keys token = .ok claims := by
  unfold verifyStepsOneAndTwo
  constructor
  · intro h
    rcases hpeek : peekIssuer tp token with e | iss
    · rw [hpeek] at h
      cases h
    rw [hpeek] at h
    dsimp only at h
    rcases hfind : profiles.find? (fun p => p.issuer = iss) with _ | p
    · rw [hfind] at h
      cases h
    rw [hfind] at h
    dsimp only at h
    split_ifs at h with huri
    rcases hverify : verifyIdToken tp p cache.keys token with e | claims'
    · rw [hverify] at h
      cases e with
      | unknownKeyId kid =>
          dsimp only at h
          rcases hclaim : cache.claimRefetchFor kid mono with ⟨granted, cache'⟩
          rw [hclaim] at h
          cases granted with
          | true => cases h
          | false => cases h
      | _ => cases h
    · rw [hverify] at h
      cases h
      -- The claims come from the payload that was peeked at.
      obtain ⟨r, key, hr, hclaims, -⟩ := verifyIdToken_eq_ok.mp hverify
      have hiss := (peekIssuer_eq_ok hr).mp hpeek
      rw [hclaims.iss] at hiss
      obtain rfl := Option.some.inj hiss
      refine ⟨rfl, selects_iff_find?.mpr hfind, not_not.mp huri, hverify⟩
  · rintro ⟨hpeek, hselects, huri, hverify⟩
    rw [hpeek]
    dsimp only
    rw [selects_iff_find?.mp hselects]
    dsimp only
    rw [if_neg (not_not.mpr huri), hverify]

/-- The policy applied to a link: no account has a place in it. -/
structure LinkPolicy where
  profiles : List ProviderProfile
  stalenessLimitSecs : ℕ
  futureSkewLimitSecs : ℕ

/-- The join of the keys and steps 1 to 5 under any policy. -/
def verifyLinkAttestationUnder (tp : TokenPrimitives) (policy : LinkPolicy) (cache : JwksCache)
    (token : Text) (identityPub agreementPub : PublicKeyPoint) (authenticated : DeviceId)
    (wall : UnixTime) (mono : ℕ) :
    Except LinkVerifyError (Verification AccountId) × JwksCache :=
  if tp.blake3.deviceIdOf identityPub ≠ authenticated then
    (.error (.keyDoesNotMatchChannel authenticated (tp.blake3.deviceIdOf identityPub)), cache)
  else
    match verifyStepsOneAndTwo tp policy.profiles cache token mono with
    | (.error e, cache) => (.error (.attestation e), cache)
    | (.ok (.jwksNeeded uri), cache) => (.ok (.jwksNeeded uri), cache)
    | (.ok (.verified (profile, claims)), cache) =>
      match checkClaims tp profile claims identityPub agreementPub policy.stalenessLimitSecs
          policy.futureSkewLimitSecs wall with
      | .error e => (.error (.attestation (.attestation e)), cache)
      | .ok () => (.ok (.verified claims.account), cache)

/-- A device applies its own limits. -/
theorem verifyLinkAttestation_eq (profiles : List ProviderProfile) (cache : JwksCache)
    (token : Text) (identityPub agreementPub : PublicKeyPoint) (authenticated : DeviceId)
    (wall : UnixTime) (mono : ℕ) :
    verifyLinkAttestation tp profiles cache token identityPub agreementPub authenticated wall
        mono =
      verifyLinkAttestationUnder tp ⟨profiles, stalenessLimitSecs, futureSkewLimitSecs⟩ cache
        token identityPub agreementPub authenticated wall mono :=
  rfl

/-- A tier is the answer when steps 1 and 2 gave the claims and the remaining steps the tier. -/
theorem verifyAttestation_eq_verified {policy : AttestationPolicy} {cache : JwksCache}
    {token : Text} {mono : ℕ} {tier : TrustTier} :
    (verifyAttestation tp policy cache token identityPub agreementPub wall mono).1 =
        .ok (.verified tier) ↔
      ∃ profile claims, (verifyStepsOneAndTwo tp policy.profiles cache token mono).1 =
          .ok (.verified (profile, claims)) ∧
        classifyWithProfile tp profile policy claims identityPub agreementPub wall = .ok tier := by
  unfold verifyAttestation
  rcases verifyStepsOneAndTwo tp policy.profiles cache token mono with
    ⟨e | ⟨profile, claims⟩ | uri, cache'⟩
  · simp
  · rcases hclassify : classifyWithProfile tp profile policy claims identityPub agreementPub wall
      with e | t
    · simp [hclassify]
    · simp [hclassify]
  · simp

/-- An account is the answer when the keys join, steps 1 and 2 gave the claims and they pass. -/
theorem verifyLinkAttestationUnder_eq_verified {policy : LinkPolicy} {cache : JwksCache}
    {token : Text} {authenticated : DeviceId} {mono : ℕ} {account : AccountId} :
    (verifyLinkAttestationUnder tp policy cache token identityPub agreementPub authenticated wall
        mono).1 = .ok (.verified account) ↔
      tp.blake3.deviceIdOf identityPub = authenticated ∧
        ∃ profile claims, (verifyStepsOneAndTwo tp policy.profiles cache token mono).1 =
            .ok (.verified (profile, claims)) ∧
          checkClaims tp profile claims identityPub agreementPub policy.stalenessLimitSecs
            policy.futureSkewLimitSecs wall = .ok () ∧ account = claims.account := by
  unfold verifyLinkAttestationUnder
  split_ifs with hjoin
  · simp [hjoin]
  · have hjoin' := not_not.mp hjoin
    rcases verifyStepsOneAndTwo tp policy.profiles cache token mono with
      ⟨e | ⟨profile, claims⟩ | uri, cache'⟩
    · simp
    · rcases hcheck : checkClaims tp profile claims identityPub agreementPub
        policy.stalenessLimitSecs policy.futureSkewLimitSecs wall with e | _
      · simp [hcheck]
      · simp [hcheck, hjoin', eq_comm]
    · simp

/-- What steps 1 to 5 establish together. -/
theorem attested_iff {cache : JwksCache} (hdistinct : (cache.keys.map Jwk.kid).Nodup)
    {token : Text} {mono stalenessLimit futureSkewLimit : ℕ} :
    ((verifyStepsOneAndTwo tp profiles cache token mono).1 = .ok (.verified (profile, claims)) ∧
        checkClaims tp profile claims identityPub agreementPub stalenessLimit futureSkewLimit
          wall = .ok ()) ↔
      ∃ r key, Attested tp profiles cache token identityPub agreementPub stalenessLimit
        futureSkewLimit wall r claims profile key := by
  rw [verifyStepsOneAndTwo_eq_verified, checkClaims_eq_ok]
  constructor
  · rintro ⟨⟨-, hselects, huri, hverify⟩, haud, hnonce, hfresh⟩
    obtain ⟨r, key, hr, hclaims, halg, hpermits, hkid, hfind, hpublished, hsigned⟩ :=
      verifyIdToken_eq_ok.mp hverify
    exact ⟨r, key, hr, hclaims, hselects, huri, halg, hpermits,
      ((find?_kid_eq_some hdistinct).mp hfind).1, hkid, hpublished, hsigned, haud, hnonce, hfresh⟩
  · rintro ⟨r, key, h⟩
    refine ⟨⟨(peekIssuer_eq_ok h.read).mpr h.claimed.iss, h.selected, h.bound, ?_⟩, h.audience,
      h.nonce, h.fresh⟩
    exact verifyIdToken_eq_ok.mpr ⟨r, key, h.read, h.claimed, h.named, h.permitted, h.chosen,
      (find?_kid_eq_some hdistinct).mpr ⟨h.cached, rfl⟩, h.published, h.signed⟩

end PeerTrust

/-- **Verification is sound and complete against the steps.** With a cache that was filled for
one provider, a token earns a tier exactly when one reading of it, the profile its own issuer
selects and one key of the cache pass every step and the account rule gives the tier; it
gives an account for a link exactly when the channel's device has the identity key and the
steps up to the age pass; and the key that was used came with a document fetched for the
provider the token names. -/
theorem verified_iff_steps {jwksUri : Text} {documents : List (List UInt8)} {cache : JwksCache}
    (hcache : JwksCache.FetchedFor tp jwksUri documents cache) (token : Text)
    (identityPub agreementPub : PublicKeyPoint) (wall : UnixTime) (mono : ℕ) :
    (∀ policy tier, (PeerTrust.verifyAttestation tp policy cache token identityPub agreementPub
          wall mono).1 = .ok (.verified tier) ↔
        ∃ r claims profile key, Attested tp policy.profiles cache token identityPub agreementPub
            policy.stalenessLimitSecs policy.futureSkewLimitSecs wall r claims profile key ∧
          EarnsTier policy claims.account tier) ∧
      (∀ policy authenticated account, (PeerTrust.verifyLinkAttestationUnder tp policy cache
            token identityPub agreementPub authenticated wall mono).1 = .ok (.verified account) ↔
        tp.blake3.deviceIdOf identityPub = authenticated ∧
          ∃ r claims profile key, Attested tp policy.profiles cache token identityPub
            agreementPub policy.stalenessLimitSecs policy.futureSkewLimitSecs wall r claims
            profile key ∧ account = claims.account) ∧
      ∀ profiles stalenessLimit futureSkewLimit r claims profile key,
        Attested tp profiles cache token identityPub agreementPub stalenessLimit futureSkewLimit
          wall r claims profile key →
        jwksUri = profile.jwksUri ∧ ∃ document ∈ documents, ∃ keys,
          parseJwks tp document = .ok keys ∧ key ∈ keys := by
  obtain ⟨hbound, hdistinct, hfetched⟩ := hcache.genuine
  refine ⟨?_, ?_, ?_⟩
  · intro policy tier
    rw [PeerTrust.verifyAttestation_eq_verified]
    constructor
    · rintro ⟨profile, claims, hsteps, hclassify⟩
      obtain ⟨hchecks, htier⟩ := PeerTrust.classifyWithProfile_eq_ok.mp hclassify
      obtain ⟨r, key, h⟩ := (PeerTrust.attested_iff hdistinct).mp ⟨hsteps, hchecks⟩
      exact ⟨r, claims, profile, key, h, htier⟩
    · rintro ⟨r, claims, profile, key, h, htier⟩
      obtain ⟨hsteps, hchecks⟩ := (PeerTrust.attested_iff hdistinct).mpr ⟨r, key, h⟩
      exact ⟨profile, claims, hsteps, PeerTrust.classifyWithProfile_eq_ok.mpr ⟨hchecks, htier⟩⟩
  · intro policy authenticated account
    rw [PeerTrust.verifyLinkAttestationUnder_eq_verified]
    refine and_congr_right fun _ => ?_
    constructor
    · rintro ⟨profile, claims, hsteps, hchecks, haccount⟩
      obtain ⟨r, key, h⟩ := (PeerTrust.attested_iff hdistinct).mp ⟨hsteps, hchecks⟩
      exact ⟨r, claims, profile, key, h, haccount⟩
    · rintro ⟨r, claims, profile, key, h, haccount⟩
      obtain ⟨hsteps, hchecks⟩ := (PeerTrust.attested_iff hdistinct).mpr ⟨r, key, h⟩
      exact ⟨profile, claims, hsteps, hchecks, haccount⟩
  · intro profiles stalenessLimit futureSkewLimit r claims profile key h
    exact ⟨hbound.symm.trans h.bound, hfetched key h.cached⟩

namespace Attested.Sample

open Admitting.Sample

/-- What the provider publishes. -/
def document : List UInt8 :=
  utf8Bytes ("\x7b\"keys\":[\x7b\"kty\":\"RSA\",\"alg\":\"RS256\",\"use\":\"sig\",".toList ++
    "\"kid\":\"k1\",\"n\":\"".toList ++ base64 modulus ++ "\",\"e\":\"AQAB\"\x7d]\x7d".toList)

/-- The libraries, as they answer about the token and the document. -/
def primitives : TokenPrimitives :=
  { Admitting.Sample.tp with
    decode64 := fun segment =>
      [header, payload, signature, modulus, [1, 0, 1]].find? fun bytes => base64 bytes = segment
    parseJson := fun bytes =>
      if bytes = document then
        some (.object [("keys".toList, .array [.object [("kty".toList, .string "RSA".toList),
          ("alg".toList, .string "RS256".toList), ("use".toList, .string "sig".toList),
          ("kid".toList, .string "k1".toList), ("n".toList, .string (base64 modulus)),
          ("e".toList, .string "AQAB".toList)]])])
      else Admitting.Sample.tp.parseJson bytes }

/-- The cache of a device that fetched the document. -/
def cache : JwksCache := ((JwksCache.new profile.jwksUri).install primitives document).2

/-- The policy of a device the peer's account is linked with. -/
def policy : AttestationPolicy :=
  PeerTrust.policyOf profile ⟨"https://accounts.google.com", "1"⟩
    [⟨"https://accounts.google.com", "2"⟩]

end Attested.Sample

open Attested.Sample Admitting.Sample in
/-- A token of a linked account passes every step, and a tier is its answer. -/
theorem verified_iff_steps_linked :
    ∃ r claims profile key, Attested primitives policy.profiles cache request.token
        identityPub agreementPub policy.stalenessLimitSecs policy.futureSkewLimitSecs ⟨0⟩ r claims
        profile key ∧ EarnsTier policy claims.account .linked :=
  ((verified_iff_steps (.install .new document) request.token identityPub agreementPub ⟨0⟩ 0).1
    policy .linked).mp (by decide +kernel)

end Tradr
