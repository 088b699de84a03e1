import Tradr.AttestationSteps

/-!
# Who Makes a Device Fetch

One `PeerTrust` per provider is shared by every connection that classifies a peer, by every
link that is being made and by the reader of envelopes. Each locks its cache for one section
at a time: a first look, which may be told that a fetch is due, and after the fetch a
second one that installs what was fetched and looks again. The sections of different calls
come in any order.

`Trusting.step` performs one section. The history records each fetch that was granted, with
the token that caused it and the keys that were cached then, and what each fetch answered.

## Main definitions

* `Trusting.step`: the calls that share one `PeerTrust`.
* `NamesUnknownKey`: a token of the provider's issuer that names a key which is not cached.
* `inForce`: the keys of the last document that could be used.

## Main results

* `fetches_bounded`: grants of one provider are five minutes apart, only such a token is
  granted one, providers do not interfere, and a fetch that fails changes no key.
-/

open Fallible

namespace Tradr

/-! ### Calls that share a cache -/

/-- What a call asks about a peer's attestation. -/
inductive Question
  | classify (ownAccount : Option AccountId) (linkedAccounts : List AccountId)
  | verifyLink (authenticated : DeviceId)
  deriving DecidableEq

/-- What a call ends with. -/
inductive TrustAnswer
  | tier (t : TrustTier)
  | account (a : AccountId)
  | classifyError (e : ClassifyError)
  | linkError (e : PeerTrust.LinkVerifyError)
  | fetch (message : Text)
  | install (e : JwksError)
  | keysChangedAgain
  deriving DecidableEq

/-- Where a call stands: before its first section, waiting for its fetch, or answered. -/
inductive CallPhase
  | asked (question : Question) (req : AttestationRequest)
  | fetching (question : Question) (req : AttestationRequest) (jwksUri : Text)
  | answered (answer : TrustAnswer)
  deriving DecidableEq

/-- A fetch that was granted: the token that caused it, when, and the keys cached then. -/
structure Grant where
  token : Text
  mono : ℕ
  keys : List Jwk
  deriving DecidableEq

/-- What a section did: the fetch it granted, and what it was told that a fetch answered. -/
structure SectionOutcome where
  granted : Option Grant
  fetched : Option PeerTrust.Fetched

/-- One provider's cache, and the calls at it. -/
structure Trusting where
  cache : JwksCache
  calls : ℕ → Option CallPhase

/-- One section of a call; `cached` is the whole of a classification for an envelope and
`warm` the end of a fetch the device made on its own. -/
inductive TrustingAction
  | ask (n : ℕ) (question : Question) (req : AttestationRequest)
  | look (n : ℕ) (wall : UnixTime) (mono : ℕ)
  | fetched (n : ℕ) (answer : PeerTrust.Fetched) (wall : UnixTime) (mono : ℕ)
  | cached (req : AttestationRequest) (ownAccount : AccountId) (linkedAccounts : List AccountId)
    (wall : UnixTime) (mono : ℕ)
  | warm (jwksUri : Text) (answer : PeerTrust.Fetched)

namespace Trusting

variable (tp : TokenPrimitives) (profile : ProviderProfile)

/-- A `PeerTrust` as it is built. -/
def new : Trusting := ⟨.new profile.jwksUri, fun _ => none⟩

/-- A verification at the cache: an answer, or the address of a fetch that is due. -/
def look (question : Question) (req : AttestationRequest) (cache : JwksCache) (wall : UnixTime)
    (mono : ℕ) : (TrustAnswer ⊕ Text) × JwksCache :=
  match question with
  | .classify ownAccount linkedAccounts =>
    match PeerTrust.classifyFirst tp profile ownAccount linkedAccounts cache req wall mono with
    | (.error e, cache) => (.inl (.classifyError e), cache)
    | (.ok (.verified tier), cache) => (.inl (.tier tier), cache)
    | (.ok (.jwksNeeded uri), cache) => (.inr uri, cache)
  | .verifyLink authenticated =>
    match PeerTrust.verifyLinkAttestation tp [profile] cache req.token req.identityPub
        req.agreementPub authenticated wall mono with
    | (.error e, cache) => (.inl (.linkError e), cache)
    | (.ok (.verified account), cache) => (.inl (.account account), cache)
    | (.ok (.jwksNeeded uri), cache) => (.inr uri, cache)

/-- The call of this number stands somewhere else now. -/
def setCall (s : Trusting) (n : ℕ) (phase : CallPhase) : Trusting :=
  { s with calls := Function.update s.calls n (some phase) }

/-- The first section of a call. -/
def lookFirst (s : Trusting) (n : ℕ) (question : Question) (req : AttestationRequest)
    (wall : UnixTime) (mono : ℕ) : SectionOutcome × Trusting :=
  match look tp profile question req s.cache wall mono with
  | (.inl answer, cache) => (⟨none, none⟩, { s with cache }.setCall n (.answered answer))
  | (.inr uri, cache) =>
    (⟨some ⟨req.token, mono, s.cache.keys⟩, none⟩,
      { s with cache }.setCall n (.fetching question req uri))

/-- The section after a fetch: install what came and look again, or give up. -/
def lookAgain (s : Trusting) (n : ℕ) (question : Question) (req : AttestationRequest)
    (answer : PeerTrust.Fetched) (wall : UnixTime) (mono : ℕ) : SectionOutcome × Trusting :=
  match answer with
  | .error message => (⟨none, some answer⟩, s.setCall n (.answered (.fetch message)))
  | .ok document =>
    match s.cache.install tp document with
    | (.error e, cache) =>
      (⟨none, some answer⟩, { s with cache }.setCall n (.answered (.install e)))
    | (.ok (), installed) =>
      match look tp profile question req installed wall mono with
      | (.inl a, cache) => (⟨none, some answer⟩, { s with cache }.setCall n (.answered a))
      | (.inr _, cache) =>
        (⟨some ⟨req.token, mono, installed.keys⟩, some answer⟩,
          { s with cache }.setCall n (.answered .keysChangedAgain))

/-- A classification for an envelope. -/
def lookCached (s : Trusting) (req : AttestationRequest) (ownAccount : AccountId)
    (linkedAccounts : List AccountId) (wall : UnixTime) (mono : ℕ) : SectionOutcome × Trusting :=
  match PeerTrust.classifyCached tp profile ownAccount linkedAccounts s.cache req.token
      req.identityPub req.agreementPub wall mono with
  | (.error (.jwksNeeded _), cache) =>
    (⟨some ⟨req.token, mono, s.cache.keys⟩, none⟩, { s with cache })
  | (_, cache) => (⟨none, none⟩, { s with cache })

/-- The end of a fetch the device made on its own. A document of another provider is not
installed. -/
def warmed (s : Trusting) (jwksUri : Text) (answer : PeerTrust.Fetched) :
    SectionOutcome × Trusting :=
  (⟨none, if jwksUri = s.cache.jwksUri then some answer else none⟩,
    { s with cache := (PeerTrust.warm tp s.cache jwksUri answer).2 })

/-- One section. -/
def step (s : Trusting) : TrustingAction → SectionOutcome × Trusting
  | .ask n question req =>
    match s.calls n with
    | none => (⟨none, none⟩, s.setCall n (.asked question req))
    | some _ => (⟨none, none⟩, s)
  | .look n wall mono =>
    match s.calls n with
    | some (.asked question req) => lookFirst tp profile s n question req wall mono
    | _ => (⟨none, none⟩, s)
  | .fetched n answer wall mono =>
    match s.calls n with
    | some (.fetching question req _) => lookAgain tp profile s n question req answer wall mono
    | _ => (⟨none, none⟩, s)
  | .cached req ownAccount linkedAccounts wall mono =>
    lookCached tp profile s req ownAccount linkedAccounts wall mono
  | .warm jwksUri answer => warmed tp s jwksUri answer

end Trusting

/-! ### What the history says -/

/-- A token is well formed in everything that is read before its signature, names the
issuer of the profile and a permitted algorithm, and a key that is not among these. -/
def NamesUnknownKey (tp : TokenPrimitives) (profile : ProviderProfile) (keys : List Jwk)
    (token : Text) : Prop :=
  ∃ r kid, readToken tp token = some r ∧
    (r.payload.get "iss").bind Json.asStr = some profile.issuer ∧
    (r.header.get "alg").bind Json.asStr = some "RS256".toList ∧ .rs256 ∈ profile.algorithms ∧
    (r.header.get "kid").bind Json.asStr = some kid ∧ ∀ k ∈ keys, k.kid ≠ kid

/-- The fetches that were granted. -/
def grants (outcomes : List SectionOutcome) : List Grant :=
  outcomes.filterMap SectionOutcome.granted

/-- The keys after a fetch answered: those it brought, or those that were there. -/
def keysAfter (tp : TokenPrimitives) (keys : List Jwk) (outcome : SectionOutcome) : List Jwk :=
  match outcome.fetched with
  | some (.ok document) =>
    match parseJwks tp document with
    | .ok keys' => keys'
    | .error _ => keys
  | _ => keys

/-- The keys of the last document that could be used. -/
def inForce (tp : TokenPrimitives) (outcomes : List SectionOutcome) : List Jwk :=
  outcomes.foldl (keysAfter tp) []

/-! ### What a section does -/

variable {tp : TokenPrimitives} {profile : ProviderProfile} {cache : JwksCache} {token : Text}
  {mono : ℕ}

/-- A token whose header cannot be read is not one whose key is unknown. -/
theorem readHeader_ne_unknownKeyId {kid : Text} :
    readHeader tp profile token ≠ .error (.unknownKeyId kid) := by
  intro h
  have hsegment : ∀ {segment : Text}, decodeSegment tp segment ≠ .error (.unknownKeyId kid) := by
    intro segment h
    cases (okOr_eq_error.mp h).2
  rcases bind_eq_error.mp h with h | ⟨⟨header64, payload64, signature64⟩, -, h⟩
  · unfold splitSegments at h
    split at h
    · cases h
    · cases h
  rcases bind_eq_error.mp h with h | ⟨headerBytes, -, h⟩
  · exact hsegment h
  rcases bind_eq_error.mp h with h | ⟨payload, -, h⟩
  · exact hsegment h
  rcases bind_eq_error.mp h with h | ⟨signature, -, h⟩
  · exact hsegment h
  rcases bind_eq_error.mp h with h | ⟨header, -, h⟩
  · cases (okOr_eq_error.mp h).2
  rcases bind_eq_error.mp h with h | ⟨alg, -, h⟩
  · cases (okOr_eq_error.mp h).2
  rcases bind_eq_error.mp h with h | ⟨algorithm, -, h⟩
  · unfold permittedAlgorithm at h
    split_ifs at h
    cases h
  rcases bind_eq_error.mp h with h | ⟨kid', -, h⟩
  · cases (okOr_eq_error.mp h).2
  cases h

/-- Nor is one that fails once its key was found. -/
theorem verifyWith_eq_unknownKeyId {keys : List Jwk} {h : TokenHeader} {kid : Text}
    (hwith : verifyWith tp keys h = .error (.unknownKeyId kid)) :
    h.kid = kid ∧ ∀ k ∈ keys, k.kid ≠ kid := by
  rcases bind_eq_error.mp hwith with hfind | ⟨key, -, hwith⟩
  · obtain ⟨hnone, hkid⟩ := okOr_eq_error.mp hfind
    obtain rfl := TokenError.unknownKeyId.inj hkid
    refine ⟨rfl, ?_⟩
    intro k hk
    simpa using List.find?_eq_none.mp hnone k hk
  rcases bind_eq_error.mp hwith with h' | ⟨_, -, hwith⟩
  · cases (require_eq_error.mp h').2
  rcases bind_eq_error.mp hwith with h' | ⟨_, -, hwith⟩
  · unfold verifySignature at h'
    split at h'
    cases (require_eq_error.mp h').2
  rcases bind_eq_error.mp hwith with h' | ⟨payload, -, hwith⟩
  · cases (okOr_eq_error.mp h').2
  have hclaim : ∀ {A : Type} {o : Option A} {name : String},
      (okOr o (.malformed (.claim name)) : Except TokenError A) ≠ .error (.unknownKeyId kid) := by
    intro A o name h
    cases (okOr_eq_error.mp h).2
  rcases bind_eq_error.mp hwith with h' | ⟨_, -, hwith⟩
  · exact absurd h' hclaim
  rcases bind_eq_error.mp hwith with h' | ⟨_, -, hwith⟩
  · exact absurd h' hclaim
  rcases bind_eq_error.mp hwith with h' | ⟨_, -, hwith⟩
  · exact absurd h' hclaim
  rcases bind_eq_error.mp hwith with h' | ⟨_, -, hwith⟩
  · exact absurd h' hclaim
  rcases bind_eq_error.mp hwith with h' | ⟨_, -, hwith⟩
  · exact absurd h' hclaim
  cases hwith

/-- **A token whose key is unknown** has been read in every part but its claims. -/
theorem namesUnknownKey_of_verifyIdToken {keys : List Jwk} {kid : Text}
    (hpeek : peekIssuer tp token = .ok profile.issuer)
    (hverify : verifyIdToken tp profile keys token = .error (.unknownKeyId kid)) :
    NamesUnknownKey tp profile keys token := by
  rcases bind_eq_error.mp hverify with hread | ⟨header, hread, hwith⟩
  · exact absurd hread readHeader_ne_unknownKeyId
  obtain ⟨rfl, hunknown⟩ := verifyWith_eq_unknownKeyId hwith
  have hpayload : ∃ payload, tp.parseJson header.payload = some payload := by
    obtain ⟨⟨_, payload64, _⟩, hsplit, hpeek⟩ := bind_eq_ok.mp hpeek
    obtain ⟨bytes, hbytes, hpeek⟩ := bind_eq_ok.mp hpeek
    obtain ⟨payload, hparse, -⟩ := bind_eq_ok.mp hpeek
    obtain ⟨⟨_, payload64', _⟩, hsplit', hread⟩ := bind_eq_ok.mp hread
    obtain ⟨_, -, hread⟩ := bind_eq_ok.mp hread
    obtain ⟨bytes', hbytes', hread⟩ := bind_eq_ok.mp hread
    obtain ⟨_, -, hread⟩ := bind_eq_ok.mp hread
    obtain ⟨_, -, hread⟩ := bind_eq_ok.mp hread
    obtain ⟨_, -, hread⟩ := bind_eq_ok.mp hread
    obtain ⟨_, -, hread⟩ := bind_eq_ok.mp hread
    obtain ⟨_, -, hread⟩ := bind_eq_ok.mp hread
    obtain rfl := pure_eq_ok.mp hread
    rw [hsplit] at hsplit'
    cases hsplit'
    rw [hbytes] at hbytes'
    cases hbytes'
    exact ⟨payload, okOr_eq_ok.mp hparse⟩
  obtain ⟨payload, hpayload⟩ := hpayload
  obtain ⟨json, hr, halg, hpermits, hkid⟩ := readToken_of_readHeader hread hpayload
  exact ⟨_, _, hr, (peekIssuer_eq_ok hr).mp hpeek, halg, hpermits, hkid, hunknown⟩

/-- A fetch was granted at a cache because of a token. -/
structure Granted (tp : TokenPrimitives) (profile : ProviderProfile) (token : Text) (mono : ℕ)
    (cache cache' : JwksCache) : Prop where
  unknown : NamesUnknownKey tp profile cache.keys token
  free : cache.BudgetFree mono
  spent : cache' = { cache with lastClaim := some mono }

/-- The budget is spent exactly when a fetch is due, and then because of this token. -/
def SpendsIff (tp : TokenPrimitives) (profile : ProviderProfile) (token : Text) (mono : ℕ)
    (due : Prop) (cache cache' : JwksCache) : Prop :=
  due ∧ Granted tp profile token mono cache cache' ∨ ¬due ∧ cache' = cache

/-- An answer that asks for no fetch leaves the cache as it is. -/
theorem SpendsIff.of_unchanged {due : Prop} (h : ¬due) :
    SpendsIff tp profile token mono due cache cache :=
  .inr ⟨h, rfl⟩

/-- What is due may be said in another way. -/
theorem SpendsIff.congr {due due' : Prop} {cache' : JwksCache}
    (h : SpendsIff tp profile token mono due cache cache') (hdue : due ↔ due') :
    SpendsIff tp profile token mono due' cache cache' :=
  h.imp (And.imp_left hdue.mp) (And.imp_left fun hnot hd => hnot (hdue.mpr hd))

variable (tp profile) in
/-- Steps 1 and 2 spend the budget when they say that a fetch is due. -/
theorem verifyStepsOneAndTwo_spends (cache : JwksCache) (token : Text) (mono : ℕ) :
    SpendsIff tp profile token mono
      (∃ uri, (PeerTrust.verifyStepsOneAndTwo tp [profile] cache token mono).1 =
        .ok (.jwksNeeded uri)) cache
      (PeerTrust.verifyStepsOneAndTwo tp [profile] cache token mono).2 := by
  unfold PeerTrust.verifyStepsOneAndTwo
  rcases hpeek : peekIssuer tp token with e | iss
  · exact .of_unchanged (by simp)
  dsimp only
  rcases hfind : [profile].find? (fun p => p.issuer = iss) with _ | p
  · rw [hfind]
    exact .of_unchanged (by simp)
  rw [hfind]
  dsimp only
  split_ifs with huri
  · exact .of_unchanged (by simp)
  obtain rfl := List.mem_singleton.mp (List.mem_of_find?_eq_some hfind)
  have hissuer : p.issuer = iss := by simpa using List.find?_some hfind
  rcases hverify : verifyIdToken tp p cache.keys token with e | claims
  · cases e with
    | unknownKeyId kid =>
        dsimp only
        unfold JwksCache.claimRefetchFor
        split_ifs with hholds hfree
        · exact .of_unchanged (by simp)
        · rw [← hissuer] at hpeek
          exact .inl ⟨⟨_, rfl⟩, namesUnknownKey_of_verifyIdToken hpeek hverify, hfree, rfl⟩
        · exact .of_unchanged (by simp)
    | _ => exact .of_unchanged (by simp)
  · exact .of_unchanged (by simp)

variable (tp profile) in
/-- So does a whole verification. -/
theorem verifyAttestation_spends (ownAccount : AccountId) (linkedAccounts : List AccountId)
    (cache : JwksCache) (token : Text) (identityPub agreementPub : PublicKeyPoint)
    (wall : UnixTime) (mono : ℕ) :
    SpendsIff tp profile token mono
      (∃ uri, (PeerTrust.verifyAttestation tp (PeerTrust.policyOf profile ownAccount
        linkedAccounts) cache token identityPub agreementPub wall mono).1 =
          .ok (.jwksNeeded uri)) cache
      (PeerTrust.verifyAttestation tp (PeerTrust.policyOf profile ownAccount linkedAccounts) cache
        token identityPub agreementPub wall mono).2 := by
  rw [PeerTrust.verifyAttestation_snd]
  refine (verifyStepsOneAndTwo_spends tp profile cache token mono).congr ?_
  unfold PeerTrust.verifyAttestation PeerTrust.policyOf
  rcases PeerTrust.verifyStepsOneAndTwo tp [profile] cache token mono with
    ⟨e | ⟨p, claims⟩ | uri, cache'⟩
  · simp
  · dsimp only
    split
    · simp
    · simp
  · simp

variable (tp profile) in
/-- And one for a link. -/
theorem verifyLinkAttestation_spends (cache : JwksCache) (token : Text)
    (identityPub agreementPub : PublicKeyPoint) (authenticated : DeviceId) (wall : UnixTime)
    (mono : ℕ) :
    SpendsIff tp profile token mono
      (∃ uri, (PeerTrust.verifyLinkAttestation tp [profile] cache token identityPub agreementPub
        authenticated wall mono).1 = .ok (.jwksNeeded uri)) cache
      (PeerTrust.verifyLinkAttestation tp [profile] cache token identityPub agreementPub
        authenticated wall mono).2 := by
  have hsteps := verifyStepsOneAndTwo_spends tp profile cache token mono
  unfold PeerTrust.verifyLinkAttestation
  split_ifs
  · exact .of_unchanged (by simp)
  rcases hrun : PeerTrust.verifyStepsOneAndTwo tp [profile] cache token mono with
    ⟨e | ⟨p, claims⟩ | uri, cache'⟩
  · rw [hrun] at hsteps
    exact hsteps.congr (by simp)
  · rw [hrun] at hsteps
    dsimp only
    split
    · exact hsteps.congr (by simp)
    · exact hsteps.congr (by simp)
  · rw [hrun] at hsteps
    exact hsteps.congr (by simp)

namespace Trusting

variable (tp profile) in
/-- And so does either question. -/
theorem look_spends (question : Question) (req : AttestationRequest) (cache : JwksCache)
    (wall : UnixTime) (mono : ℕ) :
    SpendsIff tp profile req.token mono
      (∃ uri, (look tp profile question req cache wall mono).1 = .inr uri) cache
      (look tp profile question req cache wall mono).2 := by
  unfold look
  cases question with
  | classify ownAccount linkedAccounts =>
      dsimp only
      unfold PeerTrust.classifyFirst
      cases ownAccount with
      | none => exact .of_unchanged (by simp)
      | some own =>
          have h := verifyAttestation_spends tp profile own linkedAccounts cache req.token
            req.identityPub req.agreementPub wall mono
          dsimp only
          rcases hrun : PeerTrust.verifyAttestation tp (PeerTrust.policyOf profile own
            linkedAccounts) cache req.token req.identityPub req.agreementPub wall mono with
            ⟨e | tier | uri, cache'⟩
          · rw [hrun] at h
            exact h.congr (by simp)
          · rw [hrun] at h
            exact h.congr (by simp)
          · rw [hrun] at h
            exact h.congr (by simp)
  | verifyLink authenticated =>
      have h := verifyLinkAttestation_spends tp profile cache req.token req.identityPub
        req.agreementPub authenticated wall mono
      dsimp only
      rcases hrun : PeerTrust.verifyLinkAttestation tp [profile] cache req.token req.identityPub
        req.agreementPub authenticated wall mono with ⟨e | account | uri, cache'⟩
      · rw [hrun] at h
        exact h.congr (by simp)
      · rw [hrun] at h
        exact h.congr (by simp)
      · rw [hrun] at h
        exact h.congr (by simp)

/-- What a section does to the cache, by what it records: the keys are those of what was
fetched, and only a grant spends the budget. -/
structure Effect (tp : TokenPrimitives) (profile : ProviderProfile) (cache : JwksCache)
    (outcome : SectionOutcome) (cache' : JwksCache) : Prop where
  keys : cache'.keys = keysAfter tp cache.keys outcome
  kept : outcome.granted = none → cache'.lastClaim = cache.lastClaim
  spent : ∀ g, outcome.granted = some g → NamesUnknownKey tp profile g.keys g.token ∧
    cache.BudgetFree g.mono ∧ cache'.lastClaim = some g.mono

/-- A section that records nothing leaves the cache as it is. -/
theorem Effect.unchanged (tp : TokenPrimitives) (profile : ProviderProfile) (cache : JwksCache) :
    Effect tp profile cache ⟨none, none⟩ cache :=
  ⟨rfl, fun _ => rfl, by rintro _ ⟨⟩⟩

/-- A grant by what is recorded of it. -/
theorem Effect.of_granted {cache' installed : JwksCache} {fetched : Option PeerTrust.Fetched}
    (h : Granted tp profile token mono installed cache')
    (hkeys : installed.keys = keysAfter tp cache.keys ⟨none, fetched⟩)
    (hclaim : installed.lastClaim = cache.lastClaim) :
    Effect tp profile cache ⟨some ⟨token, mono, installed.keys⟩, fetched⟩ cache' := by
  obtain ⟨hunknown, hfree, rfl⟩ := h
  refine ⟨hkeys, by rintro ⟨⟩, ?_⟩
  rintro g ⟨⟩
  refine ⟨hunknown, ?_, rfl⟩
  intro last hlast
  exact hfree last (hclaim.trans hlast)

/-- Installing a document gives the keys it brings, and spends nothing. -/
theorem install_effect (tp : TokenPrimitives) (cache : JwksCache) (document : List UInt8) :
    (cache.install tp document).2.keys = keysAfter tp cache.keys ⟨none, some (.ok document)⟩ ∧
      (cache.install tp document).2.lastClaim = cache.lastClaim := by
  unfold JwksCache.install keysAfter
  dsimp only
  rcases parseJwks tp document with e | keys
  · exact ⟨rfl, rfl⟩
  · exact ⟨rfl, rfl⟩

variable {s : Trusting} {n : ℕ} {question : Question} {req : AttestationRequest}
  {wall : UnixTime} {answer : PeerTrust.Fetched}

@[simp] theorem setCall_cache (s : Trusting) (n : ℕ) (phase : CallPhase) :
    (s.setCall n phase).cache = s.cache := rfl

theorem lookFirst_effect : Effect tp profile s.cache
    (lookFirst tp profile s n question req wall mono).1
    (lookFirst tp profile s n question req wall mono).2.cache := by
  have hlook := look_spends tp profile question req s.cache wall mono
  unfold lookFirst
  rcases hrun : look tp profile question req s.cache wall mono with ⟨a | uri, cache'⟩
  · rw [hrun] at hlook
    rcases hlook with ⟨⟨uri, huri⟩, -⟩ | ⟨-, rfl⟩
    · cases huri
    · exact .unchanged tp profile s.cache
  · rw [hrun] at hlook
    rcases hlook with ⟨-, hgranted⟩ | ⟨hnot, -⟩
    · exact .of_granted hgranted rfl rfl
    · exact absurd ⟨uri, rfl⟩ hnot

theorem lookAgain_effect : Effect tp profile s.cache
    (lookAgain tp profile s n question req answer wall mono).1
    (lookAgain tp profile s n question req answer wall mono).2.cache := by
  unfold lookAgain
  rcases answer with message | document
  · exact ⟨rfl, fun _ => rfl, by rintro _ ⟨⟩⟩
  obtain ⟨hkeys, hclaim⟩ := install_effect tp s.cache document
  dsimp only
  rcases hinstall : s.cache.install tp document with ⟨e | _, installed⟩
  · rw [hinstall] at hkeys hclaim
    exact ⟨hkeys, fun _ => hclaim, by rintro _ ⟨⟩⟩
  rw [hinstall] at hkeys hclaim
  dsimp only at hkeys hclaim ⊢
  have hlook := look_spends tp profile question req installed wall mono
  rcases hrun : look tp profile question req installed wall mono with ⟨a | uri, cache'⟩
  · rw [hrun] at hlook
    rcases hlook with ⟨⟨uri, huri⟩, -⟩ | ⟨-, rfl⟩
    · cases huri
    · exact ⟨hkeys, fun _ => hclaim, by rintro _ ⟨⟩⟩
  · rw [hrun] at hlook
    rcases hlook with ⟨-, hgranted⟩ | ⟨hnot, -⟩
    · exact .of_granted hgranted hkeys hclaim
    · exact absurd ⟨uri, rfl⟩ hnot

theorem lookCached_effect {ownAccount : AccountId} {linkedAccounts : List AccountId} :
    Effect tp profile s.cache
      (lookCached tp profile s req ownAccount linkedAccounts wall mono).1
      (lookCached tp profile s req ownAccount linkedAccounts wall mono).2.cache := by
  have hverify := verifyAttestation_spends tp profile ownAccount linkedAccounts s.cache req.token
    req.identityPub req.agreementPub wall mono
  unfold lookCached PeerTrust.classifyCached
  rcases hrun : PeerTrust.verifyAttestation tp (PeerTrust.policyOf profile ownAccount
    linkedAccounts) s.cache req.token req.identityPub req.agreementPub wall mono with
    ⟨e | tier | uri, cache'⟩
  · rw [hrun] at hverify
    rcases hverify with ⟨⟨uri, huri⟩, -⟩ | ⟨-, rfl⟩
    · cases huri
    · exact .unchanged tp profile s.cache
  · rw [hrun] at hverify
    rcases hverify with ⟨⟨uri, huri⟩, -⟩ | ⟨-, rfl⟩
    · cases huri
    · exact .unchanged tp profile s.cache
  · rw [hrun] at hverify
    rcases hverify with ⟨-, hgranted⟩ | ⟨hnot, -⟩
    · exact .of_granted hgranted rfl rfl
    · exact absurd ⟨uri, rfl⟩ hnot

theorem warmed_effect {jwksUri : Text} : Effect tp profile s.cache
    (warmed tp s jwksUri answer).1 (warmed tp s jwksUri answer).2.cache := by
  unfold warmed
  by_cases huri : jwksUri = s.cache.jwksUri
  · rw [if_pos huri]
    unfold PeerTrust.warm
    rcases answer with message | document
    · exact ⟨rfl, fun _ => rfl, by rintro _ ⟨⟩⟩
    · obtain ⟨hkeys, hclaim⟩ := install_effect tp s.cache document
      dsimp only
      rw [if_neg (not_not.mpr huri)]
      rcases hinstall : s.cache.install tp document with ⟨e | _, installed⟩
      · rw [hinstall] at hkeys hclaim
        exact ⟨hkeys, fun _ => hclaim, by rintro _ ⟨⟩⟩
      · rw [hinstall] at hkeys hclaim
        exact ⟨hkeys, fun _ => hclaim, by rintro _ ⟨⟩⟩
  · rw [if_neg huri]
    unfold PeerTrust.warm
    rcases answer with message | document
    · exact .unchanged tp profile s.cache
    · dsimp only
      rw [if_pos huri]
      exact .unchanged tp profile s.cache

variable (tp profile) in
/-- **What one section does to the cache.** -/
theorem step_effect (s : Trusting) (a : TrustingAction) :
    Effect tp profile s.cache (step tp profile s a).1 (step tp profile s a).2.cache := by
  cases a with
  | ask n question req =>
      unfold step
      dsimp only
      split
      · exact .unchanged tp profile s.cache
      · exact .unchanged tp profile s.cache
  | look n wall mono =>
      unfold step
      dsimp only
      split
      · exact lookFirst_effect
      · exact .unchanged tp profile s.cache
  | fetched n answer wall mono =>
      unfold step
      dsimp only
      split
      · exact lookAgain_effect
      · exact .unchanged tp profile s.cache
  | cached req ownAccount linkedAccounts wall mono => exact lookCached_effect
  | warm jwksUri answer => exact warmed_effect

/-! ### Whole runs -/

/-- The history explains the cache: its keys, its budget, and every grant. -/
structure Explained (tp : TokenPrimitives) (profile : ProviderProfile)
    (outcomes : List SectionOutcome) (s : Trusting) : Prop where
  keys : s.cache.keys = inForce tp outcomes
  lastClaim : s.cache.lastClaim = (grants outcomes).getLast?.map Grant.mono
  apart : (grants outcomes).Pairwise fun g g' => g.mono + refetchFloor ≤ g'.mono
  unknown : ∀ g ∈ grants outcomes, NamesUnknownKey tp profile g.keys g.token

/-- The fetches granted by one more section. -/
theorem grants_concat (outcomes : List SectionOutcome) (o : SectionOutcome) :
    grants (outcomes ++ [o]) = grants outcomes ++ o.granted.toList := by
  unfold grants
  rw [List.filterMap_append]
  rcases h : o.granted with _ | g
  · simp [h]
  · simp [h]

/-- The last of a list in which everything is apart is the latest. -/
theorem mono_le_of_getLast? {gs : List Grant} {last : Grant}
    (hapart : gs.Pairwise fun g g' => g.mono + refetchFloor ≤ g'.mono)
    (hlast : gs.getLast? = some last) : ∀ g ∈ gs, g.mono ≤ last.mono := by
  obtain ⟨front, rfl⟩ := List.getLast?_eq_some_iff.mp hlast
  intro g hg
  rcases List.mem_append.mp hg with hfront | hlast
  · have := (List.pairwise_append.mp hapart).2.2 g hfront last List.mem_cons_self
    omega
  · obtain rfl := List.mem_singleton.mp hlast
    exact le_rfl

/-- One section keeps the cache explained. -/
theorem explained_step (outcomes : List SectionOutcome) (s : Trusting) (a : TrustingAction)
    (h : Explained tp profile outcomes s) :
    Explained tp profile (outcomes ++ [(step tp profile s a).1]) (step tp profile s a).2 := by
  obtain ⟨hkeys, hkept, hspent⟩ := step_effect tp profile s a
  refine ⟨?_, ?_, ?_, ?_⟩
  · rw [hkeys, h.keys, inForce, inForce, List.foldl_append]
    rfl
  · rw [grants_concat]
    rcases hg : (step tp profile s a).1.granted with _ | g
    · rw [hkept hg, h.lastClaim, Option.toList_none, List.append_nil]
    · rw [(hspent g hg).2.2, Option.toList_some, List.getLast?_concat]
      rfl
  · rw [grants_concat]
    rcases hg : (step tp profile s a).1.granted with _ | g
    · rw [Option.toList_none, List.append_nil]
      exact h.apart
    · rw [Option.toList_some, List.pairwise_append]
      refine ⟨h.apart, List.pairwise_singleton _ _, ?_⟩
      intro earlier hearlier g' hg'
      obtain rfl := List.mem_singleton.mp hg'
      -- The budget was free, so the last grant is long past, and the others are older.
      rcases hlast : (grants outcomes).getLast? with _ | last
      · rw [List.getLast?_eq_none_iff.mp hlast] at hearlier
        cases hearlier
      · have hle := mono_le_of_getLast? h.apart hlast earlier hearlier
        have hfree := (hspent g' hg).2.1 last.mono (by rw [h.lastClaim, hlast]; rfl)
        have hpos : 0 < refetchFloor := by decide
        omega
  · intro g hg
    rw [grants_concat] at hg
    rcases List.mem_append.mp hg with hold | hnew
    · exact h.unknown g hold
    · exact (hspent g (Option.mem_toList.mp hnew)).1

variable (tp profile) in
/-- Every run is explained. -/
theorem explained_run (acts : List TrustingAction) :
    Explained tp profile (Machine.run (step tp profile) (new profile) acts).1
      (Machine.run (step tp profile) (new profile) acts).2 := by
  refine Machine.run_invariant (step tp profile) ⟨rfl, rfl, .nil, by simp [grants]⟩ ?_ acts
  exact explained_step

end Trusting

/-- **Strangers cannot drive fetches.** Whatever the calls at all providers do in any order, the
fetches granted for one provider are at least five minutes apart; each was granted for a
token of that provider's issuer, well formed in everything that is read before its signature,
naming a key that was not cached, and nothing else spends the budget; a provider's cache and
grants are those of its own calls alone; and the keys in force are those of the last document
that could be used, whatever fetches failed since. -/
theorem fetches_bounded {ι : Type} [DecidableEq ι] (tp : TokenPrimitives)
    (profiles : ι → ProviderProfile) (acts : List (ι × TrustingAction)) (i : ι) :
    let ran := Machine.run (Machine.family fun j => Trusting.step tp (profiles j))
      (fun j => Trusting.new (profiles j)) acts
    let outcomes := Machine.partOf i ran.1
    (grants outcomes).Pairwise (fun g g' => g.mono + refetchFloor ≤ g'.mono) ∧
      (∀ g ∈ grants outcomes, NamesUnknownKey tp (profiles i) g.keys g.token) ∧
      (ran.2 i).cache.lastClaim = (grants outcomes).getLast?.map Grant.mono ∧
      Machine.run (Trusting.step tp (profiles i)) (Trusting.new (profiles i))
        (Machine.partOf i acts) = (outcomes, ran.2 i) ∧
      (ran.2 i).cache.keys = inForce tp outcomes := by
  intro ran outcomes
  have halone := Machine.run_family (fun j => Trusting.step tp (profiles j))
    (fun j => Trusting.new (profiles j)) acts i
  have h := Trusting.explained_run tp (profiles i) (Machine.partOf i acts)
  rw [halone] at h
  exact ⟨h.apart, h.unknown, h.lastClaim, halone, h.keys⟩

namespace Trusting.Sample

open Admitting.Sample

/-- A payload that has an issuer and nothing else. -/
def issuerOnly : List UInt8 :=
  utf8Bytes "\x7b\"iss\":\"https://accounts.google.com\"\x7d".toList

/-- The libraries, as they answer about a token with that payload. -/
def primitives : TokenPrimitives :=
  { Admitting.Sample.tp with
    decode64 := fun segment =>
      [header, issuerOnly, []].find? fun bytes => base64 bytes = segment
    parseJson := fun bytes =>
      if bytes = issuerOnly then
        some (.object [("iss".toList, .string "https://accounts.google.com".toList)])
      else Admitting.Sample.tp.parseJson bytes }

/-- The token, with an empty signature. -/
def incomplete : AttestationRequest :=
  ⟨base64 header ++ '.' :: base64 issuerOnly ++ ['.'], identityPub, agreementPub⟩

end Trusting.Sample

open Trusting.Sample in
/-- **A token without claims is granted a fetch**: only its issuer is read before its key is
looked for. -/
theorem incomplete_token_is_granted_a_fetch :
    (readToken primitives incomplete.token).map (fun r => parseClaims r.payload) =
        some (.error (.malformed (.claim "sub"))) ∧
      grants (Machine.run (Trusting.step primitives Admitting.Sample.profile)
        (Trusting.new Admitting.Sample.profile)
        [.ask 0 (.classify (some ⟨"https://accounts.google.com", "1"⟩) []) incomplete,
          .look 0 ⟨0⟩ 0]).1 = [⟨incomplete.token, 0, []⟩] := by
  decide +kernel

end Tradr
