import Tradr.Base64
import Tradr.Hello
import Tradr.Machine
import Tradr.PeerTrust

/-!
# Who May Browse

Whether a peer may browse the folder is decided when its attestation is classified, and
looked up when its Browse stream arrives. What was decided is kept in one map keyed by
device, so that two overlapping connections of a device share an entry: the one that is
classified last decides for both. A peer that is linked is classified a second time, against
the accounts with full access, and a second classification that fails counts as no access.

## Main definitions

* `PeerTrust.classifyFirst`, `PeerTrust.classifyFetched`: a classification, up to the fetch
  and after it.
* `Admitting.step`: connections under way, next to changes of the links and of the cache.
* `Admitting.Entitled`: what a connection's own classification entitles it to.

## Main results

* `Admitting.inv_step`: what is recorded for a device is what the connection that recorded
  it last is entitled to.
* `Admitting.served_iff_entitled`: a Browse stream is served as its own connection was
  classified, unless another connection of the device was classified otherwise.
-/

open BigEndian Fallible

namespace Tradr

/-! ### The registry of links -/

/-- Why the registry refuses a change. -/
inductive LinkRegistryError
  | accountAlreadyLinked
  | duplicateLinkId
  | secretMismatch
  | unknownLink
  | secret
  | secretRollbackFailed
  | io
  deriving DecidableEq, Repr

/-- Whether the secret store and the disk went along with a change: the secret was stored or
discarded, the file was written, and a secret was taken back. -/
structure RegistryFaults where
  secret : Bool
  persisted : Bool
  rolledBack : Bool
  deriving DecidableEq, Repr

/-- The accounts this device is linked with. -/
structure LinkRegistry where
  links : List Link
  deriving DecidableEq

namespace LinkRegistry

/-- Every linked account. -/
def linkedAccounts (r : LinkRegistry) : List AccountId := r.links.map Link.peerAccount

/-- Every linked account with full access. -/
def fullAccessAccounts (r : LinkRegistry) : List AccountId :=
  (r.links.filter Link.fullAccess).map Link.peerAccount

/-- Register a link and its secret. -/
def add (blake3 : Blake3Kdf) (r : LinkRegistry) (link : Link) (secret : LinkSecret)
    (f : RegistryFaults) : Except LinkRegistryError LinkRegistry :=
  if r.links.any fun l => l.peerAccount = link.peerAccount then .error .accountAlreadyLinked
  else if r.links.any fun l => l.linkId = link.linkId then .error .duplicateLinkId
  else if deriveLinkId blake3 secret ≠ link.linkId then .error .secretMismatch
  else if ¬f.secret then .error .secret
  else if ¬f.persisted then .error (if f.rolledBack then .io else .secretRollbackFailed)
  else .ok ⟨r.links ++ [link]⟩

/-- Remove a link and its secret. -/
def remove (r : LinkRegistry) (id : LinkId) (f : RegistryFaults) :
    Except LinkRegistryError LinkRegistry :=
  match r.links.findIdx? fun l => l.linkId = id with
  | none => .error .unknownLink
  | some index =>
    if ¬f.secret then .error .secret
    else if ¬f.persisted then .error .io
    else .ok ⟨r.links.eraseIdx index⟩

/-- Set whether a linked account has full access. -/
def setFullAccess (r : LinkRegistry) (id : LinkId) (allowed : Bool) (f : RegistryFaults) :
    Except LinkRegistryError LinkRegistry :=
  match r.links.findIdx? fun l => l.linkId = id with
  | none => .error .unknownLink
  | some index =>
    if ¬f.persisted then .error .io
    else .ok ⟨r.links.modify index fun l => { l with fullAccess := allowed }⟩

end LinkRegistry

/-! ### Classifying a peer -/

/-- Why a classification that may fetch gave no tier. -/
inductive ClassifyError
  | notSignedIn
  | verify (e : VerifyError)
  | fetch (message : Text)
  | install (e : JwksError)
  | keysChangedAgain
  deriving DecidableEq, Repr

namespace PeerTrust

variable (tp : TokenPrimitives) (profile : ProviderProfile)

/-- The account a token names, before its signature is verified. -/
def accountOf (token : Text) : Option AccountId :=
  match readHeader tp profile token >>= fun h =>
      parseSegment tp h.payload "payload" >>= parseClaims with
  | .ok claims => some claims.account
  | .error _ => none

/-- A classification up to the point where the provider's keys may have to be fetched. -/
def classifyFirst (ownAccount : Option AccountId) (linkedAccounts : List AccountId)
    (cache : JwksCache) (req : AttestationRequest) (wall : UnixTime) (mono : ℕ) :
    Except ClassifyError (Verification TrustTier) × JwksCache :=
  match ownAccount with
  | none => (.error .notSignedIn, cache)
  | some own =>
    match verifyAttestation tp (policyOf profile own linkedAccounts) cache req.token
        req.identityPub req.agreementPub wall mono with
    | (.error e, cache) => (.error (.verify e), cache)
    | (.ok v, cache) => (.ok v, cache)

/-- The rest of a classification, when the keys had to be fetched. -/
def classifyFetched (ownAccount : Option AccountId) (linkedAccounts : List AccountId)
    (cache : JwksCache) (req : AttestationRequest) (wall : UnixTime) (mono : ℕ)
    (fetched : PeerTrust.Fetched) : Except ClassifyError TrustTier × JwksCache :=
  match fetched with
  | .error message => (.error (.fetch message), cache)
  | .ok document =>
    match cache.install tp document with
    | (.error e, cache) => (.error (.install e), cache)
    | (.ok (), cache) =>
      match classifyFirst tp profile ownAccount linkedAccounts cache req wall mono with
      | (.error e, cache) => (.error e, cache)
      | (.ok (.verified tier), cache) => (.ok tier, cache)
      | (.ok (.jwksNeeded _), cache) => (.error .keysChangedAgain, cache)

variable {tp profile}

/-- The account of a token that verifies is the one it names. -/
theorem accountOf_of_verifyIdToken {keys : List Jwk} {token : Text} {claims : VerifiedClaims}
    (h : verifyIdToken tp profile keys token = .ok claims) :
    accountOf tp profile token = some claims.account := by
  obtain ⟨header, hheader, hwith⟩ := bind_eq_ok.mp h
  obtain ⟨key, -, hrest⟩ := bind_eq_ok.mp hwith
  obtain ⟨-, -, hrest⟩ := bind_eq_ok.mp hrest
  obtain ⟨-, -, hpayload⟩ := bind_eq_ok.mp hrest
  rw [accountOf, hheader, ok_bind, hpayload]

/-- A token that earns the linked tier names a linked account, and not the own one. -/
theorem Verifies.linked {own : AccountId} {linkedAccounts : List AccountId} {token : Text}
    {identityPub agreementPub : PublicKeyPoint} {wall : UnixTime} {keys : List Jwk}
    (h : Verifies tp profile own linkedAccounts token identityPub agreementPub wall .linked keys) :
    ∃ account ∈ linkedAccounts, accountOf tp profile token = some account ∧ account ≠ own := by
  obtain ⟨claims, hverify, htier⟩ := h.claims
  obtain ⟨-, -, htier⟩ := bind_eq_ok.mp htier
  dsimp only [policyOf] at htier
  split_ifs at htier with hown hlinked
  · cases htier
  · exact ⟨_, hlinked, accountOf_of_verifyIdToken hverify, hown⟩
  · cases htier

/-- Such a token earns the same tier when other accounts count as linked, its own among
them. -/
theorem Verifies.linked_of_mem {own account : AccountId} {linkedAccounts accounts : List AccountId}
    {token : Text} {identityPub agreementPub : PublicKeyPoint} {wall : UnixTime} {keys : List Jwk}
    (h : Verifies tp profile own linkedAccounts token identityPub agreementPub wall .linked keys)
    (haccount : accountOf tp profile token = some account) (hmem : account ∈ accounts) :
    Verifies tp profile own accounts token identityPub agreementPub wall .linked keys := by
  obtain ⟨linked, -, hlinked, hne⟩ := h.linked
  obtain rfl : linked = account := Option.some.inj (hlinked.symm.trans haccount)
  obtain ⟨claims, hverify, htier⟩ := h.claims
  refine verifies_iff.mpr ⟨h.peekIssuer, claims, hverify, ?_⟩
  obtain rfl : claims.account = linked :=
    Option.some.inj ((accountOf_of_verifyIdToken hverify).symm.trans haccount)
  obtain ⟨u, hcheck, -⟩ := bind_eq_ok.mp htier
  have hcheck' : checkClaims tp profile claims identityPub agreementPub
      (policyOf profile own accounts).stalenessLimitSecs
      (policyOf profile own accounts).futureSkewLimitSecs wall = .ok u := hcheck
  rw [classifyWithProfile, hcheck', ok_bind]
  exact (if_neg hne).trans (if_pos hmem)

section Answers

variable {ownAccount : Option AccountId} {own : AccountId} {accounts : List AccountId}
  {cache : JwksCache} {req : AttestationRequest} {wall : UnixTime} {mono : ℕ}

/-- A classification up to the fetch is one from the cache. -/
theorem classifyFirst_some : classifyFirst tp profile (some own) accounts cache req wall mono =
    match classifyCached tp profile own accounts cache req.token req.identityPub
      req.agreementPub wall mono with
    | (.ok tier, cache) => (.ok (.verified tier), cache)
    | (.error (.jwksNeeded uri), cache) => (.ok (.jwksNeeded uri), cache)
    | (.error (.refused e), cache) => (.error (.verify e), cache) := by
  unfold classifyFirst classifyCached
  dsimp only
  rcases verifyAttestation tp (policyOf profile own accounts) cache req.token req.identityPub
    req.agreementPub wall mono with ⟨e | tier | uri, cache'⟩
  · rfl
  · rfl
  · rfl

variable (tp profile ownAccount accounts cache req wall mono) in
/-- A classification leaves the keys of the cache alone. -/
theorem classifyFirst_cache : (classifyFirst tp profile ownAccount accounts cache req wall
      mono).2.keys = cache.keys ∧
    (classifyFirst tp profile ownAccount accounts cache req wall mono).2.jwksUri =
      cache.jwksUri := by
  rcases ownAccount with _ | own
  · exact ⟨rfl, rfl⟩
  · have hsnd : (classifyFirst tp profile (some own) accounts cache req wall mono).2 =
        (verifyStepsOneAndTwo tp [profile] cache req.token mono).2 := by
      rw [classifyFirst_some, ← classifyCached_snd own accounts cache req.token req.identityPub
        req.agreementPub wall mono]
      rcases classifyCached tp profile own accounts cache req.token req.identityPub
        req.agreementPub wall mono with ⟨(uri | e) | tier, cache'⟩
      · rfl
      · rfl
      · rfl
    rw [hsnd]
    exact verifyStepsOneAndTwo_keys _ cache req.token mono

variable (tp profile ownAccount accounts cache req wall mono) in
/-- A classification that fetches keeps the cache for its provider. -/
theorem classifyFetched_cache (fetched : Fetched) : (classifyFetched tp profile ownAccount
    accounts cache req wall mono fetched).2.jwksUri = cache.jwksUri := by
  unfold classifyFetched
  rcases fetched with message | document
  · rfl
  obtain ⟨huri, -⟩ := install_keys tp cache document
  dsimp only
  rcases hinstall : cache.install tp document with ⟨e | _, cache'⟩
  · rw [hinstall] at huri
    exact huri
  · rw [hinstall] at huri
    have hfirst := (classifyFirst_cache tp profile ownAccount accounts cache' req wall mono).2
    dsimp only
    rcases hc : classifyFirst tp profile ownAccount accounts cache' req wall mono with
      ⟨e | tier | uri, cache''⟩
    · rw [hc] at hfirst
      exact hfirst.trans huri
    · rw [hc] at hfirst
      exact hfirst.trans huri
    · rw [hc] at hfirst
      exact hfirst.trans huri

/-- A tier is earned under the keys that were cached. -/
theorem verifies_of_classifyFirst {tier : TrustTier} (huri : cache.jwksUri = profile.jwksUri)
    (h : (classifyFirst tp profile ownAccount accounts cache req wall mono).1 =
      .ok (.verified tier)) :
    ∃ own, ownAccount = some own ∧ Verifies tp profile own accounts req.token req.identityPub
      req.agreementPub wall tier cache.keys := by
  rcases ownAccount with _ | own
  · cases h
  · refine ⟨own, rfl, ?_⟩
    rw [classifyFirst_some] at h
    rcases hc : classifyCached tp profile own accounts cache req.token req.identityPub
      req.agreementPub wall mono with ⟨(uri | e) | tier', cache'⟩
    · rw [hc] at h
      cases h
    · rw [hc] at h
      cases h
    · rw [hc] at h
      cases h
      exact verifies_of_classifyCached huri (congrArg Prod.fst hc)

/-- A tier that is earned after a fetch is earned under the keys of the document. -/
theorem verifies_of_classifyFetched {tier : TrustTier} {fetched : Fetched}
    (huri : cache.jwksUri = profile.jwksUri)
    (h : (classifyFetched tp profile ownAccount accounts cache req wall mono fetched).1 =
      .ok tier) :
    ∃ own keys, ownAccount = some own ∧ Verifies tp profile own accounts req.token req.identityPub
      req.agreementPub wall tier keys := by
  unfold classifyFetched at h
  rcases fetched with message | document
  · cases h
  obtain ⟨hinstalled, -⟩ := install_keys tp cache document
  dsimp only at h
  rcases hinstall : cache.install tp document with ⟨e | _, cache'⟩
  · rw [hinstall] at h
    cases h
  · rw [hinstall] at h hinstalled
    dsimp only at h
    have hfirst : (classifyFirst tp profile ownAccount accounts cache' req wall mono).1 =
        .ok (.verified tier) := by
      rcases hc : classifyFirst tp profile ownAccount accounts cache' req wall mono with
        ⟨e | tier' | uri, cache''⟩
      · rw [hc] at h
        cases h
      · rw [hc] at h
        cases h
        rfl
      · rw [hc] at h
        cases h
    obtain ⟨own, hown, hverifies⟩ := verifies_of_classifyFirst (hinstalled.trans huri) hfirst
    exact ⟨own, _, hown, hverifies⟩

/-- A token that verifies under the cached keys earns its tier. -/
theorem classifyFirst_of_verifies {tier : TrustTier} (huri : cache.jwksUri = profile.jwksUri)
    (h : Verifies tp profile own accounts req.token req.identityPub req.agreementPub wall tier
      cache.keys) :
    (classifyFirst tp profile (some own) accounts cache req wall mono).1 = .ok (.verified tier) := by
  rw [classifyFirst_some, classifyCached_of_holds h huri]

/-- A token that verifies under the keys of the fetched document earns its tier. -/
theorem classifyFetched_of_verifies {tier : TrustTier} {document : List UInt8} {keys : List Jwk}
    (huri : cache.jwksUri = profile.jwksUri) (hparse : parseJwks tp document = .ok keys)
    (h : Verifies tp profile own accounts req.token req.identityPub req.agreementPub wall tier
      keys) :
    (classifyFetched tp profile (some own) accounts cache req wall mono (.ok document)).1 =
      .ok tier := by
  have hinstall : cache.install tp document = (.ok (), { cache with keys }) := by
    rw [JwksCache.install, hparse]
  have hfirst : (classifyFirst tp profile (some own) accounts { cache with keys } req wall
      mono).1 = .ok (.verified tier) := classifyFirst_of_verifies huri h
  unfold classifyFetched
  dsimp only
  rw [hinstall]
  dsimp only
  rcases hc : classifyFirst tp profile (some own) accounts { cache with keys } req wall mono with
    ⟨answer, cache'⟩
  rw [hc] at hfirst
  obtain rfl : answer = .ok (.verified tier) := hfirst
  rfl

/-- A token whose key is not cached makes a fetch due while the budget lasts. -/
theorem classifyFirst_of_lacks {tier : TrustTier} {linkedAccounts : List AccountId} {wall' : UnixTime}
    {keys : List Jwk} {kid : Text} (huri : cache.jwksUri = profile.jwksUri)
    (h : Verifies tp profile own linkedAccounts req.token req.identityPub req.agreementPub wall' tier
      keys) (hkid : kidOf tp profile req.token = some kid) (hlacks : ¬cache.Holds kid)
    (hfree : cache.BudgetFree mono) :
    ∃ uri, (classifyFirst tp profile (some own) accounts cache req wall mono).1 =
      .ok (.jwksNeeded uri) := by
  refine ⟨profile.jwksUri, ?_⟩
  rw [classifyFirst_some, classifyCached_of_lacks h huri hkid hlacks accounts, if_pos hfree]

end Answers

end PeerTrust

/-! ### Connections under way -/

/-- What the verifier of a connection read before it classified the peer. -/
structure Reading where
  ownAccount : Option AccountId
  linkedAccounts : List AccountId
  fullAccessAccounts : List AccountId
  deriving DecidableEq

/-- How far a connection has come: its Hello was checked, the own account was read, the
links were read, the first classification is fetching, it answered, the second one is
fetching, access was decided, it was recorded, the Browse stream was taken up, or the
verifier failed. -/
inductive Admission
  | hello
  | signedIn (ownAccount : Option AccountId)
  | read (r : Reading)
  | fetching (r : Reading)
  | answered (r : Reading) (tier : TrustTier)
  | fetchingAgain (r : Reading)
  | decided (r : Reading) (tier : TrustTier) (allowed : Bool)
  | recorded (r : Reading) (tier : TrustTier)
  | browsing (r : Reading) (tier : TrustTier) (served : Bool)
  | failed (e : ClassifyError)
  deriving DecidableEq

/-- An incoming connection: the device the channel authenticated, what its Hello asks to
verify, how far it has come, and whether it was closed. -/
structure IncomingConn where
  device : DeviceId
  request : AttestationRequest
  phase : Admission
  closed : Bool
  deriving DecidableEq

/-- Whether devices may browse, by device. -/
structure BrowseAccess where
  entries : DeviceId → Option Bool

namespace BrowseAccess

/-- No device is recorded. -/
def new : BrowseAccess := ⟨fun _ => none⟩

/-- Record a device, replacing an earlier record. -/
def record (access : BrowseAccess) (device : DeviceId) (allowed : Bool) : BrowseAccess :=
  ⟨Function.update access.entries device (some allowed)⟩

/-- Whether a device is recorded as allowed. -/
def allowed (access : BrowseAccess) (device : DeviceId) : Bool :=
  (access.entries device).getD false

end BrowseAccess

/-- A device that accepts connections; `recordedBy` is the connection that recorded a
device last. -/
structure Admitting where
  ownAccount : Option AccountId
  registry : LinkRegistry
  cache : JwksCache
  access : BrowseAccess
  conns : ℕ → Option IncomingConn
  recordedBy : DeviceId → Option ℕ

/-- What happens: a connection whose Hello is checked, the next step of a connection at a
time with what a fetch came to, the end of a connection, a change of the own account or of
the links, and other use of the cache. -/
inductive AdmittingAction
  | connect (i : ℕ) (device : DeviceId) (request : AttestationRequest)
  | advance (i : ℕ) (wall : UnixTime) (mono : ℕ) (fetched : PeerTrust.Fetched)
  | close (i : ℕ)
  | signIn (ownAccount : Option AccountId)
  | addLink (link : Link) (secret : LinkSecret) (f : RegistryFaults)
  | removeLink (id : LinkId) (f : RegistryFaults)
  | setFullAccess (id : LinkId) (allowed : Bool) (f : RegistryFaults)
  | traffic (t : PeerTrust.Traffic)

namespace Admitting

variable (tp : TokenPrimitives) (kdf : Blake3Kdf) (profile : ProviderProfile)

/-- Nothing is connected and nothing is recorded. -/
def start (ownAccount : Option AccountId) (registry : LinkRegistry) (keys : List Jwk) :
    Admitting :=
  ⟨ownAccount, registry, ⟨profile.jwksUri, keys, none⟩, .new, fun _ => none, fun _ => none⟩

/-- Where a connection is once its first classification has come to something. -/
def afterFirst (r : Reading) : Except ClassifyError (Verification TrustTier) → Admission
  | .error e => .failed e
  | .ok (.verified tier) => .answered r tier
  | .ok (.jwksNeeded _) => .fetching r

/-- Where a connection is once its second classification has come to something. -/
def afterSecond (r : Reading) : Except ClassifyError (Verification TrustTier) → Admission
  | .ok (.jwksNeeded _) => .fetchingAgain r
  | .ok (.verified tier) => .decided r .linked (tier = .linked)
  | .error _ => .decided r .linked false

/-- A connection in its next phase, after it used the cache. -/
def goOn (w : Admitting) (i : ℕ) (conn : IncomingConn) (cache : JwksCache) (phase : Admission) :
    Admitting :=
  { w with cache := cache, conns := Function.update w.conns i (some { conn with phase }) }

/-- The next step of a connection: the verifier of the listener, and the Browse stream. -/
def advance (w : Admitting) (i : ℕ) (conn : IncomingConn) (wall : UnixTime) (mono : ℕ)
    (fetched : PeerTrust.Fetched) : Admitting :=
  match conn.phase with
  | .hello => w.goOn i conn w.cache (.signedIn w.ownAccount)
  | .signedIn own =>
    w.goOn i conn w.cache
      (.read ⟨own, w.registry.linkedAccounts, w.registry.fullAccessAccounts⟩)
  | .read r =>
    let (answer, cache) := PeerTrust.classifyFirst tp profile r.ownAccount r.linkedAccounts
      w.cache conn.request wall mono
    w.goOn i conn cache (afterFirst r answer)
  | .fetching r =>
    let (answer, cache) := PeerTrust.classifyFetched tp profile r.ownAccount r.linkedAccounts
      w.cache conn.request wall mono fetched
    w.goOn i conn cache (afterFirst r (answer.map .verified))
  | .answered r .sameAccount => w.goOn i conn w.cache (.decided r .sameAccount true)
  | .answered r .linked =>
    let (answer, cache) := PeerTrust.classifyFirst tp profile r.ownAccount r.fullAccessAccounts
      w.cache conn.request wall mono
    w.goOn i conn cache (afterSecond r answer)
  | .answered r tier => w.goOn i conn w.cache (.decided r tier false)
  | .fetchingAgain r =>
    let (answer, cache) := PeerTrust.classifyFetched tp profile r.ownAccount
      r.fullAccessAccounts w.cache conn.request wall mono fetched
    w.goOn i conn cache (afterSecond r (answer.map .verified))
  | .decided r tier allowed =>
    -- The verifier derives the device from the identity key, and the Hello was checked to
    -- carry the key of the device that the channel authenticated.
    let device := tp.blake3.deviceIdOf conn.request.identityPub
    { w.goOn i conn w.cache (.recorded r tier) with
      access := w.access.record device allowed
      recordedBy := Function.update w.recordedBy device (some i) }
  | .recorded r tier => w.goOn i conn w.cache (.browsing r tier (w.access.allowed conn.device))
  | .browsing _ _ _ | .failed _ => w

/-- The registry after a change, if it was made. -/
def withRegistry (w : Admitting) (change : Except LinkRegistryError LinkRegistry) : Admitting :=
  match change with
  | .ok registry => { w with registry }
  | .error _ => w

/-- One of these. -/
def step (w : Admitting) : AdmittingAction → Unit × Admitting
  | .connect i device request =>
    ((), match w.conns i with
      | some _ => w
      | none =>
        if tp.blake3.deviceIdOf request.identityPub ≠ device then w
        else { w with conns := Function.update w.conns i (some ⟨device, request, .hello, false⟩) })
  | .advance i wall mono fetched =>
    ((), match w.conns i with
      | none => w
      | some conn => if conn.closed then w else w.advance tp profile i conn wall mono fetched)
  | .close i =>
    ((), match w.conns i with
      | none => w
      | some conn =>
        { w with conns := Function.update w.conns i (some { conn with closed := true }) })
  | .signIn ownAccount => ((), { w with ownAccount })
  | .addLink link secret f => ((), w.withRegistry (w.registry.add kdf link secret f))
  | .removeLink id f => ((), w.withRegistry (w.registry.remove id f))
  | .setFullAccess id allowed f => ((), w.withRegistry (w.registry.setFullAccess id allowed f))
  | .traffic t => ((), { w with cache := t.perform tp profile w.cache })

/-! ### What a connection is entitled to -/

variable {tp kdf profile}

/-- What the first classification of a connection answered, and what was read for it. -/
def answer : Admission → Option (Reading × TrustTier)
  | .answered r tier | .decided r tier _ | .recorded r tier | .browsing r tier _ => some (r, tier)
  | .fetchingAgain r => some (r, .linked)
  | .hello | .signedIn _ | .read _ | .fetching _ | .failed _ => none

variable (tp profile) in
/-- An answer lets a peer browse: it is of the same account, or linked and with full access
when the links were read. -/
def Entitles (token : Text) (r : Reading) (tier : TrustTier) : Prop :=
  tier = .sameAccount ∨ tier = .linked ∧
    ∃ account ∈ r.fullAccessAccounts, PeerTrust.accountOf tp profile token = some account

variable (tp profile) in
/-- A connection's own classification lets it browse. -/
def Entitled (conn : IncomingConn) : Prop :=
  ∃ a ∈ answer conn.phase, Entitles tp profile conn.request.token a.1 a.2

variable (tp profile) in
/-- The token of a connection earns the linked tier, as it did at first, at this time and
under these keys. -/
def StillLinked (conn : IncomingConn) (r : Reading) (wall : UnixTime) (keys : List Jwk) : Prop :=
  ∃ own ∈ r.ownAccount, PeerTrust.Verifies tp profile own r.linkedAccounts conn.request.token
    conn.request.identityPub conn.request.agreementPub wall .linked keys

variable (tp profile) in
/-- The key a token names is not cached, and may be fetched. -/
def FetchGranted (cache : JwksCache) (token : Text) (mono : ℕ) : Prop :=
  ∃ kid ∈ PeerTrust.kidOf tp profile token, ¬cache.Holds kid ∧ cache.BudgetFree mono

variable (tp profile) in
/-- What the next step of a connection must find for access to be decided per connection. A
token that entitles still verifies when it is classified again, or its key is fetched again
and it then does. And when a Browse stream is taken up, the connection that recorded the
device last is entitled as this one is. -/
def AloneAt (w : Admitting) (conn : IncomingConn) (wall : UnixTime) (mono : ℕ)
    (fetched : PeerTrust.Fetched) : Prop :=
  match conn.phase with
  | .answered r .linked => Entitled tp profile conn →
    StillLinked tp profile conn r wall w.cache.keys ∨
      FetchGranted tp profile w.cache conn.request.token mono
  | .fetchingAgain r => Entitled tp profile conn →
    ∃ document ∈ fetched.toOption, ∃ keys ∈ (parseJwks tp document).toOption,
      StillLinked tp profile conn r wall keys
  | .recorded _ _ => ∀ j ∈ w.recordedBy conn.device, ∀ last ∈ w.conns j,
    (Entitled tp profile last ↔ Entitled tp profile conn)
  | _ => True

variable (tp profile) in
/-- The same, of an action. -/
def Alone (w : Admitting) : AdmittingAction → Prop
  | .advance i wall mono fetched => ∀ conn ∈ w.conns i, conn.closed = false →
    w.AloneAt tp profile conn wall mono fetched
  | _ => True

/-! ### What is recorded -/

variable (tp profile) in
/-- What is known of a connection, by how far it has come: it is of the device whose key it
presented, a linked one verified, and what was decided and served is what it is entitled to. -/
structure ConnInv (conn : IncomingConn) : Prop where
  device : tp.blake3.deviceIdOf conn.request.identityPub = conn.device
  linked : ∀ r, answer conn.phase = some (r, .linked) →
    ∃ wall keys, StillLinked tp profile conn r wall keys
  decided : ∀ r tier allowed, conn.phase = .decided r tier allowed →
    (allowed = true ↔ Entitled tp profile conn)
  served : ∀ r tier served, conn.phase = .browsing r tier served →
    (served = true ↔ Entitled tp profile conn)

/-- A connection has recorded its device. -/
def HasRecorded : Admission → Prop
  | .recorded _ _ | .browsing _ _ _ => True
  | _ => False

variable (tp profile) in
/-- What is recorded for a device is what the connection that recorded it last is entitled
to; a connection that has recorded its device left a record of it. -/
structure Inv (w : Admitting) : Prop where
  uri : w.cache.jwksUri = profile.jwksUri
  conn : ∀ i, ∀ conn ∈ w.conns i, ConnInv tp profile conn
  recorded : ∀ i, ∀ conn ∈ w.conns i, HasRecorded conn.phase →
    (w.recordedBy conn.device).isSome = true
  last : ∀ device, ∀ j ∈ w.recordedBy device, ∃ conn ∈ w.conns j, HasRecorded conn.phase ∧
    (w.access.allowed device = true ↔ Entitled tp profile conn)

variable {w : Admitting} {i : ℕ} {conn : IncomingConn} {wall : UnixTime} {mono : ℕ}
  {fetched : PeerTrust.Fetched}

/-- What a connection is entitled to depends on its token and its answer only. -/
theorem entitled_congr {conn' : IncomingConn} (hrequest : conn'.request = conn.request)
    (hanswer : answer conn'.phase = answer conn.phase) :
    Entitled tp profile conn' ↔ Entitled tp profile conn := by
  rw [Entitled, Entitled, hrequest, hanswer]

/-- A connection is entitled to what its answer lets it do. -/
theorem entitled_iff {r : Reading} {tier : TrustTier} (h : answer conn.phase = some (r, tier)) :
    Entitled tp profile conn ↔ Entitles tp profile conn.request.token r tier := by
  simp [Entitled, h]

/-- Nothing is recorded at first. -/
theorem inv_start (ownAccount : Option AccountId) (registry : LinkRegistry) (keys : List Jwk) :
    Inv tp profile (start profile ownAccount registry keys) :=
  ⟨rfl, fun _ _ h => absurd h (Option.not_mem_none _), fun _ _ h => absurd h (Option.not_mem_none _),
    fun _ _ h => absurd h (Option.not_mem_none _)⟩

/-- What is known of all connections stays known when one of them is replaced by one that
is known as well, with what it has recorded. -/
theorem Inv.update (h : Inv tp profile w) (hi : conn ∈ w.conns i) {conn' : IncomingConn}
    {cache : JwksCache} (huri : cache.jwksUri = profile.jwksUri) (hconn : ConnInv tp profile conn')
    (hdevice : conn'.device = conn.device) (hrequest : conn'.request = conn.request)
    (hback : HasRecorded conn'.phase → HasRecorded conn.phase)
    (hkeep : HasRecorded conn.phase →
      HasRecorded conn'.phase ∧ answer conn'.phase = answer conn.phase) :
    Inv tp profile { w with cache := cache, conns := Function.update w.conns i (some conn') } := by
  refine ⟨huri, fun j c hc => ?_, fun j c hc hrec => ?_, fun device j hj => ?_⟩
  · obtain rfl | hne := eq_or_ne j i
    · obtain rfl : conn' = c := by simpa using hc
      exact hconn
    · exact h.conn j c (by simpa [hne] using hc)
  · obtain rfl | hne := eq_or_ne j i
    · obtain rfl : conn' = c := by simpa using hc
      have hsome := h.recorded j conn hi (hback hrec)
      rwa [← hdevice] at hsome
    · exact h.recorded j c (by simpa [hne] using hc) hrec
  · obtain ⟨c, hc, hrec, hiff⟩ := h.last device j hj
    obtain rfl | hne := eq_or_ne j i
    · obtain rfl : conn = c := Option.some.inj (hi.symm.trans hc)
      obtain ⟨hrec', hanswer⟩ := hkeep hrec
      exact ⟨conn', by simp, hrec', hiff.trans (entitled_congr hrequest hanswer).symm⟩
    · exact ⟨c, by simpa [hne] using hc, hrec, hiff⟩

/-- A connection that has not recorded its device goes on. -/
theorem Inv.goOn (h : Inv tp profile w) (hi : conn ∈ w.conns i) {cache : JwksCache}
    {phase : Admission} (huri : cache.jwksUri = profile.jwksUri)
    (hconn : ConnInv tp profile { conn with phase }) (hback : ¬HasRecorded phase)
    (hkeep : ¬HasRecorded conn.phase) : Inv tp profile (w.goOn i conn cache phase) :=
  h.update hi huri hconn rfl rfl (fun hrec => absurd hrec hback) (fun hrec => absurd hrec hkeep)

/-- A connection of which nothing is answered yet. -/
theorem connInv_of_answer_none (hdevice : tp.blake3.deviceIdOf conn.request.identityPub =
    conn.device) (h : answer conn.phase = none) : ConnInv tp profile conn := by
  refine ⟨hdevice, fun r hr => ?_, fun r tier allowed hphase => ?_, fun r tier b hphase => ?_⟩
  · rw [h] at hr
    cases hr
  · rw [hphase] at h
    cases h
  · rw [hphase] at h
    cases h

/-- A connection that was answered. -/
theorem connInv_answered {r : Reading} {tier : TrustTier}
    (hdevice : tp.blake3.deviceIdOf conn.request.identityPub = conn.device)
    (hphase : conn.phase = .answered r tier) {keys : List Jwk}
    (h : ∃ own ∈ r.ownAccount, PeerTrust.Verifies tp profile own r.linkedAccounts
      conn.request.token conn.request.identityPub conn.request.agreementPub wall tier keys) :
    ConnInv tp profile conn := by
  refine ⟨hdevice, fun r' hr => ?_, fun r' tier' allowed hphase' => ?_, fun r' tier' b hphase' => ?_⟩
  · rw [hphase] at hr
    cases hr
    exact ⟨wall, keys, h⟩
  · rw [hphase] at hphase'
    cases hphase'
  · rw [hphase] at hphase'
    cases hphase'

/-- A connection for which access was decided as it is entitled to. -/
theorem connInv_decided {r : Reading} {tier : TrustTier} {allowed : Bool}
    (hdevice : tp.blake3.deviceIdOf conn.request.identityPub = conn.device)
    (hphase : conn.phase = .decided r tier allowed)
    (hlinked : tier = .linked → ∃ wall keys, StillLinked tp profile conn r wall keys)
    (h : allowed = true ↔ Entitles tp profile conn.request.token r tier) :
    ConnInv tp profile conn := by
  have hanswer : answer conn.phase = some (r, tier) := by rw [hphase, answer]
  refine ⟨hdevice, fun r' hr => ?_, fun r' tier' allowed' hphase' => ?_, fun r' tier' b hphase' => ?_⟩
  · rw [hanswer] at hr
    cases hr
    exact hlinked rfl
  · rw [hphase] at hphase'
    cases hphase'
    exact h.trans (entitled_iff hanswer).symm
  · rw [hphase] at hphase'
    cases hphase'

/-- Where a first classification leaves a connection. -/
theorem connInv_afterFirst {r : Reading} {answer : Except ClassifyError (Verification TrustTier)}
    (hdevice : tp.blake3.deviceIdOf conn.request.identityPub = conn.device)
    (h : ∀ tier, answer = .ok (.verified tier) → ∃ keys, ∃ own ∈ r.ownAccount,
      PeerTrust.Verifies tp profile own r.linkedAccounts conn.request.token
        conn.request.identityPub conn.request.agreementPub wall tier keys) :
    ConnInv tp profile { conn with phase := afterFirst r answer } ∧
      ¬HasRecorded (afterFirst r answer) := by
  rcases answer with e | tier | uri
  · exact ⟨connInv_of_answer_none hdevice rfl, id⟩
  · obtain ⟨keys, hkeys⟩ := h tier rfl
    exact ⟨connInv_answered hdevice rfl hkeys, id⟩
  · exact ⟨connInv_of_answer_none hdevice rfl, id⟩

/-- Where a second classification leaves a connection: it answers linked only to a token
whose account has full access, and to such a token it must. -/
theorem connInv_afterSecond {r : Reading} {answer : Except ClassifyError (Verification TrustTier)}
    (hdevice : tp.blake3.deviceIdOf conn.request.identityPub = conn.device)
    (hlinked : ∃ wall keys, StillLinked tp profile conn r wall keys)
    (hsound : answer = .ok (.verified .linked) → ∃ wall keys, ∃ own ∈ r.ownAccount,
      PeerTrust.Verifies tp profile own r.fullAccessAccounts conn.request.token
        conn.request.identityPub conn.request.agreementPub wall .linked keys)
    (hcomplete : Entitles tp profile conn.request.token r .linked →
      answer = .ok (.verified .linked) ∨ ∃ uri, answer = .ok (.jwksNeeded uri)) :
    ConnInv tp profile { conn with phase := afterSecond r answer } ∧
      ¬HasRecorded (afterSecond r answer) := by
  have hentitles : answer = .ok (.verified .linked) →
      Entitles tp profile conn.request.token r .linked := by
    intro h
    obtain ⟨_, _, own, _, hverifies⟩ := hsound h
    obtain ⟨account, hmem, haccount, -⟩ := hverifies.linked
    exact .inr ⟨rfl, account, hmem, haccount⟩
  rcases answer with e | tier | uri
  · refine ⟨connInv_decided hdevice rfl (fun _ => hlinked) ⟨nofun, fun h => ?_⟩, id⟩
    rcases hcomplete h with h | ⟨uri, h⟩
    · cases h
    · cases h
  · refine ⟨connInv_decided hdevice rfl (fun _ => hlinked) ⟨fun h => ?_, fun h => ?_⟩, id⟩
    · exact hentitles (by rw [of_decide_eq_true h])
    · rcases hcomplete h with h | ⟨uri, h⟩
      · cases h
        rfl
      · cases h
  · refine ⟨⟨hdevice, fun r' hr => ?_, nofun, nofun⟩, id⟩
    cases hr
    exact hlinked

/-- A classification after a fetch answers with a tier or fails. -/
theorem map_verified_eq {answer : Except ClassifyError TrustTier} {tier : TrustTier} :
    answer.map Verification.verified = .ok (.verified tier) ↔ answer = .ok tier := by
  rcases answer with e | tier'
  · exact ⟨nofun, nofun⟩
  · constructor
    · intro h
      cases h
      rfl
    · rintro ⟨⟩
      rfl

/-- A second classification answers an entitled token as it should, or fetches. -/
theorem secondLook {r : Reading} (huri : w.cache.jwksUri = profile.jwksUri)
    (hlinked : ∃ wall keys, StillLinked tp profile conn r wall keys)
    (hentitles : Entitles tp profile conn.request.token r .linked)
    (h : StillLinked tp profile conn r wall w.cache.keys ∨
      FetchGranted tp profile w.cache conn.request.token mono) :
    (PeerTrust.classifyFirst tp profile r.ownAccount r.fullAccessAccounts w.cache conn.request
        wall mono).1 = .ok (.verified .linked) ∨
      ∃ uri, (PeerTrust.classifyFirst tp profile r.ownAccount r.fullAccessAccounts w.cache
        conn.request wall mono).1 = .ok (.jwksNeeded uri) := by
  obtain h | ⟨-, account, hmem, haccount⟩ := hentitles
  · cases h
  rcases h with ⟨own, hown, hverifies⟩ | ⟨kid, hkid, hlacks, hfree⟩
  · rw [Option.mem_def.mp hown]
    exact .inl (PeerTrust.classifyFirst_of_verifies huri
      (hverifies.linked_of_mem haccount hmem))
  · obtain ⟨_, _, own, hown, hverifies⟩ := hlinked
    rw [Option.mem_def.mp hown]
    exact .inr (PeerTrust.classifyFirst_of_lacks huri hverifies hkid hlacks hfree)

/-- A second classification that fetched answers an entitled token as it should. -/
theorem secondFetch {r : Reading} (huri : w.cache.jwksUri = profile.jwksUri)
    (hentitles : Entitles tp profile conn.request.token r .linked)
    (h : ∃ document ∈ fetched.toOption, ∃ keys ∈ (parseJwks tp document).toOption,
      StillLinked tp profile conn r wall keys) :
    (PeerTrust.classifyFetched tp profile r.ownAccount r.fullAccessAccounts w.cache conn.request
      wall mono fetched).1 = .ok .linked := by
  obtain h' | ⟨-, account, hmem, haccount⟩ := hentitles
  · cases h'
  obtain ⟨document, hdocument, keys, hkeys, own, hown, hverifies⟩ := h
  obtain rfl : fetched = .ok document := by
    rcases fetched with message | document'
    · cases hdocument
    · cases hdocument
      rfl
  have hparse : parseJwks tp document = .ok keys := by
    rcases hp : parseJwks tp document with e | keys'
    · rw [hp] at hkeys
      cases hkeys
    · rw [hp] at hkeys
      cases hkeys
      rfl
  rw [Option.mem_def.mp hown]
  exact PeerTrust.classifyFetched_of_verifies huri hparse (hverifies.linked_of_mem haccount hmem)

/-- The verifier of a connection goes on, up to the record. -/
theorem Inv.verify (h : Inv tp profile w) (hi : conn ∈ w.conns i)
    (halone : w.AloneAt tp profile conn wall mono fetched) (hrec : ¬HasRecorded conn.phase)
    (hdecided : ∀ r tier allowed, conn.phase ≠ .decided r tier allowed) :
    Inv tp profile (w.advance tp profile i conn wall mono fetched) := by
  have hdevice := (h.conn i conn hi).device
  have hlinked := (h.conn i conn hi).linked
  unfold AloneAt at halone
  unfold advance
  rcases hphase : conn.phase with _ | own | r | r | ⟨r, tier⟩ | r | ⟨r, tier, allowed⟩ | ⟨r, tier⟩ |
    ⟨r, tier, served⟩ | e
  · exact h.goOn hi h.uri (connInv_of_answer_none hdevice rfl) id hrec
  · exact h.goOn hi h.uri (connInv_of_answer_none hdevice rfl) id hrec
  · have huri := (PeerTrust.classifyFirst_cache tp profile r.ownAccount r.linkedAccounts w.cache
      conn.request wall mono).2
    obtain ⟨hconn, hback⟩ := connInv_afterFirst hdevice fun tier heq => by
      obtain ⟨own, hown, hverifies⟩ := PeerTrust.verifies_of_classifyFirst h.uri heq
      exact ⟨_, own, hown, hverifies⟩
    exact h.goOn hi (huri.trans h.uri) hconn hback hrec
  · have huri := PeerTrust.classifyFetched_cache tp profile r.ownAccount r.linkedAccounts w.cache
      conn.request wall mono fetched
    obtain ⟨hconn, hback⟩ := connInv_afterFirst hdevice fun tier heq => by
      obtain ⟨own, keys, hown, hverifies⟩ :=
        PeerTrust.verifies_of_classifyFetched h.uri (map_verified_eq.mp heq)
      exact ⟨keys, own, hown, hverifies⟩
    exact h.goOn hi (huri.trans h.uri) hconn hback hrec
  · rw [hphase] at halone hlinked
    have hanswer : answer conn.phase = some (r, tier) := by rw [hphase, answer]
    cases tier with
    | sameAccount =>
        refine h.goOn hi h.uri (connInv_decided hdevice rfl nofun ?_) id hrec
        exact ⟨fun _ => .inl rfl, fun _ => rfl⟩
    | rejected =>
        refine h.goOn hi h.uri (connInv_decided hdevice rfl nofun ?_) id hrec
        exact ⟨nofun, by rintro (h | ⟨h, -⟩) <;> cases h⟩
    | nearbyEphemeral =>
        refine h.goOn hi h.uri (connInv_decided hdevice rfl nofun ?_) id hrec
        exact ⟨nofun, by rintro (h | ⟨h, -⟩) <;> cases h⟩
    | linked =>
        have huri := (PeerTrust.classifyFirst_cache tp profile r.ownAccount r.fullAccessAccounts
          w.cache conn.request wall mono).2
        obtain ⟨hconn, hback⟩ := connInv_afterSecond hdevice (hlinked r rfl)
          (fun heq => by
            obtain ⟨own, hown, hverifies⟩ := PeerTrust.verifies_of_classifyFirst h.uri heq
            exact ⟨_, _, own, hown, hverifies⟩)
          (fun hentitles => by
            rw [entitled_iff hanswer] at halone
            exact secondLook h.uri (hlinked r rfl) hentitles (halone hentitles))
        exact h.goOn hi (huri.trans h.uri) hconn hback hrec
  · rw [hphase] at halone hlinked
    have hanswer : answer conn.phase = some (r, .linked) := by rw [hphase, answer]
    have huri := PeerTrust.classifyFetched_cache tp profile r.ownAccount r.fullAccessAccounts
      w.cache conn.request wall mono fetched
    obtain ⟨hconn, hback⟩ := connInv_afterSecond hdevice (hlinked r rfl)
      (fun heq => by
        obtain ⟨own, keys, hown, hverifies⟩ :=
          PeerTrust.verifies_of_classifyFetched h.uri (map_verified_eq.mp heq)
        exact ⟨_, keys, own, hown, hverifies⟩)
      (fun hentitles => by
        rw [entitled_iff hanswer] at halone
        exact .inl (map_verified_eq.mpr (secondFetch h.uri hentitles (halone hentitles))))
    exact h.goOn hi (huri.trans h.uri) hconn hback hrec
  · exact absurd hphase (hdecided r tier allowed)
  · rw [hphase] at hrec
    exact absurd trivial hrec
  · rw [hphase] at hrec
    exact absurd trivial hrec
  · exact h

/-- A connection records what was decided: it is now the last to do so. -/
theorem Inv.record (h : Inv tp profile w) (hi : conn ∈ w.conns i) {r : Reading} {tier : TrustTier}
    {allowed : Bool} (hphase : conn.phase = .decided r tier allowed) :
    Inv tp profile (w.advance tp profile i conn wall mono fetched) := by
  obtain ⟨hdevice, hlinked, hdecided, -⟩ := h.conn i conn hi
  have hanswer : answer conn.phase = some (r, tier) := by rw [hphase, answer]
  have hentitled : Entitled tp profile { conn with phase := .recorded r tier } ↔
      Entitled tp profile conn := entitled_congr rfl hanswer.symm
  unfold advance
  rw [hphase]
  dsimp only [Admitting.goOn]
  rw [hdevice]
  refine ⟨h.uri, fun j c hc => ?_, fun j c hc hrec => ?_, fun device j hj => ?_⟩
  · obtain rfl | hne := eq_or_ne j i
    · obtain rfl : { conn with phase := .recorded r tier } = c := by simpa using hc
      exact ⟨hdevice, fun r' hr => hlinked r' (hanswer.trans hr), nofun, nofun⟩
    · exact h.conn j c (by simpa [hne] using hc)
  · obtain heq | hdev := eq_or_ne c.device conn.device
    · simp [heq]
    · obtain rfl | hne := eq_or_ne j i
      · obtain rfl : { conn with phase := .recorded r tier } = c := by simpa using hc
        exact absurd rfl hdev
      · simpa [hdev] using h.recorded j c (by simpa [hne] using hc) hrec
  · obtain rfl | hdev := eq_or_ne device conn.device
    · obtain rfl : i = j := by simpa using hj
      refine ⟨{ conn with phase := .recorded r tier }, by simp, trivial, ?_⟩
      rw [hentitled, ← hdecided r tier allowed hphase]
      simp [BrowseAccess.allowed, BrowseAccess.record]
    · obtain ⟨c, hc, hrec, hiff⟩ := h.last device j (by simpa [hdev] using hj)
      have hne : j ≠ i := by
        rintro rfl
        obtain rfl : conn = c := Option.some.inj (hi.symm.trans hc)
        rw [hphase] at hrec
        exact hrec
      refine ⟨c, by simpa [hne] using hc, hrec, ?_⟩
      rw [← hiff]
      simp [BrowseAccess.allowed, BrowseAccess.record, hdev]

/-- A Browse stream is taken up as the last record of the device says. -/
theorem Inv.browse (h : Inv tp profile w) (hi : conn ∈ w.conns i)
    (halone : w.AloneAt tp profile conn wall mono fetched) {r : Reading} {tier : TrustTier}
    (hphase : conn.phase = .recorded r tier) :
    Inv tp profile (w.advance tp profile i conn wall mono fetched) := by
  obtain ⟨hdevice, hlinked, -, -⟩ := h.conn i conn hi
  have hanswer : answer conn.phase = some (r, tier) := by rw [hphase, answer]
  obtain ⟨j, hj⟩ := Option.isSome_iff_exists.mp
    (h.recorded i conn hi (by rw [hphase]; exact trivial))
  obtain ⟨last, hlast, -, hallowed⟩ := h.last conn.device j hj
  have hsame : Entitled tp profile last ↔ Entitled tp profile conn := by
    unfold AloneAt at halone
    rw [hphase] at halone
    exact halone j hj last hlast
  unfold advance
  rw [hphase]
  refine h.update hi h.uri ⟨hdevice, fun r' hr => hlinked r' (hanswer.trans hr), nofun, ?_⟩ rfl rfl
    (fun _ => by rw [hphase]; exact trivial) (fun _ => ⟨trivial, hanswer.symm⟩)
  intro r' tier' served hserved
  obtain ⟨rfl, rfl, rfl⟩ := Admission.browsing.inj hserved
  exact hallowed.trans (hsame.trans (entitled_congr rfl hanswer))

/-- Every step of a connection keeps what is known. -/
theorem Inv.advance (h : Inv tp profile w) (hi : conn ∈ w.conns i)
    (halone : w.AloneAt tp profile conn wall mono fetched) :
    Inv tp profile (w.advance tp profile i conn wall mono fetched) := by
  rcases hphase : conn.phase with _ | own | r | r | ⟨r, tier⟩ | r | ⟨r, tier, allowed⟩ | ⟨r, tier⟩ |
    ⟨r, tier, served⟩ | e
  case decided => exact h.record hi hphase
  case recorded => exact h.browse hi halone hphase
  case browsing =>
    unfold Admitting.advance
    rw [hphase]
    exact h
  all_goals exact h.verify hi halone (by rw [hphase]; exact id) (by rw [hphase]; nofun)

/-- A change of the links changes nothing else. -/
theorem Inv.withRegistry (h : Inv tp profile w)
    (change : Except LinkRegistryError LinkRegistry) : Inv tp profile (w.withRegistry change) := by
  rcases change with e | registry
  · exact h
  · exact ⟨h.uri, h.conn, h.recorded, h.last⟩

/-- **Every action keeps what is known**, when it finds what it must. -/
theorem inv_step {a : AdmittingAction} (halone : w.Alone tp profile a) (h : Inv tp profile w) :
    Inv tp profile (w.step tp kdf profile a).2 := by
  cases a with
  | connect i device request =>
      dsimp only [step]
      split
      · exact h
      rename_i hnone
      split_ifs with hkey
      · exact h
      · have hdevice : tp.blake3.deviceIdOf request.identityPub = device := not_not.mp hkey
        refine ⟨h.uri, fun j c hc => ?_, fun j c hc hrec => ?_, fun device' j hj => ?_⟩
        · obtain rfl | hne := eq_or_ne j i
          · obtain rfl : (⟨device, request, .hello, false⟩ : IncomingConn) = c := by
              simpa using hc
            exact connInv_of_answer_none hdevice rfl
          · exact h.conn j c (by simpa [hne] using hc)
        · obtain rfl | hne := eq_or_ne j i
          · obtain rfl : (⟨device, request, .hello, false⟩ : IncomingConn) = c := by
              simpa using hc
            exact absurd hrec id
          · exact h.recorded j c (by simpa [hne] using hc) hrec
        · obtain ⟨c, hc, hrec, hiff⟩ := h.last device' j hj
          have hne : j ≠ i := by
            rintro rfl
            rw [hnone] at hc
            cases hc
          exact ⟨c, by simpa [hne] using hc, hrec, hiff⟩
  | advance i wall mono fetched =>
      dsimp only [step]
      split
      · exact h
      rename_i conn hconn
      split_ifs with hclosed
      · exact h
      · exact h.advance hconn (halone conn hconn (Bool.not_eq_true _ ▸ hclosed))
  | close i =>
      dsimp only [step]
      split
      · exact h
      rename_i conn hconn
      obtain ⟨hdevice, hlinked, hdecided, hserved⟩ := h.conn i conn hconn
      exact h.update hconn h.uri ⟨hdevice, hlinked, hdecided, hserved⟩ rfl rfl id
        fun hrec => ⟨hrec, rfl⟩
  | signIn ownAccount => exact ⟨h.uri, h.conn, h.recorded, h.last⟩
  | addLink link secret f => exact h.withRegistry _
  | removeLink id f => exact h.withRegistry _
  | setFullAccess id allowed f => exact h.withRegistry _
  | traffic t =>
      exact ⟨(PeerTrust.Traffic.perform_keys w.cache t).1.trans h.uri, h.conn, h.recorded, h.last⟩

/-- **A Browse stream is served exactly as its own connection was classified**: over every
run of connections, classifications, fetches, changes of the links and other use of the
cache in which no other connection of the device was classified otherwise last, and every
token that entitles verifies when it is classified again. -/
theorem served_iff_entitled {ownAccount : Option AccountId} {links : LinkRegistry}
    {keys : List Jwk} {acts : List AdmittingAction}
    (h : Machine.Allows (step tp kdf profile) (Alone tp profile)
      (start profile ownAccount links keys) acts)
    {i : ℕ} {conn : IncomingConn}
    (hconn : (Machine.run (step tp kdf profile) (start profile ownAccount links keys) acts).2.conns
      i = some conn) {r : Reading} {tier : TrustTier} {served : Bool}
    (hphase : conn.phase = .browsing r tier served) :
    served = true ↔ tier = .sameAccount ∨ tier = .linked ∧
      ∃ account ∈ r.fullAccessAccounts,
        PeerTrust.accountOf tp profile conn.request.token = some account := by
  have hinv := Machine.run_invariant_of_allows (step tp kdf profile)
    (I := fun _ w => Inv tp profile w) (inv_start ownAccount links keys)
    (fun _ _ _ halone hinv => inv_step halone hinv) h
  have hserved := (hinv.conn i conn hconn).served r tier served hphase
  rw [entitled_iff (by rw [hphase, answer])] at hserved
  exact hserved

/-! ### Deciding the condition -/

instance (token : Text) (r : Reading) (tier : TrustTier) :
    Decidable (Entitles tp profile token r tier) :=
  inferInstanceAs (Decidable (_ ∨ _ ∧ ∃ _ ∈ r.fullAccessAccounts, _))

instance (conn : IncomingConn) : Decidable (Entitled tp profile conn) :=
  inferInstanceAs (Decidable (∃ a ∈ answer conn.phase, _))

instance (conn : IncomingConn) (r : Reading) (wall : UnixTime) (keys : List Jwk) :
    Decidable (StillLinked tp profile conn r wall keys) :=
  inferInstanceAs (Decidable (∃ own ∈ r.ownAccount, (PeerTrust.classifyCached tp profile own _ _ _
    _ _ _ _).1 = .ok _))

instance (cache : JwksCache) (token : Text) (mono : ℕ) :
    Decidable (FetchGranted tp profile cache token mono) :=
  inferInstanceAs (Decidable (∃ kid ∈ PeerTrust.kidOf tp profile token, _ ∧ _))

instance (w : Admitting) (conn : IncomingConn) (wall : UnixTime) (mono : ℕ)
    (fetched : PeerTrust.Fetched) : Decidable (w.AloneAt tp profile conn wall mono fetched) :=
  match conn with
  | ⟨_, _, .answered _ .linked, _⟩ => inferInstanceAs (Decidable (_ → _ ∨ _))
  | ⟨_, _, .fetchingAgain _, _⟩ =>
    inferInstanceAs (Decidable (_ → ∃ document ∈ _, ∃ keys ∈ (parseJwks tp document).toOption, _))
  | ⟨_, _, .recorded _ _, _⟩ =>
    inferInstanceAs (Decidable (∀ j ∈ _, ∀ last ∈ w.conns j, (_ ↔ _)))
  | ⟨_, _, .hello, _⟩ | ⟨_, _, .signedIn _, _⟩ | ⟨_, _, .read _, _⟩ | ⟨_, _, .fetching _, _⟩
  | ⟨_, _, .answered _ .rejected, _⟩ | ⟨_, _, .answered _ .nearbyEphemeral, _⟩
  | ⟨_, _, .answered _ .sameAccount, _⟩ | ⟨_, _, .decided _ _ _, _⟩ | ⟨_, _, .browsing _ _ _, _⟩
  | ⟨_, _, .failed _, _⟩ => inferInstanceAs (Decidable True)

instance (w : Admitting) (a : AdmittingAction) : Decidable (w.Alone tp profile a) :=
  match a with
  | .advance i _ _ _ => inferInstanceAs (Decidable (∀ conn ∈ w.conns i, _ → _))
  | .connect _ _ _ | .close _ | .signIn _ | .addLink _ _ _ | .removeLink _ _
  | .setFullAccess _ _ _ | .traffic _ => inferInstanceAs (Decidable True)

end Admitting

/-! ### Two connections of one device -/

namespace Admitting.Sample

/-- An uncompressed point. -/
def sec1 (x y : ℕ) : PublicKeyPoint := ⟨⟨0x04 :: (toBE 32 x ++ toBE 32 y), length_sec1 x y⟩⟩

/-- The peer's identity key. -/
def identityPub : PublicKeyPoint :=
  sec1 0xd3b3153d30799f92f6246f2fb1d9245f38d8e2df65472a4b8ba152be11cf5917
    0x67457c3e6cc2f0f5cac21dd91712ae76ef87659dfdf0e19fd53aca46992062c9

/-- The peer's agreement key. -/
def agreementPub : PublicKeyPoint :=
  sec1 0x39ffb9fe1017e0b65d253d47b3f9dd9e10f163e8a5f7079c838095fd2c149470
    0xddfc341d4816cc3ed88cdbd6b12be123f0485689e2c02c7ecbe3ed6d2112ad8a

/-- The BLAKE3 hash of the identity key. -/
def identityDigest : Bytes 32 :=
  .ofBE 32 0x6c5e96fe2393c4b321c9ed40671ab7ae4bd4a94efc6eea1bb28bc8b5cab828c8

/-- The BLAKE3 hash of both keys. -/
def nonceDigest : Bytes 32 :=
  .ofBE 32 0x43787e637b039186028e24ca352f446795f01fe37215297917bd96c05597ce78

/-- The header of the token, `{"alg":"RS256","kid":"k1"}`. -/
def header : List UInt8 := toBE 26 0x7b22616c67223a225253323536222c226b6964223a226b31227d

/-- The payload of the token: its issuer is `https://accounts.google.com`, its subject `2`,
its audience `tradr`, its time 0, and its nonce the hash of both keys. -/
def payload : List UInt8 :=
  List.flatMap (toBE 32)
    [0x7b22697373223a2268747470733a2f2f6163636f756e74732e676f6f676c652e,
      0x636f6d222c22737562223a2232222c22617564223a227472616472222c226961,
      0x74223a302c226e6f6e6365223a225133682d593373446b5959436a69544b4e53] ++
    toBE 27 0x39455a355877482d4e7946536c3546373257774657587a6e67227d

/-- The provider's modulus. -/
def modulus : List UInt8 :=
  List.flatMap (toBE 32)
    [0xfb9c324c48d945ed584101f9a9767d0d1f990f9e749e8ff036eefa8d61747049,
      0x1f521da31474b36edc85e1a33075c6e5565d7619a8f6a43450896de39b166907,
      0xd739302e2ad34e71c13eff4466269c53161c16f01a200c113d3552c44c6d08b8,
      0x71e52eda5c6d0f0b7e6ce681fad4a2735a359fea523b912b16ffc33eaf6c62c1,
      0x99fa0a6340be665d5e5b9cfaf43d6e2b3d4d85e7961dd0dabb7b9f25306ca263,
      0x125451c4787f1768cd7a977917cebda90414492ba76ea2e69315b5cd5561c41b,
      0x59a38e2353f8af6d0d8b61e17124ce48b2768e96cf73f6f73bf6e29f16a91b41,
      0xb49cef65ab362e531b20c3d846bdca7e620342741e66e00153ba4e74540a7abf]

/-- The provider's signature. -/
def signature : List UInt8 :=
  List.flatMap (toBE 32)
    [0x54f42a92d5b91e3fb8142325e271a2057b1c5da8871b41a758df951edf167427,
      0x9b637286272e1008ed3e3cbfcdfdf57370d3712ddc416d68f77583830e3233dc,
      0x35cb20276e30d2cdd302791924cac7ffba57a2bc73406d137afc43caa1cc34ca,
      0x85b5f0f2fe55219dd2179ed590b98ef32a4ab0469433182dd8abbc7f1a76487f,
      0x4e9163d93d90b91d9bae7968660fb5996c3ed2579e0978037188b897d57cf563,
      0x2075150f01d848b4b236d986cc9986c095d45fe5329149ebb921da0627592973,
      0x45d0db2b6391b275ce1691fc4acfb127a29af8bb86e5321c67ef7692b3296c1d,
      0x92bb0d2a07960d8f33458e2957d119869b793a8191900f61065281776683cb15]

/-- The provider. -/
def profile : ProviderProfile :=
  ⟨"https://accounts.google.com".toList, ["tradr".toList], .verbatim, [.rs256], "jwks".toList⟩

/-- The key it publishes. -/
def jwk : Jwk := ⟨"k1".toList, .rs256, modulus, [1, 0, 1]⟩

/-- The libraries, as they answer about this token. -/
def tp : TokenPrimitives where
  decode64 := fun segment => [header, payload, signature].find? fun bytes => base64 bytes = segment
  encode64 := base64
  parseJson := fun bytes =>
    if bytes = header then
      some (.object [("alg".toList, .string "RS256".toList), ("kid".toList, .string "k1".toList)])
    else if bytes = payload then
      some (.object [("iss".toList, .string "https://accounts.google.com".toList),
        ("sub".toList, .string "2".toList), ("aud".toList, .string "tradr".toList),
        ("iat".toList, .number (some 0)), ("nonce".toList, .string (base64 nonceDigest.val))])
    else none
  rsaVerifies := fun n e input sig =>
    n = modulus ∧ e = [1, 0, 1] ∧ input = utf8Bytes (base64 header ++ '.' :: base64 payload) ∧
      sig = signature
  blake3 := ⟨fun bytes => if bytes = identityPub.bytes.val then identityDigest else nonceDigest⟩
  sha256 := fun _ => []

/-- What the peer presents. -/
def request : AttestationRequest :=
  ⟨base64 header ++ '.' :: base64 payload ++ '.' :: base64 signature, identityPub, agreementPub⟩

/-- The identifier of the link with the peer's account. -/
def linkId : LinkId := ⟨.replicate 16 7⟩

/-- The peer's account is linked, with full access or without. -/
def linkedPeer (allowed : Bool) : LinkRegistry :=
  ⟨[⟨linkId, ⟨"https://accounts.google.com", "2"⟩, none, ⟨0⟩, allowed⟩]⟩

/-- The device is signed in, and has the provider's key. -/
def device (allowed : Bool) : Admitting :=
  start profile (some ⟨"https://accounts.google.com", "1"⟩) (linkedPeer allowed) [jwk]

/-- The next step of a connection, when nothing has to be fetched. -/
def next (i : ℕ) : AdmittingAction := .advance i ⟨0⟩ 0 (.error [])

/-- The peer connects, and its connection goes a number of steps. -/
def connected (i steps : ℕ) : List AdmittingAction :=
  .connect i (.fromIdentityDigest identityDigest) request :: List.replicate steps (next i)

/-- The key derivation, which only registering a link uses. -/
def kdf : Blake3Kdf := ⟨tp.blake3, fun _ _ => nonceDigest⟩

/-- What is read for a connection while the peer's account has full access or not. -/
def reading (allowed : Bool) : Reading :=
  ⟨some ⟨"https://accounts.google.com", "1"⟩, (linkedPeer allowed).linkedAccounts,
    (linkedPeer allowed).fullAccessAccounts⟩

end Admitting.Sample

namespace Admitting

open Sample in
/-- A linked peer with full access that connects once is served as it is entitled to. -/
theorem served_iff_entitled_alone :
    (true = true ↔ TrustTier.linked = .sameAccount ∨ TrustTier.linked = .linked ∧
      ∃ account ∈ (reading true).fullAccessAccounts,
        PeerTrust.accountOf Sample.tp Sample.profile request.token = some account) := by
  have hallows : Machine.Allows (step Sample.tp kdf Sample.profile)
      (Alone Sample.tp Sample.profile) (start Sample.profile (reading true).ownAccount
        (linkedPeer true) [jwk]) (connected 0 6) := by
    decide +kernel
  have hconn : (Machine.run (step Sample.tp kdf Sample.profile) (start Sample.profile
      (reading true).ownAccount (linkedPeer true) [jwk]) (connected 0 6)).2.conns 0 =
        some ⟨.fromIdentityDigest identityDigest, request, .browsing (reading true) .linked true,
          false⟩ := by
    decide +kernel
  exact served_iff_entitled hallows hconn rfl

open Sample in
/-- **A connection is served as another connection of its device was classified.** The first
connection reads the links while the peer's account has full access, the second one after it
was taken away, and the first one is the last to record. -/
theorem overlapping_connection_decides :
    ((Machine.run (step Sample.tp kdf Sample.profile) (Sample.device true)
      (connected 0 4 ++ .setFullAccess linkId false ⟨true, true, true⟩ :: connected 1 5 ++
        [next 0, next 1])).2.conns 1).map IncomingConn.phase =
      some (.browsing (reading false) .linked true) ∧
    (reading false).fullAccessAccounts = [] := by
  decide +kernel

end Admitting

end Tradr
