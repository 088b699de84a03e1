import Tradr.Discovery

/-!
# Static Peers

The entries a person registers by hand: endpoints, and the device that the first connection
pinned. The registry is written whole to its file by every change and reports what it holds as
the events of a discovery source.

How an endpoint is recognised as an address is a matter of the standard library's parsers,
which are parameters here; nothing is asked of them.

## Main definitions

* `StaticPeer`, `StaticPeerRecord`: an entry in memory and on disk.
* `StaticPeerRegistry.load`, `add`, `pin`, `remove`, `expectation`: the registry.
* `StaticPeer.observation`: what is reported of an entry.

## Main results

* `StaticPeerRegistry.load_file`: the file loads again, with the same pins.
* `StaticPeerRegistry.add_cases`, `pin_cases`, `remove_cases`: what an operation can do.
* `StaticPeerRegistry.Change.pinnedTo`: a pin stays as long as its entry does.
* `StaticPeerRegistry.Change.shown`: a list that shows the entries shows them again after the
  events of an operation.
-/

namespace Tradr

/-! ### Endpoints -/

/-- The version of an IP address. -/
inductive IpVersion
  | v4
  | v6
  deriving DecidableEq

/-- The standard library's parsers for addresses. -/
structure NetParse where
  isSocketAddr : Text → Bool
  ipAddr : Text → Option IpVersion

/-- The port of an endpoint that names none. -/
def staticPeerDefaultPort : Text := "21820".toList

/-- Whether a text ends in a colon and digits. -/
def endsWithPort (raw : Text) : Bool :=
  let after := raw.reverse.takeWhile (· ≠ ':')
  ':' ∈ raw ∧ after ≠ [] ∧ after.all Char.isDigit

/-- Fill in a missing port. -/
def normalizeEndpoint (net : NetParse) (raw : Text) : Text :=
  if net.isSocketAddr raw then raw
  else
    match net.ipAddr raw with
    | some .v4 => raw ++ ':' :: staticPeerDefaultPort
    | some .v6 => '[' :: raw ++ ']' :: ':' :: staticPeerDefaultPort
    | none => if endsWithPort raw then raw else raw ++ ':' :: staticPeerDefaultPort

/-- An address stays one when its port is filled in. -/
theorem candidateRefusal_normalizeEndpoint (net : NetParse) {address : Text}
    (h : candidateRefusal address = none) :
    candidateRefusal (normalizeEndpoint net address) = none := by
  obtain ⟨hne, hall⟩ := candidateRefusal_eq_none.mp h
  have hport : ∀ c ∈ ':' :: staticPeerDefaultPort,
      isControl c = false ∧ isMisleadingDisplayCharacter c = false := by
    have hall : (':' :: staticPeerDefaultPort).all
        (fun c => !isControl c && !isMisleadingDisplayCharacter c) = true := rfl
    intro c hc
    simpa using List.all_eq_true.mp hall c hc
  have hfilled : candidateRefusal (address ++ ':' :: staticPeerDefaultPort) = none := by
    refine candidateRefusal_eq_none.mpr ⟨by simp, ?_⟩
    intro c hc
    rcases List.mem_append.mp hc with hc | hc
    · exact hall c hc
    · exact hport c hc
  unfold normalizeEndpoint
  split
  · exact h
  · split
    · exact hfilled
    · refine candidateRefusal_eq_none.mpr ⟨by simp, ?_⟩
      intro c hc
      rcases List.mem_cons.mp hc with rfl | hc
      · decide
      rcases List.mem_append.mp hc with hc | hc
      · exact hall c hc
      rcases List.mem_cons.mp hc with rfl | hc
      · decide
      · exact hport c hc
    · split
      · exact h
      · exact hfilled

/-! ### Entries -/

/-- What was wrong in a file. -/
inductive MalformedPeers
  | notAnId (s : Text)
  | deviceId (source : DeviceIdError)
  | endpoint (source : CandidateError)
  deriving DecidableEq

/-- An error of the registry. -/
inductive StaticPeerError
  | malformed (reason : MalformedPeers)
  | alreadyPinned
  | noEndpoints
  | invalidEndpoint (source : CandidateError)
  | unknownEntry
  | io (source : String)
  | rng (source : String)
  deriving DecidableEq

/-- The digits of an entry's identifier. -/
def staticPeerIdHexLen : ℕ := 32

/-- A lowercase hexadecimal digit. -/
def isLowerHex (c : Char) : Bool := c.isDigit ∨ ('a' ≤ c ∧ c ≤ 'f')

/-- Whether a text is an entry's identifier. -/
def isStaticPeerId (s : Text) : Bool := utf8Len s = staticPeerIdHexLen ∧ s.all isLowerHex

/-- The identifier of an entry. -/
structure StaticPeerId where
  value : Text
  valid : isStaticPeerId value = true
  deriving DecidableEq

/-- An identifier, when the text is one. -/
def StaticPeerId.new (s : Text) : Except StaticPeerError StaticPeerId :=
  if h : isStaticPeerId s then .ok ⟨s, h⟩ else .error (.malformed (.notAnId s))

/-- The digits that are written are lowercase. -/
theorem isStaticPeerId_hexText (bytes : Bytes 16) : isStaticPeerId (hexText bytes.val) = true := by
  have hlen : bytes.val.length = 16 := bytes.property
  have hdigit : ∀ v < 16, isLowerHex (hexChars.getD v '0') = true := by decide
  unfold isStaticPeerId
  rw [decide_eq_true_eq, utf8Len_hexText, hlen, List.all_eq_true]
  refine ⟨rfl, ?_⟩
  intro c hc
  obtain ⟨b, -, hc⟩ := List.mem_flatMap.mp hc
  have hb := b.toNat_lt
  rcases List.mem_cons.mp hc with rfl | hc
  · exact hdigit _ (by omega)
  · rw [List.mem_singleton.mp hc]
    exact hdigit _ (by omega)

/-- A fresh identifier from sixteen random bytes. -/
def StaticPeerId.generate (drawn : Except String (Bytes 16)) :
    Except StaticPeerError StaticPeerId :=
  match drawn with
  | .error e => .error (.rng e)
  | .ok bytes => .ok ⟨hexText bytes.val, isStaticPeerId_hexText bytes⟩

/-- An entry. -/
structure StaticPeer where
  id : StaticPeerId
  label : Option Text
  endpoints : List Text
  expectDeviceId : Option DeviceId
  deriving DecidableEq

/-- The shape of an entry on disk. -/
structure StaticPeerRecord where
  id : Text
  label : Option Text
  endpoints : List Text
  expectDeviceId : Option Text
  deriving DecidableEq

/-- The transport of every candidate. -/
def directQuic : Text := "direct-quic".toList

/-- Normalise endpoints, each of which must then be an address. -/
def normalizeEndpoints (net : NetParse) (refuse : CandidateError → StaticPeerError) :
    List Text → Except StaticPeerError (List Text)
  | [] => .ok []
  | raw :: raws =>
    match Candidate.new directQuic (normalizeEndpoint net raw) with
    | .error e => .error (refuse e)
    | .ok candidate =>
      match normalizeEndpoints net refuse raws with
      | .error e => .error e
      | .ok addresses => .ok (candidate.address :: addresses)

/-- A device identifier from its hexadecimal digits. -/
def DeviceId.fromStr (s : Text) : Except DeviceIdError DeviceId :=
  match parseHex deviceIdLen s with
  | none => .error .invalidHex
  | some bytes => .ok ⟨bytes⟩

/-- A device identifier as text. -/
def DeviceId.display (id : DeviceId) : Text := hexText id.bytes.val

@[simp] theorem DeviceId.fromStr_display (id : DeviceId) : DeviceId.fromStr id.display = .ok id := by
  unfold DeviceId.fromStr DeviceId.display
  rw [parseHex_hexText]

namespace StaticPeer

/-- The record of an entry. -/
def toRecord (entry : StaticPeer) : StaticPeerRecord :=
  ⟨entry.id.value, entry.label, entry.endpoints, entry.expectDeviceId.map DeviceId.display⟩

/-- The pin of a record. -/
def recordedPin : Option Text → Except StaticPeerError (Option DeviceId)
  | none => .ok none
  | some hex =>
    match DeviceId.fromStr hex with
    | .error e => .error (.malformed (.deviceId e))
    | .ok device => .ok (some device)

/-- The entry of a record. -/
def fromRecord (net : NetParse) (record : StaticPeerRecord) :
    Except StaticPeerError StaticPeer :=
  match StaticPeerId.new record.id with
  | .error e => .error e
  | .ok id =>
    match recordedPin record.expectDeviceId with
    | .error e => .error e
    | .ok expectDeviceId =>
      match normalizeEndpoints net (fun e => .malformed (.endpoint e)) record.endpoints with
      | .error e => .error e
      | .ok endpoints => .ok ⟨id, record.label, endpoints, expectDeviceId⟩

/-- Every endpoint is an address. -/
def Valid (entry : StaticPeer) : Prop :=
  ∀ address ∈ entry.endpoints, candidateRefusal address = none

/-- The entry with its endpoints normalised once more. -/
def renormalized (net : NetParse) (entry : StaticPeer) : StaticPeer :=
  { entry with endpoints := entry.endpoints.map (normalizeEndpoint net) }

end StaticPeer

/-- Addresses are normalised. -/
theorem normalizeEndpoints_eq (net : NetParse) (refuse : CandidateError → StaticPeerError)
    {raws : List Text} (h : ∀ raw ∈ raws, candidateRefusal (normalizeEndpoint net raw) = none) :
    normalizeEndpoints net refuse raws = .ok (raws.map (normalizeEndpoint net)) := by
  induction raws with
  | nil => rfl
  | cons raw raws ih =>
      rw [normalizeEndpoints, Candidate.new_eq _ (h raw List.mem_cons_self)]
      dsimp only
      rw [ih fun r hr => h r (List.mem_cons_of_mem _ hr)]
      rfl

/-- What is normalised are addresses. -/
theorem candidateRefusal_of_normalizeEndpoints {net : NetParse}
    {refuse : CandidateError → StaticPeerError} {raws addresses : List Text}
    (h : normalizeEndpoints net refuse raws = .ok addresses) :
    ∀ address ∈ addresses, candidateRefusal address = none := by
  induction raws generalizing addresses with
  | nil =>
      obtain rfl := Except.ok.inj h
      exact fun _ hmem => absurd hmem List.not_mem_nil
  | cons raw raws ih =>
      rw [normalizeEndpoints] at h
      split at h
      · cases h
      rename_i candidate hcandidate
      split at h
      · cases h
      rename_i rest hrest
      obtain rfl := Except.ok.inj h
      intro address hmem
      rcases List.mem_cons.mp hmem with rfl | hmem
      · exact candidate.valid
      · exact ih hrest address hmem

namespace StaticPeer

/-- **An entry reads back** with its pin. -/
theorem fromRecord_toRecord (net : NetParse) {entry : StaticPeer} (h : entry.Valid) :
    fromRecord net entry.toRecord = .ok (entry.renormalized net) := by
  have hid : StaticPeerId.new entry.id.value = .ok entry.id := by
    rw [StaticPeerId.new, dif_pos entry.id.valid]
  have hpin : recordedPin (entry.expectDeviceId.map DeviceId.display) = .ok entry.expectDeviceId := by
    rcases entry.expectDeviceId with _ | device
    · rfl
    · rw [Option.map_some, recordedPin, DeviceId.fromStr_display]
  unfold fromRecord toRecord
  dsimp only
  rw [hid]
  dsimp only
  rw [hpin]
  dsimp only
  rw [normalizeEndpoints_eq net _ fun raw hraw =>
    candidateRefusal_normalizeEndpoint net (h raw hraw)]
  rfl

theorem Valid.renormalized {entry : StaticPeer} (h : entry.Valid) (net : NetParse) :
    (entry.renormalized net).Valid := by
  intro address hmem
  obtain ⟨raw, hraw, rfl⟩ := List.mem_map.mp hmem
  exact candidateRefusal_normalizeEndpoint net (h raw hraw)

end StaticPeer

/-! ### What is reported -/

/-- The source that reports static peers. -/
def staticPeerSourceId : Text := "static-peer".toList

/-- The identifier of an entry is always an observation key. -/
theorem validateBoundedString_staticPeerId (id : StaticPeerId) :
    validateBoundedString id.value observationKeyMaxLen = none := by
  have hvalid := id.valid
  unfold isStaticPeerId at hvalid
  rw [decide_eq_true_eq, List.all_eq_true] at hvalid
  obtain ⟨hlen, hall⟩ := hvalid
  have hchar : ∀ c ∈ id.value, isControl c = false ∧ isMisleadingDisplayCharacter c = false := by
    intro c hc
    have hhex := hall c hc
    unfold isLowerHex at hhex
    rw [decide_eq_true_eq] at hhex
    have hrange : 0x30 ≤ c.toNat ∧ c.toNat ≤ 0x66 := by
      rcases hhex with h | ⟨h₁, h₂⟩
      · unfold Char.isDigit at h
        rw [Bool.and_eq_true, decide_eq_true_eq, decide_eq_true_eq] at h
        constructor
        · exact h.1
        · exact le_trans h.2 (by decide)
      · constructor
        · exact le_trans (by decide) h₁
        · exact h₂
    unfold isControl isMisleadingDisplayCharacter
    rw [decide_eq_false_iff_not, decide_eq_false_iff_not]
    omega
  unfold validateBoundedString
  rw [if_neg, if_neg]
  · have hcontrol : id.value.find? isControl = none :=
      List.find?_eq_none.mpr fun c hc => by rw [(hchar c hc).1]; exact Bool.false_ne_true
    have hmisleading : id.value.find? isMisleadingDisplayCharacter = none :=
      List.find?_eq_none.mpr fun c hc => by rw [(hchar c hc).2]; exact Bool.false_ne_true
    rw [hcontrol, hmisleading]
    rfl
  · rw [hlen]
    decide
  · intro hnil
    rw [hnil] at hlen
    cases hlen

/-- What the source calls an entry. -/
def StaticPeerId.observationId (id : StaticPeerId) : ObservationId :=
  ⟨staticPeerSourceId, ⟨id.value, validateBoundedString_staticPeerId id⟩⟩

theorem StaticPeerId.observationId_injective : Function.Injective observationId := by
  rintro ⟨a, ha⟩ ⟨b, hb⟩ h
  have hkey := congrArg (fun id : ObservationId => id.key.value) h
  obtain rfl : a = b := hkey
  rfl

namespace StaticPeer

/-- What is reported of an entry; a label that is no display name is left out. -/
def observation (entry : StaticPeer) : PeerObservation :=
  { PeerObservation.new entry.id.observationId
      (entry.endpoints.filterMap fun address => (Candidate.new directQuic address).toOption) with
    deviceId := entry.expectDeviceId
    displayName := entry.label.bind fun label => (DisplayName.new label).toOption }

/-- **An observation has the endpoints of its entry.** -/
theorem mem_endpoints_iff {entry : StaticPeer} (h : entry.Valid) (address : Text) :
    address ∈ entry.endpoints ↔ ∃ candidate ∈ entry.observation.candidates,
      candidate.transport = directQuic ∧ candidate.address = address := by
  have hmem : ∀ candidate, candidate ∈ entry.observation.candidates ↔
      ∃ a ∈ entry.endpoints, (Candidate.new directQuic a).toOption = some candidate := by
    intro candidate
    exact mem_sortedCandidates.trans List.mem_filterMap
  constructor
  · intro haddress
    refine ⟨⟨directQuic, address, h address haddress⟩, (hmem _).mpr ⟨address, haddress, ?_⟩, rfl, rfl⟩
    rw [Candidate.new_eq _ (h address haddress)]
    rfl
  · rintro ⟨candidate, hcandidate, -, rfl⟩
    obtain ⟨a, ha, hnew⟩ := (hmem candidate).mp hcandidate
    rw [Candidate.new_eq _ (h a ha)] at hnew
    obtain rfl := Option.some.inj hnew
    exact ha

end StaticPeer

/-! ### The registry -/

/-- The entries in memory and the file they are written to. -/
structure StaticPeerRegistry where
  entries : List StaticPeer
  file : Option (List StaticPeerRecord)

namespace StaticPeerRegistry

/-- The entries of some records. -/
def loadEntries (net : NetParse) : List StaticPeerRecord → Except StaticPeerError (List StaticPeer)
  | [] => .ok []
  | record :: records =>
    match StaticPeer.fromRecord net record with
    | .error e => .error e
    | .ok entry =>
      match loadEntries net records with
      | .error e => .error e
      | .ok entries => .ok (entry :: entries)

/-- Load the registry from its file, and the events it starts with; a missing file is an empty
registry. -/
def load (net : NetParse) (readFault : Option String) (file : Option (List StaticPeerRecord)) :
    Except StaticPeerError (StaticPeerRegistry × List DiscoveryEvent) :=
  match readFault with
  | some e => .error (.io e)
  | none =>
    match loadEntries net (file.getD []) with
    | .error e => .error e
    | .ok entries => .ok (⟨entries, file⟩, entries.map fun e => .observed e.observation)

/-- The entry with an identifier. -/
def entry (r : StaticPeerRegistry) (id : StaticPeerId) : Option StaticPeer :=
  r.entries.find? fun e => e.id = id

/-- The entries, in memory and in the file. -/
def written (entries : List StaticPeer) : StaticPeerRegistry :=
  ⟨entries, some (entries.map StaticPeer.toRecord)⟩

@[simp] theorem written_entries (entries : List StaticPeer) :
    (written entries).entries = entries := rfl

/-- Register an entry, with the events that are reported. `persist` is why the file could not
be written. -/
def add (net : NetParse) (r : StaticPeerRegistry) (label : Option Text) (endpoints : List Text)
    (drawn : Except String (Bytes 16)) (persist : Option String) :
    Except StaticPeerError StaticPeerId × StaticPeerRegistry × List DiscoveryEvent :=
  if endpoints = [] then (.error .noEndpoints, r, [])
  else
    match normalizeEndpoints net .invalidEndpoint endpoints with
    | .error e => (.error e, r, [])
    | .ok normalized =>
      match StaticPeerId.generate drawn with
      | .error e => (.error e, r, [])
      | .ok id =>
        match persist with
        | some e => (.error (.io e), r, [])
        | none =>
          let entry : StaticPeer := ⟨id, label, normalized, none⟩
          (.ok id, written (r.entries ++ [entry]), [.observed entry.observation])

/-- Pin the device of an entry; a pin is only ever filled in. -/
def pin (r : StaticPeerRegistry) (id : StaticPeerId) (device : DeviceId)
    (persist : Option String) :
    Except StaticPeerError Unit × StaticPeerRegistry × List DiscoveryEvent :=
  match r.entries.findIdx? fun e => e.id = id with
  | none => (.error .unknownEntry, r, [])
  | some index =>
    match r.entries[index]? with
    | none => (.error .unknownEntry, r, [])
    | some entry =>
      match entry.expectDeviceId with
      | some existing => if existing = device then (.ok (), r, []) else (.error .alreadyPinned, r, [])
      | none =>
        match persist with
        | some e => (.error (.io e), r, [])
        | none =>
          let pinned := { entry with expectDeviceId := some device }
          (.ok (), written (r.entries.set index pinned), [.observed pinned.observation])

/-- Remove an entry, and its pin. -/
def remove (r : StaticPeerRegistry) (id : StaticPeerId) (persist : Option String) :
    Except StaticPeerError Unit × StaticPeerRegistry × List DiscoveryEvent :=
  match r.entries.findIdx? fun e => e.id = id with
  | none => (.error .unknownEntry, r, [])
  | some index =>
    match persist with
    | some e => (.error (.io e), r, [])
    | none => (.ok (), written (r.entries.eraseIdx index), [.lost id.observationId])

end StaticPeerRegistry

/-- What the dialling side knows of the device it reaches for. -/
inductive PeerExpectation
  | unpinned
  | device (id : DeviceId)
  deriving DecidableEq

/-- What a connection to an entry must prove. -/
def StaticPeerRegistry.expectation (r : StaticPeerRegistry) (id : StaticPeerId) :
    Option PeerExpectation :=
  (r.entry id).map fun entry =>
    match entry.expectDeviceId with
    | some device => .device device
    | none => .unpinned

namespace StaticPeerRegistry

/-! ### What an operation can do -/

variable {net : NetParse} {r r' : StaticPeerRegistry} {events : List DiscoveryEvent}

/-- What an entry keeps over a reload. -/
def pinOf (e : StaticPeer) : StaticPeerId × Option DeviceId := (e.id, e.expectDeviceId)

/-- The entries have distinct identifiers, their endpoints are addresses, and those of the file
have the same identifiers and pins. -/
structure Ok (r : StaticPeerRegistry) : Prop where
  keyed : (r.entries.map StaticPeer.id).Nodup
  valid : ∀ e ∈ r.entries, e.Valid
  file : ∃ filed : List StaticPeer, r.file.getD [] = filed.map StaticPeer.toRecord ∧
    (∀ e ∈ filed, e.Valid) ∧ filed.map pinOf = r.entries.map pinOf

/-- Entries with one identifier are the same. -/
theorem Ok.eq (h : r.Ok) {e e' : StaticPeer} (he : e ∈ r.entries) (he' : e' ∈ r.entries)
    (hid : e.id = e'.id) : e = e' :=
  List.inj_on_of_nodup_map h.keyed he he' hid

/-- The entry at the position of an identifier. -/
theorem split_of_findIdx? {entries : List StaticPeer} {id : StaticPeerId} {index : ℕ}
    (h : (entries.findIdx? fun e => e.id = id) = some index) :
    ∃ before entry after, entries = before ++ entry :: after ∧ before.length = index ∧
      entry.id = id := by
  obtain ⟨hlt, hid, -⟩ := List.findIdx?_eq_some_iff_getElem.mp h
  refine ⟨entries.take index, entries[index], entries.drop (index + 1), ?_, ?_,
    of_decide_eq_true hid⟩
  · rw [List.getElem_cons_drop, List.take_append_drop]
  · rw [List.length_take]
    omega

/-- **Adding an entry** appends it, or changes nothing. -/
theorem add_cases {label : Option Text} {endpoints : List Text}
    {drawn : Except String (Bytes 16)} {persist : Option String}
    {result : Except StaticPeerError StaticPeerId}
    (h : r.add net label endpoints drawn persist = (result, r', events)) :
    (∃ e, result = .error e ∧ r' = r ∧ events = []) ∨
    ∃ entry, StaticPeerId.generate drawn = .ok entry.id ∧ entry.Valid ∧
      entry.expectDeviceId = none ∧ result = .ok entry.id ∧ r' = written (r.entries ++ [entry]) ∧
      events = [.observed entry.observation] := by
  unfold add at h
  split_ifs at h
  · cases h
    exact .inl ⟨_, rfl, rfl, rfl⟩
  split at h
  · cases h
    exact .inl ⟨_, rfl, rfl, rfl⟩
  rename_i normalized hnormalized
  split at h
  · cases h
    exact .inl ⟨_, rfl, rfl, rfl⟩
  rename_i id hid
  split at h
  · cases h
    exact .inl ⟨_, rfl, rfl, rfl⟩
  · cases h
    exact .inr ⟨⟨id, label, normalized, none⟩, hid,
      candidateRefusal_of_normalizeEndpoints hnormalized, rfl, rfl, rfl, rfl⟩

/-- **Pinning a device** fills in an empty pin, or changes nothing; it succeeds only where the
device is pinned then. -/
theorem pin_cases {id : StaticPeerId} {device : DeviceId} {persist : Option String}
    {result : Except StaticPeerError Unit}
    (h : r.pin id device persist = (result, r', events)) :
    (∃ e, result = .error e ∧ r' = r ∧ events = []) ∨
    (∃ entry ∈ r.entries, entry.id = id ∧ entry.expectDeviceId = some device ∧ result = .ok () ∧
      r' = r ∧ events = []) ∨
    ∃ before entry after, r.entries = before ++ entry :: after ∧ entry.id = id ∧
      entry.expectDeviceId = none ∧ result = .ok () ∧
      r' = written (before ++ { entry with expectDeviceId := some device } :: after) ∧
      events = [.observed { entry with expectDeviceId := some device }.observation] := by
  unfold pin at h
  rcases hidx : r.entries.findIdx? fun e => e.id = id with _ | index
  · rw [hidx] at h
    cases h
    exact .inl ⟨_, rfl, rfl, rfl⟩
  obtain ⟨before, entry, after, hentries, rfl, hid⟩ := split_of_findIdx? hidx
  have hget : r.entries[before.length]? = some entry := by
    rw [hentries, List.getElem?_append_right le_rfl, Nat.sub_self]
    rfl
  have hset : ∀ pinned, r.entries.set before.length pinned = before ++ pinned :: after := by
    intro pinned
    rw [hentries, List.set_append_right _ _ le_rfl, Nat.sub_self]
    rfl
  rw [hidx] at h
  dsimp only at h
  rw [hget] at h
  dsimp only at h
  split at h
  · rename_i existing hexisting
    split_ifs at h with heq
    · cases h
      subst heq
      exact .inr (.inl ⟨entry, List.mem_of_getElem? hget, hid, hexisting, rfl, rfl, rfl⟩)
    · cases h
      exact .inl ⟨_, rfl, rfl, rfl⟩
  rename_i hnone
  split at h
  · cases h
    exact .inl ⟨_, rfl, rfl, rfl⟩
  · rw [hset] at h
    cases h
    exact .inr (.inr ⟨before, entry, after, hentries, hid, hnone, rfl, rfl, rfl⟩)

/-- **Removing an entry** removes it, or changes nothing. -/
theorem remove_cases {id : StaticPeerId} {persist : Option String}
    {result : Except StaticPeerError Unit} (h : r.remove id persist = (result, r', events)) :
    (∃ e, result = .error e ∧ r' = r ∧ events = []) ∨
    ∃ before entry after, r.entries = before ++ entry :: after ∧ entry.id = id ∧
      result = .ok () ∧ r' = written (before ++ after) ∧ events = [.lost id.observationId] := by
  unfold remove at h
  rcases hidx : r.entries.findIdx? fun e => e.id = id with _ | index
  · rw [hidx] at h
    cases h
    exact .inl ⟨_, rfl, rfl, rfl⟩
  obtain ⟨before, entry, after, hentries, rfl, hid⟩ := split_of_findIdx? hidx
  have herase : r.entries.eraseIdx before.length = before ++ after := by
    rw [hentries, List.eraseIdx_append_of_length_le le_rfl, Nat.sub_self]
    rfl
  rw [hidx] at h
  dsimp only at h
  split at h
  · cases h
    exact .inl ⟨_, rfl, rfl, rfl⟩
  · rw [herase] at h
    cases h
    exact .inr ⟨before, entry, after, hentries, hid, rfl, rfl, rfl⟩

theorem map_id_of_map_pinOf {entries entries' : List StaticPeer}
    (h : entries.map pinOf = entries'.map pinOf) :
    entries.map StaticPeer.id = entries'.map StaticPeer.id := by
  have hids := congrArg (List.map Prod.fst) h
  rwa [List.map_map, List.map_map] at hids

/-- Entries that were just written. -/
theorem ok_written {entries : List StaticPeer} (hkeyed : (entries.map StaticPeer.id).Nodup)
    (hvalid : ∀ e ∈ entries, e.Valid) : (written entries).Ok :=
  ⟨hkeyed, hvalid, entries, rfl, hvalid, rfl⟩

/-- Valid entries load from their records. -/
theorem loadEntries_toRecord (net : NetParse) {entries : List StaticPeer}
    (hvalid : ∀ e ∈ entries, e.Valid) :
    loadEntries net (entries.map StaticPeer.toRecord) =
      .ok (entries.map (StaticPeer.renormalized net)) := by
  induction entries with
  | nil => rfl
  | cons e entries ih =>
      rw [List.map_cons, loadEntries,
        StaticPeer.fromRecord_toRecord net (hvalid e List.mem_cons_self)]
      dsimp only
      rw [ih fun e' he' => hvalid e' (List.mem_cons_of_mem _ he')]
      rfl

/-- **The file loads again**, with the identifiers and pins of the entries. -/
theorem load_file (net : NetParse) (h : r.Ok) :
    ∃ r' : StaticPeerRegistry, load net none r.file =
        .ok (r', r'.entries.map fun e => .observed e.observation) ∧ r'.Ok ∧
      r'.entries.map pinOf = r.entries.map pinOf := by
  obtain ⟨filed, hfile, hvalid, hpins⟩ := h.file
  have hsame : (filed.map (StaticPeer.renormalized net)).map pinOf = r.entries.map pinOf := by
    rw [← hpins, List.map_map]
    rfl
  refine ⟨⟨filed.map (StaticPeer.renormalized net), r.file⟩, ?_, ⟨?_, ?_, ?_⟩, hsame⟩
  · unfold load
    dsimp only
    rw [hfile, loadEntries_toRecord net hvalid]
  · have hids := map_id_of_map_pinOf hsame
    exact hids ▸ h.keyed
  · intro e he
    obtain ⟨e', he', rfl⟩ := List.mem_map.mp he
    exact (hvalid e' he').renormalized net
  · exact ⟨filed, hfile, hvalid, hpins.trans hsame.symm⟩

/-- What loads from the file has the identifiers and pins of the entries. -/
theorem load_eq_ok (h : r.Ok) {readFault : Option String}
    (hload : load net readFault r.file = .ok (r', events)) :
    events = (r'.entries.map fun e => .observed e.observation) ∧ r'.Ok ∧
      r'.entries.map pinOf = r.entries.map pinOf := by
  obtain ⟨loaded, hloaded, hok, hpins⟩ := load_file net h
  rcases readFault with _ | e
  · cases hload.symm.trans hloaded
    exact ⟨rfl, hok, hpins⟩
  · cases hload

/-! ### What a list shows -/

/-- What a list shows of the entries. -/
def Shown (entries : List StaticPeer) (list : PeerList) : Prop :=
  list.Shows StaticPeer.observation entries

theorem observation_id_eq_iff {e e' : StaticPeer} :
    e.observation.id = e'.observation.id ↔ e.id = e'.id :=
  StaticPeerId.observationId_injective.eq_iff

/-- What an operation can do to the registry, and what it reports. An entry that is added has an
identifier that was not drawn before. -/
inductive Change (drawn : List StaticPeerId) (r : StaticPeerRegistry) :
    StaticPeerRegistry → List DiscoveryEvent → List StaticPeerId → Prop
  | none : Change drawn r r [] drawn
  | added (entry : StaticPeer) (hnew : entry.id ∉ drawn) (hvalid : entry.Valid) :
    Change drawn r (written (r.entries ++ [entry])) [.observed entry.observation]
      (entry.id :: drawn)
  | pinned {before after : List StaticPeer} {entry : StaticPeer} {device : DeviceId}
    (hentries : r.entries = before ++ entry :: after) (hnone : entry.expectDeviceId = none) :
    Change drawn r (written (before ++ { entry with expectDeviceId := some device } :: after))
      [.observed { entry with expectDeviceId := some device }.observation] drawn
  | removed {before after : List StaticPeer} {entry : StaticPeer}
    (hentries : r.entries = before ++ entry :: after) :
    Change drawn r (written (before ++ after)) [.lost entry.id.observationId] drawn
  | reloaded {r' : StaticPeerRegistry} (hok : r'.Ok)
    (hpins : r'.entries.map pinOf = r.entries.map pinOf) :
    Change drawn r r' (r'.entries.map fun e => .observed e.observation) drawn

/-- The entries with an identifier are pinned to a device. -/
def PinnedTo (entries : List StaticPeer) (id : StaticPeerId) (device : DeviceId) : Prop :=
  ∀ e ∈ entries, e.id = id → e.expectDeviceId = some device

/-- An entry that expects a device is pinned to it. -/
theorem pinnedTo_of_expectation (h : r.Ok) {id : StaticPeerId} {device : DeviceId}
    (hexpects : r.expectation id = some (.device device)) : PinnedTo r.entries id device := by
  obtain ⟨e, hentry, hpin⟩ := Option.map_eq_some_iff.mp hexpects
  have hmem := List.mem_of_find?_eq_some hentry
  have hfind : (r.entries.find? fun e => decide (e.id = id)) = some e := hentry
  have hid : e.id = id := by simpa using List.find?_some hfind
  intro e' he' heq
  rw [h.eq he' hmem (heq.trans hid.symm)]
  rcases hexpect : e.expectDeviceId with _ | d
  · rw [hexpect] at hpin
    cases hpin
  · rw [hexpect] at hpin
    rw [PeerExpectation.device.inj hpin]

section Change

variable {drawn drawn' : List StaticPeerId}

/-- Pinning is a change. -/
theorem Change.of_pin {id : StaticPeerId} {device : DeviceId} {persist : Option String}
    {result : Except StaticPeerError Unit} (h : r.pin id device persist = (result, r', events)) :
    Change drawn r r' events drawn := by
  obtain ⟨_, _, rfl, rfl⟩ | ⟨_, _, _, _, _, rfl, rfl⟩ |
    ⟨before, entry, after, hentries, _, hnone, _, rfl, rfl⟩ := pin_cases h
  · exact .none
  · exact .none
  · exact .pinned hentries hnone

/-- A pin that succeeds is there. -/
theorem pinnedTo_of_pin (hok : r.Ok) {id : StaticPeerId} {device : DeviceId}
    {persist : Option String} (h : r.pin id device persist = (.ok (), r', events)) :
    PinnedTo r'.entries id device := by
  obtain ⟨_, hfails, _⟩ | ⟨entry, hentry, rfl, hpin, _, rfl, _⟩ |
    ⟨before, entry, after, hentries, rfl, _, _, rfl, _⟩ := pin_cases h
  · cases hfails
  · intro e he hid
    rw [hok.eq he hentry hid]
    exact hpin
  · have hkeyed := hok.keyed
    rw [hentries, List.map_append, List.map_cons, List.perm_middle.nodup_iff, List.nodup_cons,
      ← List.map_append] at hkeyed
    intro e he hid
    rw [written_entries, List.mem_append, List.mem_cons] at he
    rcases he with he | rfl | he
    · exact absurd (List.mem_map.mpr ⟨e, List.mem_append_left _ he, hid⟩) hkeyed.1
    · rfl
    · exact absurd (List.mem_map.mpr ⟨e, List.mem_append_right _ he, hid⟩) hkeyed.1

/-- The registry stays in order. -/
theorem Change.ok (h : Change drawn r r' events drawn') (hok : r.Ok)
    (hdrawn : ∀ e ∈ r.entries, e.id ∈ drawn) : r'.Ok := by
  cases h with
  | none => exact hok
  | added entry hnew hvalid =>
      refine ok_written ?_ ?_
      · rw [List.map_append, List.nodup_append]
        refine ⟨hok.keyed, List.nodup_singleton _, ?_⟩
        rintro id hid _ hid' rfl
        obtain ⟨e, he, rfl⟩ := List.mem_map.mp hid
        obtain heq : e.id = entry.id := List.mem_singleton.mp hid'
        exact hnew (heq ▸ hdrawn e he)
      · intro e he
        rcases List.mem_append.mp he with he | he
        · exact hok.valid e he
        · rw [List.mem_singleton.mp he]
          exact hvalid
  | @pinned before after entry device hentries hnone =>
      have hkeyed := hok.keyed
      rw [hentries, List.map_append, List.map_cons] at hkeyed
      refine ok_written ?_ ?_
      · rw [List.map_append, List.map_cons]
        exact hkeyed
      · intro e he
        rcases List.mem_append.mp he with he | he
        · exact hok.valid e (hentries ▸ List.mem_append_left _ he)
        rcases List.mem_cons.mp he with rfl | he
        · exact hok.valid entry (hentries ▸ List.mem_append_right _ List.mem_cons_self)
        · exact hok.valid e
            (hentries ▸ List.mem_append_right _ (List.mem_cons_of_mem _ he))
  | @removed before after entry hentries =>
      have hsub : (before ++ after).Sublist r.entries := by
        rw [hentries]
        exact (List.Sublist.refl before).append (List.sublist_cons_self entry after)
      exact ok_written (hok.keyed.sublist (hsub.map _)) fun e he => hok.valid e (hsub.subset he)
  | reloaded hok' hpins => exact hok'

/-- **A pin stays** as long as its entry does. -/
theorem Change.pinnedTo (h : Change drawn r r' events drawn') {id : StaticPeerId} {device : DeviceId}
    (hid : id ∈ drawn) (hpinned : PinnedTo r.entries id device) :
    PinnedTo r'.entries id device := by
  cases h with
  | none => exact hpinned
  | added entry hnew hvalid =>
      intro e he heq
      rcases List.mem_append.mp he with he | he
      · exact hpinned e he heq
      · rw [List.mem_singleton.mp he] at heq
        exact absurd (heq ▸ hid) hnew
  | @pinned before after entry device' hentries hnone =>
      intro e he heq
      rcases List.mem_append.mp he with he | he
      · exact hpinned e (hentries ▸ List.mem_append_left _ he) heq
      rcases List.mem_cons.mp he with rfl | he
      · have hold := hpinned entry (hentries ▸ List.mem_append_right _ List.mem_cons_self) heq
        rw [hnone] at hold
        cases hold
      · exact hpinned e (hentries ▸ List.mem_append_right _ (List.mem_cons_of_mem _ he)) heq
  | @removed before after entry hentries =>
      intro e he heq
      refine hpinned e ?_ heq
      rw [hentries]
      rcases List.mem_append.mp he with he | he
      · exact List.mem_append_left _ he
      · exact List.mem_append_right _ (List.mem_cons_of_mem _ he)
  | reloaded hok' hpins =>
      intro e he heq
      have hmem : pinOf e ∈ r'.entries.map pinOf := List.mem_map_of_mem he
      rw [hpins] at hmem
      obtain ⟨e', he', hsame⟩ := List.mem_map.mp hmem
      have hpin : e'.expectDeviceId = e.expectDeviceId := congrArg Prod.snd hsame
      rw [← hpin]
      exact hpinned e' he' ((congrArg Prod.fst hsame).trans heq)

/-- The identifiers of the entries were drawn. -/
theorem Change.ids (h : Change drawn r r' events drawn')
    (hdrawn : ∀ e ∈ r.entries, e.id ∈ drawn) :
    drawn ⊆ drawn' ∧ ∀ e ∈ r'.entries, e.id ∈ drawn' := by
  cases h with
  | none => exact ⟨List.Subset.refl _, hdrawn⟩
  | added entry hnew hvalid =>
      refine ⟨List.subset_cons_self _ _, ?_⟩
      intro e he
      rcases List.mem_append.mp he with he | he
      · exact List.mem_cons_of_mem _ (hdrawn e he)
      · rw [List.mem_singleton.mp he]
        exact List.mem_cons_self
  | @pinned before after entry device hentries hnone =>
      rw [hentries] at hdrawn
      refine ⟨List.Subset.refl _, ?_⟩
      intro e he
      rcases List.mem_append.mp he with he | he
      · exact hdrawn e (List.mem_append_left _ he)
      rcases List.mem_cons.mp he with rfl | he
      · exact hdrawn entry (List.mem_append_right _ List.mem_cons_self)
      · exact hdrawn e (List.mem_append_right _ (List.mem_cons_of_mem _ he))
  | @removed before after entry hentries =>
      rw [hentries] at hdrawn
      refine ⟨List.Subset.refl _, ?_⟩
      intro e he
      rcases List.mem_append.mp he with he | he
      · exact hdrawn e (List.mem_append_left _ he)
      · exact hdrawn e (List.mem_append_right _ (List.mem_cons_of_mem _ he))
  | reloaded hok' hpins =>
      refine ⟨List.Subset.refl _, ?_⟩
      intro e he
      have hmem : e.id ∈ r'.entries.map StaticPeer.id := List.mem_map_of_mem he
      rw [map_id_of_map_pinOf hpins] at hmem
      obtain ⟨e', he', hid⟩ := List.mem_map.mp hmem
      exact hid ▸ hdrawn e' he'

/-- What is observed is an entry. -/
theorem Change.observed (h : Change drawn r r' events drawn') {o : PeerObservation}
    (ho : .observed o ∈ events) : ∃ e ∈ r'.entries, e.observation = o := by
  cases h with
  | none => cases ho
  | added entry =>
      obtain rfl := DiscoveryEvent.observed.inj (List.mem_singleton.mp ho)
      exact ⟨entry, List.mem_append_right _ (List.mem_singleton_self _), rfl⟩
  | @pinned before after entry device hentries hnone =>
      obtain rfl := DiscoveryEvent.observed.inj (List.mem_singleton.mp ho)
      exact ⟨_, List.mem_append_right _ List.mem_cons_self, rfl⟩
  | removed => cases List.mem_singleton.mp ho
  | reloaded hok' hpins =>
      obtain ⟨e, he, hobserved⟩ := List.mem_map.mp ho
      exact ⟨e, he, DiscoveryEvent.observed.inj hobserved⟩

/-- **The events say what changed**: a list that shows the entries shows them again after the
events. -/
theorem Change.shown (h : Change drawn r r' events drawn') (hok : r.Ok)
    (hdrawn : ∀ e ∈ r.entries, e.id ∈ drawn) {list : PeerList} (hshown : Shown r.entries list) :
    ∃ list', PeerList.fold staticPeerSourceId list events = .ok list' ∧ Shown r'.entries list' := by
  have hok' := h.ok hok hdrawn
  have hone : ∀ e : StaticPeer, PeerList.fold staticPeerSourceId list [.observed e.observation] =
      .ok (list.insert e.observation) := by
    intro e
    have hsource : (DiscoveryEvent.observed e.observation).id.source = staticPeerSourceId := rfl
    rw [PeerList.fold, PeerList.apply_eq hsource]
    rfl
  cases h with
  | none => exact ⟨list, rfl, hshown⟩
  | added entry hnew hvalid =>
      refine ⟨_, hone entry, PeerList.Shows.insert hshown
        (List.mem_append_right _ (List.mem_singleton_self _)) ?_ ?_⟩
      · intro e hid
        rw [written_entries, List.mem_append, List.mem_singleton, or_iff_left]
        rintro rfl
        exact hid rfl
      · intro e he hid
        rw [hok'.eq he (List.mem_append_right _ (List.mem_singleton_self _))
          (observation_id_eq_iff.mp hid)]
  | @pinned before after entry device hentries hnone =>
      refine ⟨_, hone _, PeerList.Shows.insert hshown
        (List.mem_append_right _ List.mem_cons_self) ?_ ?_⟩
      · intro e hid
        rw [hentries, written_entries, List.mem_append, List.mem_append, List.mem_cons,
          List.mem_cons]
        have hne : e ≠ { entry with expectDeviceId := some device } := by
          rintro rfl
          exact hid rfl
        have hne' : e ≠ entry := by
          rintro rfl
          exact hid rfl
        simp only [hne, hne', false_or]
      · intro e he hid
        rw [hok'.eq he (List.mem_append_right _ List.mem_cons_self) (observation_id_eq_iff.mp hid)]
  | @removed before after entry hentries =>
      refine ⟨list.remove entry.id.observationId, ?_, PeerList.Shows.remove hshown ?_⟩
      · have hsource : (DiscoveryEvent.lost entry.id.observationId).id.source =
            staticPeerSourceId := rfl
        rw [PeerList.fold, PeerList.apply_eq hsource]
        rfl
      · intro e
        have hkeyed := hok.keyed
        rw [hentries, List.map_append, List.map_cons, List.perm_middle.nodup_iff, List.nodup_cons,
          ← List.map_append] at hkeyed
        have hid : e.observation.id ≠ entry.id.observationId ↔ e.id ≠ entry.id :=
          not_congr StaticPeerId.observationId_injective.eq_iff
        rw [hid, hentries, written_entries, List.mem_append, List.mem_append, List.mem_cons]
        constructor
        · intro he
          refine ⟨he.imp_right .inr, ?_⟩
          intro heq
          exact hkeyed.1 (List.mem_map.mpr ⟨e, List.mem_append.mpr he, heq⟩)
        · rintro ⟨he | rfl | he, hne⟩
          · exact .inl he
          · exact absurd rfl hne
          · exact .inr he
  | reloaded hok'' hpins =>
      refine PeerList.Shows.observeAll hshown (fun _ _ => rfl) ?_ ?_
      · have hids : r'.entries.map (fun e => e.observation.id) =
            (r'.entries.map StaticPeer.id).map StaticPeerId.observationId := by
          rw [List.map_map]
          rfl
        rw [hids]
        exact hok''.keyed.map StaticPeerId.observationId_injective
      · intro e he
        have hmem : e.id ∈ r.entries.map StaticPeer.id := List.mem_map_of_mem he
        rw [← map_id_of_map_pinOf hpins] at hmem
        obtain ⟨e', he', hid⟩ := List.mem_map.mp hmem
        exact ⟨e', he', observation_id_eq_iff.mpr hid⟩

end Change

end StaticPeerRegistry

end Tradr
