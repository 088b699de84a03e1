import Tradr.Machine
import Tradr.StaticPeer

/-!
# Pinning Static Peers

A connection to a static peer is resolved from the peer list and the registry, dialled under
what is expected of the peer, and pinned when nothing was expected. Any number of connections
are under way at once, the list lags behind the registry, and entries are added, removed and
reloaded in between.

Which entries a connection is on is what the peer it was resolved to shows: the entry of an
observation that names no device, or all entries whose observations name the device.

## Main definitions

* `resolvePeer`: what a connection dials, and what it expects there.
* `PinWorld.step`: the registry, its events on their way to the list, and the connections.
* `PinWorld.Inv`: whatever was said of an entry's device is still so.

## Main results

* `PinWorld.inv_step`: every step keeps the invariant.
* `PinWorld.pin_is_never_replaced`: no connection to a pinned entry reaches another device.
-/

namespace Tradr

/-! ### Picking a candidate -/

/-- The size of what is to be transferred. -/
inductive TransferSize
  | bytes (n : UInt64)
  | unknown

/-- The most bytes that are sent over BLE GATT. -/
def bleGattMaxTransferBytes : ℕ := 512 * 1024

/-- The weight of a transport's class. -/
def classWeight (transport : Text) : ℤ :=
  if transport = "direct-quic".toList then 1000
  else if transport = "wifi-direct".toList then 800
  else if transport = "holepunch-quic".toList then 700
  else if transport = "relay".toList then 300
  else if transport = "ble-gatt".toList then 50
  else 0

/-- Drop the candidates that cannot carry a transfer. -/
def prefilter (candidates : List Candidate) (size : TransferSize) : List Candidate :=
  let dropBle : Bool :=
    match size with
    | .bytes n => bleGattMaxTransferBytes < n.toNat
    | .unknown => true
  candidates.filter fun candidate => !dropBle ∨ candidate.transport ≠ "ble-gatt".toList

/-- The transports this device can dial with. -/
structure TransportSet where
  transports : List Text

/-- The candidate of the highest class, the first of several. -/
def TransportSet.bestCandidate (set : TransportSet) (candidates : List Candidate) :
    Option Candidate :=
  let better (best : Option (ℤ × Candidate)) (candidate : Candidate) : Option (ℤ × Candidate) :=
    if candidate.transport ∉ set.transports then best
    else
      match best with
      | none => some (classWeight candidate.transport, candidate)
      | some (weight, _) =>
        if weight < classWeight candidate.transport then
          some (classWeight candidate.transport, candidate)
        else best
  (candidates.foldl better none).map Prod.snd

/-- The candidate to dial for a peer. -/
def pickCandidate (peer : Peer) (peerId : Text) (transports : TransportSet) (size : TransferSize) :
    Except String Candidate :=
  if peer.candidates = [] then
    .error s!"no candidate address found for peer {String.ofList peerId}"
  else
    let filtered := prefilter peer.candidates size
    if filtered = [] then
      match size with
      | .bytes n =>
        .error s!"no candidate for peer {String.ofList peerId} can carry a transfer of {n} bytes"
      | .unknown =>
        .error (s!"no candidate for peer {String.ofList peerId} can carry a transfer " ++
          "whose size is not yet known")
    else
      match transports.bestCandidate filtered with
      | none =>
        .error s!"no candidate for peer {String.ofList peerId} that this device can dial"
      | some candidate => .ok candidate

/-! ### Resolving a peer -/

/-- What a connection dials and expects, and the entry it pins. -/
structure ResolvedPeer where
  candidate : Candidate
  expectation : PeerExpectation
  pinTarget : Option StaticPeerId

/-- The source that reports what is seen over BLE. -/
def bleSourceId : Text := "ble".toList

/-- What a person addresses a peer by: its device, or its only observation. -/
def Peer.key (peer : Peer) : Option Text :=
  match peer.deviceId with
  | some device => some device.display
  | none => peer.observations.head?.map fun o => o.id.display

/-- Resolve an identifier among peers. -/
def resolveAmong (peerId : Text) (registry : StaticPeerRegistry) (transports : TransportSet)
    (size : TransferSize) : List Peer → Except String ResolvedPeer
  | [] => .error s!"peer with id {String.ofList peerId} not found"
  | peer :: peers =>
    match peer.deviceId with
    | some device =>
      if device.display ≠ peerId then resolveAmong peerId registry transports size peers
      else
        match pickCandidate peer peerId transports size with
        | .error e => .error e
        | .ok candidate => .ok ⟨candidate, .device device, none⟩
    | none =>
      match peer.observations.head? with
      | none => .error s!"peer {String.ofList peerId} carries no observation"
      | some observation =>
        if observation.id.display ≠ peerId then resolveAmong peerId registry transports size peers
        else if observation.id.source = staticPeerSourceId then
          match StaticPeerId.new observation.id.key.value with
          | .error _ => .error "malformed static peer observation key"
          | .ok staticId =>
            match registry.expectation staticId with
            | none => .error s!"no static peer entry for {String.ofList peerId}"
            | some expectation =>
              match pickCandidate peer peerId transports size with
              | .error e => .error e
              | .ok candidate =>
                .ok ⟨candidate, expectation, if expectation = .unpinned then some staticId else none⟩
        else if observation.id.source = bleSourceId then
          match pickCandidate peer peerId transports size with
          | .error e => .error e
          | .ok candidate => .ok ⟨candidate, .unpinned, none⟩
        else .error s!"peer {String.ofList peerId} has not yet been identified"

/-- Resolve an identifier. -/
def resolvePeer (peerId : Text) (list : PeerList) (registry : StaticPeerRegistry)
    (transports : TransportSet) (size : TransferSize) : Except String ResolvedPeer :=
  resolveAmong peerId registry transports size list.peers

/-- The entry an observation is of. -/
def entryOf (o : PeerObservation) : Option StaticPeerId :=
  if o.id.source = staticPeerSourceId then (StaticPeerId.new o.id.key.value).toOption else none

/-- The entries a connection to an identifier is on. -/
def entriesOn (peerId : Text) (list : PeerList) : List StaticPeerId :=
  match list.peers.find? fun peer => peer.key = some peerId with
  | none => []
  | some peer => peer.observations.filterMap entryOf

/-- The entry of an observation is what it is called. -/
theorem entryOf_eq_some {o : PeerObservation} {id : StaticPeerId} :
    entryOf o = some id ↔ o.id = id.observationId := by
  have hsource : id.observationId.source = staticPeerSourceId := rfl
  have hvalid : isStaticPeerId id.observationId.key.value = true := id.valid
  unfold entryOf StaticPeerId.new
  constructor
  · intro h
    rcases o with ⟨⟨source, key, hkey⟩, device, candidates, name, capabilities⟩
    dsimp only at h ⊢
    by_cases hstatic : source = staticPeerSourceId
    · subst hstatic
      rw [if_pos rfl] at h
      split_ifs at h with hid
      · obtain rfl := Option.some.inj h
        rfl
      · cases h
    · rw [if_neg hstatic] at h
      cases h
  · intro h
    rw [h, if_pos hsource, dif_pos hvalid]
    rfl

/-- How a connection is resolved to a peer. -/
inductive ResolvedTo (registry : StaticPeerRegistry) (peer : Peer) (resolved : ResolvedPeer) : Prop
  | device {device : DeviceId} (hdevice : peer.deviceId = some device)
    (hexpects : resolved.expectation = .device device) (htarget : resolved.pinTarget = none)
  | entry {o : PeerObservation} {staticId : StaticPeerId} (hdevice : peer.deviceId = none)
    (hhead : peer.observations.head? = some o) (hentry : entryOf o = some staticId)
    (hexpects : registry.expectation staticId = some resolved.expectation)
    (htarget : resolved.pinTarget =
      if resolved.expectation = .unpinned then some staticId else none)
  | ble {o : PeerObservation} (hdevice : peer.deviceId = none)
    (hhead : peer.observations.head? = some o) (hentry : entryOf o = none)
    (hexpects : resolved.expectation = .unpinned) (htarget : resolved.pinTarget = none)

/-- What a peer is resolved to, and the entries the connection is on. -/
theorem resolvePeer_eq_ok {peerId : Text} {list : PeerList} {registry : StaticPeerRegistry}
    {transports : TransportSet} {size : TransferSize} {resolved : ResolvedPeer}
    (h : resolvePeer peerId list registry transports size = .ok resolved) :
    ∃ peer ∈ list.peers, entriesOn peerId list = peer.observations.filterMap entryOf ∧
      ResolvedTo registry peer resolved := by
  unfold resolvePeer at h
  unfold entriesOn
  generalize list.peers = peers at h ⊢
  induction peers with
  | nil => cases h
  | cons peer peers ih =>
      have hlater : peer.key ≠ some peerId →
          resolveAmong peerId registry transports size peers = .ok resolved →
          ∃ found ∈ peer :: peers, (match (peer :: peers).find? fun peer =>
            peer.key = some peerId with
            | none => []
            | some peer => peer.observations.filterMap entryOf) =
              found.observations.filterMap entryOf ∧ ResolvedTo registry found resolved := by
        intro hkey hrest
        obtain ⟨found, hfound, hon, hcases⟩ := ih hrest
        refine ⟨found, List.mem_cons_of_mem _ hfound, ?_, hcases⟩
        rw [List.find?_cons_of_neg (by simpa using hkey)]
        exact hon
      have hfirst : peer.key = some peerId → (match (peer :: peers).find? fun peer =>
          peer.key = some peerId with
          | none => []
          | some peer => peer.observations.filterMap entryOf) =
            peer.observations.filterMap entryOf := by
        intro hkey
        rw [List.find?_cons_of_pos (by simpa using hkey)]
      unfold resolveAmong at h
      rcases hdevice : peer.deviceId with _ | device
      · rw [hdevice] at h
        dsimp only at h
        rcases hhead : peer.observations.head? with _ | o
        · rw [hhead] at h
          cases h
        have hkey : peer.key = some o.id.display := by
          rw [Peer.key, hdevice, hhead]
          rfl
        rw [hkey] at hlater hfirst
        rw [hhead] at h
        dsimp only at h
        split_ifs at h with hne hstatic hble
        · exact hlater (fun heq => hne (Option.some.inj heq)) h
        · rw [not_not] at hne
          split at h
          · cases h
          rename_i staticId hid
          split at h
          · cases h
          rename_i expectation hexpectation
          split at h
          · cases h
          obtain rfl := Except.ok.inj h
          refine ⟨peer, List.mem_cons_self, hfirst (congrArg some hne),
            .entry hdevice hhead ?_ hexpectation rfl⟩
          rw [entryOf, if_pos hstatic, hid]
          rfl
        · rw [not_not] at hne
          split at h
          · cases h
          obtain rfl := Except.ok.inj h
          refine ⟨peer, List.mem_cons_self, hfirst (congrArg some hne),
            .ble hdevice hhead ?_ rfl rfl⟩
          rw [entryOf, if_neg hstatic]
      · have hkey : peer.key = some device.display := by
          rw [Peer.key, hdevice]
        rw [hkey] at hlater hfirst
        rw [hdevice] at h
        dsimp only at h
        split_ifs at h with hne
        · exact hlater (fun heq => hne (Option.some.inj heq)) h
        · rw [not_not] at hne
          split at h
          · cases h
          obtain rfl := Except.ok.inj h
          exact ⟨peer, List.mem_cons_self, hfirst (congrArg some hne), .device hdevice rfl rfl⟩

/-! ### Connections under way -/

/-- A connection under way, the entries it is on, and the device that a finished dial has
authenticated. -/
structure PinCall where
  resolved : ResolvedPeer
  on : List StaticPeerId
  channel : Option DeviceId

/-- The registry with the identifiers it ever used, all events it reported and those since it was
loaded, the events that have not arrived yet, for each source it ever had, the list, and the
connections. -/
structure PinWorld where
  registry : StaticPeerRegistry
  drawn : List StaticPeerId
  log : List DiscoveryEvent
  sinceLoad : List DiscoveryEvent
  former : List (List DiscoveryEvent)
  current : List DiscoveryEvent
  list : PeerList
  calls : List PinCall

/-- What happens: a call on the registry, an event that arrives from its source or from another
one, and the steps of connections. A connection dials, and then waits for the registry. -/
inductive PinAction
  | add (label : Option Text) (endpoints : List Text) (drawn : Except String (Bytes 16))
    (persist : Option String)
  | pin (id : StaticPeerId) (device : DeviceId) (persist : Option String)
  | remove (id : StaticPeerId) (persist : Option String)
  | reload (readFault : Option String)
  | restart (readFault : Option String)
  | deliver (source : Option ℕ)
  | other (source : Text) (event : DiscoveryEvent)
  | connect (peerId : Text) (size : TransferSize)
  | dialled (index : ℕ) (outcome : Except String DeviceId)
  | locked (index : ℕ) (persist : Option String)

/-- What a step answers: a connection that succeeds names the entries it was on and the device it
reached. -/
inductive PinAnswer
  | quiet
  | failed (message : String)
  | connected (on : List StaticPeerId) (peer : DeviceId)
  deriving DecidableEq

namespace PinWorld

/-- An empty file. -/
def start : PinWorld := ⟨⟨[], none⟩, [], [], [], [], [], .new, []⟩

/-- The registry has changed and reported it. -/
def change (w : PinWorld) (registry : StaticPeerRegistry) (events : List DiscoveryEvent)
    (drawn : List StaticPeerId) : PinWorld :=
  { w with
    registry
    drawn
    log := w.log ++ events
    sinceLoad := w.sinceLoad ++ events
    current := w.current ++ events }

/-- The registry was loaded again, with a source of its own. -/
def reloaded (w : PinWorld) (registry : StaticPeerRegistry) (events : List DiscoveryEvent) :
    PinWorld :=
  { w with
    registry
    log := w.log ++ events
    sinceLoad := events
    former := w.former ++ [w.current]
    current := events }

/-- An event has arrived; one that claims another source is refused. -/
def arrive (w : PinWorld) (source : Text) (event : DiscoveryEvent) : PinWorld :=
  match w.list.apply source event with
  | .ok list => { w with list }
  | .error _ => w

/-- A connection has ended. -/
def endCall (w : PinWorld) (index : ℕ) : PinWorld := { w with calls := w.calls.eraseIdx index }

/-- The dial of a connection has ended. -/
def dialled (w : PinWorld) (index : ℕ) (outcome : Except String DeviceId) : PinAnswer × PinWorld :=
  match w.calls[index]? with
  | none => (.quiet, w)
  | some call =>
    match call.channel with
    | some _ => (.quiet, w)
    | none =>
      match outcome with
      | .error message => (.failed message, w.endCall index)
      | .ok peer =>
        match call.resolved.pinTarget with
        | none => (.connected call.on peer, w.endCall index)
        | some _ =>
          (.quiet, { w with calls := w.calls.set index { call with channel := some peer } })

/-- A connection has the registry and pins the device it reached. -/
def locked (w : PinWorld) (index : ℕ) (persist : Option String) : PinAnswer × PinWorld :=
  match w.calls[index]? with
  | none => (.quiet, w)
  | some call =>
    match call.channel, call.resolved.pinTarget with
    | some peer, some staticId =>
      match w.registry.pin staticId peer persist with
      | (.ok (), registry, events) =>
        (.connected call.on peer, (w.change registry events w.drawn).endCall index)
      | (.error _, registry, events) =>
        (.failed s!"failed to pin static peer {String.ofList staticId.value}",
          (w.change registry events w.drawn).endCall index)
    | _, _ => (.quiet, w)

/-- One step. -/
def step (net : NetParse) (transports : TransportSet) (w : PinWorld) :
    PinAction → PinAnswer × PinWorld
  | .add label endpoints drawn persist =>
    match w.registry.add net label endpoints drawn persist with
    | (.ok id, registry, events) => (.quiet, w.change registry events (id :: w.drawn))
    | (.error _, registry, events) => (.quiet, w.change registry events w.drawn)
  | .pin id device persist =>
    match w.registry.pin id device persist with
    | (_, registry, events) => (.quiet, w.change registry events w.drawn)
  | .remove id persist =>
    match w.registry.remove id persist with
    | (_, registry, events) => (.quiet, w.change registry events w.drawn)
  | .reload readFault =>
    match StaticPeerRegistry.load net readFault w.registry.file with
    | .error _ => (.quiet, w)
    | .ok (registry, events) => (.quiet, w.reloaded registry events)
  | .restart readFault =>
    match StaticPeerRegistry.load net readFault w.registry.file with
    | .error _ => (.quiet, w)
    | .ok (registry, events) =>
      (.quiet, { w.reloaded registry events with former := [], list := .new, calls := [] })
  | .deliver none =>
    match w.current with
    | [] => (.quiet, w)
    | event :: rest => (.quiet, { w with current := rest }.arrive staticPeerSourceId event)
  | .deliver (some index) =>
    match w.former[index]? with
    | some (event :: rest) =>
      (.quiet, { w with former := w.former.set index rest }.arrive staticPeerSourceId event)
    | _ => (.quiet, w)
  | .other source event => (.quiet, w.arrive source event)
  | .connect peerId size =>
    match resolvePeer peerId w.list w.registry transports size with
    | .error message => (.failed message, w)
    | .ok resolved =>
      (.quiet, { w with calls := w.calls ++ [⟨resolved, entriesOn peerId w.list, none⟩] })
  | .dialled index outcome => w.dialled index outcome
  | .locked index persist => w.locked index persist

/-- An identifier that is generated was not used before; another source is not the registry's;
and a dialler honours the device it is to expect. -/
def Admissible (w : PinWorld) : PinAction → Prop
  | .add _ _ drawn _ => ∀ id, StaticPeerId.generate drawn = .ok id → id ∉ w.drawn
  | .other source _ => source ≠ staticPeerSourceId
  | .dialled index (.ok peer) => ∀ call device, w.calls[index]? = some call →
      call.resolved.expectation = .device device → peer = device
  | _ => True

instance decidableAdmissible (w : PinWorld) : ∀ action, Decidable (w.Admissible action)
  | .add _ _ drawn _ =>
    match h : StaticPeerId.generate drawn with
    | .error _ => isTrue fun id hid => nomatch h.symm.trans hid
    | .ok id => decidable_of_iff (id ∉ w.drawn)
        ⟨fun hnew _ hid => Except.ok.inj (h.symm.trans hid) ▸ hnew, fun hnew => hnew id h⟩
  | .other source _ => inferInstanceAs (Decidable (source ≠ staticPeerSourceId))
  | .dialled index (.ok peer) =>
    match h : w.calls[index]? with
    | none => isTrue fun call _ hcall => nomatch h.symm.trans hcall
    | some call =>
      match hexpects : call.resolved.expectation with
      | .unpinned => isTrue fun _ _ hcall hdevice => by
          cases h.symm.trans hcall
          cases hexpects.symm.trans hdevice
      | .device device => decidable_of_iff (peer = device)
          ⟨fun heq _ _ hcall hdevice => by
            cases h.symm.trans hcall
            cases hexpects.symm.trans hdevice
            exact heq, fun hhonours => hhonours call device h hexpects⟩
  | .dialled _ (.error _) | .pin .. | .remove .. | .reload _ | .restart _ | .deliver _
  | .connect .. | .locked .. => isTrue trivial

/-! ### The invariant -/

/-- An observation of an entry is of one that was used, and what it says of the device is so. -/
def Faithful (w : PinWorld) (o : PeerObservation) : Prop :=
  ∀ id : StaticPeerId, o.id = id.observationId → id ∈ w.drawn ∧
    ∀ device, o.deviceId = some device →
      StaticPeerRegistry.PinnedTo w.registry.entries id device

/-- A connection expects the device its entries are pinned to, or is to pin the one entry it is
on. -/
structure Sane (w : PinWorld) (call : PinCall) : Prop where
  drawn : ∀ id ∈ call.on, id ∈ w.drawn
  device : ∀ device, call.resolved.expectation = .device device →
    call.resolved.pinTarget = none ∧
      ∀ id ∈ call.on, StaticPeerRegistry.PinnedTo w.registry.entries id device
  unpinned : call.resolved.expectation = .unpinned → call.on = call.resolved.pinTarget.toList

/-- Folding some events gives a list that shows the entries. -/
def Told (w : PinWorld) (events : List DiscoveryEvent) : Prop :=
  ∃ list, PeerList.fold staticPeerSourceId .new events = .ok list ∧
    StaticPeerRegistry.Shown w.registry.entries list

/-- What holds in every run. -/
structure Inv (w : PinWorld) : Prop where
  ok : w.registry.Ok
  drawn : ∀ e ∈ w.registry.entries, e.id ∈ w.drawn
  list : ∀ o ∈ w.list.observations, w.Faithful o
  current : ∀ o, .observed o ∈ w.current → w.Faithful o
  former : ∀ queue ∈ w.former, ∀ o, .observed o ∈ queue → w.Faithful o
  calls : ∀ call ∈ w.calls, w.Sane call
  log : w.Told w.log
  sinceLoad : w.Told w.sinceLoad

/-- The empty file. -/
theorem inv_start : start.Inv where
  ok := ⟨List.nodup_nil, nofun, [], rfl, nofun, rfl⟩
  drawn := nofun
  list := nofun
  current := nofun
  former := nofun
  calls := nofun
  log := ⟨.new, rfl, PeerList.shows_new _⟩
  sinceLoad := ⟨.new, rfl, PeerList.shows_new _⟩

variable {w w' : PinWorld} {net : NetParse} {transports : TransportSet}

/-- Identifiers stay used, and entries stay pinned. -/
structure Later (w w' : PinWorld) : Prop where
  drawn : w.drawn ⊆ w'.drawn
  pinned : ∀ id ∈ w.drawn, ∀ device, StaticPeerRegistry.PinnedTo w.registry.entries id device →
    StaticPeerRegistry.PinnedTo w'.registry.entries id device

theorem Faithful.later {o : PeerObservation} (h : w.Faithful o) (hlater : w.Later w') :
    w'.Faithful o := by
  intro id hid
  obtain ⟨hdrawn, hdevice⟩ := h id hid
  exact ⟨hlater.drawn hdrawn, fun device hd => hlater.pinned id hdrawn device (hdevice device hd)⟩

theorem Sane.later {call : PinCall} (h : w.Sane call) (hlater : w.Later w') : w'.Sane call := by
  refine ⟨fun id hid => hlater.drawn (h.drawn id hid), ?_, h.unpinned⟩
  intro device hdevice
  obtain ⟨htarget, hpinned⟩ := h.device device hdevice
  exact ⟨htarget, fun id hid => hlater.pinned id (h.drawn id hid) device (hpinned id hid)⟩

theorem Later.of_eq (hregistry : w'.registry = w.registry) (hdrawn : w'.drawn = w.drawn) :
    w.Later w' := by
  refine ⟨hdrawn ▸ List.Subset.refl _, ?_⟩
  intro id _ device hpinned
  rw [hregistry]
  exact hpinned

theorem Later.trans {w'' : PinWorld} (h : w.Later w') (h' : w'.Later w'') : w.Later w'' :=
  ⟨fun _ hid => h'.drawn (h.drawn hid),
    fun id hid device hpinned => h'.pinned id (h.drawn hid) device (h.pinned id hid device hpinned)⟩

/-- What is observed of an entry is so. -/
theorem faithful_observation (hok : w.registry.Ok) (hdrawn : ∀ e ∈ w.registry.entries, e.id ∈ w.drawn)
    {e : StaticPeer} (he : e ∈ w.registry.entries) : w.Faithful e.observation := by
  intro id hid
  obtain rfl : e.id = id := StaticPeerId.observationId_injective hid
  refine ⟨hdrawn e he, ?_⟩
  intro device hdevice e' he' heq
  rw [hok.eq he' he heq]
  exact hdevice

/-- What was told is told again after the events of a change. -/
theorem Told.change {registry : StaticPeerRegistry} {events more : List DiscoveryEvent}
    {drawn : List StaticPeerId} (h : w.Told events) (hinv : w.Inv)
    (hchange : w.registry.Change w.drawn registry more drawn) {w' : PinWorld}
    (hw' : w'.registry = registry) : w'.Told (events ++ more) := by
  obtain ⟨list, hfold, hshown⟩ := h
  obtain ⟨list', hfold', hshown'⟩ := hchange.shown hinv.ok hinv.drawn hshown
  refine ⟨list', ?_, hw' ▸ hshown'⟩
  rw [PeerList.fold_append, hfold]
  exact hfold'

/-- **A change of the registry** keeps the invariant. -/
theorem Inv.change (h : w.Inv) {registry : StaticPeerRegistry} {events : List DiscoveryEvent}
    {drawn : List StaticPeerId} (hchange : w.registry.Change w.drawn registry events drawn) :
    (w.change registry events drawn).Inv ∧ w.Later (w.change registry events drawn) := by
  have hok := hchange.ok h.ok h.drawn
  obtain ⟨hsub, hdrawn⟩ := hchange.ids h.drawn
  have hlater : w.Later (w.change registry events drawn) :=
    ⟨hsub, fun id hid device hpinned => hchange.pinnedTo hid hpinned⟩
  refine ⟨⟨hok, hdrawn, ?_, ?_, ?_, ?_, h.log.change h hchange rfl,
    h.sinceLoad.change h hchange rfl⟩, hlater⟩
  · intro o ho
    exact (h.list o ho).later hlater
  · intro o ho
    rcases List.mem_append.mp ho with ho | ho
    · exact (h.current o ho).later hlater
    · obtain ⟨e, he, rfl⟩ := hchange.observed ho
      exact faithful_observation hok hdrawn he
  · intro queue hqueue o ho
    exact (h.former queue hqueue o ho).later hlater
  · intro call hcall
    exact (h.calls call hcall).later hlater

/-- **A reload** keeps the invariant. -/
theorem Inv.reloaded (h : w.Inv) {registry : StaticPeerRegistry} (hok : registry.Ok)
    (hpins : registry.entries.map StaticPeerRegistry.pinOf =
      w.registry.entries.map StaticPeerRegistry.pinOf) :
    (w.reloaded registry (registry.entries.map fun e => .observed e.observation)).Inv ∧
      w.Later (w.reloaded registry (registry.entries.map fun e => .observed e.observation)) := by
  have hchange : w.registry.Change w.drawn registry
      (registry.entries.map fun e => .observed e.observation) w.drawn := .reloaded hok hpins
  obtain ⟨hinv, hchanged⟩ := h.change hchange
  have hlater : w.Later (w.reloaded registry (registry.entries.map fun e =>
      .observed e.observation)) := hchanged.trans (.of_eq rfl rfl)
  have hcurrent : ∀ o, .observed o ∈ registry.entries.map (fun e => DiscoveryEvent.observed
      e.observation) → (w.reloaded registry (registry.entries.map fun e =>
        .observed e.observation)).Faithful o := by
    intro o ho
    obtain ⟨e, he, rfl⟩ := hchange.observed ho
    exact faithful_observation hok hinv.drawn he
  refine ⟨⟨hok, hinv.drawn, hinv.list, hcurrent, ?_,
    fun call hcall => (h.calls call hcall).later hlater, hinv.log, ?_⟩, hlater⟩
  · intro queue hqueue o ho
    rcases List.mem_append.mp hqueue with hqueue | hqueue
    · exact hinv.former queue hqueue o ho
    · rw [List.mem_singleton.mp hqueue] at ho
      exact hinv.current o (List.mem_append_left _ ho)
  · -- The events of a load tell everything from nothing.
    refine PeerList.Shows.observeAll (PeerList.shows_new StaticPeer.observation) (fun _ _ => rfl) ?_
      nofun
    have hids : registry.entries.map (fun e => e.observation.id) =
        (registry.entries.map StaticPeer.id).map StaticPeerId.observationId := by
      rw [List.map_map]
      rfl
    rw [hids]
    exact hok.keyed.map StaticPeerId.observationId_injective

/-- An event that arrives says what is so. -/
theorem Inv.arrive (h : w.Inv) {source : Text} {event : DiscoveryEvent}
    (hevent : ∀ o, event = .observed o → o.id.source = source → w.Faithful o) :
    (w.arrive source event).Inv := by
  unfold PinWorld.arrive
  rcases happly : w.list.apply source event with e | list
  · exact h
  · refine ⟨h.ok, h.drawn, ?_, h.current, h.former,
      fun call hcall => (h.calls call hcall).later (.of_eq rfl rfl), h.log, h.sinceLoad⟩
    intro o ho
    rcases PeerList.mem_of_apply happly ho with ho | ⟨hobserved, hsource⟩
    · exact h.list o ho
    · exact hevent o hobserved hsource

/-- Fewer connections. -/
theorem Inv.endCall (h : w.Inv) (index : ℕ) : (w.endCall index).Inv :=
  ⟨h.ok, h.drawn, h.list, h.current, h.former,
    fun call hcall => (h.calls call (List.mem_of_mem_eraseIdx hcall)).later (.of_eq rfl rfl), h.log, h.sinceLoad⟩

/-- A connection that was resolved is sane. -/
theorem sane_resolved (h : w.Inv) {peerId : Text} {size : TransferSize} {resolved : ResolvedPeer}
    (hresolved : resolvePeer peerId w.list w.registry transports size = .ok resolved) :
    w.Sane ⟨resolved, entriesOn peerId w.list, none⟩ := by
  obtain ⟨peer, hpeer, hon, hcases⟩ := resolvePeer_eq_ok hresolved
  -- An entry the connection is on has an observation in the list, with the peer's device.
  have hentry : ∀ id ∈ peer.observations.filterMap entryOf, ∃ o ∈ peer.observations,
      o.id = id.observationId ∧ o.deviceId = peer.deviceId ∧ w.Faithful o := by
    intro id hid
    obtain ⟨o, ho, hentry⟩ := List.mem_filterMap.mp hid
    obtain ⟨hlist, hdevice⟩ := PeerList.mem_of_mem_peers hpeer ho
    exact ⟨o, ho, entryOf_eq_some.mp hentry, hdevice, h.list o hlist⟩
  have hdrawn : ∀ id ∈ peer.observations.filterMap entryOf, id ∈ w.drawn := by
    intro id hid
    obtain ⟨o, -, hoid, -, hfaithful⟩ := hentry id hid
    exact (hfaithful id hoid).1
  rw [hon]
  cases hcases with
  | @device device hdevice hexpects htarget =>
      refine ⟨hdrawn, ?_, ?_⟩
      · intro device' hdevice'
        obtain rfl : device = device' := PeerExpectation.device.inj (hexpects.symm.trans hdevice')
        refine ⟨htarget, ?_⟩
        intro id hid
        obtain ⟨o, -, hoid, hodevice, hfaithful⟩ := hentry id hid
        exact (hfaithful id hoid).2 device (hodevice.trans hdevice)
      · intro hunpinned
        cases hexpects.symm.trans hunpinned
  | @entry o staticId hdevice hhead hentry' hexpects htarget =>
      have hsingle : peer.observations.filterMap entryOf = [staticId] := by
        rw [PeerList.observations_of_head? hpeer hdevice hhead, List.filterMap_cons, hentry']
        rfl
      rw [hsingle] at hdrawn ⊢
      refine ⟨hdrawn, ?_, ?_⟩
      · intro device hexpectation
        refine ⟨?_, ?_⟩
        · rw [htarget, hexpectation]
          rfl
        · intro id hid
          obtain rfl := List.mem_singleton.mp hid
          exact StaticPeerRegistry.pinnedTo_of_expectation h.ok (hexpects.trans
            (congrArg some hexpectation))
      · intro hunpinned
        rw [htarget, hunpinned]
        rfl
  | @ble o hdevice hhead hentry' hexpects htarget =>
      have hempty : peer.observations.filterMap entryOf = [] := by
        rw [PeerList.observations_of_head? hpeer hdevice hhead, List.filterMap_cons, hentry']
        rfl
      rw [hempty]
      refine ⟨nofun, ?_, ?_⟩
      · intro device hexpectation
        cases hexpects.symm.trans hexpectation
      · intro _
        rw [htarget]
        rfl

/-! ### Every step -/

theorem later_arrive (w : PinWorld) (source : Text) (event : DiscoveryEvent) :
    w.Later (w.arrive source event) := by
  unfold arrive
  split
  · exact .of_eq rfl rfl
  · exact .of_eq rfl rfl

theorem later_endCall (w : PinWorld) (index : ℕ) : w.Later (w.endCall index) := .of_eq rfl rfl

/-- A connection whose dial has ended. -/
theorem inv_dialled (h : w.Inv) (index : ℕ) (outcome : Except String DeviceId) :
    (w.dialled index outcome).2.Inv ∧ w.Later (w.dialled index outcome).2 := by
  have hended : (w.endCall index).Inv ∧ w.Later (w.endCall index) :=
    ⟨h.endCall index, w.later_endCall index⟩
  have hsame : w.Inv ∧ w.Later w := ⟨h, .of_eq rfl rfl⟩
  unfold dialled
  split
  · exact hsame
  rename_i call hcall
  split
  · exact hsame
  split
  · exact hended
  split
  · exact hended
  · have hlater : w.Later { w with
        calls := w.calls.set index { call with channel := some ‹DeviceId› } } := .of_eq rfl rfl
    refine ⟨⟨h.ok, h.drawn, h.list, h.current, h.former, ?_, h.log, h.sinceLoad⟩, hlater⟩
    intro call' hcall'
    rcases List.mem_or_eq_of_mem_set hcall' with hmem | rfl
    · exact (h.calls call' hmem).later hlater
    · have hsane := (h.calls call (List.mem_of_getElem? hcall)).later hlater
      exact ⟨hsane.drawn, hsane.device, hsane.unpinned⟩

/-- A connection that has the registry. -/
theorem inv_locked (h : w.Inv) (index : ℕ) (persist : Option String) :
    (w.locked index persist).2.Inv ∧ w.Later (w.locked index persist).2 := by
  have hchanged : ∀ {result registry events} {id : StaticPeerId} {device : DeviceId},
      w.registry.pin id device persist = (result, registry, events) →
      ((w.change registry events w.drawn).endCall index).Inv ∧
        w.Later ((w.change registry events w.drawn).endCall index) := by
    intro result registry events id device hpin
    obtain ⟨hinv, hlater⟩ := h.change (StaticPeerRegistry.Change.of_pin hpin)
    exact ⟨hinv.endCall index, hlater.trans (later_endCall _ index)⟩
  unfold locked
  split
  · exact ⟨h, .of_eq rfl rfl⟩
  split
  · split
    · rename_i hpin
      exact hchanged hpin
    · rename_i hpin
      exact hchanged hpin
  · exact ⟨h, .of_eq rfl rfl⟩

/-- **Every step keeps the invariant**, and every pin. -/
theorem inv_step (h : w.Inv) {action : PinAction} (hadm : w.Admissible action) :
    (step net transports w action).2.Inv ∧ w.Later (step net transports w action).2 := by
  have hsame : w.Inv ∧ w.Later w := ⟨h, .of_eq rfl rfl⟩
  cases action with
  | add label endpoints drawn persist =>
      unfold step
      dsimp only
      rcases hadd : w.registry.add net label endpoints drawn persist with ⟨result, registry, events⟩
      obtain ⟨_, rfl, rfl, rfl⟩ | ⟨entry, hid, hvalid, _, rfl, rfl, rfl⟩ :=
        StaticPeerRegistry.add_cases hadd
      · exact h.change .none
      · exact h.change (.added entry (hadm entry.id hid) hvalid)
  | pin id device persist =>
      unfold step
      dsimp only
      rcases hpin : w.registry.pin id device persist with ⟨result, registry, events⟩
      exact h.change (.of_pin hpin)
  | remove id persist =>
      unfold step
      dsimp only
      rcases hremove : w.registry.remove id persist with ⟨result, registry, events⟩
      obtain ⟨_, rfl, rfl, rfl⟩ | ⟨before, entry, after, hentries, rfl, rfl, rfl, rfl⟩ :=
        StaticPeerRegistry.remove_cases hremove
      · exact h.change .none
      · exact h.change (.removed hentries)
  | reload readFault =>
      unfold step
      dsimp only
      split
      · exact hsame
      rename_i registry events hload
      obtain ⟨rfl, hok, hpins⟩ := StaticPeerRegistry.load_eq_ok h.ok hload
      exact h.reloaded hok hpins
  | restart readFault =>
      unfold step
      dsimp only
      split
      · exact hsame
      rename_i registry events hload
      obtain ⟨rfl, hok, hpins⟩ := StaticPeerRegistry.load_eq_ok h.ok hload
      obtain ⟨hinv, hlater⟩ := h.reloaded hok hpins
      exact ⟨⟨hinv.ok, hinv.drawn, nofun, hinv.current, nofun, nofun, hinv.log, hinv.sinceLoad⟩,
        hlater.trans (.of_eq rfl rfl)⟩
  | deliver source =>
      cases source with
      | none =>
          unfold step
          dsimp only
          split
          · exact hsame
          rename_i event rest hcurrent
          have hrest : ({ w with current := rest } : PinWorld).Inv := by
            refine ⟨h.ok, h.drawn, h.list, ?_, h.former,
              fun call hcall => (h.calls call hcall).later (.of_eq rfl rfl), h.log, h.sinceLoad⟩
            intro o ho
            exact h.current o (hcurrent ▸ List.mem_cons_of_mem _ ho)
          have hpopped : w.Later { w with current := rest } := .of_eq rfl rfl
          refine ⟨hrest.arrive ?_, hpopped.trans (later_arrive _ _ _)⟩
          rintro o rfl -
          exact h.current o (hcurrent ▸ List.mem_cons_self)
      | some index =>
          unfold step
          dsimp only
          split
          · rename_i event rest hqueue
            have hmem := List.mem_of_getElem? hqueue
            have hrest : ({ w with former := w.former.set index rest } : PinWorld).Inv := by
              refine ⟨h.ok, h.drawn, h.list, h.current, ?_,
                fun call hcall => (h.calls call hcall).later (.of_eq rfl rfl), h.log, h.sinceLoad⟩
              intro queue hin o ho
              rcases List.mem_or_eq_of_mem_set hin with hin | rfl
              · exact h.former queue hin o ho
              · exact h.former _ hmem o (List.mem_cons_of_mem _ ho)
            have hpopped : w.Later { w with former := w.former.set index rest } := .of_eq rfl rfl
            refine ⟨hrest.arrive ?_, hpopped.trans (later_arrive _ _ _)⟩
            rintro o rfl -
            exact h.former _ hmem o List.mem_cons_self
          · exact hsame
  | other source event =>
      refine ⟨h.arrive ?_, later_arrive w source event⟩
      -- Another source names none of the entries.
      intro o _ hsource id hid
      rw [hid] at hsource
      exact absurd hsource.symm hadm
  | connect peerId size =>
      unfold step
      dsimp only
      split
      · exact hsame
      rename_i resolved hresolved
      have hlater : w.Later { w with
          calls := w.calls ++ [⟨resolved, entriesOn peerId w.list, none⟩] } := .of_eq rfl rfl
      refine ⟨⟨h.ok, h.drawn, h.list, h.current, h.former, ?_, h.log, h.sinceLoad⟩, hlater⟩
      intro call hcall
      rcases List.mem_append.mp hcall with hcall | hcall
      · exact (h.calls call hcall).later hlater
      · rw [List.mem_singleton.mp hcall]
        exact (sane_resolved h hresolved).later hlater
  | dialled index outcome => exact inv_dialled h index outcome
  | locked index persist => exact inv_locked h index persist

/-- **A connection that succeeds** has reached the device its entries are pinned to. -/
theorem pinnedTo_of_connected (h : w.Inv) {action : PinAction} (hadm : w.Admissible action)
    {on : List StaticPeerId} {peer : DeviceId}
    (hanswer : (step net transports w action).1 = .connected on peer) {id : StaticPeerId}
    (hid : id ∈ on) :
    StaticPeerRegistry.PinnedTo (step net transports w action).2.registry.entries id peer := by
  cases action with
  | dialled index outcome =>
      change (w.dialled index outcome).1 = _ at hanswer
      change StaticPeerRegistry.PinnedTo (w.dialled index outcome).2.registry.entries id peer
      unfold dialled at hanswer ⊢
      rcases hcall : w.calls[index]? with _ | call
      · rw [hcall] at hanswer
        cases hanswer
      rw [hcall] at hanswer
      dsimp only at hanswer ⊢
      rcases hchannel : call.channel with _ | _
      · rw [hchannel] at hanswer
        dsimp only at hanswer ⊢
        rcases outcome with _ | reached
        · cases hanswer
        dsimp only at hanswer ⊢
        rcases htarget : call.resolved.pinTarget with _ | _
        · rw [htarget] at hanswer
          cases hanswer
          have hsane := h.calls call (List.mem_of_getElem? hcall)
          rcases hexpects : call.resolved.expectation with _ | device
          · rw [hsane.unpinned hexpects, htarget] at hid
            cases hid
          · obtain rfl := hadm call device hcall hexpects
            exact (hsane.device peer hexpects).2 id hid
        · rw [htarget] at hanswer
          cases hanswer
      · rw [hchannel] at hanswer
        cases hanswer
  | locked index persist =>
      change (w.locked index persist).1 = _ at hanswer
      change StaticPeerRegistry.PinnedTo (w.locked index persist).2.registry.entries id peer
      unfold locked at hanswer ⊢
      rcases hcall : w.calls[index]? with _ | call
      · rw [hcall] at hanswer
        cases hanswer
      rw [hcall] at hanswer
      dsimp only at hanswer ⊢
      rcases hchannel : call.channel with _ | reached
      · rw [hchannel] at hanswer
        cases hanswer
      rcases htarget : call.resolved.pinTarget with _ | staticId
      · rw [hchannel, htarget] at hanswer
        cases hanswer
      rw [hchannel, htarget] at hanswer
      dsimp only at hanswer ⊢
      rcases hpin : w.registry.pin staticId reached persist with ⟨_ | _, registry, events⟩
      · rw [hpin] at hanswer
        cases hanswer
      rw [hpin] at hanswer
      cases hanswer
      have hsane := h.calls call (List.mem_of_getElem? hcall)
      rcases hexpects : call.resolved.expectation with _ | device
      · rw [hsane.unpinned hexpects, htarget] at hid
        rw [List.mem_singleton.mp hid]
        exact StaticPeerRegistry.pinnedTo_of_pin h.ok hpin
      · rw [(hsane.device device hexpects).1] at htarget
        cases htarget
  | add label endpoints drawn persist =>
      change (match w.registry.add net label endpoints drawn persist with
        | (.ok id, registry, events) =>
          ((.quiet, w.change registry events (id :: w.drawn)) : PinAnswer × PinWorld)
        | (.error _, registry, events) => (.quiet, w.change registry events w.drawn)).1 = _
        at hanswer
      split at hanswer
      · cases hanswer
      · cases hanswer
  | deliver source =>
      cases source with
      | none =>
          unfold step at hanswer
          dsimp only at hanswer
          split at hanswer
          · cases hanswer
          · cases hanswer
      | some index =>
          unfold step at hanswer
          dsimp only at hanswer
          split at hanswer
          · cases hanswer
          · cases hanswer
  | pin id device persist => cases hanswer
  | remove id persist => cases hanswer
  | reload readFault =>
      unfold step at hanswer
      dsimp only at hanswer
      split at hanswer
      · cases hanswer
      · cases hanswer
  | restart readFault =>
      unfold step at hanswer
      dsimp only at hanswer
      split at hanswer
      · cases hanswer
      · cases hanswer
  | other source event => cases hanswer
  | connect peerId size =>
      unfold step at hanswer
      dsimp only at hanswer
      split at hanswer
      · cases hanswer
      · cases hanswer

/-- Every run keeps the invariant, and every pin. -/
theorem inv_run (h : w.Inv) {actions : List PinAction}
    (hadm : Machine.Allows (step net transports) Admissible w actions) :
    (Machine.run (step net transports) w actions).2.Inv ∧
      w.Later (Machine.run (step net transports) w actions).2 := by
  induction actions generalizing w with
  | nil => exact ⟨h, .of_eq rfl rfl⟩
  | cons action actions ih =>
      obtain ⟨hinv, hlater⟩ := inv_step h hadm.1
      obtain ⟨hend, hends⟩ := ih hinv hadm.2
      exact ⟨hend, hlater.trans hends⟩

/-- **A pin is never replaced.** In every run: a connection to an entry that is pinned reaches the
pinned device, as long as the entry is there; the pin of an entry never changes, and reads back
from the file; and the events, all of them as well as those since the last load, tell the entries
with their endpoints and pins. -/
theorem pin_is_never_replaced (net : NetParse) (transports : TransportSet)
    {actions : List PinAction}
    (hadm : Machine.Allows (step net transports) Admissible start actions) :
    let w := (Machine.run (step net transports) start actions).2
    (∀ after, Machine.Allows (step net transports) Admissible w after →
      let later := (Machine.run (step net transports) w after).2
      (∀ e ∈ w.registry.entries, ∀ device, e.expectDeviceId = some device →
        (∀ e' ∈ later.registry.entries, e'.id = e.id → e'.expectDeviceId = some device) ∧
        ∀ action on peer, later.Admissible action →
          (step net transports later action).1 = .connected on peer → e.id ∈ on →
          e.id ∈ (step net transports later action).2.registry.entries.map StaticPeer.id →
            peer = device)) ∧
    (∃ registry : StaticPeerRegistry, StaticPeerRegistry.load net none w.registry.file =
        .ok (registry, registry.entries.map fun e => .observed e.observation) ∧
      registry.entries.map StaticPeerRegistry.pinOf =
        w.registry.entries.map StaticPeerRegistry.pinOf) ∧
    (∀ events ∈ [w.log, w.sinceLoad], ∃ list,
      PeerList.fold staticPeerSourceId .new events = .ok list ∧
      (list.observations.map PeerObservation.id).Nodup ∧
      ∀ o, o ∈ list.observations ↔ ∃ e ∈ w.registry.entries, e.observation = o) ∧
    ∀ e ∈ w.registry.entries, e.observation.id = e.id.observationId ∧
      e.observation.deviceId = e.expectDeviceId ∧
      ∀ address, address ∈ e.endpoints ↔ ∃ candidate ∈ e.observation.candidates,
        candidate.transport = directQuic ∧ candidate.address = address := by
  intro w
  obtain ⟨hinv, -⟩ : w.Inv ∧ start.Later w := inv_run inv_start hadm
  refine ⟨?_, ?_, ?_, ?_⟩
  · intro after hafter later e he device hdevice
    obtain ⟨hinv', hlater⟩ : later.Inv ∧ w.Later later := inv_run hinv hafter
    have hpinned : StaticPeerRegistry.PinnedTo w.registry.entries e.id device := by
      intro e' he' heq
      rw [hinv.ok.eq he' he heq]
      exact hdevice
    have hdrawn := hinv.drawn e he
    refine ⟨hlater.pinned e.id hdrawn device hpinned, ?_⟩
    intro action on peer hadm' hanswer hon hthere
    obtain ⟨-, hafterwards⟩ := inv_step hinv' hadm'
    -- At the end the entry is pinned to the device from before, and to the one just reached.
    obtain ⟨e', he', heq⟩ := List.mem_map.mp hthere
    have hold := (hlater.trans hafterwards).pinned e.id hdrawn device hpinned e' he' heq
    have hnew := pinnedTo_of_connected hinv' hadm' hanswer hon e' he' heq
    exact Option.some.inj (hnew.symm.trans hold)
  · obtain ⟨registry, hload, -, hpins⟩ := StaticPeerRegistry.load_file net hinv.ok
    exact ⟨registry, hload, hpins⟩
  · have htold : ∀ events, w.Told events → ∃ list,
        PeerList.fold staticPeerSourceId .new events = .ok list ∧
        (list.observations.map PeerObservation.id).Nodup ∧
        ∀ o, o ∈ list.observations ↔ ∃ e ∈ w.registry.entries, e.observation = o := by
      rintro events ⟨list, hfold, hshown⟩
      exact ⟨list, hfold, hshown.keyed, hshown.mem⟩
    intro events hevents
    rcases List.mem_cons.mp hevents with rfl | hevents
    · exact htold _ hinv.log
    · rw [List.mem_singleton.mp hevents]
      exact htold _ hinv.sinceLoad
  · intro e he
    exact ⟨rfl, rfl, StaticPeer.mem_endpoints_iff (hinv.ok.valid e he)⟩

section Example

/-- The device that a byte repeated makes. -/
def deviceOf (b : UInt8) : DeviceId := ⟨.replicate 16 b⟩

/-- Parsers that know no address. -/
def noAddress : NetParse := ⟨fun _ => false, fun _ => none⟩

/-- Two connections to a fresh entry reach two devices. The first pins its own, and the registry is
loaded again before the second has its turn. -/
def twoDials : List PinAction :=
  [.add none ["10.0.0.2:21820".toList] (.ok (.replicate 16 0)) none,
    .deliver none,
    .connect "static-peer/00000000000000000000000000000000".toList .unknown,
    .connect "static-peer/00000000000000000000000000000000".toList .unknown,
    .dialled 0 (.ok (deviceOf 1)),
    .dialled 1 (.ok (deviceOf 2)),
    .locked 0 none,
    .reload none]

/-- The pin of the first connection is in the file; the second, which reached another device, is
not let through, nor pins it anything. -/
theorem pin_is_never_replaced_twoDials :
    let transports : TransportSet := ⟨[directQuic]⟩
    let w := (Machine.run (step noAddress transports) start twoDials).2
    (w.registry.entries.map StaticPeer.expectDeviceId = [some (deviceOf 1)] ∧
      w.calls.map PinCall.channel = [some (deviceOf 2)] ∧
      (step noAddress transports w (.locked 0 none)).1 =
        .failed "failed to pin static peer 00000000000000000000000000000000") ∧
      ∃ registry : StaticPeerRegistry, StaticPeerRegistry.load noAddress none w.registry.file =
          .ok (registry, registry.entries.map fun e => .observed e.observation) ∧
        registry.entries.map StaticPeerRegistry.pinOf =
          w.registry.entries.map StaticPeerRegistry.pinOf :=
  ⟨by decide +kernel,
    (pin_is_never_replaced noAddress ⟨[directQuic]⟩ (by decide +kernel)).2.1⟩

end Example

end PinWorld

end Tradr
