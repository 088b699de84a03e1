import Tradr.Discovery

/-!
# Merging the Sources

The sources report independently of each other, and the peer list takes their events in
whatever order they arrive. An observation is stored under an identifier that names its
source, and an event that names another source is refused, so what is stored under an
identifier is decided by the events of one source alone. The list therefore does not
depend on how the sources' events were interleaved, and neither do the peers read off it.

## Main definitions

* `PeerList.applyEach`: the list after events of several sources.
* `PeerList.standing`: what the events leave under one identifier.
* `IsInterleaving`: an order of arrival that keeps each source's own order.

## Main results

* `PeerList.mem_applyEach`: the list holds what the events leave under each identifier.
* `PeerList.applyEach_eq_of_interleavings`: the list does not depend on the order of arrival.
* `PeerList.Ordered.merged`: the peers partition the list by device, those identified
  first.
-/

namespace Tradr

/-! ### Orders from comparisons -/

section Comparison

variable {α : Type} {cmp : α → α → Ordering} [Std.TransCmp cmp]

theorem isLE_total (a b : α) : (cmp a b).isLE = true ∨ (cmp b a).isLE = true := by
  have hswap : cmp b a = (cmp a b).swap := Std.OrientedCmp.eq_swap
  rw [hswap]
  cases cmp a b <;> simp

theorem eq_of_isLE {a b : α} (hab : (cmp a b).isLE = true) (hba : (cmp b a).isLE = true) :
    cmp a b = .eq := by
  have hswap : cmp b a = (cmp a b).swap := Std.OrientedCmp.eq_swap
  rw [hswap] at hba
  cases h : cmp a b with
  | lt => rw [h] at hba; exact absurd hba (by decide)
  | eq => rfl
  | gt => rw [h] at hab; exact absurd hab (by decide)

end Comparison

namespace ObservationId

theorem le_total (a b : ObservationId) : a.le b = true ∨ b.le a = true := isLE_total a b

theorem le_trans {a b c : ObservationId} (hab : a.le b = true) (hbc : b.le c = true) :
    a.le c = true :=
  Std.TransCmp.isLE_trans hab hbc

/-- The order of identifiers tells them apart. -/
theorem le_antisymm {a b : ObservationId} (hab : a.le b = true) (hba : b.le a = true) :
    a = b := by
  obtain ⟨hsource, hkey⟩ := compareLex_eq_eq.mp (eq_of_isLE hab hba)
  obtain ⟨source, key, hvalid⟩ := a
  obtain ⟨source', key', hvalid'⟩ := b
  obtain rfl : source = source' := Std.LawfulEqCmp.eq_of_compare hsource
  obtain rfl : key = key' := Std.LawfulEqCmp.eq_of_compare hkey
  rfl

end ObservationId

namespace PeerList

/-! ### The list as a map -/

/-- A list as the code's map keeps it: sorted by identifier, and one observation under
each. -/
structure Ordered (list : PeerList) : Prop where
  keyed : list.Keyed
  sorted : list.observations.Pairwise fun a b => a.id.le b.id = true

theorem ordered_new : new.Ordered := ⟨List.nodup_nil, List.Pairwise.nil⟩

theorem Ordered.remove {list : PeerList} (h : list.Ordered) (id : ObservationId) :
    (list.remove id).Ordered :=
  ⟨h.keyed.remove id, h.sorted.sublist List.filter_sublist⟩

theorem Ordered.insert {list : PeerList} (h : list.Ordered) (observation : PeerObservation) :
    (list.insert observation).Ordered := by
  refine ⟨h.keyed.insert observation, ?_⟩
  have : Std.Total fun a b : PeerObservation => a.id.le b.id = true :=
    ⟨fun a b => a.id.le_total b.id⟩
  have : IsTrans PeerObservation fun a b => a.id.le b.id = true :=
    ⟨fun _ _ _ => ObservationId.le_trans⟩
  exact (h.remove observation.id).sorted.orderedInsert _ _

theorem Ordered.nodup {list : PeerList} (h : list.Ordered) : list.observations.Nodup :=
  h.keyed.of_map _

/-- Under one identifier there is one observation. -/
theorem Ordered.eq_of_id {list : PeerList} (h : list.Ordered) {o o' : PeerObservation}
    (ho : o ∈ list.observations) (ho' : o' ∈ list.observations) (hid : o.id = o'.id) : o = o' :=
  List.inj_on_of_nodup_map h.keyed ho ho' hid

/-- Two maps with the same observations are the same. -/
theorem Ordered.ext {list list' : PeerList} (h : list.Ordered) (h' : list'.Ordered)
    (hmem : ∀ o, o ∈ list.observations ↔ o ∈ list'.observations) : list = list' := by
  obtain ⟨observations⟩ := list
  obtain ⟨observations'⟩ := list'
  refine congrArg PeerList.mk (List.Perm.eq_of_pairwise ?_ h.sorted h'.sorted
    ((List.perm_ext_iff_of_nodup h.nodup h'.nodup).mpr hmem))
  intro o o' ho ho' hle hge
  exact h.eq_of_id ho ((hmem o').mpr ho') (ObservationId.le_antisymm hle hge)

/-! ### Events of several sources -/

/-- What a caller does with an event: a refused one leaves the list as it is. -/
def applyOne (list : PeerList) (event : Text × DiscoveryEvent) : PeerList :=
  match list.apply event.1 event.2 with
  | .ok list => list
  | .error _ => list

/-- Apply events as they arrive, each with the source that produced it. -/
def applyEach (list : PeerList) (events : List (Text × DiscoveryEvent)) : PeerList :=
  events.foldl applyOne list

/-- What an event does to what is stored under one identifier. -/
def effect (id : ObservationId) (stored : Option PeerObservation)
    (event : Text × DiscoveryEvent) : Option PeerObservation :=
  if event.2.id.source = event.1 ∧ event.2.id = id then
    match event.2 with
    | .observed observation => some observation
    | .lost _ => none
  else stored

/-- What events leave under one identifier. -/
def standing (id : ObservationId) (events : List (Text × DiscoveryEvent)) :
    Option PeerObservation :=
  events.foldl (effect id) none

/-- **An event that names another source** is refused and changes nothing. -/
theorem apply_of_mismatch {list : PeerList} {source : Text} {event : DiscoveryEvent}
    (h : event.id.source ≠ source) :
    list.apply source event = .error (.sourceMismatch event.id.source source) ∧
      list.applyOne (source, event) = list := by
  have happly : list.apply source event = .error (.sourceMismatch event.id.source source) :=
    if_pos h
  exact ⟨happly, by rw [applyOne, happly]⟩

theorem Ordered.applyOne {list : PeerList} (h : list.Ordered) (event : Text × DiscoveryEvent) :
    (list.applyOne event).Ordered := by
  obtain ⟨source, event⟩ := event
  by_cases hsource : event.id.source = source
  · rw [PeerList.applyOne, apply_eq hsource]
    cases event with
    | observed observation => exact h.insert observation
    | lost id => exact h.remove id
  · rwa [(apply_of_mismatch hsource).2]

theorem Ordered.applyEach {list : PeerList} (h : list.Ordered)
    (events : List (Text × DiscoveryEvent)) : (list.applyEach events).Ordered := by
  induction events generalizing list with
  | nil => exact h
  | cons event events ih => exact ih (h.applyOne event)

/-- One event changes what is stored under its own identifier only. -/
theorem mem_applyOne {list : PeerList} {event : Text × DiscoveryEvent} {o : PeerObservation}
    {stored : Option PeerObservation} (h : o ∈ list.observations ↔ stored = some o) :
    o ∈ (list.applyOne event).observations ↔ effect o.id stored event = some o := by
  obtain ⟨source, event⟩ := event
  by_cases hsource : event.id.source = source
  · rw [applyOne, apply_eq hsource]
    cases event with
    | observed observation =>
        simp only [mem_insert, effect, hsource, true_and, h]
        change _ ↔ (if observation.id = o.id then some observation else stored) = some o
        by_cases hid : observation.id = o.id
        · rw [if_pos hid, Option.some_inj]
          exact ⟨fun ho => (ho.resolve_right fun ho' => ho'.2 hid.symm).symm, fun ho => .inl ho.symm⟩
        · rw [if_neg hid]
          refine ⟨fun ho => ?_, fun ho => .inr ⟨ho, Ne.symm hid⟩⟩
          rcases ho with rfl | ho
          · exact absurd rfl hid
          · exact ho.1
    | lost id =>
        simp only [mem_remove, effect, hsource, true_and, h]
        change _ ↔ (if id = o.id then none else stored) = some o
        by_cases hid : id = o.id
        · rw [if_pos hid]
          exact ⟨fun ho => absurd hid.symm ho.2, nofun⟩
        · rw [if_neg hid]
          exact ⟨And.left, fun ho => ⟨ho, Ne.symm hid⟩⟩
  · rw [(apply_of_mismatch hsource).2, effect, if_neg fun hc => hsource hc.1]
    exact h

/-- **The list holds what the events leave** under each identifier. -/
theorem mem_applyEach {events : List (Text × DiscoveryEvent)} {o : PeerObservation} :
    o ∈ (new.applyEach events).observations ↔ standing o.id events = some o := by
  induction events using List.reverseRecOn with
  | nil => exact iff_of_false List.not_mem_nil nofun
  | append_singleton events event ih =>
      rw [applyEach, standing, List.foldl_append, List.foldl_append]
      exact mem_applyOne ih

/-- What is left under an identifier is decided by the events of its source. -/
theorem standing_filter (id : ObservationId) (events : List (Text × DiscoveryEvent)) :
    standing id (events.filter fun event => event.1 = id.source) = standing id events := by
  unfold standing
  generalize (none : Option PeerObservation) = stored
  induction events generalizing stored with
  | nil => rfl
  | cons event events ih =>
      by_cases h : event.1 = id.source
      · rw [List.filter_cons_of_pos (by simpa using h), List.foldl_cons, List.foldl_cons, ih]
      · have hnone : effect id stored event = stored := by
          refine if_neg fun hc => h ?_
          rw [← hc.1, hc.2]
        rw [List.filter_cons_of_neg (by simpa using h), List.foldl_cons, hnone, ih]

end PeerList

/-- Events arrive in an order in which each source's are in the order it produced them. -/
def IsInterleaving (sequences : Text → List DiscoveryEvent)
    (events : List (Text × DiscoveryEvent)) : Prop :=
  ∀ source, (events.filter fun event => event.1 = source).map Prod.snd = sequences source

/-- The events of one source, with its name, are those it produced. -/
theorem IsInterleaving.filter_eq {sequences : Text → List DiscoveryEvent}
    {events : List (Text × DiscoveryEvent)} (h : IsInterleaving sequences events) (source : Text) :
    (events.filter fun event => event.1 = source) =
      (sequences source).map fun event => (source, event) := by
  rw [← h source, List.map_map]
  refine (List.map_id _).symm.trans (List.map_congr_left fun event hevent => ?_)
  have hsource : event.1 = source := of_decide_eq_true (List.mem_filter.mp hevent).2
  exact Prod.ext hsource rfl

/-- Events that all orders begin with make no difference. -/
theorem IsInterleaving.append_left {sequences : Text → List DiscoveryEvent}
    {events : List (Text × DiscoveryEvent)} (h : IsInterleaving sequences events)
    (before : List (Text × DiscoveryEvent)) :
    IsInterleaving (fun source =>
        (before.filter fun event => event.1 = source).map Prod.snd ++ sequences source)
      (before ++ events) := by
  intro source
  rw [List.filter_append, List.map_append, h source]

namespace PeerList

/-- **The list does not depend on the order of arrival.** -/
theorem applyEach_eq_of_interleavings {sequences : Text → List DiscoveryEvent}
    {events events' : List (Text × DiscoveryEvent)} (h : IsInterleaving sequences events)
    (h' : IsInterleaving sequences events') : new.applyEach events = new.applyEach events' := by
  refine (ordered_new.applyEach events).ext (ordered_new.applyEach events') fun o => ?_
  rw [mem_applyEach, mem_applyEach, ← standing_filter o.id events, ← standing_filter o.id events',
    h.filter_eq, h'.filter_eq]

end PeerList

/-! ### The merged view -/

/-- The order of peers: those identified first, by device, then the others, by the
identifier of their one observation. -/
def Peer.Before (p q : Peer) : Prop :=
  match p.deviceId, q.deviceId with
  | some d, some e => compare d.bytes.val e.bytes.val = .lt
  | some _, none => True
  | none, some _ => False
  | none, none => ∃ o o', p.observations = [o] ∧ q.observations = [o'] ∧
      o.id.le o'.id = true ∧ o.id ≠ o'.id

namespace PeerList

/-- What the peers of a list are: each observation is in just one of them, two share one
when they name the same device, and they are in order, as are the observations of each. -/
structure Merged (list : PeerList) : Prop where
  perm : (list.peers.flatMap Peer.observations).Perm list.observations
  nonempty : ∀ p ∈ list.peers, p.observations ≠ []
  share_iff : ∀ o ∈ list.observations, ∀ o' ∈ list.observations, o ≠ o' →
    ((∃ p ∈ list.peers, o ∈ p.observations ∧ o' ∈ p.observations) ↔
      ∃ device, o.deviceId = some device ∧ o'.deviceId = some device)
  before : list.peers.Pairwise Peer.Before
  sorted : ∀ p ∈ list.peers, p.observations.Pairwise fun a b => a.id.le b.id = true

theorem deviceLe_total (a b : DeviceId) : (deviceLe a b || deviceLe b a) = true :=
  (Bool.or_eq_true _ _).mpr (isLE_total a.bytes.val b.bytes.val)

theorem deviceLe_trans (a b c : DeviceId) (hab : deviceLe a b = true)
    (hbc : deviceLe b c = true) : deviceLe a c = true :=
  Std.TransCmp.isLE_trans hab hbc

/-- Different devices in order are strictly in order. -/
theorem compare_eq_lt {a b : DeviceId} (hle : deviceLe a b = true) (hne : a ≠ b) :
    compare a.bytes.val b.bytes.val = .lt := by
  cases h : compare a.bytes.val b.bytes.val with
  | lt => rfl
  | eq =>
      obtain ⟨⟨bytes, hbytes⟩⟩ := a
      obtain ⟨⟨bytes', hbytes'⟩⟩ := b
      obtain rfl : bytes = bytes' := Std.LawfulEqCmp.eq_of_compare h
      exact absurd rfl hne
  | gt =>
      rw [deviceLe, h] at hle
      cases hle

/-- The devices are in order, and each is there once. -/
theorem pairwise_devices (list : PeerList) :
    list.devices.Pairwise fun d e => compare d.bytes.val e.bytes.val = .lt := by
  have hsorted : list.devices.Pairwise fun d e => deviceLe d e = true :=
    (List.pairwise_mergeSort deviceLe_trans deviceLe_total _).sublist
      (List.destutter_sublist _ _)
  have hchain : list.devices.IsChain (· ≠ ·) := List.isChain_destutter _ _
  have hlt : list.devices.IsChain fun d e => compare d.bytes.val e.bytes.val = .lt := by
    have hle := hsorted.isChain
    rw [List.isChain_iff_forall_rel_of_append_cons_cons] at hchain hle ⊢
    exact fun _ _ _ _ heq => compare_eq_lt (hle heq) (hchain heq)
  have : IsTrans DeviceId fun d e => compare d.bytes.val e.bytes.val = .lt :=
    ⟨fun _ _ _ => Std.TransCmp.lt_trans⟩
  exact hlt.pairwise

theorem nodup_devices (list : PeerList) : list.devices.Nodup :=
  list.pairwise_devices.imp fun {d e} hlt heq => by
    have hself : compare e.bytes.val e.bytes.val = .eq := Std.ReflCmp.compare_self
    rw [heq, hself] at hlt
    cases hlt

/-- The devices are those that an observation names. -/
theorem mem_devices {list : PeerList} {device : DeviceId} :
    device ∈ list.devices ↔ ∃ o ∈ list.observations, o.deviceId = some device := by
  rw [devices, mem_destutter_ne, List.mem_mergeSort, List.mem_filterMap]

/-- The peer of a device that some observation names. -/
theorem mem_peers_of_device {list : PeerList} {o : PeerObservation} {device : DeviceId}
    (ho : o ∈ list.observations) (hdevice : o.deviceId = some device) :
    (⟨some device, list.observations.filter fun o => o.deviceId = some device⟩ : Peer) ∈
      list.peers :=
  List.mem_append_left _ (List.mem_map_of_mem (mem_devices.mpr ⟨o, ho, hdevice⟩))

/-- The peer of an observation that names no device. -/
theorem mem_peers_of_none {list : PeerList} {o : PeerObservation} (ho : o ∈ list.observations)
    (hdevice : o.deviceId = none) : (⟨none, [o]⟩ : Peer) ∈ list.peers :=
  List.mem_append_right _ (List.mem_map.mpr
    ⟨o, List.mem_filter.mpr ⟨ho, decide_eq_true hdevice⟩, rfl⟩)

/-- Every observation of the list is in a peer, and every one of a peer in the list. -/
theorem mem_flatMap_peers {list : PeerList} {o : PeerObservation} :
    o ∈ list.peers.flatMap Peer.observations ↔ o ∈ list.observations := by
  rw [List.mem_flatMap]
  constructor
  · rintro ⟨p, hp, ho⟩
    exact (mem_of_mem_peers hp ho).1
  · intro ho
    rcases hdevice : o.deviceId with _ | device
    · exact ⟨_, mem_peers_of_none ho hdevice, List.mem_singleton.mpr rfl⟩
    · exact ⟨_, mem_peers_of_device ho hdevice,
        List.mem_filter.mpr ⟨ho, decide_eq_true hdevice⟩⟩

/-- The observations of a peer are in the order of the list. -/
theorem sublist_of_mem_peers {list : PeerList} {p : Peer} (h : p ∈ list.peers) :
    p.observations.Sublist list.observations := by
  rcases List.mem_append.mp h with h | h
  · obtain ⟨device, -, rfl⟩ := List.mem_map.mp h
    exact List.filter_sublist
  · obtain ⟨o, ho, rfl⟩ := List.mem_map.mp h
    exact List.singleton_sublist.mpr (List.mem_filter.mp ho).1

/-- The peers are in their order. -/
theorem Ordered.pairwise_before {list : PeerList} (h : list.Ordered) :
    list.peers.Pairwise Peer.Before := by
  refine List.pairwise_append.mpr ⟨?_, ?_, ?_⟩
  · exact List.pairwise_map.mpr list.pairwise_devices
  · have hboth := (h.sorted.and (List.pairwise_map.mp h.keyed)).sublist
      (List.filter_sublist (p := fun o => decide (o.deviceId = none)))
    exact List.pairwise_map.mpr (hboth.imp fun {a b} hab => ⟨a, b, rfl, rfl, hab⟩)
  · intro p hp q hq
    obtain ⟨device, -, rfl⟩ := List.mem_map.mp hp
    obtain ⟨o, -, rfl⟩ := List.mem_map.mp hq
    trivial

/-- Two peers in order have no observation in common. -/
theorem disjoint_of_before {list : PeerList} {p q : Peer} (h : p.Before q)
    (hp : p ∈ list.peers) (hq : q ∈ list.peers) : p.observations.Disjoint q.observations := by
  intro o hop hoq
  have hdevice := (mem_of_mem_peers hp hop).2.symm.trans (mem_of_mem_peers hq hoq).2
  unfold Peer.Before at h
  rcases hpd : p.deviceId with _ | d <;> rcases hqd : q.deviceId with _ | e <;>
    rw [hpd, hqd] at h hdevice
  · obtain ⟨a, b, ha, hb, -, hne⟩ := h
    rw [ha, List.mem_singleton] at hop
    rw [hb, List.mem_singleton] at hoq
    exact hne (by rw [← hop, ← hoq])
  · cases hdevice
  · cases hdevice
  · obtain rfl := Option.some.inj hdevice
    have hself : compare d.bytes.val d.bytes.val = .eq := Std.ReflCmp.compare_self
    dsimp only at h
    rw [hself] at h
    cases h

/-- **The peers partition the list**: an observation that names a device is in the peer of
that device, one that names none is a peer of its own, and all are in order. -/
theorem Ordered.merged {list : PeerList} (h : list.Ordered) : list.Merged where
  perm := by
    refine (List.perm_ext_iff_of_nodup ?_ h.nodup).mpr fun o => mem_flatMap_peers
    refine List.nodup_flatMap.mpr ⟨fun p hp => h.nodup.sublist (sublist_of_mem_peers hp), ?_⟩
    exact h.pairwise_before.imp_of_mem fun hp hq hbefore =>
      disjoint_of_before hbefore hp hq
  nonempty p hp := by
    rcases List.mem_append.mp hp with hp | hp
    · obtain ⟨device, hdevice, rfl⟩ := List.mem_map.mp hp
      obtain ⟨o, ho, hnames⟩ := mem_devices.mp hdevice
      exact List.ne_nil_of_mem (List.mem_filter.mpr ⟨ho, decide_eq_true hnames⟩)
    · obtain ⟨o, -, rfl⟩ := List.mem_map.mp hp
      exact List.cons_ne_nil _ _
  share_iff o ho o' ho' hne := by
    constructor
    · rintro ⟨p, hp, hop, ho'p⟩
      have hdevice := (mem_of_mem_peers hp hop).2
      rcases hpd : p.deviceId with _ | device
      · rcases List.mem_append.mp hp with hp | hp
        · obtain ⟨device, -, rfl⟩ := List.mem_map.mp hp
          cases hpd
        · obtain ⟨a, -, rfl⟩ := List.mem_map.mp hp
          exact absurd ((List.mem_singleton.mp hop).trans (List.mem_singleton.mp ho'p).symm) hne
      · exact ⟨device, hdevice.trans hpd, (mem_of_mem_peers hp ho'p).2.trans hpd⟩
    · rintro ⟨device, hdevice, hdevice'⟩
      exact ⟨_, mem_peers_of_device ho hdevice,
        List.mem_filter.mpr ⟨ho, decide_eq_true hdevice⟩,
        List.mem_filter.mpr ⟨ho', decide_eq_true hdevice'⟩⟩
  before := h.pairwise_before
  sorted p hp := h.sorted.sublist (sublist_of_mem_peers hp)

end PeerList

end Tradr
