import Tradr.BrokrLifeCycle
import Tradr.BrokrRegister
import Tradr.Mailbox

/-!
# The Brokr over HTTP

A device talks to the Brokr in requests. Before one arrives other devices may have had the Brokr do
anything; it may be lost on its way, and so may its answer, after the Brokr has done what it asks
for. The body of a download comes in pieces, and the connection may break off between any two.

## Main definitions

* `RemoteBrokr`: a Brokr, and what becomes of the requests of a device.
* `RemoteBrokr.api`: the inbox, downloads and acknowledgements of a device.

## Main results

* `BrokrServer.descends`: where the rows after an action come from.
-/

namespace Tradr

/-! ### Requests -/

/-- What becomes of a request: it is lost, its answer is lost, or it is answered. -/
inductive RequestFate
  | lost
  | unanswered
  | answered
  deriving DecidableEq, Repr

/-- What a request meets: what others had the Brokr do before, the time it takes, whether the Brokr
knows its session, what becomes of it, and the sizes of the pieces in which a body comes until it
breaks off or all is there. -/
structure RemoteCall where
  others : List BrokrAction
  elapsed : ℕ
  signedIn : Bool
  fate : RequestFate
  pieces : List ℕ
  breaksOff : Bool

/-- A Brokr, and what becomes of the requests. -/
structure RemoteBrokr where
  server : BrokrServer
  calls : List RemoteCall

namespace RemoteBrokr

/-- The failure of a connection. -/
def disconnected : BrokrError := .network "error sending request"

/-- The status of an answer. -/
def check : BrokrReply → Except BrokrError BrokrReply
  | .error 401 _ => .error .unauthorized
  | .error 403 _ => .error .notEligible
  | .error 413 _ => .error .storageFull
  | .error 429 _ => .error .tooManyWaiting
  | .error status _ => .error (.rejected ("status " ++ toString status))
  | reply => .ok reply

/-- An element of an inbox is read from its numbers when they fit. -/
def inboxEntry (item : InboxItem) : Except BrokrError InboxEntry :=
  if item.size < 2 ^ 64 ∧ -2 ^ 63 ≤ item.uploadedAt ∧ item.uploadedAt < 2 ^ 63 then
    .ok ⟨item.id, item.senderDeviceId, .ofNat item.size, .ofInt item.uploadedAt⟩
  else .error (.malformed "error decoding response body")

/-- The pieces of a body. -/
def bodyPieces (breaksOff : Bool) : List ℕ → List UInt8 → List (Except BrokrError (List UInt8))
  | [], bytes => if breaksOff then [.error disconnected] else if bytes = [] then [] else [.ok bytes]
  | size :: sizes, bytes => .ok (bytes.take size) :: bodyPieces breaksOff sizes (bytes.drop size)

variable (cfg : BrokrConfig) (device : Text)

/-- What others ask for: a device acknowledges no delivery but through its own requests. -/
def isForeign : BrokrAction → Bool
  | .delete (some caller) _ _ => toLowerCase caller ≠ toLowerCase device
  | _ => true

/-- What others had the Brokr do. -/
def others (s : BrokrServer) (actions : List BrokrAction) : BrokrServer :=
  actions.foldl
    (fun s a => if s.Admissible a ∧ isForeign device a = true then (s.step cfg a).2 else s) s

/-- Perform a request. -/
def perform (request : Option Text → ℤ → BrokrAction) (b : RemoteBrokr) :
    Except BrokrError (BrokrReply × RemoteCall) × RemoteBrokr :=
  match b.calls with
  | [] => (.error disconnected, b)
  | call :: calls =>
    let s := others cfg device b.server call.others
    let action := request (if call.signedIn then some device else none) (s.now + call.elapsed)
    match call.fate with
    | .lost => (.error disconnected, ⟨s, calls⟩)
    | .unanswered => (.error disconnected, ⟨(s.step cfg action).2, calls⟩)
    | .answered =>
      match s.step cfg action with
      | (none, s) => (.error disconnected, ⟨s, calls⟩)
      | (some reply, s) => ((check reply).map fun reply => (reply, call), ⟨s, calls⟩)

/-- Ask for the inbox. -/
def inbox (b : RemoteBrokr) : Except BrokrError (List InboxEntry) × RemoteBrokr :=
  match perform cfg device (fun caller now => .inbox caller now) b with
  | (.error e, b) => (.error e, b)
  | (.ok (.inbox items, _), b) => (items.mapM inboxEntry, b)
  | (.ok _, b) => (.error (.malformed "error decoding response body"), b)

/-- Download a delivery. -/
def download (b : RemoteBrokr) (id : Text) :
    Except BrokrError (List (Except BrokrError (List UInt8))) × RemoteBrokr :=
  match perform cfg device (fun caller now => .get caller id now) b with
  | (.error e, b) => (.error e, b)
  | (.ok (.body _ bytes, call), b) => (.ok (bodyPieces call.breaksOff call.pieces bytes), b)
  | (.ok _, b) => (.ok [], b)

/-- Acknowledge a delivery. -/
def acknowledge (b : RemoteBrokr) (id : Text) : Except BrokrError Unit × RemoteBrokr :=
  match perform cfg device (fun caller now => .delete caller id now) b with
  | (.error e, b) => (.error e, b)
  | (.ok _, b) => (.ok (), b)

/-- The requests of a device. -/
def api : BrokrApi RemoteBrokr := ⟨inbox cfg device, download cfg device, acknowledge cfg device⟩

end RemoteBrokr

/-! ### Where rows come from -/

namespace BrokrServer

variable {cfg : BrokrConfig} {s s' : BrokrServer} {a : BrokrAction}

/-- A row that another becomes: it does not wait again, and is collected by its recipient only. -/
structure Descends (a : BrokrAction) (r r' : DeliveryRow) : Prop where
  id : r'.id = r.id
  recipient : r'.recipientDeviceId = r.recipientDeviceId
  expiresAt : r'.expiresAt = r.expiresAt
  pending : r'.pending = true → r.pending = true
  collected : r'.collectedAt.isSome = true → r.collectedAt.isSome = true ∨
    ∃ caller now, a = .delete (some caller) r.id now ∧
      toLowerCase r.recipientDeviceId = toLowerCase caller

theorem Descends.refl (r : DeliveryRow) : Descends a r r := ⟨rfl, rfl, rfl, fun h => h, .inl⟩

/-- **A row after an action** is a row before it or descends from one, or it was not collected and
has the identifier of an upload. -/
theorem descends (hs : s.Sound) (h : Effect cfg s a s') {r' : DeliveryRow}
    (hr' : r' ∈ s'.db.deliveries) : (∃ r ∈ s.db.deliveries, Descends a r r') ∨
      (∃ u ∈ s.uploads, u.deliveryId = r'.id) ∧ r'.collectedAt = none := by
  cases h with
  | quiet hrows _ _ _ _ => exact .inl ⟨r', hrows ▸ hr', .refl r'⟩
  | recorded u h now hu hphase hheader hnow =>
      rcases List.mem_append.mp hr' with hr' | hr'
      · exact .inl ⟨r', hr', .refl r'⟩
      · obtain rfl := List.mem_singleton.mp hr'
        exact .inr ⟨⟨u, hu, rfl⟩, rfl⟩
  | collected d caller now hd hrecipient hnow =>
      obtain ⟨r, hr, rfl⟩ := BrokrDb.mem_markDeliveryCollected.mp hr'
      refine .inl ⟨r, hr, ?_⟩
      split_ifs with hnew
      · obtain rfl := hs.keyed.eq hr (Table.mem_of_get hd).1 hnew.1
        refine ⟨rfl, rfl, rfl, fun hp => ?_, fun _ => .inr ⟨caller, now, rfl, hrecipient⟩⟩
        simp [DeliveryRow.pending] at hp
      · exact .refl r
  | swept now hnow =>
      have hr' : r' ∈ (s.db.sweepDeliveries s.files now).1.deliveries := hr'
      rw [BrokrDb.sweepDeliveries_deliveries hs.keyed] at hr'
      obtain ⟨r, hr, rfl⟩ := List.mem_map.mp (List.mem_filter.mp hr').1
      refine .inl ⟨r, hr, ?_⟩
      unfold BrokrDb.expire
      split_ifs
      · refine ⟨rfl, rfl, rfl, fun hp => ?_, .inl⟩
        simp [DeliveryRow.pending] at hp
      · exact .refl r
  | began | took | ended | aborted | dropped => exact .inl ⟨r', hr', .refl r'⟩

/-- A row that waits for a device. -/
def Waits (device : Text) (now : ℤ) (r : DeliveryRow) : Prop :=
  r.recipientDeviceId = toLowerCase device ∧ r.pending = true ∧ now < r.expiresAt

/-- A delivery was recorded, and is not an upload any more. -/
def Recorded (s : BrokrServer) (id : Text) : Prop :=
  id ∈ s.drawn ∧ ∀ u ∈ s.uploads, u.deliveryId ≠ id

/-- A recorded delivery does not wait for a device. -/
def WaitsNoMore (device : Text) (s : BrokrServer) (id : Text) : Prop :=
  s.Recorded id ∧ ∀ r ∈ s.db.deliveries, r.id = id → ¬Waits device s.now r

/-- A delivery to a device that is noted as collected. -/
def CollectedBy (device : Text) (s : BrokrServer) (id : Text) : Prop :=
  ∃ r ∈ s.db.deliveries, r.id = id ∧ r.recipientDeviceId = toLowerCase device ∧
    r.collectedAt.isSome = true

/-- What was recorded stays so. -/
theorem Recorded.effect {id : Text} (h : Effect cfg s a s') (hid : s.Recorded id) :
    s'.Recorded id := by
  refine ⟨(drawn_and_now h).1 hid.1, fun v hv heq => ?_⟩
  rcases upload_origin h hv with ⟨u, hu, he⟩ | hnew
  · exact hid.2 u hu (he.trans heq)
  · exact hnew (heq ▸ hid.1)

/-- What waits no more never does again. -/
theorem WaitsNoMore.effect {device id : Text} (hs : s.Sound) (h : Effect cfg s a s')
    (hid : WaitsNoMore device s id) : WaitsNoMore device s' id := by
  refine ⟨hid.1.effect h, fun r' hr' heq hwaits => ?_⟩
  rcases descends hs h hr' with ⟨r, hr, hd⟩ | ⟨⟨u, hu, he⟩, -⟩
  · refine hid.2 r hr (hd.id.symm.trans heq) ⟨hd.recipient ▸ hwaits.1, hd.pending hwaits.2.1, ?_⟩
    have hnow := (drawn_and_now h).2
    have hlt := hwaits.2.2
    have hexpires := hd.expiresAt
    omega
  · exact hid.1.2 u hu (he.trans heq)

/-- A delivery to a device is collected when this device acknowledges it. -/
theorem CollectedBy.effect {device id : Text} (hs : s.Sound) (h : Effect cfg s a s')
    (hid : CollectedBy device s' id) : CollectedBy device s id ∨
      ∃ caller now, a = .delete (some caller) id now ∧ toLowerCase caller = toLowerCase device := by
  obtain ⟨r', hr', rfl, hrecipient, hcollected⟩ := hid
  rcases descends hs h hr' with ⟨r, hr, hd⟩ | ⟨-, hnone⟩
  · rcases hd.collected hcollected with hc | ⟨caller, now, rfl, hcaller⟩
    · exact .inl ⟨r, hr, hd.id.symm, hd.recipient ▸ hrecipient, hc⟩
    · refine .inr ⟨caller, now, by rw [hd.id], ?_⟩
      rw [← hcaller, ← hd.recipient, hrecipient, BrokrAccounts.toLowerCase_toLowerCase]
  · rw [hnone] at hcollected
    cases hcollected

/-- What a Brokr shows of the deliveries to a device. -/
def deliveries (device : Text) : MailboxView BrokrServer where
  Valid := Sound
  Known := Recorded
  Gone := WaitsNoMore device
  Collected := CollectedBy device

/-- **Whatever the Brokr does comes later.** -/
theorem later_step {device : Text} {told : Text → Prop} (hs : s.Sound) (ha : s.Admissible a)
    (htold : ∀ caller id now, a = .delete (some caller) id now →
      toLowerCase caller = toLowerCase device → told id) :
    (deliveries device).Later told s (s.step cfg a).2 := by
  have heffect := effect_step cfg ha
  refine ⟨hs.effect heffect, fun id => .effect heffect, fun id => .effect hs heffect,
    fun id hid => ?_⟩
  rcases CollectedBy.effect hs heffect hid with hid | ⟨caller, now, ha, hcaller⟩
  · exact .inl hid
  · exact .inr (htold caller id now ha hcaller)

end BrokrServer

/-! ### What a device relies on -/

namespace RemoteBrokr

variable {cfg : BrokrConfig} {device : Text} {b : RemoteBrokr}

/-- What the Brokr shows. -/
def view (device : Text) : MailboxView RemoteBrokr where
  Valid b := (BrokrServer.deliveries device).Valid b.server
  Known b := (BrokrServer.deliveries device).Known b.server
  Gone b := (BrokrServer.deliveries device).Gone b.server
  Collected b := (BrokrServer.deliveries device).Collected b.server

/-- What is later at the Brokr is later. -/
theorem later_of_server {told : Text → Prop} {b' : RemoteBrokr}
    (h : (BrokrServer.deliveries device).Later told b.server b'.server) :
    (view device).Later told b b' := ⟨h.valid, h.known, h.gone, h.collected⟩

/-- Others do not collect for a device. -/
theorem later_others {s : BrokrServer} (hs : s.Sound) (actions : List BrokrAction) :
    (BrokrServer.deliveries device).Later (fun _ => False) s (others cfg device s actions) := by
  unfold others
  induction actions generalizing s with
  | nil => exact .refl hs
  | cons a actions ih =>
      rw [List.foldl_cons]
      split_ifs with h
      · have hstep : (BrokrServer.deliveries device).Later (fun _ => False) s (s.step cfg a).2 := by
          refine BrokrServer.later_step hs h.1 fun caller id now ha hcaller => ?_
          have hforeign := h.2
          rw [ha, isForeign, decide_eq_true_eq] at hforeign
          exact hforeign hcaller
        exact hstep.trans (ih hstep.valid)
      · exact ih hs

/-- The error of an answer is one of its status. -/
theorem check_eq_ok {reply reply' : BrokrReply} (h : check reply = .ok reply') :
    reply' = reply ∧ ∀ status message, reply ≠ .error status message := by
  unfold check at h
  split at h
  case h_6 hnot =>
    refine ⟨(Except.ok.inj h).symm, fun status message heq => ?_⟩
    exact hnot status message heq
  all_goals cases h

/-- A request that asks at its own time, and what it may acknowledge. -/
structure Asks (device : Text) (told : Text → Prop) (request : Option Text → ℤ → BrokrAction) :
    Prop where
  admissible : ∀ (s : BrokrServer) caller now, s.now ≤ now → s.Admissible (request caller now)
  told : ∀ caller now caller' id now', request caller now = .delete (some caller') id now' → told id

variable {told : Text → Prop} {request : Option Text → ℤ → BrokrAction}

variable (cfg) in
/-- The Brokr after a request comes later, and what is answered is what it did. -/
theorem perform_spec (hrequest : Asks device told request) (hs : b.server.Sound) :
    (view device).Later told b (perform cfg device request b).2 ∧
      ∀ reply call, (perform cfg device request b).1 = .ok (reply, call) →
        ∃ s caller now, s.Sound ∧ (BrokrServer.deliveries device).Later told b.server s ∧
          (∀ c ∈ caller, c = device) ∧
          s.step cfg (request caller now) =
            (some reply, (perform cfg device request b).2.server) ∧
          ∀ status message, reply ≠ .error status message := by
  obtain ⟨s₀, calls⟩ := b
  rcases calls with _ | ⟨call, calls⟩
  · refine ⟨.refl hs, fun reply call h => ?_⟩
    cases h
  · have hothers : (BrokrServer.deliveries device).Later told s₀
        (others cfg device s₀ call.others) := (later_others hs _).mono fun _ => False.elim
    have hstep : ∀ caller, (BrokrServer.deliveries device).Later told s₀
        ((others cfg device s₀ call.others).step cfg
          (request caller ((others cfg device s₀ call.others).now + call.elapsed))).2 :=
      fun caller => hothers.trans (BrokrServer.later_step hothers.valid
        (hrequest.admissible _ _ _ (by omega)) fun _ _ _ ha _ => hrequest.told _ _ _ _ _ ha)
    rw [perform]
    dsimp only
    rcases call.fate with _ | _ | _
    · exact ⟨later_of_server hothers, nofun⟩
    · exact ⟨later_of_server (hstep _), nofun⟩
    · dsimp only
      have hdone := hstep (if call.signedIn = true then some device else none)
      rcases hans : (others cfg device s₀ call.others).step cfg
        (request (if call.signedIn = true then some device else none)
          ((others cfg device s₀ call.others).now + call.elapsed)) with ⟨_ | reply, s'⟩
      · rw [hans] at hdone
        exact ⟨later_of_server hdone, nofun⟩
      · rw [hans] at hdone
        refine ⟨later_of_server hdone, fun reply' call' h => ?_⟩
        dsimp only at h ⊢
        rcases hcheck : check reply with e | reply₁
        · rw [hcheck] at h
          cases h
        · rw [hcheck] at h
          obtain ⟨rfl, -⟩ := Prod.mk.inj (Except.ok.inj h)
          obtain ⟨rfl, hreply⟩ := check_eq_ok hcheck
          refine ⟨_, _, _, hothers.valid, hothers, fun c hc => ?_, hans, hreply⟩
          split_ifs at hc
          · exact (Option.some.inj hc).symm
          · cases hc

theorem asks_inbox : Asks device (fun _ => False) fun caller now => .inbox caller now where
  admissible _ _ _ hnow := ⟨by rintro _ ⟨⟩; exact hnow, nofun⟩
  told := nofun

theorem asks_get (id : Text) :
    Asks device (fun _ => False) fun caller now => .get caller id now where
  admissible _ _ _ hnow := ⟨by rintro _ ⟨⟩; exact hnow, nofun⟩
  told := nofun

theorem asks_delete (id : Text) : Asks device (· = id) fun caller now => .delete caller id now where
  admissible _ _ _ hnow := ⟨by rintro _ ⟨⟩; exact hnow, nofun⟩
  told _ _ _ _ _ h := by
    injection h with _ hid
    exact hid.symm

/-- The identifiers of an inbox are those the Brokr lists. -/
theorem ids_of_mapM {items : List InboxItem} {entries : List InboxEntry}
    (h : items.mapM inboxEntry = .ok entries) :
    entries.map InboxEntry.id = items.map InboxItem.id := by
  induction items generalizing entries with
  | nil =>
      obtain rfl := Fallible.pure_eq_ok.mp h
      rfl
  | cons item items ih =>
      rw [List.mapM_cons] at h
      obtain ⟨entry, hentry, h⟩ := Fallible.bind_eq_ok.mp h
      obtain ⟨rest, hrest, h⟩ := Fallible.bind_eq_ok.mp h
      obtain rfl := Fallible.pure_eq_ok.mp h
      rw [List.map_cons, List.map_cons, ih hrest]
      unfold inboxEntry at hentry
      split_ifs at hentry
      rw [← Except.ok.inj hentry]

/-- **The inbox lists what waits.** -/
theorem lists_getInboxDeliveries {s : BrokrServer} (hs : s.Sound) :
    (BrokrServer.deliveries device).Lists s
      ((s.db.getInboxDeliveries device s.now).map InboxItem.id) := by
  have hids : ∀ id, id ∈ (s.db.getInboxDeliveries device s.now).map InboxItem.id ↔
      ∃ r ∈ s.db.deliveries, BrokrServer.Waits device s.now r ∧ r.id = id := by
    intro id
    simp only [BrokrDb.getInboxDeliveries, List.map_map, List.mem_map, List.mem_mergeSort,
      List.mem_filter, decide_eq_true_eq, Function.comp_apply, BrokrServer.Waits, and_assoc]
  constructor
  · unfold BrokrDb.getInboxDeliveries
    rw [List.map_map]
    have hperm := (List.mergeSort_perm (s.db.deliveries.filter fun r =>
      r.recipientDeviceId = toLowerCase device ∧ r.pending ∧ s.now < r.expiresAt)
      uploadedBefore).map DeliveryRow.id
    exact hperm.nodup_iff.mpr (hs.keyed.sublist List.filter_sublist)
  · intro id hid
    obtain ⟨r, hr, -, rfl⟩ := (hids id).mp hid
    exact ⟨hs.drawn r hr, hs.apart r hr⟩
  · rintro id hid ⟨-, hgone⟩
    obtain ⟨r, hr, hwaits, rfl⟩ := (hids id).mp hid
    exact hgone r hr rfl hwaits
  · exact fun id hknown hnot => ⟨hknown, fun r hr heq hwaits =>
      hnot ((hids id).mpr ⟨r, hr, hwaits, heq⟩)⟩

/-- A device lists its inbox. -/
theorem inbox_lists {entries : List InboxEntry} (hs : b.server.Sound)
    (h : (inbox cfg device b).1 = .ok entries) :
    (view device).Lists (inbox cfg device b).2 (entries.map InboxEntry.id) := by
  obtain ⟨hlater, hspec⟩ := perform_spec cfg (asks_inbox : Asks device _ _) hs
  have hvalid := hlater.valid
  unfold inbox at h ⊢
  rcases hp : perform cfg device (fun caller now => .inbox caller now) b with
    ⟨_ | ⟨reply, call⟩, b'⟩
  · rw [hp] at h
    cases h
  · rw [hp] at h hspec hvalid
    obtain ⟨s, caller, now, hsound, -, hcaller, hstep, hok⟩ := hspec reply call rfl
    obtain ⟨hreply, hserver⟩ := Prod.mk.inj hstep
    rcases caller with _ | c
    · exact absurd (Option.some.inj hreply).symm (hok _ _)
    · obtain rfl := hcaller c rfl
      obtain rfl := (Option.some.inj hreply).symm
      dsimp only [Option.elim_some] at h ⊢
      have hlists : (BrokrServer.deliveries c).Lists b'.server
          ((b'.server.db.getInboxDeliveries c b'.server.now).map InboxItem.id) :=
        lists_getInboxDeliveries hvalid
      have hserver' : b'.server = s.tick now := hserver.symm
      rw [hserver'] at hlists
      rw [ids_of_mapM h]
      refine ⟨hlists.nodup, ?_, ?_, ?_⟩
      · change ∀ id ∈ _, (BrokrServer.deliveries c).Known b'.server id
        rw [hserver']
        exact hlists.known
      · change ∀ id ∈ _, ¬(BrokrServer.deliveries c).Gone b'.server id
        rw [hserver']
        exact hlists.waiting
      · change ∀ id, (BrokrServer.deliveries c).Known b'.server id → _ →
          (BrokrServer.deliveries c).Gone b'.server id
        rw [hserver']
        exact hlists.unlisted

/-- A delivery that was acknowledged waits no more. -/
theorem acknowledge_gone {id : Text} (hs : b.server.Sound)
    (hknown : (view device).Known b id) (h : (acknowledge cfg device b id).1 = .ok ()) :
    (view device).Gone (acknowledge cfg device b id).2 id := by
  obtain ⟨hlater, hspec⟩ := perform_spec cfg (asks_delete id : Asks device _ _) hs
  have hknown' := hlater.known id hknown
  unfold acknowledge at h ⊢
  rcases hp : perform cfg device (fun caller now => .delete caller id now) b with
    ⟨_ | ⟨reply, call⟩, b'⟩
  · rw [hp] at h
    cases h
  · rw [hp] at hspec hknown'
    obtain ⟨s, caller, now, hsound, -, -, hstep, hok⟩ := hspec reply call rfl
    refine ⟨hknown', fun r' hr' hid hwaits => ?_⟩
    obtain ⟨hreply, hserver⟩ := Prod.mk.inj hstep
    dsimp only at hserver hr'
    rw [← hserver] at hr'
    unfold BrokrServer.delete at hreply hr'
    rcases caller with _ | c
    · exact hok _ _ (Option.some.inj hreply).symm
    · dsimp only at hreply hr'
      rcases hget : s.db.getDelivery id with _ | d
      · rw [hget] at hreply
        exact hok _ _ (Option.some.inj hreply).symm
      · rw [hget] at hreply hr'
        dsimp only at hreply hr'
        split_ifs at hreply hr' with hrecipient
        · exact hok _ _ (Option.some.inj hreply).symm
        · obtain ⟨r, hr, rfl⟩ := BrokrDb.mem_markDeliveryCollected.mp hr'
          have hpending := hwaits.2.1
          split_ifs at hpending hid with hnew
          · simp [DeliveryRow.pending] at hpending
          · have hsome : r.collectedAt ≠ none := fun hnone => hnew ⟨hid, hnone⟩
            simp [DeliveryRow.pending, hsome] at hpending

theorem inbox_later (hs : b.server.Sound) :
    (view device).Later (fun _ => False) b (inbox cfg device b).2 := by
  have h := (perform_spec cfg (asks_inbox : Asks device _ _) hs).1
  unfold inbox
  split <;> rename_i hp <;> rw [hp] at h <;> exact h

theorem download_later (id : Text) (hs : b.server.Sound) :
    (view device).Later (fun _ => False) b (download cfg device b id).2 := by
  have h := (perform_spec cfg (asks_get id : Asks device _ _) hs).1
  unfold download
  split <;> rename_i hp <;> rw [hp] at h <;> exact h

theorem acknowledge_later (id : Text) (hs : b.server.Sound) :
    (view device).Later (· = id) b (acknowledge cfg device b id).2 := by
  have h := (perform_spec cfg (asks_delete id : Asks device _ _) hs).1
  unfold acknowledge
  split <;> rename_i hp <;> rw [hp] at h <;> exact h

/-- **The Brokr is a mailbox.** -/
def mailbox (cfg : BrokrConfig) (device : Text) : Mailbox (api cfg device) where
  toMailboxView := view device
  inbox_later := inbox_later
  download_later := download_later
  acknowledge_later := acknowledge_later
  inbox_lists := inbox_lists
  acknowledge_gone := acknowledge_gone

end RemoteBrokr

end Tradr
