import Tradr.BroadcastKey
import Tradr.Machine

/-!
# Overlapping Key Exchanges

A device may have several exchanges of its Account Broadcast Key under way at once. Each
captures the device's offer when it opens and resolves the peer's offer against what it
captured; what the registry holds by then is not looked at. So an exchange that opened
before a rotation may undo it.

## Main definitions

* `Exchanging.step`: opening an exchange, answering the peer's offer, generating a key.
* `Exchanging.Forward`: what is stored does not beat what a step is about to write.

## Main results

* `BroadcastKeyRegistry.adopt_cases`: the three ways in which adopting an offer ends.
* `Exchanging.stored_mono_of_allows`: a run of such steps never moves the device backwards.
* `Exchanging.overlapping_exchange_undoes_rotation`: an overlapping exchange may.
-/

namespace Tradr

/-! ### The order of offers -/

/-- The order of offers, written out: the higher generation wins, then the earlier creation
time, then the smaller key. -/
theorem offer_le_iff_lex {a b : BroadcastKeyOffer} :
    a ≤ b ↔ compare a.generation b.generation = .lt ∨ a.generation = b.generation ∧
      (b.createdAt < a.createdAt ∨ b.createdAt = a.createdAt ∧
        (compare b.key.bytes a.key.bytes).isLE = true) := by
  have htime : compare b.createdAt a.createdAt = .lt ↔ b.createdAt < a.createdAt := by
    rw [Int.compare_eq_lt]
  simp only [offer_le_iff, offerCmp, compareLex, compareOn]
  rcases hg : compare a.generation b.generation with _ | _ | _
  · simp
  · have hgen : a.generation = b.generation := Std.LawfulEqCmp.eq_of_compare hg
    rcases hc : compare b.createdAt a.createdAt with _ | _ | _
    · simp [hgen, htime.mp hc]
    · have hcreated : b.createdAt = a.createdAt := Std.LawfulEqCmp.eq_of_compare hc
      simp [hgen, hcreated]
    · have hlt : ¬b.createdAt < a.createdAt := by
        rw [← htime, hc]
        exact Ordering.noConfusion
      have hne : b.createdAt ≠ a.createdAt := by
        intro heq
        have hself : compare a.createdAt a.createdAt = .eq := Std.ReflCmp.compare_self
        rw [heq, hself] at hc
        cases hc
      simp [hlt, hne]
  · have hgen : a.generation ≠ b.generation := by
      intro heq
      have hself : compare b.generation b.generation = .eq := Std.ReflCmp.compare_self
      rw [heq, hself] at hg
      cases hg
    simp [hgen]

/-! ### What is written -/

/-- Every call of an `adopt` works. -/
def AdoptFaults.Written (faults : AdoptFaults) : Prop :=
  faults.load = .none ∧ faults.store = .none ∧ faults.persist = .none

/-- The secret was written, the record was not, and the secret could not be put back. -/
def AdoptFaults.Torn (faults : AdoptFaults) : Prop :=
  faults.load = .none ∧ faults.store = .none ∧ faults.persist ≠ .none ∧ faults.restore ≠ .none

namespace BroadcastKeyRegistry

/-- **Adopting an offer** stores it, or changes nothing, or leaves the halves torn. -/
theorem adopt_cases (r : BroadcastKeyRegistry) (o : BroadcastKeyOffer) (faults : AdoptFaults)
    (stores : KeyStores) :
    faults.Written ∧ r.adopt o faults stores = r.adopt o AdoptFaults.none stores ∨
      faults.Torn ∨ ∃ e, r.adopt o faults stores = (.error e, r, stores) := by
  rcases faults with ⟨load, store, persist, restore⟩
  rcases load with _ | e
  · rcases store with _ | e
    · rcases persist with _ | e
      · exact .inl ⟨⟨rfl, rfl, rfl⟩, rfl⟩
      · rcases restore with _ | e'
        · exact .inr (.inr ⟨_, rfl⟩)
        · exact .inr (.inl ⟨rfl, rfl, nofun, nofun⟩)
    · exact .inr (.inr ⟨_, rfl⟩)
  · exact .inr (.inr ⟨_, rfl⟩)

/-- What a registry offers is what it remembers and the key in the slot. -/
theorem offer_eq_ok {r : BroadcastKeyRegistry} {loadFault : Option String} {stores : KeyStores}
    {o : BroadcastKeyOffer} (h : r.offer loadFault stores = some (.ok (some o))) :
    r.generation = some o.generation ∧ r.createdAt = some o.createdAt ∧
      stores.secret = some o.key.bytes := by
  unfold offer at h
  split at h
  · rename_i generation createdAt hgeneration hcreatedAt
    split at h
    · cases h
    split at h
    · cases h
    rename_i bytes hsecret
    split at h
    · cases h
    rename_i key hkey
    split at h
    · cases h
    rename_i offer hnew
    obtain rfl := Option.some.inj (Except.ok.inj (Option.some.inj h))
    unfold BroadcastKeyOffer.new at hnew
    split_ifs at hnew
    obtain rfl := Except.ok.inj hnew
    unfold AccountBroadcastKey.fromBytes at hkey
    split_ifs at hkey
    obtain rfl := Except.ok.inj hkey
    exact ⟨hgeneration, hcreatedAt, hsecret⟩
  · cases h

/-- What is drawn is of the next generation and of this moment. -/
theorem draw_eq_ok {r : BroadcastKeyRegistry} {entropy : Except String AccountBroadcastKey}
    {now : ℤ} {o : BroadcastKeyOffer} (h : r.draw entropy now = .ok o) :
    entropy = .ok o.key ∧ o.generation = nextGeneration r.generation ∧ o.createdAt = now := by
  unfold draw at h
  rcases entropy with e | key
  · cases h
  dsimp only at h
  unfold BroadcastKeyOffer.new at h
  split_ifs at h
  obtain rfl := Except.ok.inj h
  exact ⟨rfl, rfl, rfl⟩

end BroadcastKeyRegistry

/-! ### Exchanges under way -/

/-- A device with the exchanges it has opened and not completed. -/
structure Exchanging where
  device : Device
  awaiting : List AwaitingPeerOffer

/-- What happens to a device: an exchange is opened, the peer of an open one has sent its
offer, or a key is generated. -/
inductive ExchangeAction
  | opens (tier : TrustTier) (loadFault : Option String)
    (entropy : Except String AccountBroadcastKey) (now : ℤ)
  | answers (index : ℕ) (peer : BroadcastKeyOffer) (faults : AdoptFaults)
  | generates (entropy : Except String AccountBroadcastKey) (now : ℤ) (faults : AdoptFaults)

/-- What came of it. -/
inductive ExchangeEvent
  | opened (offer : Option (Except ExchangeError BroadcastKeyOffer))
  | answered (outcome : Except ExchangeError ExchangeOutcome)
  | generated (offer : Except BroadcastKeyRegistryError BroadcastKeyOffer)
  | nothing

namespace Exchanging

/-- One of these, undisturbed by the others. -/
def step (s : Exchanging) : ExchangeAction → ExchangeEvent × Exchanging
  | .opens tier loadFault entropy now =>
    match openExchange tier s.device.registry loadFault s.device.stores entropy now with
    | some (.ok (state, offer)) =>
      (.opened (some (.ok offer)), { s with awaiting := s.awaiting ++ [state] })
    | some (.error e) => (.opened (some (.error e)), s)
    | none => (.opened none, s)
  | .answers index peer faults =>
    match s.awaiting[index]? with
    | none => (.nothing, s)
    | some state =>
      let (outcome, registry, stores) :=
        state.onPeerOffer peer s.device.registry faults s.device.stores
      (.answered outcome, ⟨⟨registry, stores⟩, s.awaiting.eraseIdx index⟩)
  | .generates entropy now faults =>
    let (offer, registry, stores) :=
      s.device.registry.generate entropy now faults s.device.stores
    (.generated offer, { s with device := ⟨registry, stores⟩ })

/-- The offer a device has stored. -/
def stored (s : Exchanging) : Option BroadcastKeyOffer :=
  match s.device.offer with
  | some (.ok o) => o
  | _ => none

/-- A step is about to write an offer that the stored one does not beat, and it will not
tear the halves of the key apart: an exchange that writes compares two offers of which one
is at or above what is stored, and a key is not generated past the last generation, unless
it comes first in time. -/
def Forward (s : Exchanging) : ExchangeAction → Prop
  | .opens _ _ _ _ => True
  | .answers index peer faults => ∀ state, s.awaiting[index]? = some state →
    (state.drawn = true ∨ resolveCollision state.localOffer peer = .adoptRemote) →
    ¬faults.Torn ∧ ∀ o, s.stored = some o → faults.Written → o ≤ state.localOffer ∨ o ≤ peer
  | .generates entropy now faults => ¬faults.Torn ∧
    ∀ o, s.stored = some o → faults.Written → o.generation.toNat + 1 < UInt32.size ∨
      now < o.createdAt ∨ now = o.createdAt ∧
        ∀ key, entropy = .ok key → (compare key.bytes o.key.bytes).isLE = true

/-- The device does not move backwards from one state to another: what was stored is still
there, or something is that it loses to. -/
def NotBackwards (s s' : Exchanging) : Prop :=
  ∀ o, s.stored = some o → ∃ o', s'.stored = some o' ∧ resolveCollision o' o = .keepLocal

theorem NotBackwards.refl (s : Exchanging) : s.NotBackwards s := fun o ho =>
  ⟨o, ho, offer_le_iff_keepLocal.mp le_rfl⟩

theorem NotBackwards.trans {s t u : Exchanging} (h : s.NotBackwards t) (h' : t.NotBackwards u) :
    s.NotBackwards u := by
  intro o ho
  obtain ⟨o₁, ho₁, hle₁⟩ := h o ho
  obtain ⟨o₂, ho₂, hle₂⟩ := h' o₁ ho₁
  refine ⟨o₂, ho₂, offer_le_iff_keepLocal.mp ?_⟩
  exact (offer_le_iff_keepLocal.mpr hle₁).trans (offer_le_iff_keepLocal.mpr hle₂)

/-- Only the device counts. -/
theorem NotBackwards.of_device_eq {s s' : Exchanging} (h : s'.device = s.device) :
    s.NotBackwards s' := by
  intro o ho
  refine ⟨o, ?_, offer_le_iff_keepLocal.mp le_rfl⟩
  unfold stored at ho ⊢
  rw [h]
  exact ho

/-- The stored offer is what the registry offers. -/
theorem stored_eq_some {s : Exchanging} {o : BroadcastKeyOffer} :
    s.stored = some o ↔ s.device.registry.offer none s.device.stores = some (.ok (some o)) := by
  unfold stored Device.offer
  rcases s.device.registry.offer none s.device.stores with _ | e | o'
  · simp
  · simp
  · simp

/-- Adopting an offer that the stored one does not beat. -/
theorem notBackwards_adopt {s : Exchanging} {o' : BroadcastKeyOffer} {faults : AdoptFaults}
    (htorn : ¬faults.Torn) (hle : ∀ o, s.stored = some o → faults.Written → o ≤ o')
    (awaiting : List AwaitingPeerOffer) :
    s.NotBackwards ⟨⟨(s.device.registry.adopt o' faults s.device.stores).2.1,
      (s.device.registry.adopt o' faults s.device.stores).2.2⟩, awaiting⟩ := by
  rcases s.device.registry.adopt_cases o' faults s.device.stores with
    ⟨hwritten, hadopt⟩ | htorn' | ⟨e, hadopt⟩
  · intro o ho
    refine ⟨o', ?_, offer_le_iff_keepLocal.mp (hle o ho hwritten)⟩
    rw [hadopt, stored_eq_some]
    exact s.device.registry.offer_adopt o' s.device.stores
  · exact absurd htorn' htorn
  · rw [hadopt]
    exact .of_device_eq rfl

/-- What an exchange resolved to is stored, or nothing is. -/
theorem onPeerOffer_cases (state : AwaitingPeerOffer) (peer : BroadcastKeyOffer)
    (r : BroadcastKeyRegistry) (faults : AdoptFaults) (stores : KeyStores) :
    (state.onPeerOffer peer r faults stores).2 = (r, stores) ∨
      (state.drawn = true ∨ resolveCollision state.localOffer peer = .adoptRemote) ∧
        (state.onPeerOffer peer r faults stores).2 =
          (r.adopt (keep state.localOffer peer) faults stores).2 := by
  unfold AwaitingPeerOffer.onPeerOffer keep
  rcases hresolve : resolveCollision state.localOffer peer with _ | _
  · dsimp only
    split_ifs with hdrawn
    · refine .inr ⟨.inl hdrawn, ?_⟩
      rcases r.adopt state.localOffer faults stores with ⟨e | _, _, _⟩
      · rfl
      · rfl
    · exact .inl rfl
  · refine .inr ⟨.inr rfl, ?_⟩
    dsimp only
    rcases r.adopt peer faults stores with ⟨e | _, _, _⟩
    · rfl
    · rfl

/-- A key that is generated is not beaten by the stored one. -/
theorem le_of_draw {s : Exchanging} {entropy : Except String AccountBroadcastKey} {now : ℤ}
    {o o' : BroadcastKeyOffer} (ho : s.stored = some o)
    (hdraw : s.device.registry.draw entropy now = .ok o')
    (h : o.generation.toNat + 1 < UInt32.size ∨ now < o.createdAt ∨ now = o.createdAt ∧
      ∀ key, entropy = .ok key → (compare key.bytes o.key.bytes).isLE = true) : o ≤ o' := by
  obtain ⟨hentropy, hgeneration, hcreated⟩ := BroadcastKeyRegistry.draw_eq_ok hdraw
  rw [(BroadcastKeyRegistry.offer_eq_ok (stored_eq_some.mp ho)).1] at hgeneration
  have hnext : o'.generation.toNat = min (o.generation.toNat + 1) (UInt32.size - 1) := by
    rw [hgeneration, nextGeneration, UInt32.toNat_ofNat']
    have : min (o.generation.toNat + 1) (UInt32.size - 1) < 2 ^ 32 := by
      simp only [UInt32.size]
      omega
    exact Nat.mod_eq_of_lt this
  by_cases hlast : o.generation.toNat + 1 < UInt32.size
  · refine offer_le_iff_lex.mpr (.inl ?_)
    have hlt : o.generation < o'.generation := by
      rw [UInt32.lt_iff_toNat_lt]
      simp only [UInt32.size] at hnext hlast
      omega
    exact Std.compare_eq_lt.mpr hlt
  · have hsame : o.generation = o'.generation := by
      rw [← UInt32.toNat_inj]
      have hbound := o.generation.toNat_lt
      simp only [UInt32.size] at hnext hlast
      omega
    refine offer_le_iff_lex.mpr (.inr ⟨hsame, ?_⟩)
    rw [hcreated]
    rcases h with h | h | ⟨h, hkey⟩
    · exact absurd h hlast
    · exact .inl h
    · exact .inr ⟨h, hkey _ hentropy⟩

/-- **One step does not move the device backwards**, when the stored offer does not beat
what it writes. -/
theorem notBackwards_step {s : Exchanging} {a : ExchangeAction} (h : s.Forward a) :
    s.NotBackwards (s.step a).2 := by
  cases a with
  | opens tier loadFault entropy now =>
      refine .of_device_eq ?_
      unfold step
      dsimp only
      split
      · rfl
      · rfl
      · rfl
  | answers index peer faults =>
      unfold step
      dsimp only
      rcases hstate : s.awaiting[index]? with _ | state
      · exact .refl s
      dsimp only
      have hcases := onPeerOffer_cases state peer s.device.registry faults s.device.stores
      rcases honPeer : state.onPeerOffer peer s.device.registry faults s.device.stores with
        ⟨outcome, registry, stores⟩
      rw [honPeer] at hcases
      rcases hcases with hkept | ⟨hwrites, hadopt⟩
      · obtain ⟨rfl, rfl⟩ := Prod.mk.inj hkept
        exact .of_device_eq rfl
      · obtain ⟨htorn, hle⟩ := h state hstate hwrites
        have hjoin : ∀ o, s.stored = some o → faults.Written → o ≤ keep state.localOffer peer := by
          intro o ho hwritten
          rw [← sup_eq_keep]
          rcases hle o ho hwritten with hlocal | hpeer
          · exact hlocal.trans le_sup_left
          · exact hpeer.trans le_sup_right
        have hmove := notBackwards_adopt htorn hjoin (s.awaiting.eraseIdx index)
        rw [← hadopt] at hmove
        exact hmove
  | generates entropy now faults =>
      obtain ⟨htorn, hle⟩ := h
      unfold step BroadcastKeyRegistry.generate
      dsimp only
      rcases hdraw : s.device.registry.draw entropy now with e | o'
      · exact .of_device_eq rfl
      · have hmove := notBackwards_adopt htorn
          (fun o ho hwritten => le_of_draw ho hdraw (hle o ho hwritten)) s.awaiting
        dsimp only
        rcases hadopt : s.device.registry.adopt o' faults s.device.stores with ⟨e | _, _, _⟩
        · rw [hadopt] at hmove
          exact hmove
        · rw [hadopt] at hmove
          exact hmove

/-- **Exchanges never move a device backwards** in any run whose steps are forward: from
every moment to every later one, what was stored is still there or has lost to what is. -/
theorem stored_mono_of_allows {s : Exchanging} {before after : List ExchangeAction}
    (h : Machine.Allows step Forward s (before ++ after)) :
    NotBackwards (Machine.run step s before).2 (Machine.run step s (before ++ after)).2 := by
  obtain ⟨-, hafter⟩ := (Machine.allows_append step s before after).mp h
  rw [Machine.run_append]
  exact Machine.run_invariant_of_allows step
    (I := fun _ t => NotBackwards (Machine.run step s before).2 t) (.refl _)
    (fun _ _ _ hok hinv => hinv.trans (notBackwards_step hok)) hafter

/-! ### A rotation that is undone -/

/-- The offer of a generation with the smallest key. -/
def offerOf (generation : UInt32) (h : generation ≠ 0) : BroadcastKeyOffer :=
  ⟨zeroBroadcastKey, generation, 5, h, five_seconds_pos⟩

/-- A device with a key of the first generation. -/
def firstKey : Exchanging := ⟨Device.holding (offerOf 1 (generation_ne_zero true)), []⟩

/-- An exchange on a channel to a device of the same account is opened. -/
def opening : ExchangeAction := .opens .sameAccount none (.error "") 9

/-- Two exchanges one after the other: the peer of the first has rotated twice, that of the
second once. -/
def serial : List ExchangeAction :=
  [opening, .answers 0 (offerOf 3 (by decide)) .none, opening,
    .answers 0 (offerOf 2 (generation_ne_zero false)) .none]

/-- The same exchanges, both opened at once. -/
def overlapping : List ExchangeAction :=
  [opening, opening, .answers 0 (offerOf 3 (by decide)) .none,
    .answers 0 (offerOf 2 (generation_ne_zero false)) .none]

/-- One after the other they leave the device with the later rotation. -/
theorem stored_mono_of_allows_serial :
    NotBackwards (Machine.run step firstKey (serial.take 2)).2
      (Machine.run step firstKey (serial.take 2 ++ serial.drop 2)).2 := by
  refine stored_mono_of_allows ⟨trivial, ?_, trivial, ?_, trivial⟩
  · intro state hstate _
    obtain rfl := Option.some.inj hstate
    refine ⟨nofun, fun o ho _ => ?_⟩
    obtain rfl := Option.some.inj ho
    exact .inl le_rfl
  · intro state hstate hwrites
    obtain rfl := Option.some.inj hstate
    exact absurd hwrites (by decide)

/-- **An overlapping exchange undoes a rotation**: the device has adopted the third
generation, and goes back to the second. -/
theorem overlapping_exchange_undoes_rotation :
    ¬NotBackwards (Machine.run step firstKey (overlapping.take 3)).2
      (Machine.run step firstKey overlapping).2 := by
  intro h
  obtain ⟨o', ho', hresolve⟩ := h (offerOf 3 (by decide)) rfl
  obtain rfl : offerOf 2 (generation_ne_zero false) = o' := Option.some.inj ho'
  exact absurd hresolve (by decide)

end Exchanging

end Tradr
