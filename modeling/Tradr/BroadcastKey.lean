import Mathlib.Data.Nat.Notation
import Tradr.Gossip

/-!
# The Account Broadcast Key

The 32 random bytes all devices of an account share. An offer is the key with its
generation and creation time; `resolveCollision` decides which of two offers a device
keeps. `BroadcastKeyRegistry` persists the current key in two halves, the bytes in a
secret slot and the rest in a record file, and the exchange driver opens with the stored
(or a freshly drawn) offer and keeps the winner.

The collision rule is the order `offerCmp`, so that keeping the winner is the join of a
semilattice on offers and devices that meet in pairs gossip in the sense of `Gossip`.

## Main results

* `keep_comm`, `keep_assoc`, `keep_self`: keeping the winner is a join.
* `offer_exchange`: one exchange leaves both devices with the winner.
* `gossip_converges`: offers only move up, and a chain that covers all devices both ways
  ends in agreement on the maximum.
-/

open Std

namespace Tradr

/-! ### Offers -/

/-- The length of an Account Broadcast Key. -/
def accountBroadcastKeyLen : ℕ := 32

/-- The shared random bytes of an account. -/
structure AccountBroadcastKey where
  bytes : List UInt8
  length_bytes : bytes.length = accountBroadcastKeyLen

/-- A key from exactly the right number of bytes. -/
def AccountBroadcastKey.fromBytes (bytes : List UInt8) : Except String AccountBroadcastKey :=
  if h : bytes.length = accountBroadcastKeyLen then .ok ⟨bytes, h⟩
  else .error s!"expected {accountBroadcastKeyLen} bytes, got {bytes.length}"

/-- Why an offer could not be built. -/
inductive BroadcastKeyOfferError
  | zeroIsNotAGeneration
  | createdAtNotAfterEpoch (seconds : ℤ)
  deriving DecidableEq, Repr

/-- The key, its generation and when it was made; `createdAt` is in seconds since the
Unix epoch. -/
structure BroadcastKeyOffer where
  key : AccountBroadcastKey
  generation : UInt32
  createdAt : ℤ
  generation_ne_zero : generation ≠ 0
  createdAt_pos : 0 < createdAt

/-- An offer, after validating generation and creation time. -/
def BroadcastKeyOffer.new (key : AccountBroadcastKey) (generation : UInt32)
    (createdAt : ℤ) : Except BroadcastKeyOfferError BroadcastKeyOffer :=
  if hg : generation = 0 then .error .zeroIsNotAGeneration
  else if hc : createdAt ≤ 0 then .error (.createdAtNotAfterEpoch createdAt)
  else .ok ⟨key, generation, createdAt, hg, by omega⟩

/-- Offers with the same triple are the same offer. -/
theorem BroadcastKeyOffer.ext_triple {a b : BroadcastKeyOffer}
    (hg : a.generation = b.generation) (hc : a.createdAt = b.createdAt)
    (hk : a.key.bytes = b.key.bytes) : a = b := by
  obtain ⟨⟨_, _⟩, _, _, _, _⟩ := a
  obtain ⟨⟨_, _⟩, _, _, _, _⟩ := b
  subst hg hc hk
  rfl

/-- A stored offer passes its own check. -/
theorem BroadcastKeyOffer.new_self (o : BroadcastKeyOffer) :
    BroadcastKeyOffer.new o.key o.generation o.createdAt = .ok o := by
  have hc : ¬ o.createdAt ≤ 0 := by
    have := o.createdAt_pos
    omega
  simp only [BroadcastKeyOffer.new, o.generation_ne_zero, hc, dite_false]

/-! ### The collision rule -/

/-- The outcome of resolving a collision. -/
inductive CollisionOutcome
  | keepLocal
  | adoptRemote
  deriving DecidableEq, Repr

/-- Which of two offers a device keeps: the higher generation, then the earlier creation
time, then the smaller key bytes, then its own. -/
def resolveCollision (localOffer remote : BroadcastKeyOffer) : CollisionOutcome :=
  match compare localOffer.generation remote.generation with
  | .gt => .keepLocal
  | .lt => .adoptRemote
  | .eq =>
    match compare localOffer.createdAt remote.createdAt with
    | .lt => .keepLocal
    | .gt => .adoptRemote
    | .eq =>
      match compare localOffer.key.bytes remote.key.bytes with
      | .lt | .eq => .keepLocal
      | .gt => .adoptRemote

/-- The offer a device holds after the collision was resolved. -/
def keep (localOffer remote : BroadcastKeyOffer) : BroadcastKeyOffer :=
  match resolveCollision localOffer remote with
  | .keepLocal => localOffer
  | .adoptRemote => remote

/-- The order the collision rule applies, from losing to winning. -/
def offerCmp : BroadcastKeyOffer → BroadcastKeyOffer → Ordering :=
  compareLex (compareOn BroadcastKeyOffer.generation)
    (compareLex (fun a b => compareOn BroadcastKeyOffer.createdAt b a)
      (fun a b => compareOn (fun o : BroadcastKeyOffer => o.key.bytes) b a))

instance : TransCmp offerCmp := by
  unfold offerCmp
  infer_instance

/-- Offers that tie are the same triple. -/
theorem eq_of_offerCmp {a b : BroadcastKeyOffer} (h : offerCmp a b = .eq) : a = b := by
  simp only [offerCmp, compareLex, compareOn, Ordering.then_eq_eq] at h
  exact BroadcastKeyOffer.ext_triple (LawfulEqCmp.eq_of_compare h.1)
    (LawfulEqCmp.eq_of_compare h.2.1).symm (LawfulEqCmp.eq_of_compare h.2.2).symm

/-- The rule is the order: a remote offer is adopted exactly when it is above. -/
theorem resolveCollision_eq (a b : BroadcastKeyOffer) :
    resolveCollision a b = if offerCmp a b = .lt then .adoptRemote else .keepLocal := by
  have hc : compare b.createdAt a.createdAt = (compare a.createdAt b.createdAt).swap :=
    OrientedCmp.eq_swap
  have hk : compare b.key.bytes a.key.bytes = (compare a.key.bytes b.key.bytes).swap :=
    OrientedCmp.eq_swap
  simp only [resolveCollision, offerCmp, compareLex, compareOn, hc, hk]
  cases compare a.generation b.generation with
  | lt => rfl
  | gt => rfl
  | eq =>
      cases compare a.createdAt b.createdAt with
      | lt => rfl
      | gt => rfl
      | eq => cases compare a.key.bytes b.key.bytes <;> rfl

instance : PartialOrder BroadcastKeyOffer where
  le a b := (offerCmp a b).isLE
  le_refl a := by
    have : offerCmp a a = .eq := ReflCmp.compare_self
    simp [this]
  le_trans _ _ _ h h' := TransCmp.isLE_trans h h'
  le_antisymm a b h h' := by
    have hsw : offerCmp b a = (offerCmp a b).swap := OrientedCmp.eq_swap
    refine eq_of_offerCmp ?_
    rw [hsw] at h'
    rcases hc : offerCmp a b with _ | _ | _
    · exact absurd h' (by simp [hc])
    · rfl
    · exact absurd h (by simp [hc])

theorem offer_le_iff {a b : BroadcastKeyOffer} : a ≤ b ↔ (offerCmp a b).isLE = true :=
  Iff.rfl

instance (a b : BroadcastKeyOffer) : Decidable (a ≤ b) :=
  inferInstanceAs (Decidable ((offerCmp a b).isLE = true))

/-- An offer is at or above another exactly when it survives meeting it. -/
theorem offer_le_iff_keepLocal {a b : BroadcastKeyOffer} :
    a ≤ b ↔ resolveCollision b a = .keepLocal := by
  have hsw : offerCmp a b = (offerCmp b a).swap := OrientedCmp.eq_swap
  rw [offer_le_iff, resolveCollision_eq, hsw]
  rcases offerCmp b a with _ | _ | _ <;> simp

/-- Keeping the winner keeps the local offer exactly when the remote is not above it. -/
theorem keep_eq (a b : BroadcastKeyOffer) : keep a b = if b ≤ a then a else b := by
  by_cases h : b ≤ a
  · rw [keep, offer_le_iff_keepLocal.mp h, if_pos h]
  · have hr : resolveCollision a b = .adoptRemote := by
      rcases hr : resolveCollision a b with _ | _
      · exact absurd (offer_le_iff_keepLocal.mpr hr) h
      · rfl
    rw [keep, hr, if_neg h]

/-- The order is total. -/
theorem offer_le_total (a b : BroadcastKeyOffer) : a ≤ b ∨ b ≤ a := by
  have hsw : offerCmp b a = (offerCmp a b).swap := OrientedCmp.eq_swap
  rw [offer_le_iff, offer_le_iff, hsw]
  rcases offerCmp a b with _ | _ | _ <;> simp

/-- **Keeping the winner is the join of the collision order.** -/
instance : SemilatticeSup BroadcastKeyOffer where
  sup := keep
  le_sup_left a b := by
    rw [keep_eq]
    split
    · exact le_rfl
    · rename_i h
      exact (offer_le_total a b).resolve_right h
  le_sup_right a b := by
    rw [keep_eq]
    split
    · assumption
    · exact le_rfl
  sup_le a b c ha hb := by
    rw [keep_eq]
    split
    · exact ha
    · exact hb

theorem sup_eq_keep (a b : BroadcastKeyOffer) : a ⊔ b = keep a b := rfl

/-- The winner does not depend on the viewpoint. -/
theorem keep_comm (a b : BroadcastKeyOffer) : keep a b = keep b a :=
  sup_comm a b

/-- The winner of three does not depend on the order of meetings. -/
theorem keep_assoc (a b c : BroadcastKeyOffer) : keep (keep a b) c = keep a (keep b c) :=
  sup_assoc a b c

/-- An offer wins against itself. -/
theorem keep_self (a : BroadcastKeyOffer) : keep a a = a :=
  sup_idem a

/-- The winner is one of the two. -/
theorem keep_choice (a b : BroadcastKeyOffer) : keep a b = a ∨ keep a b = b := by
  rw [keep_eq]
  split
  · exact Or.inl rfl
  · exact Or.inr rfl

/-! ### The registry -/

/-- The account a registry was opened for. -/
structure AccountId where
  iss : String
  sub : String
  deriving DecidableEq, Repr

/-- The half of a key that lives in the record file. -/
structure AccountBroadcastKeyRecord where
  accountIss : String
  accountSub : String
  generation : UInt32
  createdAt : ℤ
  deriving DecidableEq, Repr

/-- An error of the registry; a backend's own error is its text. -/
inductive BroadcastKeyRegistryError
  | malformed (reason : String)
  | wrongAccount
  | secretMissing
  | rng (source : String)
  | secret (source : String)
  | offer (source : BroadcastKeyOfferError)
  | secretRollbackFailed (persist : BroadcastKeyRegistryError) (restore : String)
  | io (source : String)

/-- The generation a device that has none starts with. -/
def firstKeyGeneration : UInt32 := 1

/-- The next generation; it saturates, since zero is not a generation. -/
def nextGeneration : Option UInt32 → UInt32
  | none => firstKeyGeneration
  | some generation => UInt32.ofNat (min (generation.toNat + 1) (UInt32.size - 1))

/-- What the registry of one account knows of its key. -/
structure BroadcastKeyRegistry where
  account : AccountId
  generation : Option UInt32
  createdAt : Option ℤ

/-- The two places the halves of a key are kept in. -/
structure KeyStores where
  secret : Option (List UInt8)
  record : Option AccountBroadcastKeyRecord

/-- Which of the calls an `adopt` makes fail, each with its backend's error. A failing
call changes nothing. -/
structure AdoptFaults where
  load : Option String
  store : Option String
  persist : Option String
  restore : Option String

/-- No call fails. -/
def AdoptFaults.none : AdoptFaults :=
  ⟨.none, .none, .none, .none⟩

namespace BroadcastKeyRegistry

/-- The current offer, its key loaded from the secret slot. The outer `none` is a panic:
the record's own values failed the check of an offer. -/
def offer (r : BroadcastKeyRegistry) (loadFault : Option String) (stores : KeyStores) :
    Option (Except BroadcastKeyRegistryError (Option BroadcastKeyOffer)) :=
  match r.generation, r.createdAt with
  | some generation, some createdAt =>
    match loadFault with
    | some e => some (.error (.secret e))
    | none =>
      match stores.secret with
      | none => some (.error .secretMissing)
      | some bytes =>
        match AccountBroadcastKey.fromBytes bytes with
        | .error reason => some (.error (.malformed reason))
        | .ok key =>
          match BroadcastKeyOffer.new key generation createdAt with
          | .error _ => none
          | .ok offer => some (.ok (some offer))
  | _, _ => some (.ok none)

/-- A fresh offer from random bytes at `now`, not persisted. -/
def draw (r : BroadcastKeyRegistry) (entropy : Except String AccountBroadcastKey) (now : ℤ) :
    Except BroadcastKeyRegistryError BroadcastKeyOffer :=
  match entropy with
  | .error e => .error (.rng e)
  | .ok key =>
    match BroadcastKeyOffer.new key (nextGeneration r.generation) now with
    | .error e => .error (.offer e)
    | .ok offer => .ok offer

/-- Adopt an offer: write the secret, then the record, and put the secret back if the
record cannot be written. -/
def adopt (r : BroadcastKeyRegistry) (offer : BroadcastKeyOffer) (faults : AdoptFaults)
    (stores : KeyStores) :
    Except BroadcastKeyRegistryError Unit × BroadcastKeyRegistry × KeyStores :=
  match faults.load with
  | some e => (.error (.secret e), r, stores)
  | none =>
    let previous := stores.secret
    match faults.store with
    | some e => (.error (.secret e), r, stores)
    | none =>
      let stored := { stores with secret := some offer.key.bytes }
      match faults.persist with
      | some e =>
        match faults.restore with
        | none => (.error (.io e), r, { stored with secret := previous })
        | some e' => (.error (.secretRollbackFailed (.io e) e'), r, stored)
      | none =>
        (.ok (), { r with generation := some offer.generation, createdAt := some offer.createdAt },
          { stored with
            record := some ⟨r.account.iss, r.account.sub, offer.generation, offer.createdAt⟩ })

/-- Generate a fresh key and persist both halves. -/
def generate (r : BroadcastKeyRegistry) (entropy : Except String AccountBroadcastKey)
    (now : ℤ) (faults : AdoptFaults) (stores : KeyStores) :
    Except BroadcastKeyRegistryError BroadcastKeyOffer × BroadcastKeyRegistry × KeyStores :=
  match r.draw entropy now with
  | .error e => (.error e, r, stores)
  | .ok offer =>
    match r.adopt offer faults stores with
    | (.error e, r, stores) => (.error e, r, stores)
    | (.ok (), r, stores) => (.ok offer, r, stores)

/-- What was adopted is offered from then on. -/
theorem offer_adopt (r : BroadcastKeyRegistry) (o : BroadcastKeyOffer) (stores : KeyStores) :
    (r.adopt o AdoptFaults.none stores).2.1.offer none
      (r.adopt o AdoptFaults.none stores).2.2 = some (.ok (some o)) := by
  have hkey : AccountBroadcastKey.fromBytes o.key.bytes = .ok o.key := by
    simp only [AccountBroadcastKey.fromBytes, o.key.length_bytes, dite_true]
  simp only [adopt, AdoptFaults.none, offer, hkey, o.new_self]

end BroadcastKeyRegistry

/-! ### The exchange -/

/-- The trust a channel was granted. -/
inductive TrustTier
  | rejected
  | nearbyEphemeral
  | linked
  | sameAccount
  deriving DecidableEq, Repr

/-- What completing an exchange did. -/
inductive ExchangeOutcome
  | kept
  | generated
  | adopted
  deriving DecidableEq, Repr

/-- Why an exchange was refused or failed. -/
inductive ExchangeError
  | tierNotSameAccount (granted : TrustTier)
  | registry (err : BroadcastKeyRegistryError)

/-- An exchange that awaits the peer's offer. -/
structure AwaitingPeerOffer where
  localOffer : BroadcastKeyOffer
  drawn : Bool

/-- Open an exchange with the stored offer, or with a freshly drawn one; the outer `none`
is a panic of `offer`. -/
def openExchange (tier : TrustTier) (r : BroadcastKeyRegistry) (loadFault : Option String)
    (stores : KeyStores) (entropy : Except String AccountBroadcastKey) (now : ℤ) :
    Option (Except ExchangeError (AwaitingPeerOffer × BroadcastKeyOffer)) :=
  if tier ≠ .sameAccount then some (.error (.tierNotSameAccount tier))
  else
    match r.offer loadFault stores with
    | none => none
    | some (.error e) => some (.error (.registry e))
    | some (.ok (some stored)) => some (.ok (⟨stored, false⟩, stored))
    | some (.ok none) =>
      match r.draw entropy now with
      | .error e => some (.error (.registry e))
      | .ok drawn => some (.ok (⟨drawn, true⟩, drawn))

/-- Resolve the peer's offer against the local one and persist when needed. -/
def AwaitingPeerOffer.onPeerOffer (state : AwaitingPeerOffer) (peer : BroadcastKeyOffer)
    (r : BroadcastKeyRegistry) (faults : AdoptFaults) (stores : KeyStores) :
    Except ExchangeError ExchangeOutcome × BroadcastKeyRegistry × KeyStores :=
  match resolveCollision state.localOffer peer with
  | .keepLocal =>
    if state.drawn then
      match r.adopt state.localOffer faults stores with
      | (.error e, r, stores) => (.error (.registry e), r, stores)
      | (.ok (), r, stores) => (.ok .generated, r, stores)
    else (.ok .kept, r, stores)
  | .adoptRemote =>
    match r.adopt peer faults stores with
    | (.error e, r, stores) => (.error (.registry e), r, stores)
    | (.ok (), r, stores) => (.ok .adopted, r, stores)

/-! ### Devices that gossip -/

/-- A device of the account: its registry and the stores of its key. -/
structure Device where
  registry : BroadcastKeyRegistry
  stores : KeyStores

/-- The offer a device holds. -/
def Device.offer (d : Device) :
    Option (Except BroadcastKeyRegistryError (Option BroadcastKeyOffer)) :=
  d.registry.offer none d.stores

/-- A device answers the peer's offer in an exchange it opened, with no failing call. -/
def Device.answer (d : Device) (entropy : Except String AccountBroadcastKey) (now : ℤ)
    (peer : BroadcastKeyOffer) : Device :=
  match openExchange .sameAccount d.registry none d.stores entropy now with
  | some (.ok (state, _)) =>
    let (_, registry, stores) := state.onPeerOffer peer d.registry AdoptFaults.none d.stores
    ⟨registry, stores⟩
  | _ => d

/-- The offer a device opens an exchange with. -/
def Device.opening (d : Device) (entropy : Except String AccountBroadcastKey) (now : ℤ) :
    Option BroadcastKeyOffer :=
  match openExchange .sameAccount d.registry none d.stores entropy now with
  | some (.ok (_, offer)) => some offer
  | _ => none

variable {D : Type*} [DecidableEq D]

/-- One exchange: both devices open, and each answers the offer the other sent. -/
def exchange (entropy : D → Except String AccountBroadcastKey) (now : ℤ)
    (devices : D → Device) (pair : D × D) : D → Device :=
  match (devices pair.1).opening (entropy pair.1) now,
    (devices pair.2).opening (entropy pair.2) now with
  | some o₁, some o₂ => fun d =>
    if d = pair.1 then (devices d).answer (entropy d) now o₂
    else if d = pair.2 then (devices d).answer (entropy d) now o₁
    else devices d
  | _, _ => devices

/-- Exchanges in order. -/
def exchanges (entropy : D → Except String AccountBroadcastKey) (now : ℤ)
    (devices : D → Device) (schedule : List (D × D)) : D → Device :=
  schedule.foldl (exchange entropy now) devices

/-- A device that holds an offer opens with it and ends with the winner. -/
theorem Device.offer_answer {d : Device} {o : BroadcastKeyOffer}
    (h : d.offer = some (.ok (some o))) (entropy : Except String AccountBroadcastKey)
    (now : ℤ) (peer : BroadcastKeyOffer) :
    d.opening entropy now = some o ∧
      (d.answer entropy now peer).offer = some (.ok (some (keep o peer))) := by
  have hopen : openExchange .sameAccount d.registry none d.stores entropy now =
      some (.ok (⟨o, false⟩, o)) := by
    have h' : d.registry.offer none d.stores = some (.ok (some o)) := h
    simp [openExchange, h']
  refine ⟨by simp only [Device.opening, hopen], ?_⟩
  simp only [Device.answer, hopen, AwaitingPeerOffer.onPeerOffer, keep]
  rcases resolveCollision o peer with _ | _
  · exact h
  · exact d.registry.offer_adopt peer d.stores

/-- **One exchange is one meeting**: both devices end with the join of their offers. -/
theorem offer_exchange {devices : D → Device} {held : D → BroadcastKeyOffer}
    (h : ∀ d, (devices d).offer = some (.ok (some (held d))))
    (entropy : D → Except String AccountBroadcastKey) (now : ℤ) (pair : D × D) (d : D) :
    (exchange entropy now devices pair d).offer =
      some (.ok (some (Gossip.meet held pair d))) := by
  obtain ⟨hopen₁, hans₁⟩ := Device.offer_answer (h pair.1) (entropy pair.1) now (held pair.2)
  obtain ⟨hopen₂, hans₂⟩ := Device.offer_answer (h pair.2) (entropy pair.2) now (held pair.1)
  simp only [exchange, hopen₁, hopen₂, Gossip.meet]
  by_cases h₁ : d = pair.1
  · subst h₁
    rw [if_pos rfl, if_pos (Or.inl rfl)]
    exact hans₁
  · by_cases h₂ : d = pair.2
    · subst h₂
      rw [if_neg h₁, if_pos rfl, if_pos (Or.inr rfl), sup_comm]
      exact hans₂
    · rw [if_neg h₁, if_neg h₂, if_neg (not_or.mpr ⟨h₁, h₂⟩)]
      exact h d

/-- Any order of exchanges is a gossip run. -/
theorem offer_exchanges {devices : D → Device} {held : D → BroadcastKeyOffer}
    (h : ∀ d, (devices d).offer = some (.ok (some (held d))))
    (entropy : D → Except String AccountBroadcastKey) (now : ℤ) (schedule : List (D × D))
    (d : D) :
    (exchanges entropy now devices schedule d).offer =
      some (.ok (some (Gossip.run held schedule d))) := by
  induction schedule generalizing devices held with
  | nil => exact h d
  | cons pair schedule ih => exact ih (offer_exchange h entropy now pair)

/-- **Account Broadcast Key gossip converges.** Keeping the winner is commutative,
associative and idempotent on triples. For all devices with arbitrary initial offers and
every order of exchanges, the offer a device holds only moves up; and two devices that
are joined, each way, by a chain of exchanges that covers all devices end with one offer,
which is an initial one that wins or ties against every initial one. -/
theorem gossip_converges (devices : D → Device) (held : D → BroadcastKeyOffer)
    (h : ∀ d, (devices d).offer = some (.ok (some (held d))))
    (entropy : D → Except String AccountBroadcastKey) (now : ℤ) :
    ((∀ a b, keep a b = keep b a) ∧ (∀ a b c, keep (keep a b) c = keep a (keep b c)) ∧
      ∀ a, keep a a = a) ∧
    (∀ before later d, ∃ o o',
      (exchanges entropy now devices before d).offer = some (.ok (some o)) ∧
      (exchanges entropy now devices (before ++ later) d).offer = some (.ok (some o')) ∧
      keep o o' = o' ∧ resolveCollision o' o = .keepLocal) ∧
    (∀ schedule path back a b, Gossip.Carries schedule path → Gossip.Carries schedule back →
      path.head? = some a → path.getLast? = some b → back.head? = some b →
      back.getLast? = some a → (∀ d, d ∈ path) → (∀ d, d ∈ back) →
      ∃ o, (exchanges entropy now devices schedule a).offer = some (.ok (some o)) ∧
        (exchanges entropy now devices schedule b).offer = some (.ok (some o)) ∧
        (∃ d, held d = o) ∧ ∀ d, resolveCollision o (held d) = .keepLocal) := by
  refine ⟨⟨keep_comm, keep_assoc, keep_self⟩, ?_, ?_⟩
  · intro before later d
    have hle := Gossip.le_run (Gossip.run held before) later d
    refine ⟨_, _, offer_exchanges h entropy now before d,
      offer_exchanges h entropy now (before ++ later) d, ?_, ?_⟩
    · rw [Gossip.run_append, ← sup_eq_keep]
      exact sup_eq_right.mpr hle
    · rw [Gossip.run_append]
      exact offer_le_iff_keepLocal.mp hle
  · intro schedule path back a b hpath hback _ hlast _ hlast' hall hall'
    have hb := Gossip.isLUB_of_carries hpath hall hlast held
    have ha := Gossip.isLUB_of_carries hback hall' hlast' held
    have hab : Gossip.run held schedule a = Gossip.run held schedule b := ha.unique hb
    refine ⟨Gossip.run held schedule b, ?_, offer_exchanges h entropy now schedule b, ?_, ?_⟩
    · rw [← hab]
      exact offer_exchanges h entropy now schedule a
    · exact Gossip.run_mem_range keep_choice held schedule b
    · intro d
      exact offer_le_iff_keepLocal.mp (hb.1 ⟨d, rfl⟩)

/-- A device that holds a given offer. -/
def Device.holding (o : BroadcastKeyOffer) : Device :=
  ⟨⟨⟨"", ""⟩, some o.generation, some o.createdAt⟩,
    ⟨some o.key.bytes, some ⟨"", "", o.generation, o.createdAt⟩⟩⟩

/-- It does hold it. -/
theorem Device.offer_holding (o : BroadcastKeyOffer) :
    (Device.holding o).offer = some (.ok (some o)) :=
  BroadcastKeyRegistry.offer_adopt ⟨⟨"", ""⟩, none, none⟩ o ⟨none, none⟩

/-- Thirty-two bytes of zeros. -/
def zeroBroadcastKey : AccountBroadcastKey :=
  ⟨List.replicate 32 0, List.length_replicate⟩

/-- The first two generations are generations. -/
theorem generation_ne_zero : ∀ b : Bool, (if b then 1 else 2 : UInt32) ≠ 0 := by decide

/-- Five seconds after the epoch is a time of creation. -/
theorem five_seconds_pos : (0 : ℤ) < 5 := by decide

/-- The offer of the first generation with the smallest key. -/
def offerAt (seconds : ℤ) (h : 0 < seconds) : BroadcastKeyOffer :=
  ⟨zeroBroadcastKey, 1, seconds, generation_ne_zero true, h⟩

/-- Two devices that meet once agree on the earlier key. -/
theorem gossip_converges_two_devices :
    ∃ o, (exchanges (fun _ => .error "") 9
        (fun d : Bool => Device.holding (offerAt (if d then 5 else 7) (by cases d <;> decide)))
        [(true, false)] true).offer = some (.ok (some o)) ∧
      (exchanges (fun _ => .error "") 9
        (fun d : Bool => Device.holding (offerAt (if d then 5 else 7) (by cases d <;> decide)))
        [(true, false)] false).offer = some (.ok (some o)) := by
  obtain ⟨o, ha, hb, -, -⟩ := (gossip_converges _ _
    (fun d : Bool => Device.offer_holding
      (offerAt (if d then 5 else 7) (by cases d <;> decide))) (fun _ => .error "") 9).2.2
    [(true, false)] [true, false] [false, true] true false
    (.link (Or.inl rfl) (.single _ _)) (.link (Or.inr rfl) (.single _ _)) rfl rfl rfl rfl
    (by decide) (by decide)
  exact ⟨o, ha, hb⟩

end Tradr
