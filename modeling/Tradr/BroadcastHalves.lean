import Tradr.BroadcastExchanges

/-!
# The Two Halves of a Broadcast Key

The Account Broadcast Key is kept in two places, the bytes in a slot of the secret store and
the generation and creation time in a record file. Adopting an offer writes one after the
other, and the process may be killed in between; any number of registries may be loaded, and
each remembers the half of the record it has read.

## Main definitions

* `BroadcastKeyRegistry.load`, `clear`: the calls on the record and the slot.
* `BroadcastKeyRegistry.adoptCalls`: what each call of an `adopt` leaves, for a process that
  is killed after any of them.
* `KeyHolder.step`: one call on the registries of an account, or the end of the process.
* `KeyHolder.Fits`: what stays beside a key that is written was adopted with it.

## Main results

* `KeyHolder.adoptAt_eq`: what an `adopt` leaves, whatever fails and whenever it is killed.
* `KeyHolder.unmixed_iff_fits`: the halves of different offers are never paired exactly when
  every step fits.
* `KeyHolder.killed_adopt_mixes_halves`: a process that is killed pairs them.
-/

namespace Tradr

deriving instance DecidableEq for AccountBroadcastKey, BroadcastKeyOffer

/-! ### Calls on the two halves -/

namespace BroadcastKeyRegistry

/-- Load the registry of an account from its record. -/
def load (account : AccountId) (readFault : Option String)
    (record : Option AccountBroadcastKeyRecord) :
    Except BroadcastKeyRegistryError BroadcastKeyRegistry :=
  match readFault with
  | some e => .error (.io e)
  | none =>
    match record with
    | none => .ok ⟨account, none, none⟩
    | some record =>
      if record.accountIss ≠ account.iss ∨ record.accountSub ≠ account.sub then
        .error .wrongAccount
      else if record.generation = 0 then .error (.malformed "generation must be non-zero")
      else if record.createdAt ≤ 0 then
        .error (.malformed "created_at must be after the Unix epoch")
      else .ok ⟨account, some record.generation, some record.createdAt⟩

/-- What is in the stores after each call an `adopt` makes, in order. -/
def adoptCalls (r : BroadcastKeyRegistry) (offer : BroadcastKeyOffer) (faults : AdoptFaults)
    (stores : KeyStores) : List KeyStores :=
  match faults.load with
  | some _ => [stores]
  | none =>
    match faults.store with
    | some _ => [stores, stores]
    | none =>
      let stored := { stores with secret := some offer.key.bytes }
      match faults.persist with
      | some _ => [stores, stored, stored, (r.adopt offer faults stores).2.2]
      | none => [stores, stored, (r.adopt offer faults stores).2.2]

/-- What an `adopt` leaves when the process is killed after some of its calls. -/
def adoptKilled (r : BroadcastKeyRegistry) (offer : BroadcastKeyOffer) (faults : AdoptFaults)
    (calls : ℕ) (stores : KeyStores) : KeyStores :=
  ((r.adoptCalls offer faults stores).take calls).getLastD stores

/-- After its last call an `adopt` has done what it does. -/
theorem getLast_adoptCalls (r : BroadcastKeyRegistry) (offer : BroadcastKeyOffer)
    (faults : AdoptFaults) (stores : KeyStores) :
    (r.adoptCalls offer faults stores).getLast? = some (r.adopt offer faults stores).2.2 := by
  unfold adoptCalls adopt
  rcases faults with ⟨_ | e, _ | e, _ | e, _ | e⟩ <;> rfl

/-- Which of the calls a `clear` makes fail. -/
structure ClearFaults where
  remove : Option String
  removeFile : Option String

/-- Discard the secret, then the record. -/
def clear (faults : ClearFaults) (stores : KeyStores) :
    Except BroadcastKeyRegistryError Unit × KeyStores :=
  match faults.remove with
  | some e => (.error (.secret e), stores)
  | none =>
    match faults.removeFile with
    | some e => (.error (.io e), { stores with secret := none })
    | none => (.ok (), ⟨none, none⟩)

/-- What is in the stores after each call a `clear` makes, in order. -/
def clearCalls (faults : ClearFaults) (stores : KeyStores) : List KeyStores :=
  match faults.remove with
  | some _ => [stores]
  | none => [{ stores with secret := none }, (clear faults stores).2]

/-- What a `clear` leaves when the process is killed after some of its calls. -/
def clearKilled (faults : ClearFaults) (calls : ℕ) (stores : KeyStores) : KeyStores :=
  ((clearCalls faults stores).take calls).getLastD stores

/-- However far a `clear` gets, it changes nothing or the secret is gone. -/
theorem clearKilled_cases (faults : ClearFaults) (calls : ℕ) (stores : KeyStores) :
    clearKilled faults calls stores = stores ∨
      (clearKilled faults calls stores).secret = none ∧
        ((clearKilled faults calls stores).record = stores.record ∨
          (clearKilled faults calls stores).record = none) := by
  unfold clearKilled clearCalls clear
  rcases faults with ⟨_ | e, _ | e⟩ <;> rcases calls with _ | _ | calls <;> simp

theorem clear_cases (faults : ClearFaults) (stores : KeyStores) :
    (clear faults stores).2 = stores ∨ (clear faults stores).2.secret = none ∧
      ((clear faults stores).2.record = stores.record ∨ (clear faults stores).2.record = none) := by
  unfold clear
  rcases faults with ⟨_ | e, _ | e⟩ <;> simp

/-- What a registry remembers passes the check of an offer. -/
structure Valid (r : BroadcastKeyRegistry) : Prop where
  generation : ∀ g ∈ r.generation, g ≠ 0
  createdAt : ∀ c ∈ r.createdAt, 0 < c

/-- A registry that remembers a record offers it with the key in the slot. -/
theorem offer_eq {r : BroadcastKeyRegistry} (hr : r.Valid) {stores : KeyStores}
    {key : AccountBroadcastKey} {g : UInt32} {c : ℤ} (hg : r.generation = some g)
    (hc : r.createdAt = some c) (hsecret : stores.secret = some key.bytes) :
    r.offer none stores =
      some (.ok (some ⟨key, g, c, hr.generation g hg, hr.createdAt c hc⟩)) := by
  have hkey : AccountBroadcastKey.fromBytes key.bytes = .ok key := by
    unfold AccountBroadcastKey.fromBytes
    rw [dif_pos key.length_bytes]
  have hnew := BroadcastKeyOffer.new_self ⟨key, g, c, hr.generation g hg, hr.createdAt c hc⟩
  unfold offer
  rw [hg, hc]
  dsimp only
  rw [hsecret]
  dsimp only
  rw [hkey]
  dsimp only at hnew ⊢
  rw [hnew]

/-- **Asking for the offer of such a registry never panics.** -/
theorem offer_ne_none {r : BroadcastKeyRegistry} (hr : r.Valid) (loadFault : Option String)
    (stores : KeyStores) : r.offer loadFault stores ≠ none := by
  unfold offer
  split
  · rename_i g c hg hc
    split
    · rintro ⟨⟩
    split
    · rintro ⟨⟩
    split
    · rintro ⟨⟩
    rename_i key hkey
    rw [BroadcastKeyOffer.new, dif_neg (hr.generation g hg),
      dif_neg (not_le.mpr (hr.createdAt c hc))]
    rintro ⟨⟩
  · rintro ⟨⟩

/-- What is loaded remembers the record, which belongs to the account. -/
theorem load_eq_ok {account : AccountId} {readFault : Option String}
    {record : Option AccountBroadcastKeyRecord} {r : BroadcastKeyRegistry}
    (h : load account readFault record = .ok r) :
    r.Valid ∧ r.account = account ∧ r.generation = record.map (·.generation) ∧
      r.createdAt = record.map (·.createdAt) := by
  unfold load at h
  rcases readFault with _ | e
  · rcases record with _ | record
    · obtain rfl := Except.ok.inj h
      exact ⟨⟨nofun, nofun⟩, rfl, rfl, rfl⟩
    · dsimp only at h
      split_ifs at h with haccount hgeneration hcreatedAt
      obtain rfl := Except.ok.inj h
      refine ⟨⟨?_, ?_⟩, rfl, rfl, rfl⟩
      · rintro g ⟨⟩
        exact hgeneration
      · rintro c ⟨⟩
        exact not_le.mp hcreatedAt
  · cases h

end BroadcastKeyRegistry

/-- The record was written for an account, from an offer. -/
structure AccountBroadcastKeyRecord.ValidFor (account : AccountId)
    (record : AccountBroadcastKeyRecord) : Prop where
  iss : record.accountIss = account.iss
  sub : record.accountSub = account.sub
  generation : record.generation ≠ 0
  createdAt : 0 < record.createdAt

/-- Such a record is loaded. -/
theorem AccountBroadcastKeyRecord.ValidFor.load_eq {account : AccountId}
    {record : AccountBroadcastKeyRecord} (h : record.ValidFor account) :
    BroadcastKeyRegistry.load account none (some record) =
      .ok ⟨account, some record.generation, some record.createdAt⟩ := by
  unfold BroadcastKeyRegistry.load
  dsimp only
  rw [if_neg (by simp [h.iss, h.sub]), if_neg h.generation, if_neg (not_le.mpr h.createdAt)]

/-! ### How an `adopt` ends -/

/-- What an `adopt` leaves of the two halves. -/
inductive AdoptEnd
  | untouched
  | torn
  | whole
  deriving DecidableEq

instance (faults : AdoptFaults) : Decidable faults.Written :=
  inferInstanceAs (Decidable (_ ∧ _ ∧ _))

/-- How an `adopt` ends, by the calls that fail and the calls after which the process is
killed: it loads the secret, stores the new one, writes the record and, if that fails, puts the
secret back. -/
def AdoptFaults.ending (faults : AdoptFaults) (kill : Option ℕ) : AdoptEnd :=
  if faults.load.isSome ∨ faults.store.isSome ∨ kill.getD 4 < 2 then .untouched
  else if kill.getD 4 < 3 then .torn
  else if faults.persist.isNone then .whole
  else if kill.getD 4 < 4 ∨ faults.restore.isSome then .torn
  else .untouched

/-- The registries of an account that are loaded, the two halves, and the offers of which one
call has written both. -/
structure KeyHolder where
  registries : List BroadcastKeyRegistry
  stores : KeyStores
  adopted : List BroadcastKeyOffer

/-- What is called on the registries of an account. Where a call writes, `kill` is the number
of its own calls after which the process is killed. -/
inductive KeyAction
  | load (readFault : Option String)
  | generate (index : ℕ) (entropy : Except String AccountBroadcastKey) (now : ℤ)
    (faults : AdoptFaults) (kill : Option ℕ)
  | adopt (index : ℕ) (offer : BroadcastKeyOffer) (faults : AdoptFaults) (kill : Option ℕ)
  | offer (index : ℕ) (loadFault : Option String)
  | clear (faults : BroadcastKeyRegistry.ClearFaults) (kill : Option ℕ)
  | kill

/-- What is answered; the answer to an `offer` is `none` when it panics. -/
inductive KeyAnswer
  | loaded (result : Except BroadcastKeyRegistryError Unit)
  | generated (result : Except BroadcastKeyRegistryError BroadcastKeyOffer)
  | adopted (result : Except BroadcastKeyRegistryError Unit)
  | offered (result : Option (Except BroadcastKeyRegistryError (Option BroadcastKeyOffer)))
  | cleared (result : Except BroadcastKeyRegistryError Unit)
  | killed
  | noRegistry

namespace KeyHolder

variable {account : AccountId} {s : KeyHolder}

/-- An account of which nothing is recorded, whatever the slot holds. -/
def start (secret : Option (List UInt8)) : KeyHolder := ⟨[], ⟨secret, none⟩, []⟩

/-- Adopt an offer with a loaded registry. -/
def adoptAt (s : KeyHolder) (index : ℕ) (r : BroadcastKeyRegistry) (offer : BroadcastKeyOffer)
    (faults : AdoptFaults) (kill : Option ℕ) :
    Option (Except BroadcastKeyRegistryError Unit) × KeyHolder :=
  let adopted := if faults.Written ∧ 3 ≤ kill.getD 4 then offer :: s.adopted else s.adopted
  match kill with
  | some calls => (none, ⟨[], r.adoptKilled offer faults calls s.stores, adopted⟩)
  | none =>
    match r.adopt offer faults s.stores with
    | (result, r, stores) => (some result, ⟨s.registries.set index r, stores, adopted⟩)

/-- The process is killed. -/
def die (s : KeyHolder) : KeyHolder := { s with registries := [] }

/-- One call, or the end of the process. -/
def step (account : AccountId) (s : KeyHolder) : KeyAction → KeyAnswer × KeyHolder
  | .load readFault =>
    match BroadcastKeyRegistry.load account readFault s.stores.record with
    | .ok r => (.loaded (.ok ()), { s with registries := s.registries ++ [r] })
    | .error e => (.loaded (.error e), s)
  | .generate index entropy now faults kill =>
    match s.registries[index]? with
    | none => (.noRegistry, s)
    | some r =>
      match r.draw entropy now with
      | .error e => if kill.isSome then (.killed, s.die) else (.generated (.error e), s)
      | .ok offer =>
        match s.adoptAt index r offer faults kill with
        | (none, s) => (.killed, s)
        | (some (.error e), s) => (.generated (.error e), s)
        | (some (.ok ()), s) => (.generated (.ok offer), s)
  | .adopt index offer faults kill =>
    match s.registries[index]? with
    | none => (.noRegistry, s)
    | some r =>
      match s.adoptAt index r offer faults kill with
      | (none, s) => (.killed, s)
      | (some result, s) => (.adopted result, s)
  | .offer index loadFault =>
    match s.registries[index]? with
    | none => (.noRegistry, s)
    | some r => (.offered (r.offer loadFault s.stores), s)
  | .clear faults kill =>
    match kill with
    | some calls =>
      (.killed, ⟨[], BroadcastKeyRegistry.clearKilled faults calls s.stores, s.adopted⟩)
    | none =>
      match BroadcastKeyRegistry.clear faults s.stores with
      | (result, stores) => (.cleared result, { s with stores })
  | .kill => (.killed, s.die)

/-- A `generate` that is not killed does what the registry does. -/
theorem step_generate {index : ℕ} {r : BroadcastKeyRegistry} (hr : s.registries[index]? = some r)
    (entropy : Except String AccountBroadcastKey) (now : ℤ) (faults : AdoptFaults) :
    (s.step account (.generate index entropy now faults none)).1 =
        .generated (r.generate entropy now faults s.stores).1 ∧
      (s.step account (.generate index entropy now faults none)).2.stores =
        (r.generate entropy now faults s.stores).2.2 := by
  unfold step BroadcastKeyRegistry.generate
  dsimp only
  rw [hr]
  dsimp only
  rcases r.draw entropy now with e | offer
  · exact ⟨rfl, rfl⟩
  · unfold adoptAt
    dsimp only
    rcases r.adopt offer faults s.stores with ⟨e | _, r', stores⟩ <;> exact ⟨rfl, rfl⟩

/-- **What an `adopt` leaves**, whatever fails and whenever it is killed. -/
theorem adoptAt_eq {index : ℕ} {r : BroadcastKeyRegistry} (hr : s.registries[index]? = some r)
    (offer : BroadcastKeyOffer) (faults : AdoptFaults) (kill : Option ℕ) :
    (s.adoptAt index r offer faults kill).2 =
      match faults.ending kill with
      | .untouched => { s with registries := if kill.isSome then [] else s.registries }
      | .torn =>
        { s with
          registries := if kill.isSome then [] else s.registries
          stores := { s.stores with secret := some offer.key.bytes } }
      | .whole =>
        ⟨if kill.isSome then []
          else s.registries.set index
            { r with generation := some offer.generation, createdAt := some offer.createdAt },
          ⟨some offer.key.bytes,
            some ⟨r.account.iss, r.account.sub, offer.generation, offer.createdAt⟩⟩,
          offer :: s.adopted⟩ := by
  have hset : s.registries.set index r = s.registries := by
    obtain ⟨hlt, rfl⟩ := List.getElem?_eq_some_iff.mp hr
    exact List.set_getElem_self hlt
  unfold adoptAt BroadcastKeyRegistry.adoptKilled BroadcastKeyRegistry.adoptCalls
    BroadcastKeyRegistry.adopt AdoptFaults.ending AdoptFaults.Written
  have hmany : ∀ calls : ℕ, ¬calls + 1 + 1 + 1 + 1 < 2 ∧ ¬calls + 1 + 1 + 1 + 1 < 3 ∧
      ¬calls + 1 + 1 + 1 + 1 < 4 ∧ 3 ≤ calls + 1 + 1 + 1 + 1 := by omega
  rcases faults with ⟨_ | e, _ | e, _ | e, _ | e⟩ <;>
    rcases kill with _ | _ | _ | _ | _ | calls <;> simp [hset, hmany]

/-! ### Halves of one offer -/

/-- A generation and a creation time were adopted together with a key. -/
def Together (adopted : List BroadcastKeyOffer) (key : List UInt8) (generation : Option UInt32)
    (createdAt : Option ℤ) : Prop :=
  ∀ g ∈ generation, ∀ c ∈ createdAt, ∃ o ∈ adopted,
    o.key.bytes = key ∧ o.generation = g ∧ o.createdAt = c

/-- What a record holds was adopted together with a key. -/
def RecordFits (adopted : List BroadcastKeyOffer) (key : List UInt8)
    (record : Option AccountBroadcastKeyRecord) : Prop :=
  Together adopted key (record.map (·.generation)) (record.map (·.createdAt))

/-- What a registry remembers was adopted together with a key. -/
def RegistryFits (adopted : List BroadcastKeyOffer) (key : List UInt8)
    (r : BroadcastKeyRegistry) : Prop :=
  Together adopted key r.generation r.createdAt

/-- **What stays beside the key of an offer was adopted together with it**: the record, if the
key is written and the record is not, and what the registries remember which stay loaded. -/
def AdoptFits (s : KeyHolder) (index : ℕ) (offer : BroadcastKeyOffer) (faults : AdoptFaults)
    (kill : Option ℕ) : Prop :=
  match faults.ending kill with
  | .untouched => True
  | .torn =>
    RecordFits s.adopted offer.key.bytes s.stores.record ∧
      (kill = none → ∀ r ∈ s.registries, RegistryFits s.adopted offer.key.bytes r)
  | .whole =>
    kill = none → ∀ j r, j ≠ index → s.registries[j]? = some r →
      RegistryFits (offer :: s.adopted) offer.key.bytes r

/-- The offer a call writes fits what stays beside it. -/
def Fits (s : KeyHolder) : KeyAction → Prop
  | .adopt index offer faults kill =>
    index < s.registries.length → s.AdoptFits index offer faults kill
  | .generate index entropy now faults kill =>
    ∀ r offer, s.registries[index]? = some r → r.draw entropy now = .ok offer →
      s.AdoptFits index offer faults kill
  | _ => True

/-- **No registry offers the halves of different offers**, of those that are loaded and the one
that would be loaded now. -/
def Unmixed (account : AccountId) (s : KeyHolder) : Prop :=
  ∀ r, r ∈ s.registries ∨ BroadcastKeyRegistry.load account none s.stores.record = .ok r →
    ∀ loadFault o, r.offer loadFault s.stores = some (.ok (some o)) → o ∈ s.adopted

/-- What holds of the registries and the record in every run. -/
structure Sound (account : AccountId) (s : KeyHolder) : Prop where
  registries : ∀ r ∈ s.registries, r.Valid ∧ r.account = account
  record : ∀ record ∈ s.stores.record, record.ValidFor account

/-- The record and the registries fit the key in the slot. -/
structure AllFit (s : KeyHolder) : Prop where
  record : ∀ key ∈ s.stores.secret, RecordFits s.adopted key s.stores.record
  registries : ∀ key ∈ s.stores.secret, ∀ r ∈ s.registries, RegistryFits s.adopted key r

/-- Where everything fits, nothing is mixed. -/
theorem AllFit.unmixed (h : s.AllFit) : s.Unmixed account := by
  intro r hr loadFault o ho
  obtain ⟨hg, hc, hsecret⟩ := BroadcastKeyRegistry.offer_eq_ok ho
  have hfits : RegistryFits s.adopted o.key.bytes r := by
    rcases hr with hr | hr
    · exact h.registries _ hsecret r hr
    · obtain ⟨-, -, hg', hc'⟩ := BroadcastKeyRegistry.load_eq_ok hr
      unfold RegistryFits
      rw [hg', hc']
      exact h.record _ hsecret
  obtain ⟨o', ho', hkey, hgeneration, hcreatedAt⟩ := hfits _ hg _ hc
  obtain rfl : o' = o := BroadcastKeyOffer.ext_triple hgeneration hcreatedAt hkey
  exact ho'

/-- Where nothing is mixed, everything fits a key in the slot. -/
theorem Unmixed.fits (h : s.Unmixed account) (hs : s.Sound account) {key : AccountBroadcastKey}
    (hsecret : s.stores.secret = some key.bytes) :
    RecordFits s.adopted key.bytes s.stores.record ∧
      ∀ r ∈ s.registries, RegistryFits s.adopted key.bytes r := by
  have hall : ∀ r, r.Valid →
      (r ∈ s.registries ∨ BroadcastKeyRegistry.load account none s.stores.record = .ok r) →
      RegistryFits s.adopted key.bytes r := by
    intro r hr hmem g hg c hc
    have ho := BroadcastKeyRegistry.offer_eq hr hg hc hsecret
    exact ⟨_, h r hmem none _ ho, rfl, rfl, rfl⟩
  constructor
  · rcases hrecord : s.stores.record with _ | record
    · exact nofun
    · have hload := (hs.record record hrecord).load_eq
      rw [← hrecord] at hload
      exact hall _ (BroadcastKeyRegistry.load_eq_ok hload).1 (.inr hload)
  · intro r hr
    exact hall r (hs.registries r hr).1 (.inl hr)

/-- An offer fits itself. -/
theorem together_self (offer : BroadcastKeyOffer) (adopted : List BroadcastKeyOffer) :
    Together (offer :: adopted) offer.key.bytes (some offer.generation) (some offer.createdAt) := by
  rintro g ⟨⟩ c ⟨⟩
  exact ⟨offer, List.mem_cons_self, rfl, rfl, rfl⟩

section Adopting

variable {index : ℕ} {r : BroadcastKeyRegistry} (offer : BroadcastKeyOffer) (faults : AdoptFaults)
  (kill : Option ℕ)

/-- Adopting an offer keeps the registries and the record sound. -/
theorem Sound.adoptAt (hs : s.Sound account) (hr : s.registries[index]? = some r) :
    (s.adoptAt index r offer faults kill).2.Sound account := by
  have hstay : ∀ x ∈ (if kill.isSome then [] else s.registries), x.Valid ∧ x.account = account := by
    intro x hx
    split_ifs at hx
    · cases hx
    · exact hs.registries x hx
  obtain ⟨hvalid, haccount⟩ := hs.registries r (List.mem_of_getElem? hr)
  rw [adoptAt_eq hr]
  rcases faults.ending kill with _ | _ | _
  · exact ⟨hstay, hs.record⟩
  · exact ⟨hstay, hs.record⟩
  · have hnew : BroadcastKeyRegistry.Valid
        { r with generation := some offer.generation, createdAt := some offer.createdAt } := by
      constructor
      · rintro g ⟨⟩
        exact offer.generation_ne_zero
      · rintro c ⟨⟩
        exact offer.createdAt_pos
    refine ⟨?_, ?_⟩
    · intro x hx
      dsimp only at hx
      split_ifs at hx
      · cases hx
      · rcases List.mem_or_eq_of_mem_set hx with hx | rfl
        · exact hs.registries x hx
        · exact ⟨hnew, haccount⟩
    · rintro record ⟨⟩
      exact ⟨congrArg AccountId.iss haccount, congrArg AccountId.sub haccount,
        offer.generation_ne_zero, offer.createdAt_pos⟩

/-- Adopting an offer that fits keeps everything fitting. -/
theorem AllFit.adoptAt (h : s.AllFit) (hr : s.registries[index]? = some r)
    (hfits : s.AdoptFits index offer faults kill) :
    (s.adoptAt index r offer faults kill).2.AllFit := by
  unfold AdoptFits at hfits
  rw [adoptAt_eq hr]
  generalize faults.ending kill = ending at hfits ⊢
  rcases ending with _ | _ | _
  · refine ⟨h.record, ?_⟩
    intro key hkey x hx
    dsimp only at hx
    split_ifs at hx
    · cases hx
    · exact h.registries key hkey x hx
  · obtain ⟨hrecord, hregistries⟩ := hfits
    constructor
    · rintro key ⟨⟩
      exact hrecord
    · rintro key ⟨⟩ x hx
      rcases kill with _ | calls
      · exact hregistries rfl x hx
      · cases hx
  · constructor
    · rintro key ⟨⟩
      exact together_self offer s.adopted
    · rintro key ⟨⟩ x hx
      rcases kill with _ | calls
      · obtain ⟨j, hj⟩ := List.mem_iff_getElem?.mp hx
        dsimp only at hj
        by_cases hji : j = index
        · subst hji
          rw [if_neg nofun, List.getElem?_set_self (List.getElem?_eq_some_iff.mp hr).1] at hj
          obtain rfl := Option.some.inj hj
          exact together_self offer s.adopted
        · rw [if_neg nofun, List.getElem?_set_ne (Ne.symm hji)] at hj
          exact hfits rfl j x hji hj
      · cases hx

/-- An offer that does not fit mixes the halves when it is adopted. -/
theorem adoptFits_of_unmixed (hs : s.Sound account) (hr : s.registries[index]? = some r)
    (h : (s.adoptAt index r offer faults kill).2.Unmixed account) :
    s.AdoptFits index offer faults kill := by
  have hsound := hs.adoptAt offer faults kill hr
  unfold AdoptFits
  rw [adoptAt_eq hr] at h hsound
  generalize faults.ending kill = ending at h hsound ⊢
  rcases ending with _ | _ | _
  · trivial
  · obtain ⟨hrecord, hregistries⟩ := h.fits hsound rfl
    refine ⟨hrecord, ?_⟩
    rintro rfl
    exact hregistries
  · obtain ⟨-, hregistries⟩ := h.fits hsound rfl
    rintro rfl j x hji hj
    refine hregistries x (List.mem_iff_getElem?.mpr ⟨j, ?_⟩)
    exact (List.getElem?_set_ne (Ne.symm hji)).trans hj

end Adopting

/-! ### Whole runs -/

/-- What a step can do. -/
inductive Effect (account : AccountId) (s : KeyHolder) (a : KeyAction) : KeyHolder → Prop
  | same (hfits : s.Fits a) : Effect account s a s
  | loaded {readFault : Option String} {r : BroadcastKeyRegistry} (hfits : s.Fits a)
    (hload : BroadcastKeyRegistry.load account readFault s.stores.record = .ok r) :
    Effect account s a { s with registries := s.registries ++ [r] }
  | adopting {index : ℕ} {r : BroadcastKeyRegistry} {offer : BroadcastKeyOffer}
    {faults : AdoptFaults} {kill : Option ℕ} (hr : s.registries[index]? = some r)
    (hfits : s.Fits a ↔ s.AdoptFits index offer faults kill) :
    Effect account s a (s.adoptAt index r offer faults kill).2
  | dropped {registries : List BroadcastKeyRegistry} {stores : KeyStores} (hfits : s.Fits a)
    (hsub : registries ⊆ s.registries) (hstores : stores = s.stores ∨ stores.secret = none ∧
      (stores.record = s.stores.record ∨ stores.record = none)) :
    Effect account s a ⟨registries, stores, s.adopted⟩

/-- **Every step has one of these effects.** -/
theorem effect_step (account : AccountId) (s : KeyHolder) (a : KeyAction) :
    Effect account s a (s.step account a).2 := by
  cases a with
  | load readFault =>
      unfold step
      dsimp only
      rcases hload : BroadcastKeyRegistry.load account readFault s.stores.record with e | r
      · exact .same trivial
      · exact .loaded trivial hload
  | generate index entropy now faults kill =>
      unfold step
      dsimp only
      rcases hr : s.registries[index]? with _ | r
      · refine .same ?_
        intro r offer hr'
        cases hr.symm.trans hr'
      dsimp only
      rcases hdraw : r.draw entropy now with e | offer
      · have hfits : s.Fits (.generate index entropy now faults kill) := by
          intro r' offer hr' hdraw'
          obtain rfl := Option.some.inj (hr.symm.trans hr')
          cases hdraw.symm.trans hdraw'
        dsimp only
        split_ifs
        · exact .dropped hfits (List.nil_subset _) (.inl rfl)
        · exact .same hfits
      · have hfits : s.Fits (.generate index entropy now faults kill) ↔
            s.AdoptFits index offer faults kill := by
          constructor
          · intro h
            exact h r offer hr hdraw
          · intro h r' offer' hr' hdraw'
            obtain rfl := Option.some.inj (hr.symm.trans hr')
            obtain rfl := Except.ok.inj (hdraw.symm.trans hdraw')
            exact h
        have heffect : Effect account s (.generate index entropy now faults kill)
          (s.adoptAt index r offer faults kill).2 := .adopting hr hfits
        dsimp only
        generalize s.adoptAt index r offer faults kill = answer at heffect ⊢
        rcases answer with ⟨_ | e | _, s'⟩ <;> exact heffect
  | adopt index offer faults kill =>
      unfold step
      dsimp only
      rcases hr : s.registries[index]? with _ | r
      · refine .same ?_
        intro hlt
        exact absurd hlt (not_lt.mpr (List.getElem?_eq_none_iff.mp hr))
      have hlt : index < s.registries.length := (List.getElem?_eq_some_iff.mp hr).1
      have heffect : Effect account s (.adopt index offer faults kill)
        (s.adoptAt index r offer faults kill).2 := .adopting hr ⟨fun h => h hlt, fun h _ => h⟩
      dsimp only
      generalize s.adoptAt index r offer faults kill = answer at heffect ⊢
      rcases answer with ⟨_ | _, s'⟩ <;> exact heffect
  | offer index loadFault =>
      unfold step
      dsimp only
      rcases s.registries[index]? with _ | r <;> exact .same trivial
  | clear faults kill =>
      rcases kill with _ | calls
      · exact .dropped trivial (List.Subset.refl _)
          (BroadcastKeyRegistry.clear_cases faults s.stores)
      · exact .dropped trivial (List.nil_subset _)
          (BroadcastKeyRegistry.clearKilled_cases faults calls s.stores)
  | kill => exact .dropped trivial (List.nil_subset _) (.inl rfl)

/-- Everything stays sound. -/
theorem Sound.effect {s' : KeyHolder} {a : KeyAction} (hs : s.Sound account)
    (h : Effect account s a s') : s'.Sound account := by
  cases h with
  | same => exact hs
  | loaded hfits hload =>
      obtain ⟨hvalid, haccount, -⟩ := BroadcastKeyRegistry.load_eq_ok hload
      refine ⟨?_, hs.record⟩
      intro x hx
      rcases List.mem_append.mp hx with hx | hx
      · exact hs.registries x hx
      · obtain rfl := List.mem_singleton.mp hx
        exact ⟨hvalid, haccount⟩
  | adopting hr => exact hs.adoptAt _ _ _ hr
  | dropped hfits hsub hstores =>
      refine ⟨fun r hr => hs.registries r (hsub hr), ?_⟩
      intro record hrecord
      rcases hstores with rfl | ⟨-, hsame | hgone⟩
      · exact hs.record record hrecord
      · exact hs.record record (hsame ▸ hrecord)
      · exact absurd (hgone ▸ hrecord) nofun

/-- A step that fits keeps everything fitting. -/
theorem AllFit.effect {s' : KeyHolder} {a : KeyAction} (h : s.AllFit)
    (heffect : Effect account s a s') (hfits : s.Fits a) : s'.AllFit := by
  cases heffect with
  | same => exact h
  | loaded _ hload =>
      obtain ⟨-, -, hg, hc⟩ := BroadcastKeyRegistry.load_eq_ok hload
      refine ⟨h.record, ?_⟩
      intro key hkey x hx
      rcases List.mem_append.mp hx with hx | hx
      · exact h.registries key hkey x hx
      · obtain rfl := List.mem_singleton.mp hx
        unfold RegistryFits
        rw [hg, hc]
        exact h.record key hkey
  | adopting hr hiff => exact h.adoptAt _ _ _ hr (hiff.mp hfits)
  | dropped _ hsub hstores =>
      rcases hstores with rfl | ⟨hgone, -⟩
      · exact ⟨h.record, fun key hkey r hr => h.registries key hkey r (hsub hr)⟩
      · constructor
        · intro key hkey
          exact absurd (hgone ▸ hkey) nofun
        · intro key hkey
          exact absurd (hgone ▸ hkey) nofun

/-- A step that does not fit mixes the halves. -/
theorem fits_of_unmixed {s' : KeyHolder} {a : KeyAction} (hs : s.Sound account)
    (heffect : Effect account s a s') (h : s'.Unmixed account) : s.Fits a := by
  cases heffect with
  | same hfits => exact hfits
  | loaded hfits => exact hfits
  | adopting hr hiff => exact hiff.mpr (adoptFits_of_unmixed _ _ _ hs hr h)
  | dropped hfits => exact hfits

/-- An `adopt` that fails, unless it could not put the secret back, changes nothing. -/
theorem adopt_error_eq {index : ℕ} {offer : BroadcastKeyOffer} {faults : AdoptFaults}
    {e : BroadcastKeyRegistryError}
    (h : (s.step account (.adopt index offer faults none)).1 = .adopted (.error e))
    (he : ∀ persist restore, e ≠ .secretRollbackFailed persist restore) :
    (s.step account (.adopt index offer faults none)).2 = s := by
  unfold step at h ⊢
  dsimp only at h ⊢
  rcases hr : s.registries[index]? with _ | r
  · rfl
  have hadopt := adoptAt_eq hr offer faults none
  rw [hr] at h
  unfold adoptAt at h hadopt ⊢
  dsimp only at h hadopt ⊢
  unfold BroadcastKeyRegistry.adopt at h hadopt ⊢
  rcases faults with ⟨_ | _, _ | _, _ | _, _ | restore⟩
  case none.none.none.none | none.none.none.some => cases h
  case none.none.some.some =>
    cases h
    exact absurd rfl (he _ restore)
  all_goals exact hadopt

/-- **When the halves of a broadcast key are mixed.** Whatever calls are made on the registries
of an account, whichever of them fail and whenever the process is killed: in all states of the
run every registry, loaded or to be loaded, offers only what one call has written as a whole,
exactly when each offer that is written fits what stays beside it. In any case asking for the
offer never panics, and an `adopt` that fails without failing to put the secret back changes
nothing. -/
theorem unmixed_iff_fits (account : AccountId) (secret : Option (List UInt8))
    (actions : List KeyAction) :
    ((∀ n, (Machine.run (step account) (start secret) (actions.take n)).2.Unmixed account) ↔
      Machine.Allows (step account) Fits (start secret) actions) ∧
    let s := (Machine.run (step account) (start secret) actions).2
    (∀ r, r ∈ s.registries ∨ BroadcastKeyRegistry.load account none s.stores.record = .ok r →
      ∀ loadFault, r.offer loadFault s.stores ≠ none) ∧
    ∀ index offer faults e,
      (s.step account (.adopt index offer faults none)).1 = .adopted (.error e) →
      (∀ persist restore, e ≠ .secretRollbackFailed persist restore) →
      (s.step account (.adopt index offer faults none)).2 = s := by
  have hstart : (start secret).Sound account := ⟨nofun, nofun⟩
  refine ⟨?_, ?_, fun _ _ _ _ => adopt_error_eq⟩
  · refine Machine.forall_take_iff_allows (step account)
      (I := fun s => s.Sound account ∧ s.AllFit) ?_ ?_ ?_ ⟨hstart, ?_⟩ actions
    · rintro s ⟨-, hfit⟩
      exact hfit.unmixed
    · rintro s a ⟨hs, hfit⟩ ha
      have heffect := effect_step account s a
      exact ⟨hs.effect heffect, hfit.effect heffect ha⟩
    · rintro s a ⟨hs, -⟩ ha hunmixed
      exact ha (fits_of_unmixed hs (effect_step account s a) hunmixed)
    · exact ⟨fun _ _ => nofun, fun _ _ _ hr => absurd hr List.not_mem_nil⟩
  · have hs := Machine.run_invariant (step account) (I := fun _ s => s.Sound account) hstart
      (fun _ s a hs => hs.effect (effect_step account s a)) actions
    intro r hr loadFault
    refine BroadcastKeyRegistry.offer_ne_none ?_ loadFault _
    rcases hr with hr | hr
    · exact (hs.registries r hr).1
    · exact (BroadcastKeyRegistry.load_eq_ok hr).1

/-! ### Killed between the halves -/

/-- An offer of a key of equal bytes. -/
def offerOf (b : UInt8) (generation : UInt32) (h : generation ≠ 0) (createdAt : ℤ)
    (h' : 0 < createdAt) : BroadcastKeyOffer :=
  ⟨⟨List.replicate 32 b, rfl⟩, generation, createdAt, h, h'⟩

/-- The first key. -/
def firstOffer : BroadcastKeyOffer := offerOf 1 1 (generation_ne_zero true) 5 five_seconds_pos

/-- The key it is rotated to. -/
def secondOffer : BroadcastKeyOffer := offerOf 2 2 (generation_ne_zero false) 9 (by decide)

/-- The second key is stored and the process killed before its record is written. -/
def killedRotation : List KeyAction :=
  [.load none, .adopt 0 firstOffer .none none, .adopt 0 secondOffer .none (some 2), .load none]

/-- **A process that is killed pairs the halves**: after the reload the second key is offered
with the generation and the creation time of the first. -/
theorem killed_adopt_mixes_halves :
    ∃ o, ((Machine.run (step ⟨"iss", "sub"⟩) (start none) killedRotation).2.step ⟨"iss", "sub"⟩
        (.offer 0 none)).1 = .offered (some (.ok (some o))) ∧
      o.key = secondOffer.key ∧ o.generation = firstOffer.generation ∧
      o.createdAt = firstOffer.createdAt ∧ o ≠ firstOffer ∧ o ≠ secondOffer ∧
      o ∉ (Machine.run (step ⟨"iss", "sub"⟩) (start none) killedRotation).2.adopted :=
  ⟨offerOf 2 1 (by decide) 5 (by decide), rfl, rfl, rfl, rfl, by decide, by decide, by decide⟩

end KeyHolder

end Tradr
