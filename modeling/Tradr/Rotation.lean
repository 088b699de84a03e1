import Tradr.BroadcastKey

/-!
# Rotating the Account Broadcast Key

A device that generates a key while it holds one rotates the key of the account. The new offer is
of the next generation, and the higher generation wins every collision; but generations saturate,
and peers choose theirs. A rotation of the last generation is of the same one, and there the
earlier creation time wins, which is that of the key in use.

A registry is put through any calls: `generate` at any time with any random bytes, and `adopt` of
any offer, where every call on the secret store and the disk may fail.

## Main results

* `BroadcastKeyRegistry.generate_eq_ok`: what is generated, and that the registry holds it.
* `wins_iff`: when an offer wins against another from both viewpoints.
* `rotation_supersedes`: below the last generation a rotation wins, and no device that the new key
  reaches ever holds the old offer again.
-/

namespace Tradr

/-- The last generation. -/
def lastKeyGeneration : UInt32 := UInt32.ofNat (UInt32.size - 1)

/-- Below the last generation the next one is higher. -/
theorem lt_nextGeneration {generation : UInt32} (h : generation ≠ lastKeyGeneration) :
    generation < nextGeneration (some generation) := by
  have hlt := generation.toNat_lt
  have hne : generation.toNat ≠ UInt32.size - 1 := by
    intro heq
    apply h
    apply UInt32.toNat_inj.mp
    rw [heq]
    rfl
  have hsize : UInt32.size = 2 ^ 32 := rfl
  rw [UInt32.lt_iff_toNat_lt, nextGeneration, UInt32.toNat_ofNat_of_lt']
  · omega
  · omega

/-- The last generation is its own next one. -/
theorem nextGeneration_last : nextGeneration (some lastKeyGeneration) = lastKeyGeneration := rfl

/-- An offer wins against another from both viewpoints. -/
def Wins (new old : BroadcastKeyOffer) : Prop :=
  resolveCollision new old = .keepLocal ∧ resolveCollision old new = .adoptRemote

/-- To win is to be above in the order of the collision rule. -/
theorem wins_iff_lt {new old : BroadcastKeyOffer} : Wins new old ↔ old < new := by
  rw [lt_iff_le_not_ge, offer_le_iff_keepLocal, offer_le_iff_keepLocal]
  refine and_congr Iff.rfl ?_
  cases resolveCollision old new with
  | keepLocal => exact iff_of_false nofun fun h => h rfl
  | adoptRemote => exact iff_of_true rfl nofun

/-- **When an offer wins**: by a higher generation, else by an earlier time, else by smaller
bytes. -/
theorem wins_iff {new old : BroadcastKeyOffer} :
    Wins new old ↔ old.generation < new.generation ∨ old.generation = new.generation ∧
      (new.createdAt < old.createdAt ∨ new.createdAt = old.createdAt ∧
        compare new.key.bytes old.key.bytes = .lt) := by
  have hsw : offerCmp new old = (offerCmp old new).swap := Std.OrientedCmp.eq_swap
  have hkeys : compare old.key.bytes new.key.bytes = .gt ↔
      compare new.key.bytes old.key.bytes = .lt := Std.OrientedCmp.gt_iff_lt
  have hwins : Wins new old ↔ resolveCollision old new = .adoptRemote := by
    rw [Wins, resolveCollision_eq, resolveCollision_eq, hsw]
    cases offerCmp old new <;> simp
  have hlt : old.generation < new.generation ↔
      compare old.generation new.generation = .lt := Std.compare_eq_lt.symm
  have heq : old.generation = new.generation ↔
      compare old.generation new.generation = .eq := Std.LawfulEqOrd.compare_eq_iff_eq.symm
  have hearlier : new.createdAt < old.createdAt ↔
      compare old.createdAt new.createdAt = .gt := Std.compare_eq_gt.symm
  have hsame : new.createdAt = old.createdAt ↔
      compare old.createdAt new.createdAt = .eq :=
    eq_comm.trans Std.LawfulEqOrd.compare_eq_iff_eq.symm
  rw [hwins, resolveCollision, hlt, heq, hearlier, hsame, ← hkeys]
  cases compare old.generation new.generation with
  | lt => simp
  | gt => simp
  | eq =>
    cases compare old.createdAt new.createdAt with
    | lt => simp
    | gt => simp
    | eq => cases compare old.key.bytes new.key.bytes <;> simp

namespace BroadcastKeyRegistry

/-- The offer a registry holds is of its generation and its time. -/
theorem offer_eq_some {r : BroadcastKeyRegistry} {fault : Option String} {stores : KeyStores}
    {o : BroadcastKeyOffer} (h : r.offer fault stores = some (.ok (some o))) :
    r.generation = some o.generation ∧ r.createdAt = some o.createdAt := by
  unfold offer at h
  split at h
  · rename_i generation createdAt hg hc
    split at h
    · cases h
    split at h
    · cases h
    split at h
    · cases h
    split at h
    · cases h
    rename_i offer hnew
    obtain rfl : offer = o := by simpa using h
    unfold BroadcastKeyOffer.new at hnew
    split_ifs at hnew
    obtain rfl := Except.ok.inj hnew
    exact ⟨hg, hc⟩
  · cases h

/-- **What is generated** is of the next generation and made now, and the registry holds it. -/
theorem generate_eq_ok {r : BroadcastKeyRegistry} {entropy : Except String AccountBroadcastKey}
    {now : ℤ} {faults : AdoptFaults} {stores : KeyStores} {new : BroadcastKeyOffer}
    (h : (r.generate entropy now faults stores).1 = .ok new) :
    new.generation = nextGeneration r.generation ∧ new.createdAt = now ∧
      (r.generate entropy now faults stores).2.1.offer none
        (r.generate entropy now faults stores).2.2 = some (.ok (some new)) := by
  unfold generate at h ⊢
  cases hdraw : r.draw entropy now with
  | error e =>
    rw [hdraw] at h
    cases h
  | ok offer =>
    rw [hdraw] at h
    dsimp only at h ⊢
    have hnew : offer.generation = nextGeneration r.generation ∧ offer.createdAt = now := by
      unfold draw at hdraw
      split at hdraw
      · cases hdraw
      split at hdraw
      · cases hdraw
      rename_i made hmade
      obtain rfl := Except.ok.inj hdraw
      unfold BroadcastKeyOffer.new at hmade
      split_ifs at hmade
      obtain rfl := Except.ok.inj hmade
      exact ⟨rfl, rfl⟩
    obtain ⟨hload, hstore, hpersist⟩ : faults.load = none ∧ faults.store = none ∧
        faults.persist = none := by
      unfold adopt at h
      cases hl : faults.load <;> cases hs : faults.store <;> cases hp : faults.persist <;>
        cases hr : faults.restore <;> simp [hl, hs, hp, hr] at h ⊢
    have hadopt : r.adopt offer faults stores = r.adopt offer AdoptFaults.none stores := by
      unfold adopt
      rw [hload, hstore, hpersist]
      rfl
    have hheld := r.offer_adopt offer stores
    rw [hadopt] at h ⊢
    generalize r.adopt offer AdoptFaults.none stores = adopted at h hheld ⊢
    obtain ⟨res, r', stores'⟩ := adopted
    cases res with
    | error e => cases h
    | ok =>
      obtain rfl : offer = new := by simpa using h
      exact ⟨hnew.1, hnew.2, hheld⟩

end BroadcastKeyRegistry

/-! ### The new key among the devices -/

/-- A device that opens an exchange ends with the winner, whether it held its offer or drew it. -/
theorem Device.offer_answer_of_opening {d : Device} {entropy : Except String AccountBroadcastKey}
    {now : ℤ} {o : BroadcastKeyOffer} (h : d.opening entropy now = some o)
    (peer : BroadcastKeyOffer) :
    (d.answer entropy now peer).offer = some (.ok (some (keep o peer))) := by
  cases hoffer : d.registry.offer none d.stores with
  | none => simp [Device.opening, openExchange, hoffer] at h
  | some res =>
    rcases res with e | stored
    · simp [Device.opening, openExchange, hoffer] at h
    · cases stored with
      | some stored =>
        obtain ⟨hopen, hanswer⟩ := Device.offer_answer (d := d) hoffer entropy now peer
        rw [h] at hopen
        obtain rfl := Option.some.inj hopen
        exact hanswer
      | none =>
        cases hdraw : d.registry.draw entropy now with
        | error e => simp [Device.opening, openExchange, hoffer, hdraw] at h
        | ok drawn =>
          obtain rfl : drawn = o := by
            simpa [Device.opening, openExchange, hoffer, hdraw] using h
          have hopen : openExchange .sameAccount d.registry none d.stores entropy now =
              some (.ok (⟨drawn, true⟩, drawn)) := by
            simp [openExchange, hoffer, hdraw]
          simp only [Device.answer, hopen, AwaitingPeerOffer.onPeerOffer, keep]
          rcases resolveCollision drawn peer with _ | _
          · have hheld := d.registry.offer_adopt drawn d.stores
            generalize d.registry.adopt drawn AdoptFaults.none d.stores = adopted at hheld ⊢
            obtain ⟨_ | _, r, stores⟩ := adopted
            · exact hheld
            · exact hheld
          · have hheld := d.registry.offer_adopt peer d.stores
            generalize d.registry.adopt peer AdoptFaults.none d.stores = adopted at hheld ⊢
            obtain ⟨_ | _, r, stores⟩ := adopted
            · exact hheld
            · exact hheld

/-- A meeting of two devices: who, and what they would draw and when. -/
structure Meeting (D : Type*) where
  pair : D × D
  entropy : D → Except String AccountBroadcastKey
  now : ℤ

section Spread

variable {D : Type*} [DecidableEq D]

/-- The devices after a meeting. -/
def afterMeeting (devices : D → Device) (m : Meeting D) : D → Device :=
  exchange m.entropy m.now devices m.pair

/-- Both devices of a meeting open it. -/
def Meets (devices : D → Device) (m : Meeting D) : Prop :=
  ((devices m.pair.1).opening (m.entropy m.pair.1) m.now).isSome ∧
    ((devices m.pair.2).opening (m.entropy m.pair.2) m.now).isSome

/-- The devices a key has reached: those it had reached before, and both devices of a meeting
with one of them. -/
def Reached : (D → Device) → (D → Prop) → List (Meeting D) → D → Prop
  | _, before, [] => before
  | devices, before, m :: meetings =>
    Reached (afterMeeting devices m)
      (fun d => before d ∨
        Meets devices m ∧ (before m.pair.1 ∨ before m.pair.2) ∧ (d = m.pair.1 ∨ d = m.pair.2))
      meetings

/-- The device holds an offer that is not below another one. -/
def HoldsAtLeast (o : BroadcastKeyOffer) (d : Device) : Prop :=
  ∃ held, d.offer = some (.ok (some held)) ∧ o ≤ held

/-- A meeting lowers no offer, and both devices of one end at least with what either held. -/
theorem holdsAtLeast_afterMeeting {devices : D → Device} {o : BroadcastKeyOffer}
    {m : Meeting D} {d : D}
    (h : HoldsAtLeast o (devices d) ∨ Meets devices m ∧
      (HoldsAtLeast o (devices m.pair.1) ∨ HoldsAtLeast o (devices m.pair.2)) ∧
        (d = m.pair.1 ∨ d = m.pair.2)) :
    HoldsAtLeast o (afterMeeting devices m d) := by
  unfold afterMeeting exchange
  -- a device that holds an offer opens with it
  have hopening : ∀ {d' : D} {opened : BroadcastKeyOffer}, HoldsAtLeast o (devices d') →
      (devices d').opening (m.entropy d') m.now = some opened → o ≤ opened := by
    rintro d' opened ⟨held, hheld, hle⟩ hopened
    rw [(Device.offer_answer hheld (m.entropy d') m.now held).1] at hopened
    exact Option.some.inj hopened ▸ hle
  cases h₁ : (devices m.pair.1).opening (m.entropy m.pair.1) m.now with
  | none =>
    rcases h with h | ⟨⟨hmeet, -⟩, -, -⟩
    · exact h
    · rw [h₁] at hmeet
      cases hmeet
  | some o₁ =>
    cases h₂ : (devices m.pair.2).opening (m.entropy m.pair.2) m.now with
    | none =>
      rcases h with h | ⟨⟨-, hmeet⟩, -, -⟩
      · exact h
      · rw [h₂] at hmeet
        cases hmeet
    | some o₂ =>
      dsimp only
      have hboth : (HoldsAtLeast o (devices m.pair.1) ∨ HoldsAtLeast o (devices m.pair.2)) →
          o ≤ keep o₁ o₂ := by
        rintro (h | h)
        · exact (hopening h h₁).trans le_sup_left
        · exact (hopening h h₂).trans le_sup_right
      by_cases hd₁ : d = m.pair.1
      · subst hd₁
        rw [if_pos rfl]
        refine ⟨_, Device.offer_answer_of_opening h₁ o₂, hboth ?_⟩
        exact h.elim Or.inl fun h => h.2.1
      · rw [if_neg hd₁]
        by_cases hd₂ : d = m.pair.2
        · subst hd₂
          rw [if_pos rfl]
          refine ⟨_, Device.offer_answer_of_opening h₂ o₁, keep_comm o₁ o₂ ▸ hboth ?_⟩
          exact h.elim Or.inr fun h => h.2.1
        · rw [if_neg hd₂]
          exact h.resolve_right fun h => h.2.2.elim hd₁ hd₂

/-- **Where a key has come, its offer is never lost again.** -/
theorem holdsAtLeast_of_reached {o : BroadcastKeyOffer} (meetings : List (Meeting D))
    {devices : D → Device} {before : D → Prop}
    (hbefore : ∀ d, before d → HoldsAtLeast o (devices d)) {d : D}
    (h : Reached devices before meetings d) :
    HoldsAtLeast o (meetings.foldl afterMeeting devices d) := by
  induction meetings generalizing devices before with
  | nil => exact hbefore d h
  | cons m meetings ih =>
    refine ih ?_ h
    rintro d' (hd | ⟨hmeets, hone, hd⟩)
    · exact holdsAtLeast_afterMeeting (.inl (hbefore d' hd))
    · exact holdsAtLeast_afterMeeting
        (.inr ⟨hmeets, hone.imp (hbefore _) (hbefore _), hd⟩)

/-- The devices when one of them has generated a key. -/
def rotated (devices : D → Device) (i : D) (entropy : Except String AccountBroadcastKey) (now : ℤ)
    (faults : AdoptFaults) : D → Device :=
  let result := (devices i).registry.generate entropy now faults (devices i).stores
  Function.update devices i ⟨result.2.1, result.2.2⟩

/-- **A rotation supersedes the old key** unless that is of the last generation: the new offer
wins against it from both viewpoints, and no device that the new key has reached, by whatever
meetings, holds the old offer. -/
theorem rotation_supersedes (devices : D → Device) (i : D) {old new : BroadcastKeyOffer}
    (hold : (devices i).offer = some (.ok (some old)))
    (hlast : old.generation ≠ lastKeyGeneration)
    {entropy : Except String AccountBroadcastKey} {now : ℤ} {faults : AdoptFaults}
    (hnew : ((devices i).registry.generate entropy now faults (devices i).stores).1 = .ok new) :
    Wins new old ∧ ∀ (meetings : List (Meeting D)) (d : D),
      Reached (rotated devices i entropy now faults) (fun d => d = i) meetings d →
      ∃ o, (meetings.foldl afterMeeting (rotated devices i entropy now faults) d).offer =
        some (.ok (some o)) ∧ o ≠ old ∧ Wins o old := by
  obtain ⟨hgeneration, -, hholds⟩ := BroadcastKeyRegistry.generate_eq_ok hnew
  rw [(BroadcastKeyRegistry.offer_eq_some hold).1] at hgeneration
  have hwins : Wins new old := by
    refine wins_iff.mpr (.inl ?_)
    rw [hgeneration]
    exact lt_nextGeneration hlast
  refine ⟨hwins, fun meetings d hreached => ?_⟩
  have hstart : ∀ d, d = i → HoldsAtLeast new (rotated devices i entropy now faults d) := by
    rintro d rfl
    refine ⟨new, ?_, le_rfl⟩
    rw [rotated, Function.update_self]
    exact hholds
  obtain ⟨o, ho, hle⟩ := holdsAtLeast_of_reached meetings hstart hreached
  have hlt : old < o := (wins_iff_lt.mp hwins).trans_le hle
  exact ⟨o, ho, hlt.ne', wins_iff_lt.mpr hlt⟩

end Spread

/-! ### Two devices -/

/-- Thirty-two bytes of ones. -/
def ones : AccountBroadcastKey :=
  ⟨List.replicate 32 1, rfl⟩

/-- The offer both devices hold. -/
def firstOffer : BroadcastKeyOffer :=
  offerAt 5 five_seconds_pos

/-- One of two devices rotates the key both hold, and they meet. -/
theorem rotation_supersedes_two_devices :
    ∃ o, ([(⟨(true, false), fun _ => .error "", 9⟩ : Meeting Bool)].foldl afterMeeting
        (rotated (fun _ => Device.holding firstOffer) true (.ok ones) 7 AdoptFaults.none)
          false).offer = some (.ok (some o)) ∧ o ≠ firstOffer := by
  have hnew : ((Device.holding firstOffer).registry.generate (.ok ones) 7 AdoptFaults.none
      (Device.holding firstOffer).stores).1 = .ok ⟨ones, 2, 7, by decide, by decide⟩ := rfl
  obtain ⟨-, hspread⟩ := rotation_supersedes (fun _ : Bool => Device.holding firstOffer) true
    (Device.offer_holding firstOffer) (by decide) hnew
  obtain ⟨o, ho, hne, -⟩ := hspread [⟨(true, false), fun _ => .error "", 9⟩] false
    (.inr ⟨⟨rfl, rfl⟩, .inl rfl, .inr rfl⟩)
  exact ⟨o, ho, hne⟩

/-- The offer of a peer that claims the last generation. -/
def lastOffer : BroadcastKeyOffer :=
  ⟨zeroBroadcastKey, lastKeyGeneration, 5, by decide, five_seconds_pos⟩

/-- A device that adopted it. -/
def afterLastOffer : Device :=
  let adopted := BroadcastKeyRegistry.adopt ⟨⟨"", ""⟩, none, none⟩ lastOffer AdoptFaults.none
    ⟨none, none⟩
  ⟨adopted.2.1, adopted.2.2⟩

/-- **A rotation of the last generation loses.** A device adopts a peer's offer of the last
generation and generates a key later: the offer it held before wins against the new one. -/
theorem rotation_of_last_generation_loses :
    afterLastOffer.offer = some (.ok (some lastOffer)) ∧
      ∃ new, (afterLastOffer.registry.generate (.ok ones) 9 AdoptFaults.none
          afterLastOffer.stores).1 = .ok new ∧
        resolveCollision new lastOffer = .adoptRemote ∧ ¬Wins new lastOffer := by
  refine ⟨BroadcastKeyRegistry.offer_adopt _ _ _,
    ⟨ones, lastKeyGeneration, 9, by decide, by decide⟩, rfl, by decide, ?_⟩
  rw [wins_iff]
  decide

end Tradr
