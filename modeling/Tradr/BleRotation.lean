import Mathlib.Data.List.Rotate
import Tradr.BleSource

/-!
# The BLE Rotation

A device that holds several broadcast secrets advertises them one after the other, a slot
of four seconds each: a tick takes the next secret of the set, derives its identifier for
the window of the clock and hands the payload to the radio, unless it is on the air
already. The set is bounded so that a whole cycle stays within the time after which a
listener takes a peer to be gone.

The set, the capabilities, the clock and the radio's answers are inputs, read tick by tick.

## Main definitions

* `BleRotation.tick`: one tick, with the calls of the radio it makes.
* `BleRotation.ticks`: a run of ticks, each with a record.
* `onRadio`: what the calls made so far leave on the air.

## Main results

* `BleRotation.mem_calls_tick`: what a tick hands to the radio is a payload of the set.
* `BleRotation.onRadio_of_ticks`: what the rotation takes to be on the air was started last
  and not stopped since.
* `BleRotation.secret_of_ticks`: successful ticks go through the set in order.
* `advertising_is_found`: every listener with the secret recognizes what is advertised, and
  each secret is advertised once in a cycle.
-/

namespace Tradr

/-! ### Ticks -/

/-- The seconds of one slot. -/
def bleAdvertisementSlotSecs : ℕ := 4

/-- The largest set whose cycle leaves a slot before a listener takes a peer to be gone. -/
def bleAdvertisedSetMax : ℕ := bleObservationTtlSecs / bleAdvertisementSlotSecs - 1

/-- A line to print when the size of the set becomes too large, or no longer is. -/
inductive OverboundReport
  | overbound
  | cleared
  deriving DecidableEq, Repr

/-- The outcome of a tick: the seconds until the next, and a line to print. -/
structure RotationTick where
  wait : ℕ
  report : Option OverboundReport
  deriving DecidableEq, Repr

/-- A call of the radio and whether it succeeded. -/
inductive RadioCall
  | start (payload : Bytes serviceDataLen) (ok : Bool)
  | stop (ok : Bool)
  deriving DecidableEq

/-- The payload that a call hands to the radio. -/
def RadioCall.payload? : RadioCall → Option (Bytes serviceDataLen)
  | .start payload _ => some payload
  | .stop _ => none

/-- The rotation: the platform, a counter of successful ticks, what is on the air and
whether a set too large was reported. -/
structure BleRotation where
  platform : PlatformCode
  cycleIndex : UInt64
  onAir : Option (Bytes serviceDataLen)
  overboundReported : Bool

/-- What a tick reads, and what the radio answers if it is called. -/
structure TickInput where
  advertised : List BroadcastSecret
  capabilities : UInt16
  now : UnixTime
  start : Except BleError Unit
  stop : Except BleError Unit

namespace BleRotation

/-- A rotation that has not ticked yet. -/
def new (platform : PlatformCode) : BleRotation := ⟨platform, 0, none, false⟩

@[simp] theorem platform_new (platform : PlatformCode) : (new platform).platform = platform := rfl

variable (blake3 : Blake3Kdf)

/-- The payload of a secret at a tick. -/
def payloadOf (platform : PlatformCode) (secret : BroadcastSecret) (input : TickInput) :
    Bytes serviceDataLen :=
  (Advertisement.new (secret.eid blake3 (EidWindow.containing input.now)) platform
    input.capabilities).serviceData

/-- Whether the set is too large now, and what to print of it. -/
def overbound (r : BleRotation) (advertised : List BroadcastSecret) :
    Bool × Option OverboundReport :=
  if advertised.length > bleAdvertisedSetMax then
    if ¬r.overboundReported then (true, some .overbound) else (true, none)
  else if r.overboundReported then (false, some .cleared)
  else (false, none)

/-- One slot's work: what it answers, the rotation afterwards and the calls of the radio. -/
def tick (r : BleRotation) (input : TickInput) :
    Except BleError RotationTick × BleRotation × List RadioCall :=
  let (nextOverbound, report) := r.overbound input.advertised
  let done : RotationTick := ⟨bleAdvertisementSlotSecs, report⟩
  if h : input.advertised = [] then
    match r.onAir with
    | none =>
      (.ok done, { r with cycleIndex := 0, overboundReported := nextOverbound }, [])
    | some _ =>
      match input.stop with
      | .error e => (.error e, { r with cycleIndex := 0 }, [.stop false])
      | .ok () =>
        (.ok done, { r with cycleIndex := 0, onAir := none, overboundReported := nextOverbound },
          [.stop true])
  else
    let index := r.cycleIndex.toNat % input.advertised.length
    let secret := input.advertised.get
      ⟨index, Nat.mod_lt _ (List.length_pos_iff.mpr h)⟩
    let payload := payloadOf blake3 r.platform secret input
    if r.onAir ≠ some payload then
      match input.start with
      | .error e => (.error e, { r with onAir := none }, [.start payload false])
      | .ok () =>
        (.ok done, { r with
          cycleIndex := r.cycleIndex + 1
          onAir := some payload
          overboundReported := nextOverbound }, [.start payload true])
    else
      (.ok done, { r with
        cycleIndex := r.cycleIndex + 1
        overboundReported := nextOverbound }, [])

/-- The secret whose turn it is at a tick, if there is one. -/
def chosen (r : BleRotation) (input : TickInput) : Option BroadcastSecret :=
  input.advertised[r.cycleIndex.toNat % input.advertised.length]?

/-- A tick and what became of it: the secret whose turn it was, the answer, the calls of
the radio and what the rotation takes to be on the air afterwards. -/
structure TickRecord where
  input : TickInput
  secret : Option BroadcastSecret
  result : Except BleError RotationTick
  calls : List RadioCall
  onAir : Option (Bytes serviceDataLen)

/-- A run of ticks: their records and the rotation afterwards. -/
def ticks : BleRotation → List TickInput → List TickRecord × BleRotation
  | r, [] => ([], r)
  | r, input :: inputs =>
    let (result, next, calls) := r.tick blake3 input
    let (records, last) := ticks next inputs
    (⟨input, r.chosen input, result, calls, next.onAir⟩ :: records, last)

/-! ### What one tick does -/

/-- The ways a tick may go. -/
inductive TickOutcome (r : BleRotation) (input : TickInput) :
    Except BleError RotationTick → BleRotation → List RadioCall → Prop
  /-- There is nothing to advertise and nothing on the air. -/
  | idle {done overbound} (h : input.advertised = []) (hair : r.onAir = none) :
      TickOutcome r input (.ok ⟨bleAdvertisementSlotSecs, done⟩)
        { r with cycleIndex := 0, overboundReported := overbound } []
  /-- There is nothing to advertise, and the radio is not stopped. -/
  | stopFailed {e} (h : input.advertised = []) :
      TickOutcome r input (.error e) { r with cycleIndex := 0 } [.stop false]
  /-- There is nothing to advertise, and the radio is stopped. -/
  | stopped {done overbound} (h : input.advertised = []) :
      TickOutcome r input (.ok ⟨bleAdvertisementSlotSecs, done⟩)
        { r with cycleIndex := 0, onAir := none, overboundReported := overbound } [.stop true]
  /-- The radio does not start with the payload of the secret whose turn it is. -/
  | startFailed {e secret} (h : r.chosen input = some secret) :
      TickOutcome r input (.error e) { r with onAir := none }
        [.start (payloadOf blake3 r.platform secret input) false]
  /-- The radio starts with it. -/
  | started {done overbound secret} (h : r.chosen input = some secret) :
      TickOutcome r input (.ok ⟨bleAdvertisementSlotSecs, done⟩)
        { r with
          cycleIndex := r.cycleIndex + 1
          onAir := some (payloadOf blake3 r.platform secret input)
          overboundReported := overbound }
        [.start (payloadOf blake3 r.platform secret input) true]
  /-- The payload is on the air already. -/
  | kept {done overbound secret} (h : r.chosen input = some secret)
      (hair : r.onAir = some (payloadOf blake3 r.platform secret input)) :
      TickOutcome r input (.ok ⟨bleAdvertisementSlotSecs, done⟩)
        { r with cycleIndex := r.cycleIndex + 1, overboundReported := overbound } []

/-- Every tick goes one of these ways. -/
theorem tick_outcome (r : BleRotation) (input : TickInput) :
    TickOutcome blake3 r input (r.tick blake3 input).1 (r.tick blake3 input).2.1
      (r.tick blake3 input).2.2 := by
  unfold tick
  dsimp only
  by_cases h : input.advertised = []
  · rw [dif_pos h]
    obtain ⟨platform, cycleIndex, onAir, reported⟩ := r
    rcases onAir with _ | payload
    · exact .idle h rfl
    · rcases hstop : input.stop with e | ⟨⟩
      · exact .stopFailed h
      · exact .stopped h
  · rw [dif_neg h]
    have hlt : r.cycleIndex.toNat % input.advertised.length < input.advertised.length :=
      Nat.mod_lt _ (List.length_pos_iff.mpr h)
    have hchosen : r.chosen input = some (input.advertised.get ⟨_, hlt⟩) :=
      List.getElem?_eq_getElem hlt
    by_cases hair : r.onAir = some (payloadOf blake3 r.platform (input.advertised.get ⟨_, hlt⟩) input)
    · rw [if_neg (not_not.mpr hair)]
      exact .kept hchosen hair
    · rw [if_pos hair]
      rcases hstart : input.start with e | ⟨⟩
      · exact .startFailed hchosen
      · exact .started hchosen

variable {blake3} {r : BleRotation}

/-- **What a tick hands to the radio** is the payload of a secret of the set. -/
theorem mem_calls_tick {input : TickInput} {call : RadioCall} {payload : Bytes serviceDataLen}
    (hcall : call ∈ (r.tick blake3 input).2.2) (hpayload : call.payload? = some payload) :
    ∃ secret ∈ input.advertised, payload = payloadOf blake3 r.platform secret input := by
  have hout := tick_outcome blake3 r input
  generalize (r.tick blake3 input).1 = result, (r.tick blake3 input).2.1 = next,
    (r.tick blake3 input).2.2 = calls at hout hcall
  cases hout with
  | idle | kept => cases hcall
  | stopFailed | stopped =>
      obtain rfl := List.mem_singleton.mp hcall
      cases hpayload
  | startFailed h | started h =>
      obtain rfl := List.mem_singleton.mp hcall
      obtain rfl := Option.some.inj hpayload
      exact ⟨_, List.mem_of_getElem? h, rfl⟩

/-- The platform never changes. -/
theorem platform_tick (input : TickInput) : (r.tick blake3 input).2.1.platform = r.platform := by
  have hout := tick_outcome blake3 r input
  generalize (r.tick blake3 input).1 = result, (r.tick blake3 input).2.1 = next,
    (r.tick blake3 input).2.2 = calls at hout ⊢
  cases hout <;> rfl

/-! ### What is on the air -/

/-- What a call of the radio leaves on the air: a call that fails changes nothing. -/
def airAfter (air : Option (Bytes serviceDataLen)) : RadioCall → Option (Bytes serviceDataLen)
  | .start payload true => some payload
  | .stop true => none
  | .start _ false | .stop false => air

/-- The payload that was started last and not stopped since. -/
def onRadio (calls : List RadioCall) : Option (Bytes serviceDataLen) :=
  calls.foldl airAfter none

/-- One tick: what the rotation takes to be on the air is. -/
theorem onAir_tick {air : Option (Bytes serviceDataLen)} (input : TickInput)
    (h : ∀ p, r.onAir = some p → air = some p) :
    ∀ p, (r.tick blake3 input).2.1.onAir = some p →
      (r.tick blake3 input).2.2.foldl airAfter air = some p := by
  have hout := tick_outcome blake3 r input
  generalize (r.tick blake3 input).1 = result, (r.tick blake3 input).2.1 = next,
    (r.tick blake3 input).2.2 = calls at hout ⊢
  intro p hp
  cases hout with
  | idle | stopFailed | kept => exact h p hp
  | stopped | startFailed => cases hp
  | started => exact hp

/-- **Any ticks**: what the rotation takes to be on the air is. -/
theorem onAir_ticks {air : Option (Bytes serviceDataLen)} {inputs : List TickInput}
    (h : ∀ p, r.onAir = some p → air = some p) :
    ∀ p, (r.ticks blake3 inputs).2.onAir = some p →
      ((r.ticks blake3 inputs).1.flatMap TickRecord.calls).foldl airAfter air = some p := by
  induction inputs generalizing r air with
  | nil => exact h
  | cons input inputs ih =>
      intro p hp
      rw [ticks] at hp ⊢
      rw [List.flatMap_cons, List.foldl_append]
      exact ih (onAir_tick input h) p hp

/-! ### The order of the set -/

/-- Whether a tick succeeded. -/
def TickRecord.succeeded (t : TickRecord) : Bool := t.result.isOk

/-- A tick on a set that is not empty: the counter advances when it succeeds, and the
payload of the secret whose turn it was is then on the air. -/
theorem tick_of_ne_nil (blake3 : Blake3Kdf) (r : BleRotation) {input : TickInput}
    (hne : input.advertised ≠ []) :
    (∃ e, (r.tick blake3 input).1 = .error e ∧
      (r.tick blake3 input).2.1.cycleIndex = r.cycleIndex) ∨
    ∃ done secret, (r.tick blake3 input).1 = .ok ⟨bleAdvertisementSlotSecs, done⟩ ∧
      (r.tick blake3 input).2.1.cycleIndex = r.cycleIndex + 1 ∧
      r.chosen input = some secret ∧
      (r.tick blake3 input).2.1.onAir = some (payloadOf blake3 r.platform secret input) := by
  have hout := tick_outcome blake3 r input
  generalize (r.tick blake3 input).1 = result, (r.tick blake3 input).2.1 = next,
    (r.tick blake3 input).2.2 = calls at hout ⊢
  cases hout with
  | idle h | stopFailed h | stopped h => exact absurd h hne
  | startFailed h => exact .inl ⟨_, rfl, rfl⟩
  | started h => exact .inr ⟨_, _, rfl, rfl, h, rfl⟩
  | kept h hair => exact .inr ⟨_, _, rfl, rfl, h, hair⟩

/-- Every record of a run is that of one tick of a rotation on the same platform. -/
theorem mem_ticks {inputs : List TickInput} {t : TickRecord}
    (h : t ∈ (r.ticks blake3 inputs).1) :
    t.input ∈ inputs ∧ ∃ r' : BleRotation, r'.platform = r.platform ∧
      t = ⟨t.input, r'.chosen t.input, (r'.tick blake3 t.input).1, (r'.tick blake3 t.input).2.2,
        (r'.tick blake3 t.input).2.1.onAir⟩ := by
  induction inputs generalizing r with
  | nil => cases h
  | cons input inputs ih =>
      rw [ticks] at h
      rcases List.mem_cons.mp h with rfl | h
      · exact ⟨List.mem_cons_self, r, rfl, rfl⟩
      · obtain ⟨hmem, r', hplatform, heq⟩ := ih h
        exact ⟨List.mem_cons_of_mem _ hmem, r', hplatform.trans (platform_tick input), heq⟩

/-- The seconds a record waits for the next tick. -/
def TickRecord.wait (t : TickRecord) : ℕ :=
  match t.result with
  | .ok done => done.wait
  | .error _ => 0

/-- After a successful tick on a set that is not empty, the payload of the secret whose turn
it was is on the air for a slot. -/
theorem onAir_of_succeeded {inputs : List TickInput} {t : TickRecord}
    (h : t ∈ (r.ticks blake3 inputs).1) (hok : t.succeeded = true)
    (hne : t.input.advertised ≠ []) :
    t.wait = bleAdvertisementSlotSecs ∧ ∃ secret, t.secret = some secret ∧
      t.onAir = some (payloadOf blake3 r.platform secret t.input) := by
  obtain ⟨-, r', hplatform, heq⟩ := mem_ticks h
  generalize t.input = input at heq hne ⊢
  subst heq
  rcases tick_of_ne_nil blake3 r' hne with ⟨e, he, -⟩ |
    ⟨done, secret, hdone, -, hsecret, hair⟩
  · rw [TickRecord.succeeded] at hok
    dsimp only at hok
    rw [he] at hok
    cases hok
  · rw [TickRecord.wait]
    dsimp only
    rw [hdone]
    exact ⟨rfl, secret, hsecret, hplatform ▸ hair⟩

/-- **Successful ticks go through the set in order**, whatever fails in between. -/
theorem secret_of_ticks {set : List BroadcastSecret} (hne : set ≠ []) {inputs : List TickInput}
    (hset : ∀ input ∈ inputs, input.advertised = set)
    (hsmall : r.cycleIndex.toNat + inputs.length < 2 ^ 64) {j : ℕ} {t : TickRecord}
    (h : ((r.ticks blake3 inputs).1.filter TickRecord.succeeded)[j]? = some t) :
    t.secret = set[(r.cycleIndex.toNat + j) % set.length]? := by
  induction inputs generalizing r j with
  | nil => cases h
  | cons input inputs ih =>
      have hinput := hset input List.mem_cons_self
      have hrest : ∀ input ∈ inputs, input.advertised = set :=
        fun input hmem => hset input (List.mem_cons_of_mem _ hmem)
      rw [List.length_cons] at hsmall
      rw [ticks] at h
      rcases tick_of_ne_nil blake3 r (hinput ▸ hne) with ⟨e, he, hcycle⟩ |
        ⟨done, secret, hdone, hcycle, hsecret, -⟩
      · rw [List.filter_cons_of_neg (by rw [TickRecord.succeeded, he]; exact Bool.false_ne_true)]
          at h
        rw [← hcycle]
        exact ih hrest (by rw [hcycle]; omega) h
      · rw [List.filter_cons_of_pos (by rw [TickRecord.succeeded, hdone]; rfl)] at h
        cases j with
        | zero =>
            obtain rfl := Option.some.inj h
            rw [← hinput]
            rfl
        | succ j =>
            have hsucc : (r.tick blake3 input).2.1.cycleIndex.toNat = r.cycleIndex.toNat + 1 := by
              rw [hcycle, UInt64.toNat_add]
              exact Nat.mod_eq_of_lt (by change r.cycleIndex.toNat + 1 < 2 ^ 64; omega)
            rw [List.getElem?_cons_succ] at h
            rw [ih hrest (by rw [hsucc]; omega) h, hsucc]
            exact congrArg (fun i => set[i % set.length]?) (by omega)

/-- As many successful ticks in a row as the set has secrets take each secret once. -/
theorem perm_of_ticks {set : List BroadcastSecret} {inputs : List TickInput}
    (hset : ∀ input ∈ inputs, input.advertised = set)
    (hsmall : r.cycleIndex.toNat + inputs.length < 2 ^ 64) {before window after : List TickRecord}
    (hrecords : (r.ticks blake3 inputs).1.filter TickRecord.succeeded = before ++ window ++ after)
    (hlength : window.length = set.length) :
    (window.map TickRecord.secret).Perm (set.map some) := by
  rcases List.eq_nil_or_concat' set with rfl | ⟨_, _, hconcat⟩
  · rw [List.eq_nil_of_length_eq_zero hlength]
    exact .nil
  · have hne : set ≠ [] := by
      rw [hconcat]
      exact List.concat_ne_nil _ _
    have hrotate : window.map TickRecord.secret =
        (set.rotate (r.cycleIndex.toNat + before.length)).map some := by
      refine List.ext_getElem (by simp [hlength]) fun i hi hi' => ?_
      rw [List.length_map] at hi
      have hat : (before ++ window ++ after)[before.length + i]? = some window[i] := by
        rw [List.append_assoc, List.getElem?_append_right (Nat.le_add_right _ _),
          Nat.add_sub_cancel_left, List.getElem?_append_left hi, List.getElem?_eq_getElem hi]
      have hsecret := secret_of_ticks hne hset hsmall (hrecords ▸ hat)
      have hlt : (r.cycleIndex.toNat + (before.length + i)) % set.length < set.length :=
        Nat.mod_lt _ (List.length_pos_iff.mpr hne)
      rw [List.getElem_map, List.getElem_map, List.getElem_rotate, hsecret,
        List.getElem?_eq_getElem hlt]
      refine congrArg some ?_
      congr 2
      omega
    rw [hrotate]
    exact (List.rotate_perm _ _).map some

/-- The successful ticks of a run in which some ticks in a row succeed. -/
theorem filter_succeeded_append {before window after : List TickRecord}
    (hok : ∀ t ∈ window, t.succeeded = true) :
    (before ++ window ++ after).filter TickRecord.succeeded =
      before.filter TickRecord.succeeded ++ window ++ after.filter TickRecord.succeeded := by
  rw [List.filter_append, List.filter_append, List.filter_eq_self.mpr hok]

/-- The turn of a secret comes again after a whole cycle. -/
theorem secret_after_cycle {set : List BroadcastSecret} {inputs : List TickInput}
    (hset : ∀ input ∈ inputs, input.advertised = set)
    (hsmall : r.cycleIndex.toNat + inputs.length < 2 ^ 64)
    {before rest after : List TickRecord} {first next : TickRecord}
    (hrecords : (r.ticks blake3 inputs).1.filter TickRecord.succeeded =
      before ++ (first :: rest) ++ next :: after)
    (hlength : (first :: rest).length = set.length) : next.secret = first.secret := by
  have hne : set ≠ [] := List.ne_nil_of_length_pos (hlength ▸ Nat.succ_pos _)
  have hfirst : (before ++ (first :: rest) ++ next :: after)[before.length]? = some first := by
    rw [List.append_assoc, List.getElem?_append_right le_rfl, Nat.sub_self]
    rfl
  have hnext : (before ++ (first :: rest) ++ next :: after)[before.length + set.length]? =
      some next := by
    rw [← hlength, ← List.length_append, List.getElem?_append_right le_rfl, Nat.sub_self]
    rfl
  have hturn := secret_of_ticks hne hset hsmall (hrecords ▸ hfirst)
  have hagain := secret_of_ticks hne hset hsmall (hrecords ▸ hnext)
  rw [hturn, hagain, ← Nat.add_assoc, Nat.add_mod_right]

/-- A cycle of a set within the bound ends before a listener takes a peer to be gone. -/
theorem sum_wait_lt {window : List TickRecord} {set : List BroadcastSecret}
    (hwait : ∀ t ∈ window, t.wait = bleAdvertisementSlotSecs)
    (hlength : window.length = set.length) (hmax : set.length ≤ bleAdvertisedSetMax) :
    (window.map TickRecord.wait).sum < bleObservationTtlSecs := by
  have hsum : (window.map TickRecord.wait).sum = window.length * bleAdvertisementSlotSecs := by
    rw [List.map_congr_left hwait, List.map_const', List.sum_replicate_nat]
  have hslot : bleAdvertisementSlotSecs = 4 := rfl
  have hbound : bleAdvertisedSetMax = 6 := rfl
  have httl : bleObservationTtlSecs = 30 := rfl
  rw [hsum, hlength, hslot, httl]
  omega

end BleRotation

open BleRotation in
/-- **Devices that share a secret find each other.** Whatever the rotation hands to the
radio is read back as the identifier, the platform and the low four capability bits, and
every listener that holds the secret and whose clock is at most a window off recognizes
it. As many successful ticks in a row as the set has secrets advertise each secret once,
and its turn comes again before a listener takes the peer to be gone. What the rotation
takes to be on the air was started last and not stopped since. -/
theorem advertising_is_found (blake3 : Blake3Kdf) (platform : PlatformCode) :
    (∀ inputs, ∀ t ∈ ((new platform).ticks blake3 inputs).1, ∀ call ∈ t.calls, ∀ payload,
      call.payload? = some payload →
      ∃ secret ∈ t.input.advertised,
        Advertisement.fromServiceData payload.val =
          .of (.ok ⟨secret.eid blake3 (EidWindow.containing t.input.now), platform,
            t.input.capabilities &&& 0x000F⟩) ∧
        ∀ (held : List BroadcastSecret) (now : UnixTime), secret ∈ held →
          |t.input.now.secs.toInt - now.secs.toInt| ≤ 900 →
          (held.any fun s => (s.matchesAt blake3
            (secret.eid blake3 (EidWindow.containing t.input.now)) now).isSome) = true) ∧
    (∀ (set : List BroadcastSecret) (inputs : List TickInput),
      set.length ≤ bleAdvertisedSetMax →
      (∀ input ∈ inputs, input.advertised = set) → inputs.length < 2 ^ 64 →
      ∀ before window after,
        ((new platform).ticks blake3 inputs).1 = before ++ window ++ after →
        (∀ t ∈ window, t.succeeded = true) → window.length = set.length →
        (window.map TickRecord.secret).Perm (set.map some) ∧
          (∀ t ∈ window, ∃ secret, t.secret = some secret ∧
            t.onAir = some (payloadOf blake3 platform secret t.input)) ∧
          (window.map TickRecord.wait).sum < bleObservationTtlSecs ∧
          ∀ first next, window.head? = some first → after.head? = some next →
            next.succeeded = true → next.secret = first.secret) ∧
    ∀ inputs payload, ((new platform).ticks blake3 inputs).2.onAir = some payload →
      onRadio (((new platform).ticks blake3 inputs).1.flatMap TickRecord.calls) =
        some payload := by
  refine ⟨fun inputs t ht call hcall payload hpayload => ?_,
    fun set inputs hmax hset hsmall before window after hrecords hok hlength => ?_,
    fun inputs => onAir_ticks fun p hp => by cases hp⟩
  · obtain ⟨-, r, hplatform, heq⟩ := mem_ticks ht
    have hcalls : t.calls = (r.tick blake3 t.input).2.2 := congrArg TickRecord.calls heq
    obtain ⟨secret, hsecret, rfl⟩ := mem_calls_tick (hcalls ▸ hcall) hpayload
    refine ⟨secret, hsecret, ?_, fun held now hheld hnear => ?_⟩
    · rw [payloadOf, Advertisement.fromServiceData_serviceData, hplatform, platform_new]
    · exact List.any_eq_true.mpr ⟨secret, hheld, secret.isSome_matchesAt blake3 hnear⟩
  · have hstart : (new platform).cycleIndex.toNat + inputs.length < 2 ^ 64 := by
      have hzero : (new platform).cycleIndex.toNat = 0 := rfl
      rw [hzero, Nat.zero_add]
      exact hsmall
    have hfilter : ((new platform).ticks blake3 inputs).1.filter TickRecord.succeeded =
        before.filter TickRecord.succeeded ++ window ++ after.filter TickRecord.succeeded := by
      rw [hrecords, filter_succeeded_append hok]
    have hmem : ∀ t ∈ window, t ∈ ((new platform).ticks blake3 inputs).1 := by
      intro t ht
      rw [hrecords]
      exact List.mem_append_left _ (List.mem_append_right _ ht)
    have hair : ∀ t ∈ window, t.wait = bleAdvertisementSlotSecs ∧ ∃ secret,
        t.secret = some secret ∧ t.onAir = some (payloadOf blake3 platform secret t.input) := by
      intro t ht
      have hne : t.input.advertised ≠ [] := by
        rw [hset _ (mem_ticks (hmem t ht)).1]
        exact List.ne_nil_of_length_pos (hlength ▸ List.length_pos_of_mem ht)
      have hslot := onAir_of_succeeded (hmem t ht) (hok t ht) hne
      rwa [platform_new] at hslot
    refine ⟨perm_of_ticks hset hstart hfilter hlength, fun t ht => (hair t ht).2,
      sum_wait_lt (fun t ht => (hair t ht).1) hlength hmax,
      fun first next hfirst hnext hnextok => ?_⟩
    obtain ⟨rest, rfl⟩ := List.head?_eq_some_iff.mp hfirst
    obtain ⟨more, rfl⟩ := List.head?_eq_some_iff.mp hnext
    rw [List.filter_cons_of_pos hnextok] at hfilter
    exact secret_after_cycle hset hstart hfilter hlength

end Tradr
