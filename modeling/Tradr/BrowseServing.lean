import Mathlib.Logic.Function.Iterate
import Tradr.BrowseChunking

/-!
# A Browse Stream Message by Message

The handler of a Browse stream reads what arrives into a buffer and serves the messages it
completes. `Serving` is the same stream with everything that was sent pending at once, and
served one message a step.

## Main definitions

* `Serving.step`: serve one message, or find the end.

## Main results

* `handleMessage_local`: a message is served as it is whatever follows it.
* `Serving.handleBrowseStream_eq_iterate`: the handler of a stream serves it message by
  message.
* `Serving.step_consume`: a step looks at no more of what is pending than it takes from it.
-/

open Function

namespace Tradr

namespace Browse

open Eff

variable {σ H : Type} {ctx : BrowseContext σ H}

/-- Two worlds that differ in what is pending. -/
structure Beside (a b : List UInt8) (w t : World σ) : Prop where
  effects : SameEffects w t
  ending : w.recv.ending = t.recv.ending
  pending : w.pending = a
  other : t.pending = b

theorem framed_beside (a b : List UInt8) : Framed (Beside a b : World σ → World σ → Prop) where
  agree _ _ h := ⟨h.effects.store, h.effects.ids, h.effects.send⟩
  update _ _ h _ _ _ := ⟨⟨rfl, rfl, rfl⟩, h.ending, h.pending, h.other⟩

/-- What a computation does that leaves the stream alone, it does whatever is pending. -/
theorem Beside.ok {E A : Type} {P : A → Prop} {m : Eff (World σ) E A} {a b : List UInt8}
    (hm : Rel (Beside a b) (Beside a b) m P) {w w' t : World σ} {v : A} (hwt : Beside a b w t)
    (h : m w = (.ok v, w')) : ∃ t', m t = (.ok v, t') ∧ Beside a b w' t' := by
  obtain ⟨hfst, hok, -⟩ := hm w t hwt
  rw [h] at hfst hok
  exact ⟨(m t).2, Prod.ext hfst.symm rfl, (hok v rfl).2⟩

/-- The bytes of an upload are taken whatever follows them. -/
theorem Beside.receiveContent (hvfs : WriteSplits ctx.vfs) {writer : H} {size : ℕ}
    {used rest x : List UInt8} (hlen : used.length = size) {w w' t : World σ}
    (hwt : Beside (used ++ rest) (used ++ x) w t)
    (h : receiveContent ctx writer size w = (.ok (), w')) :
    ∃ t', Browse.receiveContent ctx writer size t = (.ok (), t') ∧ Beside rest x w' t' := by
  obtain ⟨buffer, recv, hw, hwend, hwok⟩ := receiveContent_spec hvfs writer size w
  obtain ⟨buffer', recv', ht, htend, htok⟩ := receiveContent_spec hvfs writer size t
  have hsame : uploadOutcome ctx.vfs t.store writer 0 size t.pending t.recv.ending =
      uploadOutcome ctx.vfs w.store writer 0 size w.pending w.recv.ending := by
    rw [hwt.other, hwt.pending, ← hwt.ending, ← hwt.effects.store]
    unfold uploadOutcome
    rw [List.take_left' hlen, List.take_left' hlen]
    rcases writeRun ctx.vfs w.store writer 0 used with ⟨e | u, s⟩
    · rfl
    · dsimp only
      rw [if_pos (by rw [List.length_append]; omega), if_pos (by rw [List.length_append]; omega)]
  rw [hsame] at ht
  rw [h] at hw hwok
  obtain ⟨hres, hstate⟩ := Prod.mk.inj hw
  rw [← hres] at ht
  refine ⟨_, ht, ⟨?_, ?_, ?_, ?_⟩⟩
  · rw [hstate]
    exact ⟨rfl, hwt.effects.ids, hwt.effects.send⟩
  · rw [hstate]
    exact hwend.trans (hwt.ending.trans htend.symm)
  · rw [hstate]
    have hdrop := (hwok rfl).2
    rw [hwt.pending, List.drop_left' hlen] at hdrop
    exact hdrop
  · rw [ht] at htok
    have hdrop := (htok rfl).2
    rw [hwt.other, List.drop_left' hlen] at hdrop
    exact hdrop

/-- An upload that succeeds does so whatever follows it. -/
theorem handleWriteFile_local (hvfs : WriteSplits ctx.vfs) {req : WriteFile} {w w' : World σ}
    (h : handleWriteFile ctx req w = (.ok (), w')) :
    ∃ used, w.pending = used ++ w'.pending ∧ ∀ x t, Beside w.pending (used ++ x) w t →
      ∃ t', handleWriteFile ctx req t = (.ok (), t') ∧ Beside w'.pending x w' t' := by
  obtain ⟨used, hcut, hlen⟩ : ∃ used, w.pending = used ++ w'.pending ∧
      used.length = req.size.toNat := by
    obtain ⟨hle, hrest⟩ := handleWriteFile_pending hvfs h
    refine ⟨w.pending.take req.size.toNat, ?_, ?_⟩
    · rw [hrest, List.take_append_drop]
    · rw [List.length_take]
      omega
  refine ⟨used, hcut, fun x t hwt => ?_⟩
  rw [hcut] at hwt
  have hr := fun a b => (framed_beside a b).respects ctx
  obtain ⟨target, w₁, h₁, h⟩ := Eff.bind_eq_ok.mp h
  obtain ⟨staging, w₂, h₂, h⟩ := Eff.bind_eq_ok.mp h
  obtain ⟨_, w₃, h₃, h⟩ := Eff.bind_eq_ok.mp h
  obtain ⟨writer, w₄, h₄, h⟩ := Eff.bind_eq_ok.mp (recover_eq_ok.mp h)
  obtain ⟨_, w₅, h₅, h⟩ := Eff.bind_eq_ok.mp h
  -- Before its bytes are taken and afterwards, the upload leaves the stream alone.
  obtain ⟨t₁, k₁, b₁⟩ := hwt.ok ((hr _ _).uploadTarget req) h₁
  obtain ⟨t₂, k₂, b₂⟩ := b₁.ok (hr _ _).staging.mapError h₂
  obtain ⟨t₃, k₃, b₃⟩ := b₂.ok ((hr _ _).createDir _).mapError h₃
  obtain ⟨t₄, k₄, b₄⟩ := b₃.ok ((hr _ _).openWrite _).mapError h₄
  obtain ⟨t₅, k₅, b₅⟩ := b₄.receiveContent hvfs hlen h₅
  obtain ⟨t₆, k₆, b₆⟩ := b₅.ok (Rel.bind ((hr _ _).sync writer).mapError fun _ _ =>
    Rel.bind ((hr _ _).place req fun _ => trivial) fun _ _ =>
      Rel.bind ((hr _ _).remove staging.1).mapError fun _ _ => (hr _ _).sendAck) h
  refine ⟨t₆, Eff.bind_eq_ok.mpr ⟨_, _, k₁, Eff.bind_eq_ok.mpr ⟨_, _, k₂,
    Eff.bind_eq_ok.mpr ⟨_, _, k₃, recover_eq_ok.mpr (Eff.bind_eq_ok.mpr ⟨_, _, k₄,
      Eff.bind_eq_ok.mpr ⟨_, _, k₅, k₆⟩⟩)⟩⟩⟩, b₆⟩

/-- A message is served as it is whatever follows it. -/
theorem handleMessage_local (hvfs : WriteSplits ctx.vfs) {msg : BrowseMessage} {w w' : World σ}
    (h : handleMessage ctx msg w = (.ok (), w')) :
    ∃ used, w.pending = used ++ w'.pending ∧ ∀ x t, Beside w.pending (used ++ x) w t →
      ∃ t', handleMessage ctx msg t = (.ok (), t') ∧ Beside w'.pending x w' t' := by
  -- All but uploads leave the stream alone.
  have halone : ∀ {m : Eff (World σ) BrowseFailure Unit},
      (∀ {X : World σ → World σ → Prop}, Framed X → Rel X X m fun _ => True) →
      m w = (.ok (), w') → ∃ used, w.pending = used ++ w'.pending ∧
        ∀ x t, Beside w.pending (used ++ x) w t →
          ∃ t', m t = (.ok (), t') ∧ Beside w'.pending x w' t' := by
    intro m hm hok
    have hpending := pending_eq (fun bytes => hm (framed_holding bytes)) hok
    refine ⟨[], hpending.symm, fun x t hwt => ?_⟩
    obtain ⟨t', ht, hb⟩ := hwt.ok (hm (framed_beside _ _)) hok
    rw [← hpending] at hb
    exact ⟨t', ht, hb⟩
  cases msg with
  | listDir req => exact halone (fun hX => (hX.respects ctx).handleListDir req) h
  | stat req => exact halone (fun hX => (hX.respects ctx).handleStat req) h
  | readFile req => exact halone (fun hX => (hX.respects ctx).handleReadFile req) h
  | writeFile req => exact handleWriteFile_local hvfs h
  | mkdir req => exact halone (fun hX => (hX.respects ctx).handleMkdir req) h
  | delete req => exact halone (fun hX => (hX.respects ctx).handleDelete req) h
  | rename req => exact halone (fun hX => (hX.respects ctx).handleRename trivial) h
  | _ => cases (Prod.mk.inj h).1

/-! ### Serving as a machine -/

/-- A stream that is served message by message: what the handlers can touch, what is
pending, and how it ended. -/
structure Serving (σ : Type) where
  store : σ
  ids : List TransferId
  send : SendStream
  pending : List UInt8
  ending : Option TransportError
  result : Option StreamEnd

namespace Serving

/-- The world of the handlers, behind a frame of so many bytes. -/
def world (s : Serving σ) (consumed : ℕ) : World σ :=
  ⟨s.store, s.ids, s.send, s.pending.drop consumed, ⟨⟨[], s.ending⟩, []⟩⟩

/-- A served stream in a world of the handlers. -/
def ofWorld (w : World σ) (result : Option StreamEnd) : Serving σ :=
  ⟨w.store, w.ids, w.send, w.pending, w.recv.ending, result⟩

/-- Serve one message, or find the end. -/
def step (ctx : BrowseContext σ H) (s : Serving σ) : Serving σ :=
  match s.result with
  | some _ => s
  | none =>
    match ctx.codec.decodeFrame s.pending with
    | .error _ => { s with result := some (.returned (.error .closed)) }
    | .ok none =>
      match s.ending with
      | none => { s with result := some (.returned (.ok ())) }
      | some e => { s with result := some (.returned (.error e)) }
    | .ok (some (msg, consumed)) =>
      match handleMessage ctx msg (s.world consumed) with
      | (.ok (), w) => ofWorld w none
      | (.error failure, w) =>
        ofWorld (answerFailure ctx failure w).2 (some (answerFailure ctx failure w).1)

/-- An ended stream stays so. -/
theorem iterate_of_result {s : Serving σ} {e : StreamEnd} (h : s.result = some e) (n : ℕ) :
    (step ctx)^[n] s = s := by
  induction n with
  | zero => rfl
  | succ n ih =>
      rw [iterate_succ_apply', ih]
      unfold step
      rw [h]

/-- **A stream is served message by message as its byte string is.** -/
theorem iterate_eq_serveBytes (hvfs : WriteSplits ctx.vfs) {s : Serving σ} {t : World σ}
    (hres : s.result = none) (hst : SameInput (s.world 0) t) (fuel : ℕ) :
    ((step ctx)^[fuel] s).result = (serveBytes ctx fuel t).1 ∧
      SameEffects (((step ctx)^[fuel] s).world 0) (serveBytes ctx fuel t).2 := by
  induction fuel generalizing s t with
  | zero => exact ⟨hres, hst.effects⟩
  | succ fuel ih =>
      have hpend : t.pending = s.pending := by
        rw [← hst.pending]
        exact List.append_nil _
      have hend : t.recv.ending = s.ending := hst.ending.symm
      rw [iterate_succ_apply, serveBytes, hpend, hend]
      rcases hdec : ctx.codec.decodeFrame s.pending with e | _ | ⟨msg, consumed⟩
      · have hstep : step ctx s = { s with result := some (.returned (.error .closed)) } := by
          simp only [step, hres, hdec]
        rw [hstep, iterate_of_result rfl]
        exact ⟨rfl, hst.effects⟩
      · rcases he : s.ending with _ | e
        · have hstep : step ctx s = { s with result := some (.returned (.ok ())) } := by
            simp only [step, hres, hdec, he]
          rw [hstep, iterate_of_result rfl]
          exact ⟨rfl, hst.effects⟩
        · have hstep : step ctx s = { s with result := some (.returned (.error e)) } := by
            simp only [step, hres, hdec, he]
          rw [hstep, iterate_of_result rfl]
          exact ⟨rfl, hst.effects⟩
      · have hgathered : SameInput (s.world consumed)
            (t.gathered consumed) := by
          refine ⟨hst.store, hst.ids, hst.send, ?_, hst.ending⟩
          unfold World.gathered
          rw [hpend]
          rfl
        obtain ⟨hfst, hok, herr⟩ := handleMessage_sameInput hvfs msg _ _ hgathered
        dsimp only
        rcases hm : handleMessage ctx msg (s.world consumed) with
          ⟨failure | u, w⟩
        · rcases hm' : handleMessage ctx msg (t.gathered consumed) with ⟨failure' | u', w'⟩
          · rw [hm, hm'] at hfst herr
            obtain rfl := Except.error.inj hfst
            have hsame := herr failure rfl
            obtain ⟨h1, h2⟩ := answerFailure_sameEffects ctx failure hsame
            have hstep : step ctx s = ofWorld (answerFailure ctx failure w).2
                (some (answerFailure ctx failure w).1) := by
              simp only [step, hres, hdec, hm]
            rw [hstep, iterate_of_result rfl]
            exact ⟨congrArg some h1, h2.store, h2.ids, h2.send⟩
          · rw [hm, hm'] at hfst
            cases hfst
        · rcases hm' : handleMessage ctx msg (t.gathered consumed) with ⟨failure' | u', w'⟩
          · rw [hm, hm'] at hfst
            cases hfst
          · rw [hm, hm'] at hok
            have hsame := (hok () rfl).2
            have hstep : step ctx s = ofWorld w none := by
              simp only [step, hres, hdec, hm]
            rw [hstep]
            refine ih rfl ⟨hsame.store, hsame.ids, hsame.send, ?_, hsame.ending⟩
            rw [← hsame.pending]
            exact List.append_nil _

/-- A stream as it is opened. -/
def opened (store : σ) (ids : List TransferId) (send : SendStream) (recv : RecvStream) :
    Serving σ :=
  ⟨store, ids, send, recv.bytes, recv.ending, none⟩

/-- **The handler of a stream serves it message by message**, however it is cut. -/
theorem handleBrowseStream_eq_iterate (hvfs : WriteSplits ctx.vfs)
    (hmax : ctx.codec.maxFrameSize = ctx.maxFrameSize) (hfour : 4 ≤ ctx.maxFrameSize.toNat)
    (store : σ) (ids : List TransferId) (send : SendStream) (recv : RecvStream) (sizes : List ℕ)
    {turns : ℕ} (hturns : recv.bytes.length < turns) :
    ((step ctx)^[recv.bytes.length + 1] (opened store ids send recv)).result =
        (handleBrowseStream ctx turns ⟨store, ids, send, [], ⟨recv, sizes⟩⟩).1 ∧
      SameEffects (((step ctx)^[recv.bytes.length + 1] (opened store ids send recv)).world 0)
        (handleBrowseStream ctx turns ⟨store, ids, send, [], ⟨recv, sizes⟩⟩).2 := by
  have hsame : SameInput (⟨store, ids, send, [], ⟨recv, sizes⟩⟩ : World σ)
      ⟨store, ids, send, [], ⟨recv, sizes⟩⟩ := ⟨rfl, rfl, rfl, rfl, rfl⟩
  obtain ⟨hres, -, heff⟩ := handleBrowseStream_eq_serveBytes hvfs hmax hfour hsame
    (Nat.lt_succ_self _) hturns rfl
  have hinput : SameInput ((opened store ids send recv).world 0)
      ⟨store, ids, send, [], ⟨recv, sizes⟩⟩ := by
    refine ⟨rfl, rfl, rfl, ?_, rfl⟩
    exact List.append_nil _
  obtain ⟨hres', heff'⟩ := iterate_eq_serveBytes hvfs rfl hinput (recv.bytes.length + 1)
  exact ⟨hres'.trans hres.symm, heff'.store.trans heff.store.symm,
    heff'.ids.trans heff.ids.symm, heff'.send.trans heff.send.symm⟩

/-- The same stream with other bytes pending. -/
def feed (s : Serving σ) (x : List UInt8) : Serving σ :=
  { s with pending := x }

/-- Frames are read until the end; none is skipped. -/
def skipped (s : Serving σ) : Option ℕ :=
  match s.result with
  | none => some 0
  | some _ => none

/-- The stream ended with an error. -/
def Failed (s : Serving σ) : Prop :=
  ∃ e, s.result = some (.returned (.error e))

theorem skipped_eq_some {s : Serving σ} {k : ℕ} (h : s.skipped = some k) :
    s.result = none ∧ k = 0 := by
  unfold skipped at h
  split at h
  · rename_i hres
    exact ⟨hres, (Option.some.inj h).symm⟩
  · cases h

/-- A frame that is no message ends the stream. -/
theorem step_of_error {s : Serving σ} (hres : s.result = none) {e : BrowseDomainError}
    (h : ctx.codec.decodeFrame s.pending = .error e) : (step ctx s).Failed := by
  simp only [step, hres, h]
  exact ⟨.closed, rfl⟩

/-- A step looks at no more of what is pending than it takes from it, unless it ends the
stream. -/
theorem step_consume (hvfs : WriteSplits ctx.vfs) (s : Serving σ) :
    (∃ used, s.pending = used ++ (step ctx s).pending ∧
      ∀ x, step ctx (s.feed (used ++ x)) = (step ctx s).feed x) ∨
      ∃ e, (step ctx s).result = some e := by
  rcases hres : s.result with _ | e
  swap
  · refine .inr ⟨e, ?_⟩
    simp only [step, hres]
  rcases hdec : ctx.codec.decodeFrame s.pending with e | _ | ⟨msg, consumed⟩
  · obtain ⟨e, he⟩ := step_of_error hres hdec
    exact .inr ⟨_, he⟩
  · right
    simp only [step, hres, hdec]
    rcases s.ending with _ | e
    · exact ⟨_, rfl⟩
    · exact ⟨_, rfl⟩
  rcases hm : handleMessage ctx msg (s.world consumed) with ⟨failure | u, w⟩
  · right
    simp only [step, hres, hdec, hm]
    exact ⟨_, rfl⟩
  left
  have hstep : step ctx s = ofWorld w none := by
    simp only [step, hres, hdec, hm]
  have hpend : (s.world consumed).pending = s.pending.drop consumed := List.append_nil _
  obtain ⟨used, hused, hany⟩ := handleMessage_local hvfs hm
  obtain ⟨-, hle⟩ := ctx.codec.decodeFrame_consumed hdec
  rw [hpend] at hused hany
  have hcut : s.pending = s.pending.take consumed ++ used ++ w.pending := by
    rw [List.append_assoc, ← hused, List.take_append_drop]
  refine ⟨s.pending.take consumed ++ used, ?_, fun x => ?_⟩
  · rw [hstep]
    exact hcut
  · have hdec' := ctx.codec.decodeFrame_take hdec
    have hfeed : (s.feed (s.pending.take consumed ++ used ++ x)).world consumed =
        ⟨s.store, s.ids, s.send, used ++ x, ⟨⟨[], s.ending⟩, []⟩⟩ := by
      simp only [world, feed, List.append_assoc]
      rw [List.drop_left' (by rw [List.length_take]; omega)]
    obtain ⟨t', ht, hb⟩ := hany x ⟨s.store, s.ids, s.send, used ++ x, ⟨⟨[], s.ending⟩, []⟩⟩
      ⟨⟨rfl, rfl, rfl⟩, rfl, hpend, List.append_nil _⟩
    have hstep' : step ctx (s.feed (s.pending.take consumed ++ used ++ x)) = ofWorld t' none := by
      have hmore : ctx.codec.decodeFrame (s.feed (s.pending.take consumed ++ used ++ x)).pending =
          .ok (some (msg, consumed)) := by
        change ctx.codec.decodeFrame (s.pending.take consumed ++ used ++ x) = _
        rw [List.append_assoc]
        exact ctx.codec.decodeFrame_append hdec' _
      have hres' : (s.feed (s.pending.take consumed ++ used ++ x)).result = none := hres
      simp only [step, hres', hmore, hfeed, ht]
    rw [hstep, hstep']
    simp only [ofWorld, feed, hb.effects.store, hb.effects.ids, hb.effects.send, hb.ending,
      hb.other]

end Serving

end Browse

end Tradr
