import Tradr.BrowseRules
import Tradr.Posix

/-!
# The Browse Handler and How Its Stream Is Cut

The bytes of a Browse stream reach the handler in reads of any sizes: frames are split or
come several at once, and the bytes of an upload lie partly in the buffer and partly still
in the stream. What the handler does depends on the bytes alone. Only the sizes of the
write calls of an upload follow the reads, so the filesystem has to be one on which a run
of bytes may be written in pieces (`WriteSplits`).

`serveBytes` is the handler for the whole byte string at once, with no buffer and no
reads; `handleBrowseStream` agrees with it for every way the bytes are cut.

## Main results

* `receiveContent_spec`: an upload takes exactly its bytes from the front of what is
  pending, however they are cut.
* `handleBrowseStream_eq_serveBytes`: the stream is served as its byte string.
-/

namespace Tradr

namespace Browse

open Eff

variable {σ H : Type}

/-! ### Writing a run of bytes in pieces -/

/-- Writing a run of bytes is writing its pieces one after the other, up to the first
failure. -/
def WriteSplits (vfs : Vfs σ H) : Prop :=
  ∀ s h off a b, a ≠ [] → b ≠ [] → vfs.writeAt s h off (a ++ b) =
    match vfs.writeAt s h off a with
    | (.ok (), s) => vfs.writeAt s h (off + a.length) b
    | (.error e, s) => (.error e, s)

/-- Write a run of bytes; no call is made for none. -/
def writeRun (vfs : Vfs σ H) (s : σ) (h : H) (off : ℕ) (bytes : List UInt8) :
    Except VfsError Unit × σ :=
  if bytes = [] then (.ok (), s) else vfs.writeAt s h off bytes

/-- A run is written as its two parts. -/
theorem writeRun_append {vfs : Vfs σ H} (hvfs : WriteSplits vfs) (s : σ) (h : H) (off : ℕ)
    (a b : List UInt8) :
    writeRun vfs s h off (a ++ b) =
      match writeRun vfs s h off a with
      | (.ok (), s) => writeRun vfs s h (off + a.length) b
      | (.error e, s) => (.error e, s) := by
  unfold writeRun
  rcases eq_or_ne a [] with rfl | ha
  · simp
  · rcases eq_or_ne b [] with rfl | hb
    · rw [List.append_nil, if_neg ha]
      rcases vfs.writeAt s h off a with ⟨e | u, s'⟩
      · rfl
      · rfl
    · rw [if_neg (by simp [ha]), if_neg ha, hvfs s h off a b ha hb]
      rcases vfs.writeAt s h off a with ⟨e | u, s'⟩
      · rfl
      · exact (if_neg hb).symm

/-! ### The bytes of an upload -/

/-- What an upload of `need` more bytes does when these bytes are pending. -/
def uploadOutcome (vfs : Vfs σ H) (s : σ) (writer : H) (off need : ℕ) (bytes : List UInt8)
    (ending : Option TransportError) : Except BrowseFailure Unit × σ :=
  match writeRun vfs s writer off (bytes.take need) with
  | (.error e, s) => (.error (.refused (refusalFor e)), s)
  | (.ok (), s) =>
    if need ≤ bytes.length then (.ok (), s)
    else (.error (.stream (ending.getD .closed)), s)

/-- An upload that needs nothing more is done. -/
@[simp] theorem uploadOutcome_zero (vfs : Vfs σ H) (s : σ) (writer : H) (off : ℕ)
    (bytes : List UInt8) (ending : Option TransportError) :
    uploadOutcome vfs s writer off 0 bytes ending = (.ok (), s) := by
  simp [uploadOutcome, writeRun]

/-- An upload that needs more fails at the end of the stream. -/
theorem uploadOutcome_nil (vfs : Vfs σ H) (s : σ) (writer : H) (off : ℕ) {need : ℕ}
    (hneed : 0 < need) (ending : Option TransportError) :
    uploadOutcome vfs s writer off need [] ending =
      (.error (.stream (ending.getD .closed)), s) := by
  simp [uploadOutcome, writeRun, hneed.ne']

/-- An upload is its first part and then the rest of it. -/
theorem uploadOutcome_append {vfs : Vfs σ H} (hvfs : WriteSplits vfs) (s : σ) (writer : H)
    (off : ℕ) {need : ℕ} {chunk : List UInt8} (hle : chunk.length ≤ need)
    (rest : List UInt8) (ending : Option TransportError) :
    uploadOutcome vfs s writer off need (chunk ++ rest) ending =
      match writeRun vfs s writer off chunk with
      | (.ok (), s) =>
        uploadOutcome vfs s writer (off + chunk.length) (need - chunk.length) rest ending
      | (.error e, s) => (.error (.refused (refusalFor e)), s) := by
  unfold uploadOutcome
  rw [List.take_append, List.take_of_length_le hle, writeRun_append hvfs]
  rcases writeRun vfs s writer off chunk with ⟨e | u, s'⟩
  · rfl
  · dsimp only
    rcases writeRun vfs s' writer (off + chunk.length) (rest.take (need - chunk.length)) with
      ⟨e | u, s''⟩
    · rfl
    · have hiff : need ≤ (chunk ++ rest).length ↔ need - chunk.length ≤ rest.length := by
        rw [List.length_append]
        omega
      simp only [hiff]

/-- A filesystem call that answers. -/
theorem refusing_call_ok {A : Type} {op : σ → Except VfsError A × σ} {w : World σ} {a : A}
    {s : σ} (h : op w.store = (.ok a, s)) :
    refusing (call op) w = (.ok a, { w with store := s }) := by
  simp only [refusing, mapError, call, h]
  rfl

/-- A filesystem call that fails is refused. -/
theorem refusing_call_error {A : Type} {op : σ → Except VfsError A × σ} {w : World σ}
    {e : VfsError} {s : σ} (h : op w.store = (.error e, s)) :
    refusing (call op) w = (.error (.refused (refusalFor e)), { w with store := s }) := by
  simp only [refusing, mapError, call, h]
  rfl

variable {ctx : BrowseContext σ H}

/-- The part of an upload that comes from the stream takes exactly its bytes from it. -/
theorem receiveRest_spec (hvfs : WriteSplits ctx.vfs) (writer : H) {size fuel written : ℕ}
    (hfuel : size - written ≤ fuel) (w : World σ) :
    ∃ recv, receiveRest ctx writer size fuel written w =
        ((uploadOutcome ctx.vfs w.store writer written (size - written) w.recv.bytes
            w.recv.ending).1,
          { w with
            store := (uploadOutcome ctx.vfs w.store writer written (size - written)
              w.recv.bytes w.recv.ending).2
            recv }) ∧
      recv.ending = w.recv.ending ∧
      ((receiveRest ctx writer size fuel written w).1 = .ok () →
        size - written ≤ w.recv.bytes.length ∧
          recv.bytes = w.recv.bytes.drop (size - written)) := by
  induction fuel generalizing written w with
  | zero =>
      have hzero : size - written = 0 := by omega
      rw [hzero, uploadOutcome_zero]
      exact ⟨w.recv, rfl, rfl, fun _ => by simp⟩
  | succ fuel ih =>
      unfold receiveRest
      by_cases hlt : written < size
      · rw [if_pos hlt]
        have hneed : 0 < size - written := by omega
        have hroom : 0 < min (size - written) ioChunkSize :=
          lt_min hneed (by decide)
        rcases w.recv.read_cases hroom with
          ⟨hb, he, hread⟩ | ⟨e, hb, he, hread⟩ | ⟨chunk, rest, sizes, hb, hne, hlen, hread⟩
        · have hr : read (min (size - written) ioChunkSize) w = (.ok [], w) := by
            simp only [Browse.read, hread]
            rfl
          rw [hb, he, uploadOutcome_nil _ _ _ _ hneed, bind_of_ok hr, if_pos rfl]
          exact ⟨w.recv, rfl, he, fun h => absurd h (by simp [fail])⟩
        · have hr : read (min (size - written) ioChunkSize) w = (.error (.stream e), w) := by
            simp only [Browse.read, hread]
            rfl
          rw [hb, he, uploadOutcome_nil _ _ _ _ hneed, bind_of_error hr]
          exact ⟨w.recv, rfl, he, fun h => absurd h (by simp)⟩
        · have hr : read (min (size - written) ioChunkSize) w =
              (.ok chunk, { w with recv := ⟨⟨rest, w.recv.ending⟩, sizes⟩ }) := by
            simp only [Browse.read, hread]
            rfl
          have hle : chunk.length ≤ size - written := by omega
          have hpos : 0 < chunk.length := List.length_pos_iff.mpr hne
          rw [hb, uploadOutcome_append hvfs _ _ _ hle, bind_of_ok hr, if_neg hne]
          have hrun : writeRun ctx.vfs w.store writer written chunk =
              ctx.vfs.writeAt w.store writer written chunk := if_neg hne
          rw [hrun]
          rcases hwrite : ctx.vfs.writeAt w.store writer written chunk with ⟨e | u, s'⟩
          · rw [bind_of_error (refusing_call_error hwrite)]
            exact ⟨_, rfl, rfl, fun h => absurd h (by simp)⟩
          · rw [bind_of_ok (refusing_call_ok hwrite)]
            have hneed' : size - (written + chunk.length) = size - written - chunk.length := by
              omega
            obtain ⟨recv, hrest, hend, hok⟩ := ih
              (by omega : size - (written + chunk.length) ≤ fuel)
              { w with store := s', recv := ⟨⟨rest, w.recv.ending⟩, sizes⟩ }
            rw [hneed'] at hrest hok
            refine ⟨recv, hrest, hend, fun h => ?_⟩
            obtain ⟨h1, h2⟩ := hok h
            dsimp only at h1 h2
            refine ⟨?_, ?_⟩
            · rw [List.length_append]
              omega
            · rw [h2, List.drop_append, List.drop_of_length_le hle, List.nil_append]
      · have hzero : size - written = 0 := by omega
        rw [if_neg hlt, hzero, uploadOutcome_zero]
        exact ⟨w.recv, rfl, rfl, fun _ => by simp⟩

/-- The bytes that were sent and not yet used: the buffer and what is still to come. -/
def World.pending (w : World σ) : List UInt8 :=
  w.buffer ++ w.recv.bytes

/-- An upload takes exactly its bytes from the front of what is pending. -/
theorem receiveContent_spec (hvfs : WriteSplits ctx.vfs) (writer : H) (size : ℕ)
    (w : World σ) :
    ∃ buffer recv, receiveContent ctx writer size w =
        ((uploadOutcome ctx.vfs w.store writer 0 size w.pending w.recv.ending).1,
          { w with
            store := (uploadOutcome ctx.vfs w.store writer 0 size w.pending w.recv.ending).2
            buffer
            recv }) ∧
      recv.ending = w.recv.ending ∧
      ((receiveContent ctx writer size w).1 = .ok () →
        size ≤ w.pending.length ∧ buffer ++ recv.bytes = w.pending.drop size) := by
  have hcut : w.pending = w.buffer.take size ++ (w.buffer.drop size ++ w.recv.bytes) := by
    rw [← List.append_assoc, List.take_append_drop]
    rfl
  have hk : (w.buffer.take size).length ≤ size := List.length_take_le ..
  -- either the buffer holds all of the upload, or all of the buffer belongs to it
  have hrest : ∀ s off, uploadOutcome ctx.vfs s writer off (size - (w.buffer.take size).length)
        (w.buffer.drop size ++ w.recv.bytes) w.recv.ending =
      uploadOutcome ctx.vfs s writer off (size - (w.buffer.take size).length) w.recv.bytes
        w.recv.ending := by
    intro s off
    rcases Nat.lt_or_ge w.buffer.length size with hlt | hge
    · rw [List.drop_of_length_le hlt.le, List.nil_append]
    · have hzero : size - (w.buffer.take size).length = 0 := by
        rw [List.length_take]
        omega
      rw [hzero, uploadOutcome_zero, uploadOutcome_zero]
  have hdone : size - (w.buffer.take size).length ≤ w.recv.bytes.length →
      size ≤ w.pending.length ∧
        w.buffer.drop (w.buffer.take size).length ++
          w.recv.bytes.drop (size - (w.buffer.take size).length) = w.pending.drop size := by
    intro hle
    rw [List.length_take] at hle ⊢
    refine ⟨?_, ?_⟩
    · rw [World.pending, List.length_append]
      omega
    · rw [World.pending, List.drop_append]
      rcases Nat.lt_or_ge w.buffer.length size with hlt | hge
      · rw [min_eq_right hlt.le, List.drop_of_length_le le_rfl, List.drop_of_length_le hlt.le]
      · rw [min_eq_left hge, Nat.sub_self, Nat.sub_eq_zero_of_le hge]
  rw [hcut, uploadOutcome_append hvfs _ _ _ hk, ← hcut]
  unfold receiveContent
  rw [bind_of_ok (show gets (fun w : World σ => w.buffer.take size) w =
    (.ok (w.buffer.take size), w) from rfl)]
  unfold writeBuffered writeRun
  by_cases hnil : w.buffer.take size = []
  · have hpure : (pure () : Eff (World σ) BrowseFailure Unit) w = (.ok (), w) := rfl
    rw [if_pos hnil, if_pos hnil, bind_of_ok hpure]
    obtain ⟨recv, hspec, hend, hok⟩ := receiveRest_spec hvfs writer
      (le_refl (size - (w.buffer.take size).length)) w
    dsimp only
    rw [hrest, Nat.zero_add, hspec]
    refine ⟨w.buffer, recv, rfl, hend, fun h => ?_⟩
    rw [hspec] at hok
    obtain ⟨hle, hbytes⟩ := hok h
    obtain ⟨hsize, hdrop⟩ := hdone hle
    refine ⟨hsize, ?_⟩
    rw [← hdrop, hbytes, hnil]
    rfl
  · rw [if_neg hnil, if_neg hnil]
    rcases hwrite : ctx.vfs.writeAt w.store writer 0 (w.buffer.take size) with ⟨e | u, s'⟩
    · rw [bind_of_error (bind_of_error (refusing_call_error hwrite))]
      exact ⟨w.buffer, w.recv, rfl, rfl, fun h => absurd h (by simp)⟩
    · have hfirst : (do
            refusing (call (ctx.vfs.writeAt · writer 0 (w.buffer.take size)))
            takeBuffered (w.buffer.take size).length : Eff (World σ) BrowseFailure Unit) w =
          (.ok (), { w with
            store := s', buffer := w.buffer.drop (w.buffer.take size).length }) := by
        rw [bind_of_ok (refusing_call_ok hwrite)]
        rfl
      rw [bind_of_ok hfirst]
      obtain ⟨recv, hspec, hend, hok⟩ := receiveRest_spec hvfs writer
        (le_refl (size - (w.buffer.take size).length))
        { w with store := s', buffer := w.buffer.drop (w.buffer.take size).length }
      dsimp only at hspec hend hok ⊢
      rw [hrest, Nat.zero_add, hspec]
      refine ⟨_, recv, rfl, hend, fun h => ?_⟩
      rw [hspec] at hok
      obtain ⟨hle, hbytes⟩ := hok h
      obtain ⟨hsize, hdrop⟩ := hdone hle
      exact ⟨hsize, by rw [← hdrop, hbytes]⟩

/-! ### What the handlers see of the stream -/

/-- A relation that has worlds agree outside the receiving half of the stream, and says
nothing else about what lies there. -/
structure Framed (X : World σ → World σ → Prop) : Prop where
  agree : ∀ w t, X w t → w.store = t.store ∧ w.ids = t.ids ∧ w.send = t.send
  update : ∀ w t, X w t → ∀ store ids send,
    X { w with store, ids, send } { t with store, ids, send }

variable {X : World σ → World σ → Prop}

/-- A computation on the store, the identifiers and the sending half respects such a
relation. -/
theorem Framed.rel {E A : Type} (h : Framed X) {m : Eff (World σ) E A}
    (f : σ → List TransferId → SendStream →
      Except E A × σ × List TransferId × SendStream)
    (hm : ∀ w, m w = ((f w.store w.ids w.send).1,
      { w with
        store := (f w.store w.ids w.send).2.1
        ids := (f w.store w.ids w.send).2.2.1
        send := (f w.store w.ids w.send).2.2.2 })) :
    Rel X X m fun _ => True := by
  rintro ⟨s, ids, send, b, r⟩ ⟨s', ids', send', b', r'⟩ hwt
  obtain ⟨rfl, rfl, rfl⟩ := h.agree _ _ hwt
  have hX := h.update _ _ hwt (f s ids send).2.1 (f s ids send).2.2.1 (f s ids send).2.2.2
  rw [hm, hm]
  exact ⟨rfl, fun _ _ => ⟨trivial, hX⟩, fun _ _ => hX⟩

/-- The handlers respect such a relation call by call. -/
theorem Framed.respects (h : Framed X) (ctx : BrowseContext σ H) :
    Respects ctx X (fun _ => True) fun _ _ => True := by
  have hcall : ∀ {A : Type} (op : σ → Except VfsError A × σ),
      Rel X X (call op) fun _ => True := fun op =>
    h.rel (fun s ids send => ((op s).1.mapError .failed, (op s).2, ids, send)) fun _ => rfl
  refine ⟨fun _ => hcall _, fun _ => hcall _, fun _ => hcall _, fun _ _ _ _ => hcall _,
    fun _ => hcall _, fun _ => hcall _, fun _ => hcall _, fun _ _ _ => hcall _,
    fun _ _ _ => hcall _, fun _ => hcall _, ?_, fun bytes => ?_, ?_⟩
  · have hstaging : Rel X X (staging : Eff (World σ) VfsStop (RelPath × RelPath))
        fun _ => True := by
      exact h.rel (fun s ids send => ((drawStaging ids).1, s, (drawStaging ids).2, send))
        staging_eq
    exact hstaging.mono fun _ _ _ => trivial
  · exact h.rel (fun s ids send =>
      ((send.writeAll bytes).1.mapError .stream, s, ids, (send.writeAll bytes).2)) fun _ => rfl
  · exact h.rel (fun s ids send => (send.finish.1.mapError .stream, s, ids, send.finish.2))
      fun _ => rfl

/-- Two worlds from which the handlers cannot tell how the stream is cut: what is pending
is the same, wherever it lies. -/
structure SameInput (w t : World σ) : Prop where
  store : w.store = t.store
  ids : w.ids = t.ids
  send : w.send = t.send
  pending : w.pending = t.pending
  ending : w.recv.ending = t.recv.ending

/-- Two worlds in which the same has been done. -/
structure SameEffects (w t : World σ) : Prop where
  store : w.store = t.store
  ids : w.ids = t.ids
  send : w.send = t.send

theorem SameInput.effects {w t : World σ} (h : SameInput w t) : SameEffects w t :=
  ⟨h.store, h.ids, h.send⟩

theorem framed_sameInput : Framed (SameInput : World σ → World σ → Prop) where
  agree _ _ h := ⟨h.store, h.ids, h.send⟩
  update _ _ h _ _ _ := ⟨rfl, rfl, rfl, h.pending, h.ending⟩

theorem framed_sameEffects : Framed (SameEffects : World σ → World σ → Prop) where
  agree _ _ h := ⟨h.store, h.ids, h.send⟩
  update _ _ _ _ _ _ := ⟨rfl, rfl, rfl⟩

/-- The bytes of an upload are taken alike from wherever they lie. -/
theorem receiveContent_sameInput (hvfs : WriteSplits ctx.vfs) (writer : H) (size : ℕ) :
    Rel SameInput SameEffects (receiveContent ctx writer size) fun _ => True := by
  intro w t hwt
  obtain ⟨buffer, recv, hw, hwend, hwok⟩ := receiveContent_spec hvfs writer size w
  obtain ⟨buffer', recv', ht, htend, htok⟩ := receiveContent_spec hvfs writer size t
  rw [← hwt.store, ← hwt.pending, ← hwt.ending] at ht
  have hfst : (receiveContent ctx writer size w).1 = (receiveContent ctx writer size t).1 := by
    rw [hw, ht]
  refine ⟨hfst, fun _ hok => ⟨trivial, ?_⟩, fun _ _ => ?_⟩
  · have h1 := (hwok hok).2
    have h2 := (htok (hfst ▸ hok)).2
    rw [hw, ht]
    refine ⟨rfl, hwt.ids, hwt.send, ?_, ?_⟩
    · change buffer ++ recv.bytes = buffer' ++ recv'.bytes
      rw [h1, h2, hwt.pending]
    · change recv.ending = recv'.ending
      rw [hwend, htend, hwt.ending]
  · rw [hw, ht]
    exact ⟨rfl, hwt.ids, hwt.send⟩

/-- Serving a message does the same however the stream is cut. -/
theorem handleMessage_sameInput (hvfs : WriteSplits ctx.vfs) (msg : BrowseMessage) :
    Rel SameInput SameEffects (handleMessage ctx msg) fun _ => True :=
  handleMessage_rel (framed_sameInput.respects ctx) (framed_sameEffects.respects ctx)
    (fun _ _ h => h.effects) (receiveContent_sameInput hvfs) fun _ _ => trivial

/-- A world that holds at most so many bytes in the buffer and in the stream, beside
itself. -/
def Within (b r : ℕ) (w t : World σ) : Prop :=
  w = t ∧ w.buffer.length ≤ b ∧ w.recv.bytes.length ≤ r

/-- Serving a message puts no bytes back. -/
theorem handleMessage_within (ctx : BrowseContext σ H) (msg : BrowseMessage) (b r : ℕ) :
    Rel (Within b r) (Within b r) (handleMessage ctx msg) fun _ => True := by
  have hframed : Framed (Within b r : World σ → World σ → Prop) := by
    refine ⟨?_, ?_⟩
    · rintro w t ⟨rfl, -⟩
      exact ⟨rfl, rfl, rfl⟩
    · rintro w t ⟨rfl, hb, hr⟩ store ids send
      exact ⟨rfl, hb, hr⟩
  refine handleMessage_rel (hframed.respects ctx) (hframed.respects ctx) (fun _ _ h => h)
    (receiveContent_rel (fun _ _ h => by rw [h.1]) (fun room => ?_) (fun n => ?_)
      fun writer off bytes => ?_) fun _ _ => trivial
  · rintro w t ⟨rfl, hb, hr⟩
    have hle : (w.recv.read room).2.bytes.length ≤ w.recv.bytes.length := by
      unfold ScheduledRecv.read
      split_ifs
      · rfl
      · split
        · rfl
        · rfl
      · simp
    exact ⟨rfl, fun _ _ => ⟨trivial, rfl, hb, hle.trans hr⟩, fun _ _ => ⟨rfl, hb, hle.trans hr⟩⟩
  · rintro w t ⟨rfl, hb, hr⟩
    have hle : (w.buffer.drop n).length ≤ b := by
      rw [List.length_drop]
      omega
    exact ⟨rfl, fun _ _ => ⟨trivial, rfl, hle, hr⟩, fun _ _ => ⟨rfl, hle, hr⟩⟩
  · exact hframed.rel (fun s ids send => ((ctx.vfs.writeAt s writer off bytes).1.mapError .failed,
      (ctx.vfs.writeAt s writer off bytes).2, ids, send)) fun _ => rfl

/-- What follows a failure only depends on what has been done. -/
theorem answerFailure_sameEffects (ctx : BrowseContext σ H) (failure : BrowseFailure)
    {w t : World σ} (h : SameEffects w t) :
    (answerFailure ctx failure w).1 = (answerFailure ctx failure t).1 ∧
      SameEffects (answerFailure ctx failure w).2 (answerFailure ctx failure t).2 := by
  obtain ⟨hs, hi, hd⟩ := h
  unfold answerFailure
  rw [hd]
  split
  · exact ⟨rfl, hs, hi, hd⟩
  · exact ⟨rfl, hs, hi, hd⟩
  · split
    · exact ⟨rfl, hs, hi, hd⟩
    · split
      · exact ⟨rfl, hs, hi, rfl⟩
      · exact ⟨rfl, hs, hi, rfl⟩

/-- What follows a failure reads nothing. -/
theorem answerFailure_recv (ctx : BrowseContext σ H) (failure : BrowseFailure) (w : World σ) :
    (answerFailure ctx failure w).2.recv = w.recv := by
  unfold answerFailure
  split
  · rfl
  · rfl
  · split
    · rfl
    · split
      · rfl
      · rfl

/-! ### The byte string at once -/

/-- The world with everything that is pending in the buffer, less the bytes of a frame. -/
def World.gathered (w : World σ) (consumed : ℕ) : World σ :=
  { w with
    buffer := w.pending.drop consumed
    recv := { w.recv with bytes := [] } }

/-- Serve everything that is pending at once: frame by frame, to the first failure, the
first bytes that are no frame, or the end. -/
def serveBytes (ctx : BrowseContext σ H) : ℕ → World σ → Option StreamEnd × World σ
  | 0, w => (none, w)
  | fuel + 1, w =>
    match ctx.codec.decodeFrame w.pending with
    | .error _ => (some (.returned (.error .closed)), w)
    | .ok none =>
      match w.recv.ending with
      | none => (some (.returned (.ok ())), w)
      | some e => (some (.returned (.error e)), w)
    | .ok (some (msg, consumed)) =>
      match handleMessage ctx msg (w.gathered consumed) with
      | (.ok (), w) => serveBytes ctx fuel w
      | (.error failure, w) =>
        (some (answerFailure ctx failure w).1, (answerFailure ctx failure w).2)

/-- Taking the same frame off leaves the same input. -/
theorem SameInput.gathered {w t : World σ} (h : SameInput w t) {consumed : ℕ}
    (hle : consumed ≤ w.buffer.length) :
    SameInput { w with buffer := w.buffer.drop consumed } (t.gathered consumed) := by
  refine ⟨h.store, h.ids, h.send, ?_, h.ending⟩
  have hpending : w.pending.drop consumed = w.buffer.drop consumed ++ w.recv.bytes :=
    List.drop_append_of_le_length hle
  change w.buffer.drop consumed ++ w.recv.bytes = t.pending.drop consumed ++ []
  rw [List.append_nil, ← h.pending, hpending]

/-- An outcome of the stream stands for a front part of serving `t` at once: at the end
both end alike, and before it the rest of what is pending remains to be served. -/
structure Served (ctx : BrowseContext σ H) (fuel : ℕ) (t : World σ)
    (outcome : Option StreamEnd × World σ) : Prop where
  finished : ∀ result, outcome.1 = some result →
    (serveBytes ctx fuel t).1 = some result ∧ SameEffects outcome.2 (serveBytes ctx fuel t).2
  going : outcome.1 = none → ∃ fuel' t', serveBytes ctx fuel t = serveBytes ctx fuel' t' ∧
    SameInput outcome.2 t' ∧ outcome.2.pending.length < fuel' ∧
    ctx.codec.decodeFrame outcome.2.buffer = .ok none

/-- What is served alike stands for the same. -/
theorem Served.of_eq {fuel fuel' : ℕ} {t t' : World σ} {outcome : Option StreamEnd × World σ}
    (h : Served ctx fuel' t' outcome) (heq : serveBytes ctx fuel t = serveBytes ctx fuel' t') :
    Served ctx fuel t outcome := by
  refine ⟨fun result hresult => ?_, fun hnone => ?_⟩
  · rw [heq]
    exact h.finished result hresult
  · rw [heq]
    exact h.going hnone

/-- Draining the buffer serves a front part of what is pending. -/
theorem drain_served (hvfs : WriteSplits ctx.vfs) {fuel fuel' : ℕ} {w t : World σ}
    (hwt : SameInput w t) (hfuel : w.buffer.length ≤ fuel) (hfuel' : w.pending.length < fuel') :
    Served ctx fuel' t (drain ctx fuel w) ∧
      (drain ctx fuel w).2.recv.bytes.length ≤ w.recv.bytes.length := by
  induction fuel generalizing w t fuel' with
  | zero =>
      have hnil : w.buffer = [] := List.length_eq_zero_iff.mp (by omega)
      refine ⟨⟨fun _ h => absurd h (by simp [drain]), fun _ => ⟨fuel', t, rfl, hwt, hfuel', ?_⟩⟩,
        le_rfl⟩
      rw [drain, hnil]
      rfl
  | succ fuel ih =>
      unfold drain
      by_cases hnil : w.buffer = []
      · rw [if_pos hnil]
        refine ⟨⟨fun _ h => absurd h (by simp), fun _ => ⟨fuel', t, rfl, hwt, hfuel', ?_⟩⟩, le_rfl⟩
        rw [hnil]
        rfl
      · rw [if_neg hnil]
        obtain ⟨n, rfl⟩ : ∃ n, fuel' = n + 1 := ⟨fuel' - 1, by omega⟩
        have hpend : t.pending = w.buffer ++ w.recv.bytes := hwt.pending.symm
        rcases hdec : ctx.codec.decodeFrame w.buffer with e | _ | ⟨msg, consumed⟩
        · refine ⟨⟨fun result h => ?_, fun h => absurd h (by simp)⟩, le_rfl⟩
          have hserve : serveBytes ctx (n + 1) t = (some (.returned (.error .closed)), t) := by
            rw [serveBytes, hpend, ctx.codec.decodeFrame_error_append hdec]
          rw [hserve]
          exact ⟨h, hwt.effects⟩
        · exact ⟨⟨fun _ h => absurd h (by simp),
            fun _ => ⟨n + 1, t, rfl, hwt, hfuel', hdec⟩⟩, le_rfl⟩
        · dsimp only
          obtain ⟨hpos, hle⟩ := ctx.codec.decodeFrame_consumed hdec
          obtain ⟨hfst, hok, herr⟩ := handleMessage_sameInput hvfs msg _ _ (hwt.gathered hle)
          obtain ⟨-, hwok, hwerr⟩ := handleMessage_within ctx msg _ _
            { w with buffer := w.buffer.drop consumed } _ ⟨rfl, le_rfl, le_rfl⟩
          have hserve : serveBytes ctx (n + 1) t =
              match handleMessage ctx msg (t.gathered consumed) with
              | (.ok (), w) => serveBytes ctx n w
              | (.error failure, w) =>
                (some (answerFailure ctx failure w).1, (answerFailure ctx failure w).2) := by
            rw [serveBytes, hpend, ctx.codec.decodeFrame_append hdec]
          rcases hw : handleMessage ctx msg { w with buffer := w.buffer.drop consumed } with
            ⟨failure | u, w'⟩ <;>
            rcases ht : handleMessage ctx msg (t.gathered consumed) with ⟨failure' | u', t'⟩ <;>
            rw [hw, ht] at hfst hok herr <;> rw [hw] at hwok hwerr <;> rw [ht] at hserve <;>
            dsimp only at hfst hok herr hwok hwerr hserve ⊢
          · obtain rfl := Except.error.inj hfst
            obtain ⟨h1, h2⟩ := answerFailure_sameEffects ctx failure (herr failure rfl)
            refine ⟨⟨fun result h => ?_, fun h => absurd h (by simp)⟩, ?_⟩
            · rw [hserve]
              exact ⟨(congrArg some h1.symm).trans h, h2⟩
            · rw [answerFailure_recv]
              exact (hwerr failure rfl).2.2
          · exact absurd hfst (by simp)
          · exact absurd hfst (by simp)
          · obtain ⟨-, -, hb, hr⟩ := hwok u rfl
            rw [List.length_drop] at hb
            rw [World.pending, List.length_append] at hfuel'
            have hlt : w'.pending.length < n := by
              rw [World.pending, List.length_append]
              omega
            obtain ⟨hserved, hbytes⟩ := ih (hok u rfl).2 (by omega) hlt
            exact ⟨hserved.of_eq hserve, hbytes.trans hr⟩

/-- A turn serves a front part of what is pending, and takes bytes from the stream unless
it is the last. -/
theorem turn_served (hvfs : WriteSplits ctx.vfs)
    (hmax : ctx.codec.maxFrameSize = ctx.maxFrameSize) (hfour : 4 ≤ ctx.maxFrameSize.toNat)
    {fuel : ℕ} {w t : World σ} (hwt : SameInput w t) (hfuel : w.pending.length < fuel)
    (hdec : ctx.codec.decodeFrame w.buffer = .ok none) :
    Served ctx fuel t (turn ctx w) ∧
      ((turn ctx w).1 = none → (turn ctx w).2.recv.bytes.length < w.recv.bytes.length) := by
  have hroom : 0 < bufferSize ctx - w.buffer.length := by
    have := ctx.codec.length_le_of_decodeFrame hdec
    rw [hmax] at this
    unfold bufferSize
    omega
  obtain ⟨n, rfl⟩ : ∃ n, fuel = n + 1 := ⟨fuel - 1, by omega⟩
  unfold turn
  rcases w.recv.read_cases hroom with
    ⟨hb, he, hread⟩ | ⟨e, hb, he, hread⟩ | ⟨chunk, rest, sizes, hb, hne, -, hread⟩
  · rw [hread]
    dsimp only
    rw [if_pos rfl]
    have hpend : t.pending = w.buffer := by
      rw [← hwt.pending, World.pending, hb, List.append_nil]
    have hserve : serveBytes ctx (n + 1) t = (some (.returned (.ok ())), t) := by
      rw [serveBytes, hpend, hdec]
      dsimp only
      rw [← hwt.ending, he]
    refine ⟨⟨fun result h => ?_, fun h => absurd h (by simp)⟩, fun h => absurd h (by simp)⟩
    rw [hserve]
    exact ⟨h, hwt.effects⟩
  · rw [hread]
    have hpend : t.pending = w.buffer := by
      rw [← hwt.pending, World.pending, hb, List.append_nil]
    have hserve : serveBytes ctx (n + 1) t = (some (.returned (.error e)), t) := by
      rw [serveBytes, hpend, hdec]
      dsimp only
      rw [← hwt.ending, he]
    refine ⟨⟨fun result h => ?_, fun h => absurd h (by simp)⟩, fun h => absurd h (by simp)⟩
    rw [hserve]
    exact ⟨h, hwt.effects⟩
  · rw [hread]
    dsimp only
    rw [if_neg hne]
    have hsame : SameInput
        { w with buffer := w.buffer ++ chunk, recv := ⟨⟨rest, w.recv.ending⟩, sizes⟩ } t := by
      refine ⟨hwt.store, hwt.ids, hwt.send, ?_, hwt.ending⟩
      rw [← hwt.pending]
      simp [World.pending, hb]
    have hlt : (World.pending { w with
        buffer := w.buffer ++ chunk, recv := ⟨⟨rest, w.recv.ending⟩, sizes⟩ }).length < n + 1 := by
      rw [hsame.pending, ← hwt.pending]
      exact hfuel
    obtain ⟨hserved, hbytes⟩ := drain_served hvfs hsame
      (by simp : (w.buffer ++ chunk).length ≤ w.buffer.length + chunk.length) hlt
    refine ⟨hserved, fun _ => lt_of_le_of_lt hbytes ?_⟩
    have hpos : 0 < chunk.length := List.length_pos_iff.mpr hne
    rw [hb, List.length_append]
    exact Nat.lt_add_of_pos_left hpos

/-- The stream is served as its byte string: with a turn for each byte it comes to an
end, and to the same end. -/
theorem handleBrowseStream_eq_serveBytes (hvfs : WriteSplits ctx.vfs)
    (hmax : ctx.codec.maxFrameSize = ctx.maxFrameSize) (hfour : 4 ≤ ctx.maxFrameSize.toNat)
    {turns fuel : ℕ} {w t : World σ} (hwt : SameInput w t) (hfuel : w.pending.length < fuel)
    (hturns : w.recv.bytes.length < turns)
    (hdec : ctx.codec.decodeFrame w.buffer = .ok none) :
    (handleBrowseStream ctx turns w).1 = (serveBytes ctx fuel t).1 ∧
      (handleBrowseStream ctx turns w).1.isSome ∧
      SameEffects (handleBrowseStream ctx turns w).2 (serveBytes ctx fuel t).2 := by
  induction turns generalizing w t fuel with
  | zero => omega
  | succ turns ih =>
      obtain ⟨hserved, hbytes⟩ := turn_served hvfs hmax hfour hwt hfuel hdec
      unfold handleBrowseStream
      rcases hturn : turn ctx w with ⟨_ | result, w'⟩
      · rw [hturn] at hserved hbytes
        obtain ⟨fuel', t', hserve, hwt', hfuel', hdec'⟩ := hserved.going rfl
        have hless : w'.recv.bytes.length < w.recv.bytes.length := hbytes rfl
        rw [hserve]
        exact ih hwt' hfuel' (by omega) hdec'
      · rw [hturn] at hserved
        obtain ⟨h1, h2⟩ := hserved.finished result rfl
        exact ⟨h1.symm, rfl, h2⟩

/-! ### Uploads on the stream -/

/-- A world with these bytes pending, beside itself. -/
def Holding (bytes : List UInt8) (w t : World σ) : Prop :=
  w = t ∧ w.pending = bytes

theorem framed_holding (bytes : List UInt8) :
    Framed (Holding bytes : World σ → World σ → Prop) := by
  refine ⟨?_, ?_⟩
  · rintro w t ⟨rfl, -⟩
    exact ⟨rfl, rfl, rfl⟩
  · rintro w t ⟨rfl, h⟩ store ids send
    exact ⟨rfl, h⟩

/-- A computation that leaves the stream alone leaves the same bytes pending. -/
theorem pending_eq {E A : Type} {P : A → Prop} {m : Eff (World σ) E A} {w w' : World σ} {a : A}
    (hm : ∀ bytes, Rel (Holding bytes) (Holding bytes) m P) (h : m w = (.ok a, w')) :
    w'.pending = w.pending := by
  obtain ⟨-, hok, -⟩ := hm w.pending w w ⟨rfl, rfl⟩
  rw [h] at hok
  exact (hok a rfl).2.2

/-- A successful upload takes exactly its bytes, and what follows them is pending next. -/
theorem handleWriteFile_pending (hvfs : WriteSplits ctx.vfs) {req : WriteFile}
    {w w' : World σ} (h : handleWriteFile ctx req w = (.ok (), w')) :
    req.size.toNat ≤ w.pending.length ∧ w'.pending = w.pending.drop req.size.toNat := by
  have hr := fun bytes => (framed_holding bytes).respects ctx
  obtain ⟨target, w₁, h₁, h⟩ := Eff.bind_eq_ok.mp h
  obtain ⟨staging, w₂, h₂, h⟩ := Eff.bind_eq_ok.mp h
  obtain ⟨_, w₃, h₃, h⟩ := Eff.bind_eq_ok.mp h
  obtain ⟨writer, w₄, h₄, h⟩ := Eff.bind_eq_ok.mp (recover_eq_ok.mp h)
  obtain ⟨_, w₅, h₅, h⟩ := Eff.bind_eq_ok.mp h
  have hbefore : w₄.pending = w.pending := by
    rw [pending_eq (fun bytes => ((hr bytes).openWrite _).mapError) h₄,
      pending_eq (fun bytes => ((hr bytes).createDir _).mapError) h₃,
      pending_eq (fun bytes => (hr bytes).staging.mapError) h₂,
      pending_eq (fun bytes => (hr bytes).uploadTarget req) h₁]
  have hafter : w'.pending = w₅.pending :=
    pending_eq (fun bytes =>
      Rel.bind ((hr bytes).sync writer).mapError fun _ _ =>
        Rel.bind ((hr bytes).place req fun _ => trivial) fun _ _ =>
          Rel.bind ((hr bytes).remove staging.1).mapError fun _ _ => (hr bytes).sendAck) h
  obtain ⟨buffer, recv, hspec, -, hok⟩ := receiveContent_spec hvfs writer req.size.toNat w₄
  obtain ⟨hle, hdrop⟩ := hok (by rw [h₅])
  have hw₅ : w₅.pending = buffer ++ recv.bytes := by
    rw [h₅] at hspec
    rw [(Prod.mk.inj hspec).2]
    rfl
  rw [hbefore] at hle hdrop
  exact ⟨hle, by rw [hafter, hw₅, hdrop]⟩

/-! ### The sequence of filesystem operations -/

variable [DecidableEq H]

/-- Record a call; a write that goes on where the last write on its handle ended is one
run with it. -/
def pushRun (op : VfsOp H) (log : List (VfsOp H)) : List (VfsOp H) :=
  match op, log with
  | .write h off outcome, .write h' off' (.ok bytes) :: rest =>
    if h = h' ∧ off = off' + bytes.length then
      .write h' off' (outcome.map fun more => bytes ++ more) :: rest
    else op :: log
  | _, _ => op :: log

/-- Two writes of a run are recorded as one. -/
theorem pushRun_pushRun (h : H) (off : ℕ) (a : List UInt8)
    (outcome : Except VfsError (List UInt8)) (log : List (VfsOp H)) :
    pushRun (.write h (off + a.length) outcome) (pushRun (.write h off (.ok a)) log) =
      pushRun (.write h off (outcome.map fun b => a ++ b)) log := by
  by_cases hgoes : ∃ off' bytes rest, log = .write h off' (.ok bytes) :: rest ∧
      off = off' + bytes.length
  · obtain ⟨off', bytes, rest, rfl, rfl⟩ := hgoes
    rcases outcome with e | b
    · simp [pushRun, Except.map, Nat.add_assoc]
    · simp [pushRun, Except.map, Nat.add_assoc]
  · have hnew : ∀ x, pushRun (.write h off x) log = .write h off x :: log := by
      intro x
      unfold pushRun
      split
      · rename_i heq
        obtain ⟨rfl, rfl, rfl⟩ := VfsOp.write.inj heq
        rw [if_neg]
        rintro ⟨rfl, rfl⟩
        exact hgoes ⟨_, _, _, rfl, rfl⟩
      · rfl
    rw [hnew, hnew]
    simp [pushRun]

/-- Recording runs of writes keeps it possible to write in pieces. -/
theorem writeSplits_recording {vfs : Vfs σ H} (hvfs : WriteSplits vfs) :
    WriteSplits (recording pushRun vfs) := by
  intro r h off a b ha hb
  simp only [recording, record, hvfs r.store h off a b ha hb]
  rcases vfs.writeAt r.store h off a with ⟨e | u, s⟩
  · rfl
  · have hmap : (vfs.writeAt s h (off + a.length) b).1.map (fun _ => a ++ b) =
        ((vfs.writeAt s h (off + a.length) b).1.map fun _ => b).map fun more => a ++ more := by
      rcases (vfs.writeAt s h (off + a.length) b).1 with e | u
      · rfl
      · rfl
    dsimp only
    rw [hmap, ← pushRun_pushRun]
    rfl

/-! ### Independence of the reads -/

/-- A stream before its first turn. -/
def World.opened (store : σ) (ids : List TransferId) (send : SendStream) (recv : RecvStream)
    (sizes : List ℕ) : World (Recorded σ H) :=
  ⟨⟨store, []⟩, ids, send, [], ⟨recv, sizes⟩⟩

omit [DecidableEq H] in
/-- Before each turn the buffer holds less than a frame. -/
theorem decodeFrame_of_turn (hvfs : WriteSplits ctx.vfs)
    (hmax : ctx.codec.maxFrameSize = ctx.maxFrameSize) (hfour : 4 ≤ ctx.maxFrameSize.toNat)
    {w w' : World σ} (hdec : ctx.codec.decodeFrame w.buffer = .ok none)
    (h : turn ctx w = (none, w')) : ctx.codec.decodeFrame w'.buffer = .ok none := by
  have hserved := (turn_served hvfs hmax hfour (⟨rfl, rfl, rfl, rfl, rfl⟩ : SameInput w w)
    (Nat.lt_succ_self _) hdec).1
  rw [h] at hserved
  obtain ⟨-, -, -, -, -, hdec'⟩ := hserved.going rfl
  exact hdec'

/-- The worlds between the turns of a stream. -/
inductive Reached (ctx : BrowseContext σ H) (w : World σ) : World σ → Prop
  | start : Reached ctx w w
  | turn {w₁ w₂ : World σ} : Reached ctx w w₁ → turn ctx w₁ = (none, w₂) → Reached ctx w w₂

omit [DecidableEq H] in
/-- The buffer has room whenever the stream is read. -/
theorem Reached.room (hvfs : WriteSplits ctx.vfs)
    (hmax : ctx.codec.maxFrameSize = ctx.maxFrameSize) (hfour : 4 ≤ ctx.maxFrameSize.toNat)
    {w w' : World σ} (hdec : ctx.codec.decodeFrame w.buffer = .ok none)
    (h : Reached ctx w w') : w'.buffer.length < bufferSize ctx := by
  have hdec' : ctx.codec.decodeFrame w'.buffer = .ok none := by
    induction h with
    | start => exact hdec
    | turn _ hturn ih => exact decodeFrame_of_turn hvfs hmax hfour ih hturn
  have hle := ctx.codec.length_le_of_decodeFrame hdec'
  rw [hmax] at hle
  unfold bufferSize
  omega

/-- **A stream is served alike however it is cut.** For a maximum frame size of at least
four and a filesystem on which a run may be written in pieces, any two ways to read the
same bytes reach the end of the stream, with the same result, the same bytes sent, the same
store and the same operations, consecutive writes of a run counted as one. The buffer has
room whenever the stream is read, and a successful upload takes exactly its own bytes. -/
theorem handleBrowseStream_chunking (ctx : BrowseContext σ H) (hvfs : WriteSplits ctx.vfs)
    (hmax : ctx.codec.maxFrameSize = ctx.maxFrameSize) (hfour : 4 ≤ ctx.maxFrameSize.toNat)
    (store : σ) (ids : List TransferId) (send : SendStream) (recv : RecvStream)
    (sizes₁ sizes₂ : List ℕ) {turns₁ turns₂ : ℕ} (hturns₁ : recv.bytes.length < turns₁)
    (hturns₂ : recv.bytes.length < turns₂) :
    (∃ result w₁ w₂,
      handleBrowseStream (ctx.recorded pushRun) turns₁ (World.opened store ids send recv sizes₁) =
          (some result, w₁) ∧
        handleBrowseStream (ctx.recorded pushRun) turns₂
            (World.opened store ids send recv sizes₂) = (some result, w₂) ∧
        w₁.send = w₂.send ∧ w₁.store = w₂.store) ∧
      (∀ w, Reached (ctx.recorded pushRun) (World.opened store ids send recv sizes₁) w →
        w.buffer.length < bufferSize ctx) ∧
      ∀ req w w', handleMessage ctx (.writeFile req) w = (.ok (), w') →
        req.size.toNat ≤ w.pending.length ∧ w'.pending = w.pending.drop req.size.toNat := by
  have hrec : WriteSplits (ctx.recorded pushRun).vfs := writeSplits_recording hvfs
  refine ⟨?_, fun w hw => hw.room hrec hmax hfour rfl,
    fun req w w' h => handleWriteFile_pending hvfs h⟩
  have hsame : SameInput (World.opened store ids send recv sizes₂ : World (Recorded σ H))
      (World.opened store ids send recv sizes₁) := ⟨rfl, rfl, rfl, rfl, rfl⟩
  obtain ⟨h₁, hsome, he₁⟩ := handleBrowseStream_eq_serveBytes hrec hmax hfour
    (⟨rfl, rfl, rfl, rfl, rfl⟩ : SameInput (World.opened store ids send recv sizes₁)
      (World.opened store ids send recv sizes₁)) (Nat.lt_succ_self _) hturns₁ rfl
  obtain ⟨h₂, -, he₂⟩ := handleBrowseStream_eq_serveBytes hrec hmax hfour hsame
    (Nat.lt_succ_self _) hturns₂ rfl
  obtain ⟨result, hresult⟩ := Option.isSome_iff_exists.mp hsome
  refine ⟨result, _, _, Prod.ext hresult rfl, Prod.ext ?_ rfl, ?_, ?_⟩
  · exact h₂.trans (h₁.symm.trans hresult)
  · exact he₁.send.trans he₂.send.symm
  · exact he₁.store.trans he₂.store.symm

omit [DecidableEq H] in
/-- On the POSIX backend a run of bytes may be written in pieces. -/
theorem writeSplits_posix : WriteSplits PosixVfs.vfs := by
  intro t ino off a b ha hb
  simp only [PosixVfs.vfs, Function.update_self, Function.update_idem]
  rw [ByteFile.overlay_overlay]

/-! ### An upload of two bytes -/

namespace TwoByteUpload

/-- The share the request names. -/
def shareId : ShareId := .sample

/-- The identifier the generator draws. -/
def transferId : TransferId :=
  ⟨[0x01, 0x7f, 0x22, 0xe2, 0x79, 0xb1, 0x7c, 0xc3, 0x98, 0xc4, 0xdc, 0x0c, 0x0c, 0x07, 0x39,
    0x8f], by decide, by decide, by decide⟩

/-- The request as protobuf carries it: a new file `a` of two bytes. -/
def wire : WireWriteFile :=
  ⟨shareId.display, "a".toList, 2, [], 1⟩

/-- The request in protobuf. -/
def payload : List UInt8 :=
  [0x0a, 36] ++ shareId.display.map (fun c => UInt8.ofNat c.toNat) ++ [0x12, 1, 0x61] ++
    [0x18, 2] ++ [0x28, 1]

/-- The protobuf layer on this request and its acknowledgement, whose one field is
empty. -/
def proto : BrowseProto where
  listDir := ⟨fun _ => [], fun _ => none⟩
  dirListing := ⟨fun _ => [], fun _ => none⟩
  stat := ⟨fun _ => [], fun _ => none⟩
  statResult := ⟨fun _ => [], fun _ => none⟩
  readFile := ⟨fun _ => [], fun _ => none⟩
  readFileBegin := ⟨fun _ => [], fun _ => none⟩
  writeFile := ⟨fun _ => payload, fun bytes => if bytes = payload then some wire else none⟩
  mkdir := ⟨fun _ => [], fun _ => none⟩
  delete := ⟨fun _ => [], fun _ => none⟩
  rename := ⟨fun _ => [], fun _ => none⟩
  ack := ⟨fun _ => [], fun _ => none⟩
  refused := ⟨fun _ => [], fun _ => none⟩

/-- A handler on the POSIX backend with this maximum frame size. -/
def context (maxFrameSize : UInt32) : BrowseContext Tree ℕ :=
  ⟨⟨proto, maxFrameSize⟩, PosixVfs.vfs, maxFrameSize, 4⟩

/-- An empty root. -/
def tree : Tree :=
  ⟨[], fun _ => [], 0, fun _ => 0, false⟩

/-- The frame of the request and the two bytes of the file. -/
def stream : RecvStream :=
  ⟨[0, 0, 0, 46, 0x46] ++ payload ++ [0x68, 0x69], none⟩

/-- The stream served in reads of these sizes, the calls recorded by `push`. -/
def served (push : VfsOp ℕ → List (VfsOp ℕ) → List (VfsOp ℕ)) (sizes : List ℕ) :
    Option StreamEnd × World (Recorded Tree ℕ) :=
  handleBrowseStream ((context 512).recorded push) 60
    (World.opened tree [transferId] .fresh stream sizes)

end TwoByteUpload

/-- The upload read at once and read byte by byte. -/
theorem handleBrowseStream_chunking_two_bytes :
    (TwoByteUpload.served pushRun []).1 = some (.returned (.ok ())) ∧
      (TwoByteUpload.served pushRun []).2.store =
        (TwoByteUpload.served pushRun [50, 1, 1]).2.store ∧
      (TwoByteUpload.served pushRun []).2.send =
        (TwoByteUpload.served pushRun [50, 1, 1]).2.send := by
  obtain ⟨⟨result, w₁, w₂, h₁, h₂, hsend, hstore⟩, -⟩ :=
    handleBrowseStream_chunking (TwoByteUpload.context 512) writeSplits_posix rfl (by decide)
      TwoByteUpload.tree [TwoByteUpload.transferId] .fresh TwoByteUpload.stream [] [50, 1, 1]
      (show _ < 60 by decide) (show _ < 60 by decide)
  refine ⟨by decide +kernel, ?_, ?_⟩
  · unfold TwoByteUpload.served
    rw [h₁, h₂]
    exact hstore
  · unfold TwoByteUpload.served
    rw [h₁, h₂]
    exact hsend

/-- Counted one by one, the calls follow the reads: the two bytes are written by one call
or by two. And below a maximum frame size of four the buffer is full in the middle of a
frame, where the end of the stream is then seen. -/
theorem chunking_shows_in_write_calls :
    (TwoByteUpload.served List.cons []).2.store.log ≠
        (TwoByteUpload.served List.cons [50, 1, 1]).2.store.log ∧
      ∃ w, Reached ((TwoByteUpload.context 3).recorded List.cons)
          (World.opened TwoByteUpload.tree [] .fresh ⟨[0, 0, 0, 3, 0x40, 0, 0], none⟩ []) w ∧
        ¬ w.buffer.length < bufferSize (TwoByteUpload.context 3) := by
  refine ⟨by decide +kernel, _, .turn .start (Prod.ext ?_ rfl), ?_⟩
  · decide +kernel
  · decide +kernel

end Browse

end Tradr
