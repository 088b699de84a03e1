import Tradr.BrowseDownload
import Tradr.BrowseServing
import Tradr.Offer
import Tradr.Send
import Tradr.Skipping

/-!
# The Readers of Frames as Skipping Machines

Every reader of frames meets frames with an unassigned code of its plane. Each of them is a
`Skipper` here, with what it does at such a frame: the two sides of a data stream skip
sixteen in a row, the side that waits for the accept or for the completion of an item, and
both sides of a Browse stream, skip none.

## Main definitions

* `Unassigned`, `OtherPlane`: the frames in question.
* `Receiver.skipper`, `Sender.requestSkipper`: the two sides of a data stream.
* `Sender.completionSkipper`: the wait for the completion of an item.
* `Wait.skipper`: a side that waits for one frame, `readTransferAccept_error` and
  `Download.readAnswerOf_error` the two that do.
* `Browse.Serving.skipper`: the serving side of a Browse stream.
-/

open Function

namespace Tradr

/-! ### Frames to skip and frames to refuse -/

/-- The encoding of a frame whose code is unassigned but in the range of the plane. -/
def Unassigned (limit : UInt32) (plane : Plane) (u : List UInt8) : Prop :=
  ∃ code payload, encodeFrame code payload limit = .ok u ∧ classify code plane = .ignorable

/-- The encoding of a frame whose code is in the range of another plane. -/
def OtherPlane (limit : UInt32) (plane : Plane) (u : List UInt8) : Prop :=
  ∃ code payload owner, encodeFrame code payload limit = .ok u ∧
    classify code plane = .refused (.wrongPlane owner)

/-- A frame at the front of a stream is read. -/
theorem readFrame_of_encodeFrame {limit : UInt32} {code : UInt8} {payload u : List UInt8}
    (h : encodeFrame code payload limit = .ok u) (x : List UInt8) (ending : Option TransportError) :
    RecvStream.readFrame ⟨u ++ x, ending⟩ limit = (.ok ⟨code, payload⟩, ⟨x, ending⟩) := by
  have hunit : frameVerdict limit (u ++ x) = .unit ⟨code, payload⟩ u.length :=
    frameParser_encodeFrame h x
  rw [RecvStream.readFrame_of_unit (s := ⟨u ++ x, ending⟩) hunit, List.drop_left]

/-- What is read is a frame at the front of the stream, and is read whatever follows. -/
theorem readFrame_ok {limit : UInt32} {r r' : RecvStream} {f : Frame}
    (h : r.readFrame limit = (.ok f, r')) :
    ∃ used, r.bytes = used ++ r'.bytes ∧ r'.ending = r.ending ∧
      encodeFrame f.typeCode f.payload limit = .ok used := by
  obtain ⟨n, hv, hrest⟩ := RecvStream.readFrame_eq_ok h
  refine ⟨r.bytes.take n, ?_, ?_, encodeFrame_of_unit hv⟩
  · rw [hrest, List.take_append_drop]
  · rw [hrest]

/-- A read that is not of an unassigned frame. -/
theorem classify_ne_ignorable {limit : UInt32} {plane : Plane} {r r' : RecvStream} {f : Frame}
    (h : r.readFrame limit = (.ok f, r'))
    (hfront : ∀ u x, Unassigned limit plane u → r.bytes ≠ u ++ x) :
    classify f.typeCode plane ≠ .ignorable := by
  intro hign
  obtain ⟨used, hbytes, -, henc⟩ := readFrame_ok h
  exact hfront used r'.bytes ⟨_, _, henc, hign⟩ hbytes

/-- An encoded frame has bytes. -/
theorem encodeFrame_ne_nil {limit : UInt32} {code : UInt8} {payload u : List UInt8}
    (h : encodeFrame code payload limit = .ok u) : u ≠ [] := by
  obtain ⟨-, rfl⟩ := encodeFrame_eq_ok_iff.mp h
  simp

theorem Unassigned.ne_nil {limit : UInt32} {plane : Plane} {u : List UInt8}
    (h : Unassigned limit plane u) : u ≠ [] := by
  obtain ⟨code, payload, henc, -⟩ := h
  exact encodeFrame_ne_nil henc

/-- What is read in full is at the front of the stream, and is read whatever follows. -/
theorem readExact_ok {n : ℕ} {r r' : RecvStream} {bs : List UInt8}
    (h : r.readExact n = (.ok bs, r')) :
    r.bytes = bs ++ r'.bytes ∧ r'.ending = r.ending ∧
      ∀ x, RecvStream.readExact ⟨bs ++ x, r.ending⟩ n = (.ok bs, ⟨x, r.ending⟩) := by
  by_cases hle : r.bytes.length < n
  · obtain ⟨e, he⟩ := RecvStream.readExact_of_lt hle
    rw [he] at h
    cases (Prod.mk.inj h).1
  rw [RecvStream.readExact, if_pos (by omega)] at h
  obtain ⟨hbs, rfl⟩ := Prod.mk.inj h
  obtain rfl := Except.ok.inj hbs
  have hlen : (r.bytes.take n).length = n := by
    rw [List.length_take]
    omega
  refine ⟨(List.take_append_drop n r.bytes).symm, rfl, fun x => ?_⟩
  rw [RecvStream.readExact, if_pos (by rw [List.length_append]; omega)]
  dsimp only
  rw [List.take_append_of_le_length (by omega), List.drop_append_of_le_length (by omega),
    List.take_of_length_le (by omega), List.drop_of_length_le (by omega), List.nil_append]

/-! ### Pieces -/

section Pieces

variable {env : ReceiveEnv} {req : ReceiveRequest} {totalChunks : ℕ}

/-- The slice of a piece is read whatever follows. -/
theorem receiveSlice_ok {header : ChunkDataHeader} {r r' : RecvStream} {p : Piece}
    (h : receiveSlice env req totalChunks header r = (.ok p, r')) :
    ∃ used, r.bytes = used ++ r'.bytes ∧ r'.ending = r.ending ∧
      ∀ x, receiveSlice env req totalChunks header ⟨used ++ x, r.ending⟩ =
        (.ok p, ⟨x, r.ending⟩) := by
  unfold receiveSlice at h
  rcases hread : r.readExact header.payloadLen.toNat with ⟨e | slice, r₁⟩
  · rw [hread] at h
    cases (Prod.mk.inj h).1
  obtain ⟨hbytes, hending, hany⟩ := readExact_ok hread
  rw [hread] at h
  dsimp only at h
  rcases hlen : expectedLen req totalChunks header with e | len
  · rw [hlen] at h
    cases (Prod.mk.inj h).1
  rw [hlen] at h
  dsimp only at h
  rcases hver : env.verifier.verify req.contentHash header.offset len slice with e | bytes
  · rw [hver] at h
    cases (Prod.mk.inj h).1
  rw [hver] at h
  obtain ⟨hp, rfl⟩ := Prod.mk.inj h
  refine ⟨slice, hbytes, hending, fun x => ?_⟩
  unfold receiveSlice
  rw [hany x]
  dsimp only
  rw [hlen]
  dsimp only
  rw [hver]
  dsimp only
  rw [← Except.ok.inj hp]

/-- An unassigned frame is passed over. -/
theorem receivePiece_unassigned {u : List UInt8} (hu : Unassigned req.maxFrameSize .data u)
    (x : List UInt8) (ending : Option TransportError) :
    receivePiece env req totalChunks ⟨u ++ x, ending⟩ = (.ok none, ⟨x, ending⟩) := by
  obtain ⟨code, payload, henc, hign⟩ := hu
  unfold receivePiece
  rw [readFrame_of_encodeFrame henc]
  dsimp only
  rw [hign]

/-- A frame of another plane is refused. -/
theorem receivePiece_otherPlane {u : List UInt8} (hu : OtherPlane req.maxFrameSize .data u)
    (x : List UInt8) (ending : Option TransportError) :
    ∃ e, receivePiece env req totalChunks ⟨u ++ x, ending⟩ = (.error e, ⟨x, ending⟩) := by
  obtain ⟨code, payload, owner, henc, href⟩ := hu
  refine ⟨.protocolViolation (.refused (.wrongPlane owner)), ?_⟩
  unfold receivePiece
  rw [readFrame_of_encodeFrame henc]
  dsimp only
  rw [href]

/-- Only an unassigned frame is passed over. -/
theorem receivePiece_none {r r' : RecvStream}
    (h : receivePiece env req totalChunks r = (.ok none, r')) :
    ∃ u, Unassigned req.maxFrameSize .data u ∧ r.bytes = u ++ r'.bytes := by
  unfold receivePiece at h
  rcases hread : r.readFrame req.maxFrameSize with ⟨e | f, r₁⟩
  · rw [hread] at h
    cases (Prod.mk.inj h).1
  rw [hread] at h
  dsimp only at h
  split at h
  · split at h
    · cases (Prod.mk.inj h).1
    · split at h
      · cases (Prod.mk.inj h).1
      · split at h <;> cases (Prod.mk.inj h).1
  · rename_i hign
    obtain ⟨-, rfl⟩ := Prod.mk.inj h
    obtain ⟨used, hbytes, -, henc⟩ := readFrame_ok hread
    exact ⟨used, ⟨_, _, henc, hign⟩, hbytes⟩
  · cases (Prod.mk.inj h).1
  · cases (Prod.mk.inj h).1

/-- A piece is read whatever follows. -/
theorem receivePiece_ok {r r' : RecvStream} {p : Option Piece}
    (h : receivePiece env req totalChunks r = (.ok p, r')) :
    ∃ used, r.bytes = used ++ r'.bytes ∧ r'.ending = r.ending ∧
      ∀ x, receivePiece env req totalChunks ⟨used ++ x, r.ending⟩ = (.ok p, ⟨x, r.ending⟩) := by
  rcases p with _ | p
  · obtain ⟨u, hu, hbytes⟩ := receivePiece_none h
    have hread := @receivePiece_unassigned env req totalChunks u hu r'.bytes r.ending
    have hr : r = ⟨u ++ r'.bytes, r.ending⟩ := by
      rw [← hbytes]
    rw [hr, hread] at h
    exact ⟨u, hbytes, by rw [← (Prod.mk.inj h).2], fun x =>
      receivePiece_unassigned hu x r.ending⟩
  · unfold receivePiece at h
    rcases hread : r.readFrame req.maxFrameSize with ⟨e | f, r₁⟩
    · rw [hread] at h
      cases (Prod.mk.inj h).1
    obtain ⟨used, hbytes, hending, henc⟩ := readFrame_ok hread
    rw [hread] at h
    dsimp only at h
    split at h
    · rename_i hclass
      split at h
      · cases (Prod.mk.inj h).1
      rename_i header hdec
      split at h
      · cases (Prod.mk.inj h).1
      rename_i hcheck
      split at h
      · cases (Prod.mk.inj h).1
      rename_i piece r₂ hslice
      obtain ⟨hp, rfl⟩ := Prod.mk.inj h
      obtain ⟨used', hbytes', hending', hany⟩ := receiveSlice_ok hslice
      refine ⟨used ++ used', ?_, by rw [hending', hending], fun x => ?_⟩
      · rw [hbytes, hbytes', List.append_assoc]
      · unfold receivePiece
        rw [List.append_assoc, readFrame_of_encodeFrame henc]
        dsimp only
        rw [hclass]
        dsimp only
        rw [hdec]
        dsimp only
        rw [hcheck]
        dsimp only
        rw [← hending, hany x]
        dsimp only
        rw [hp]
    · cases (Prod.mk.inj h).1
    · cases (Prod.mk.inj h).1
    · cases (Prod.mk.inj h).1


namespace Receiver

variable {σ H : Type} {vfs : Vfs σ H}

/-- The same session with other bytes to arrive on the data stream. -/
def feedData (w : Receiver σ H) (x : List UInt8) : Receiver σ H :=
  { w with dataRecv := { w.dataRecv with bytes := x } }

/-- The unassigned frames skipped in a row, where a session reads a frame. -/
def skipped (w : Receiver σ H) : Option ℕ :=
  match w.phase with
  | .receiving r => some r.ignorable
  | _ => none

/-- The same session after another number of them. -/
def withSkipped (w : Receiver σ H) (k : ℕ) : Receiver σ H :=
  match w.phase with
  | .receiving r => { w with phase := .receiving { r with ignorable := k } }
  | _ => w

/-- The session has failed, up to removing what it staged. -/
def Failed (w : Receiver σ H) : Prop :=
  match w.phase with
  | .cleaningFile _ => True
  | .cleaningDir _ => True
  | .done (.error _) => True
  | _ => False

/-- Only a session that receives reads frames. -/
theorem skipped_eq_some {w : Receiver σ H} {k : ℕ} (h : w.skipped = some k) :
    ∃ r, w.phase = .receiving r ∧ r.ignorable = k := by
  unfold skipped at h
  split at h
  · rename_i r hphase
    exact ⟨r, hphase, Option.some.inj h⟩
  · cases h

/-- A failure is not undone. -/
theorem Failed.step {w : Receiver σ H} (h : w.Failed) : (step vfs env req w).2.Failed := by
  unfold Failed at h
  split at h
  · rename_i why hphase
    simp only [Receiver.step, hphase, stepCleaningFile]
    split <;> trivial
  · rename_i why hphase
    simp only [Receiver.step, hphase, stepCleaningDir]
    split <;> trivial
  · rename_i why hphase
    simp only [Receiver.step, hphase, Failed]
  · cases h

/-- A failed session reads no more. -/
theorem Failed.skipped {w : Receiver σ H} (h : w.Failed) : w.skipped = none := by
  unfold Failed at h
  split at h
  · rename_i hphase
    simp only [Receiver.skipped, hphase]
  · rename_i hphase
    simp only [Receiver.skipped, hphase]
  · rename_i hphase
    simp only [Receiver.skipped, hphase]
  · cases h

/-- Only a session that receives looks at the data stream. -/
theorem step_feedData {w : Receiver σ H} (h : ∀ r, w.phase ≠ .receiving r) (x : List UInt8) :
    (step vfs env req (w.feedData x)).2 = (step vfs env req w).2.feedData x ∧
      (step vfs env req w).2.dataRecv = w.dataRecv := by
  obtain ⟨phase, store, dataRecv, dataSend, controlSend⟩ := w
  cases phase with
  | creatingDir =>
      simp only [step, feedData, stepCreatingDir]
      split <;> exact ⟨rfl, rfl⟩
  | opening =>
      simp only [step, feedData, stepOpening]
      split <;> exact ⟨rfl, rfl⟩
  | «deriving» handle => exact ⟨rfl, rfl⟩
  | requesting handle resumption ignorable =>
      simp only [step, feedData, stepRequesting, startPlacing, Receiver.fail, goto]
      split
      · split <;> exact ⟨rfl, rfl⟩
      · split
        · exact ⟨rfl, rfl⟩
        · split
          · exact ⟨rfl, rfl⟩
          · split <;> exact ⟨rfl, rfl⟩
  | receiving r => exact absurd rfl (h r)
  | storing r header verified =>
      simp only [step, feedData, stepStoring]
      split <;> exact ⟨rfl, rfl⟩
  | syncing r header verified =>
      simp only [step, feedData, stepSyncing]
      split
      · exact ⟨rfl, rfl⟩
      · split
        · exact ⟨rfl, rfl⟩
        · split <;> exact ⟨rfl, rfl⟩
  | probing sanitized candidate counter attempts =>
      simp only [step, feedData, stepProbing]
      split
      · exact ⟨rfl, rfl⟩
      · exact ⟨rfl, rfl⟩
      · split <;> exact ⟨rfl, rfl⟩
  | «renaming» sanitized candidate attempts =>
      simp only [step, feedData, stepRenaming]
      split
      · exact ⟨rfl, rfl⟩
      · split <;> exact ⟨rfl, rfl⟩
      · exact ⟨rfl, rfl⟩
  | finishing path =>
      simp only [step, feedData, stepFinish, Receiver.fail, goto]
      split <;> exact ⟨rfl, rfl⟩
  | reporting path =>
      simp only [step, feedData, stepReport, Receiver.fail, goto]
      split
      · exact ⟨rfl, rfl⟩
      · split <;> exact ⟨rfl, rfl⟩
  | abandoning =>
      simp only [step, feedData, stepFinish, Receiver.fail, goto]
      split <;> exact ⟨rfl, rfl⟩
  | reportingFailure =>
      simp only [step, feedData, stepReport, Receiver.fail, goto]
      split
      · exact ⟨rfl, rfl⟩
      · split <;> exact ⟨rfl, rfl⟩
  | cleaningFile why =>
      simp only [step, feedData, stepCleaningFile]
      split <;> exact ⟨rfl, rfl⟩
  | cleaningDir why =>
      simp only [step, feedData, stepCleaningDir]
      split <;> exact ⟨rfl, rfl⟩
  | done result => exact ⟨rfl, rfl⟩

/-- A session past a failure reads no more. -/
theorem Failed.skipped_iterate {w : Receiver σ H} (h : w.Failed) (n : ℕ) :
    ((fun w => (Receiver.step vfs env req w).2)^[n] w).skipped = none := by
  induction n generalizing w with
  | zero => exact h.skipped
  | succ n ih =>
      rw [iterate_succ_apply]
      exact ih h.step

/-- A step looks at no more of the data stream than it takes from it, unless it fails. -/
theorem step_consume (w : Receiver σ H) :
    (∃ used, w.dataRecv.bytes = used ++ (step vfs env req w).2.dataRecv.bytes ∧
      ∀ x, (step vfs env req (w.feedData (used ++ x))).2 = (step vfs env req w).2.feedData x) ∨
      (step vfs env req w).2.Failed := by
  by_cases hphase : ∃ r, w.phase = .receiving r
  · obtain ⟨r, hr⟩ := hphase
    obtain ⟨phase, store, dataRecv, dataSend, controlSend⟩ := w
    dsimp only at hr
    subst hr
    simp only [step, stepReceiving, feedData]
    rcases hp : receivePiece env req r.resumption.totalChunks dataRecv with ⟨e | p, recv⟩
    · exact .inr trivial
    obtain ⟨used, hbytes, hending, hany⟩ := receivePiece_ok hp
    refine .inl ⟨used, ?_, fun x => ?_⟩
    · rcases p with _ | p
      · dsimp only
        split_ifs
        · exact hbytes
        · exact hbytes
      · exact hbytes
    · rw [hany x]
      rcases p with _ | p
      · dsimp only
        split_ifs
        · rw [← hending]
          rfl
        · rw [← hending]
      · rw [← hending]
  · have hnot : ∀ r, w.phase ≠ .receiving r := fun r hr => hphase ⟨r, hr⟩
    refine .inl ⟨[], ?_, fun x => ?_⟩
    · rw [(@step_feedData env req σ H vfs w hnot []).2, List.nil_append]
    · rw [List.nil_append]
      exact (step_feedData hnot x).1

/-- The side that receives a file, as a machine that skips frames. -/
def skipper (vfs : Vfs σ H) (env : ReceiveEnv) (req : ReceiveRequest) :
    Skipper (Receiver σ H) UInt8 where
  step w := (step vfs env req w).2
  input w := w.dataRecv.bytes
  feed := feedData
  count := skipped
  setCount := withSkipped
  bound := maxConsecutiveIgnorableFrames
  Skippable := Unassigned req.maxFrameSize .data
  Foreign := OtherPlane req.maxFrameSize .data
  Failed := Failed
  input_feed _ _ := rfl
  feed_feed _ _ _ := rfl
  feed_input _ := rfl
  count_feed _ _ := rfl
  input_setCount w k := by
    unfold withSkipped
    split <;> rfl
  feed_setCount w k x := by
    unfold withSkipped feedData
    dsimp only
    split <;> rfl
  count_setCount w j k hj _ := by
    obtain ⟨r, hphase, -⟩ := skipped_eq_some hj
    simp only [withSkipped, skipped, hphase]
  setCount_setCount w j k := by
    obtain ⟨phase, store, dataRecv, dataSend, controlSend⟩ := w
    cases phase <;> rfl
  setCount_count w k hk := by
    obtain ⟨r, hphase, rfl⟩ := skipped_eq_some hk
    simp only [withSkipped, hphase]
    rw [← hphase]
  skippable_ne_nil u hu := hu.ne_nil
  failed_step w h := h.step
  skip w k u x hk hlt hu := by
    obtain ⟨r, hphase, rfl⟩ := skipped_eq_some hk
    simp only [step, feedData, hphase, stepReceiving, receivePiece_unassigned hu, withSkipped]
    rw [if_neg (by omega)]
  refuse w k u x hk hle hu := by
    obtain ⟨r, hphase, rfl⟩ := skipped_eq_some hk
    simp only [step, feedData, hphase, stepReceiving, receivePiece_unassigned hu]
    rw [if_pos (by omega)]
    trivial
  foreign w k u x hk hu := by
    obtain ⟨r, hphase, rfl⟩ := skipped_eq_some hk
    obtain ⟨e, he⟩ := @receivePiece_otherPlane env req r.resumption.totalChunks u hu x
      w.dataRecv.ending
    simp only [step, feedData, hphase, stepReceiving, he]
    trivial
  forget w j k hk hfront := by
    obtain ⟨r, hphase, rfl⟩ := skipped_eq_some hk
    simp only [step, withSkipped, hphase, stepReceiving]
    rcases hp : receivePiece env req r.resumption.totalChunks w.dataRecv with ⟨e | p, recv⟩
    · rfl
    rcases p with _ | p
    · obtain ⟨u, hu, hbytes⟩ := receivePiece_none hp
      exact absurd hbytes (hfront u _ hu)
    · rfl
  consume w := by
    rcases @step_consume env req σ H vfs w with h | h
    · exact .inl h
    · exact .inr h.skipped_iterate

end Receiver

end Pieces

/-! ### Requests and the completion of an item -/

namespace Sender

variable {σ H O : Type} {env : SendEnv σ H O} {req : SendRequest O}

/-- The same session with other bytes to arrive on the data stream. -/
def feedData (w : Sender σ H) (x : List UInt8) : Sender σ H :=
  { w with dataRecv := { w.dataRecv with bytes := x } }

/-- The same session with other bytes to arrive on the control stream. -/
def feedControl (w : Sender σ H) (x : List UInt8) : Sender σ H :=
  { w with controlRecv := { w.controlRecv with bytes := x } }

/-- The unassigned frames skipped in a row, where a session reads a request. -/
def skipped (w : Sender σ H) : Option ℕ :=
  match w.phase with
  | .awaiting _ ignorable => some ignorable
  | _ => none

/-- The same session after another number of them. -/
def withSkipped (w : Sender σ H) (k : ℕ) : Sender σ H :=
  match w.phase with
  | .awaiting reader _ => { w with phase := .awaiting reader k }
  | _ => w

/-- No frame is skipped where a session reads the completion of the item. -/
def completingSkipped (w : Sender σ H) : Option ℕ :=
  match w.phase with
  | .completing => some 0
  | _ => none

/-- The session has failed. -/
def Failed (w : Sender σ H) : Prop :=
  ∃ e, w.phase = .done (.error e)

theorem skipped_eq_some {w : Sender σ H} {k : ℕ} (h : w.skipped = some k) :
    ∃ reader, w.phase = .awaiting reader k := by
  unfold skipped at h
  split at h
  · rename_i reader ignorable hphase
    exact ⟨reader, by rw [hphase, Option.some.inj h]⟩
  · cases h

theorem completingSkipped_eq_some {w : Sender σ H} {k : ℕ} (h : w.completingSkipped = some k) :
    w.phase = .completing ∧ k = 0 := by
  unfold completingSkipped at h
  split at h
  · rename_i hphase
    exact ⟨hphase, (Option.some.inj h).symm⟩
  · cases h

theorem step_done {w : Sender σ H} {result : Except SendError Bool} (h : w.phase = .done result) :
    step env req w = w := by
  simp only [step, h]

theorem iterate_done {w : Sender σ H} {result : Except SendError Bool}
    (h : w.phase = .done result) (n : ℕ) : (step env req)^[n] w = w := by
  induction n with
  | zero => rfl
  | succ n ih => rw [iterate_succ_apply', ih, step_done h]

/-- A session that ends well does not fail. -/
theorem not_failed_of_done {w : Sender σ H} {m : ℕ} {b : Bool}
    (h : ((step env req)^[m] w).phase = .done (.ok b)) (n : ℕ) :
    ¬((step env req)^[n] w).Failed := by
  rintro ⟨e, he⟩
  -- After both, the session has ended in both ways.
  have hfailed : (step env req)^[m + n] w = (step env req)^[n] w := by
    rw [iterate_add_apply, iterate_done he]
  have hended : (step env req)^[m + n] w = (step env req)^[m] w := by
    rw [Nat.add_comm, iterate_add_apply, iterate_done h]
  rw [← hfailed, hended, h] at he
  cases he

/-- After the requests the session ends. -/
theorem step_completing {w : Sender σ H} (h : w.phase = .completing) :
    ∃ result, (step env req w).phase = .done result := by
  simp only [step, h, stepCompleting]
  split
  · exact ⟨_, rfl⟩
  · exact ⟨_, rfl⟩

/-- A frame on the data stream is answered by itself. -/
theorem stepFrame_feedData (w : Sender σ H) (reader : H) (ignorable : ℕ) (frame : Frame)
    (x : List UInt8) :
    stepFrame env (w.feedData x) reader ignorable frame =
        (stepFrame env w reader ignorable frame).feedData x ∧
      (stepFrame env w reader ignorable frame).dataRecv = w.dataRecv := by
  unfold stepFrame
  split
  · split <;> exact ⟨rfl, rfl⟩
  · split <;> exact ⟨rfl, rfl⟩
  · exact ⟨rfl, rfl⟩
  · split_ifs <;> exact ⟨rfl, rfl⟩
  · exact ⟨rfl, rfl⟩
  · exact ⟨rfl, rfl⟩

/-- The same session with other receiving halves. -/
def withRecv (w : Sender σ H) (dataRecv controlRecv : RecvStream) : Sender σ H :=
  { w with dataRecv, controlRecv }

/-- Apart from the two waits a session does not look at what arrives. -/
theorem step_withRecv {w : Sender σ H} (hawait : ∀ reader k, w.phase ≠ .awaiting reader k)
    (hcomplete : w.phase ≠ .completing) (d t : RecvStream) :
    step env req (w.withRecv d t) = (step env req w).withRecv d t ∧
      (step env req w).dataRecv = w.dataRecv ∧ (step env req w).controlRecv = w.controlRecv := by
  obtain ⟨phase, store, dataRecv, controlRecv, dataSend⟩ := w
  cases phase with
  | checking =>
      simp only [step, withRecv, stepChecking, Sender.fail]
      split
      · exact ⟨rfl, rfl, rfl⟩
      · split_ifs <;> exact ⟨rfl, rfl, rfl⟩
  | opening =>
      simp only [step, withRecv, stepOpening, Sender.fail]
      split <;> exact ⟨rfl, rfl, rfl⟩
  | awaiting reader k => exact absurd rfl (hawait reader k)
  | sending reader chunks =>
      simp only [step, withRecv]
      cases chunks with
      | nil => exact ⟨rfl, rfl, rfl⟩
      | cons chunk chunks =>
          simp only [stepSending]
          split_ifs <;> exact ⟨rfl, rfl, rfl⟩
  | filling reader chunk chunks window =>
      simp only [step, withRecv, stepFilling, Sender.fail]
      split_ifs
      · split
        · exact ⟨rfl, rfl, rfl⟩
        · split_ifs <;> exact ⟨rfl, rfl, rfl⟩
      · exact ⟨rfl, rfl, rfl⟩
  | heading reader chunk chunks window =>
      simp only [step, withRecv, stepHeading]
      generalize cutSlice env req chunk window = cut
      rcases cut with e | ⟨frame, slice⟩
      · exact ⟨rfl, rfl, rfl⟩
      · simp only [sendHeader, Sender.fail]
        split <;> exact ⟨rfl, rfl, rfl⟩
  | slicing reader chunks slice =>
      simp only [step, withRecv, stepSlicing, Sender.fail]
      split <;> exact ⟨rfl, rfl, rfl⟩
  | completing => exact absurd rfl hcomplete
  | done result => exact ⟨rfl, rfl, rfl⟩

/-- Only a session that awaits a request looks at the data stream. -/
theorem step_feedData {w : Sender σ H} (h : ∀ reader k, w.phase ≠ .awaiting reader k)
    (x : List UInt8) :
    step env req (w.feedData x) = (step env req w).feedData x ∧
      (step env req w).dataRecv = w.dataRecv := by
  by_cases hphase : w.phase = .completing
  · have hphase' : (w.feedData x).phase = .completing := hphase
    simp only [step, hphase, hphase', stepCompleting]
    unfold feedData
    dsimp only
    split <;> exact ⟨rfl, rfl⟩
  · obtain ⟨hstep, hdata, hcontrol⟩ := step_withRecv h hphase ⟨x, w.dataRecv.ending⟩
      w.controlRecv
    refine ⟨hstep.trans ?_, hdata⟩
    rw [withRecv, feedData, ← hcontrol, hdata]

/-- Only a session past the requests looks at the control stream. -/
theorem step_feedControl {w : Sender σ H} (h : w.phase ≠ .completing) (x : List UInt8) :
    step env req (w.feedControl x) = (step env req w).feedControl x ∧
      (step env req w).controlRecv = w.controlRecv := by
  by_cases hphase : ∃ reader k, w.phase = .awaiting reader k
  · obtain ⟨reader, k, hphase⟩ := hphase
    have hphase' : (w.feedControl x).phase = .awaiting reader k := hphase
    simp only [step, hphase, hphase', stepAwaiting, stepFrame]
    unfold feedControl
    dsimp only
    split
    · exact ⟨rfl, rfl⟩
    · exact ⟨rfl, rfl⟩
    · split
      · split <;> exact ⟨rfl, rfl⟩
      · split <;> exact ⟨rfl, rfl⟩
      · exact ⟨rfl, rfl⟩
      · split_ifs <;> exact ⟨rfl, rfl⟩
      · exact ⟨rfl, rfl⟩
      · exact ⟨rfl, rfl⟩
  · have hawait : ∀ reader k, w.phase ≠ .awaiting reader k :=
      fun reader k hk => hphase ⟨reader, k, hk⟩
    obtain ⟨hstep, hdata, hcontrol⟩ := step_withRecv hawait h w.dataRecv
      ⟨x, w.controlRecv.ending⟩
    refine ⟨hstep.trans ?_, hcontrol⟩
    rw [withRecv, feedControl, ← hdata, hcontrol]

/-- A step looks at no more of the data stream than it takes from it, unless it is past the
requests. -/
theorem step_consume (w : Sender σ H) :
    (∃ used, w.dataRecv.bytes = used ++ (step env req w).dataRecv.bytes ∧
      ∀ x, step env req (w.feedData (used ++ x)) = (step env req w).feedData x) ∨
      (step env req w).phase = .completing ∨ (step env req w).Failed := by
  by_cases hphase : ∃ reader k, w.phase = .awaiting reader k
  · obtain ⟨reader, k, hphase⟩ := hphase
    rcases hread : w.dataRecv.readFrame req.maxFrameSize with ⟨e | frame, dataRecv⟩
    · right
      by_cases he : e = .streamClosed
      · subst he
        left
        simp only [step, hphase, stepAwaiting, hread]
      · right
        refine ⟨.session e, ?_⟩
        simp only [step, hphase, stepAwaiting, hread]
        rfl
    · left
      obtain ⟨used, hbytes, hending, henc⟩ := readFrame_ok hread
      have hstep : step env req w = stepFrame env { w with dataRecv } reader k frame := by
        simp only [step, hphase, stepAwaiting, hread]
      refine ⟨used, ?_, fun x => ?_⟩
      · rw [hstep, (stepFrame_feedData { w with dataRecv } reader k frame []).2]
        exact hbytes
      · have hphase' : (w.feedData (used ++ x)).phase = .awaiting reader k := hphase
        have hread' : (w.feedData (used ++ x)).dataRecv.readFrame req.maxFrameSize =
            (.ok frame, ⟨x, w.dataRecv.ending⟩) := readFrame_of_encodeFrame henc x _
        rw [hstep, ← (stepFrame_feedData { w with dataRecv } reader k frame x).1]
        have hstep' : step env req (w.feedData (used ++ x)) =
            stepFrame env { w with dataRecv := ⟨x, w.dataRecv.ending⟩ } reader k frame := by
          simp only [step, hphase', stepAwaiting, hread']
          rw [← hphase']
          rfl
        rw [hstep', ← hending]
        rfl
  · have hawait : ∀ reader k, w.phase ≠ .awaiting reader k :=
      fun reader k hk => hphase ⟨reader, k, hk⟩
    refine .inl ⟨[], ?_, fun x => ?_⟩
    · rw [(@step_feedData σ H O env req w hawait []).2, List.nil_append]
    · rw [List.nil_append]
      exact (step_feedData hawait x).1

/-- The side that sends a file, as a machine that skips frames between the requests. -/
def requestSkipper (env : SendEnv σ H O) (req : SendRequest O) : Skipper (Sender σ H) UInt8 where
  step := step env req
  input w := w.dataRecv.bytes
  feed := feedData
  count := skipped
  setCount := withSkipped
  bound := maxConsecutiveIgnorableFrames
  Skippable := Unassigned req.maxFrameSize .data
  Foreign := OtherPlane req.maxFrameSize .data
  Failed := Failed
  input_feed _ _ := rfl
  feed_feed _ _ _ := rfl
  feed_input _ := rfl
  count_feed _ _ := rfl
  input_setCount w k := by
    unfold withSkipped
    split <;> rfl
  feed_setCount w k x := by
    unfold withSkipped feedData
    dsimp only
    split <;> rfl
  count_setCount w j k hj _ := by
    obtain ⟨reader, hphase⟩ := skipped_eq_some hj
    simp only [withSkipped, skipped, hphase]
  setCount_setCount w j k := by
    obtain ⟨phase, store, dataRecv, controlRecv, dataSend⟩ := w
    cases phase <;> rfl
  setCount_count w k hk := by
    obtain ⟨reader, hphase⟩ := skipped_eq_some hk
    simp only [withSkipped, hphase]
    rw [← hphase]
  skippable_ne_nil u hu := hu.ne_nil
  failed_step w h := by
    obtain ⟨e, he⟩ := h
    rw [step_done he]
    exact ⟨e, he⟩
  skip w k u x hk hlt hu := by
    obtain ⟨reader, hphase⟩ := skipped_eq_some hk
    obtain ⟨code, payload, henc, hign⟩ := hu
    simp only [step, feedData, hphase, stepAwaiting, readFrame_of_encodeFrame henc, stepFrame,
      hign, withSkipped]
    rw [if_neg (by omega)]
  refuse w k u x hk hle hu := by
    obtain ⟨reader, hphase⟩ := skipped_eq_some hk
    obtain ⟨code, payload, henc, hign⟩ := hu
    simp only [step, feedData, hphase, stepAwaiting, readFrame_of_encodeFrame henc, stepFrame,
      hign]
    rw [if_pos (by omega)]
    exact ⟨_, rfl⟩
  foreign w k u x hk hu := by
    obtain ⟨reader, hphase⟩ := skipped_eq_some hk
    obtain ⟨code, payload, owner, henc, href⟩ := hu
    simp only [step, feedData, hphase, stepAwaiting, readFrame_of_encodeFrame henc, stepFrame,
      href]
    exact ⟨_, rfl⟩
  forget w j k hk hfront := by
    obtain ⟨reader, hphase⟩ := skipped_eq_some hk
    simp only [step, withSkipped, hphase, stepAwaiting]
    rcases hread : w.dataRecv.readFrame req.maxFrameSize with ⟨e | frame, dataRecv⟩
    · cases e <;> rfl
    · have hign := classify_ne_ignorable hread hfront
      dsimp only
      unfold stepFrame
      split
      · rfl
      · rfl
      · rfl
      · rename_i hclass
        exact absurd hclass hign
      · rfl
      · rfl
  consume w := by
    rcases @step_consume σ H O env req w with h | h | h
    · exact .inl h
    · refine .inr fun n => ?_
      cases n with
      | zero => simp only [iterate_zero, id_eq, skipped, h]
      | succ n =>
          obtain ⟨result, hdone⟩ := @step_completing σ H O env req _ h
          rw [iterate_succ_apply, iterate_done hdone]
          simp only [skipped, hdone]
    · obtain ⟨e, he⟩ := h
      refine .inr fun n => ?_
      rw [iterate_done he]
      simp only [skipped, he]

/-- The side that sends a file, as a machine that skips frames before the completion of the
item: none. -/
def completionSkipper (env : SendEnv σ H O) (req : SendRequest O) :
    Skipper (Sender σ H) UInt8 where
  step := step env req
  input w := w.controlRecv.bytes
  feed := feedControl
  count := completingSkipped
  setCount w _ := w
  bound := 0
  Skippable := Unassigned req.maxFrameSize .control
  Foreign := OtherPlane req.maxFrameSize .control
  Failed := Failed
  input_feed _ _ := rfl
  feed_feed _ _ _ := rfl
  feed_input _ := rfl
  count_feed _ _ := rfl
  input_setCount _ _ := rfl
  feed_setCount _ _ _ := rfl
  count_setCount w j k hj hk := by
    obtain ⟨-, rfl⟩ := completingSkipped_eq_some hj
    obtain rfl := Nat.le_zero.mp hk
    exact hj
  setCount_setCount _ _ _ := rfl
  setCount_count _ _ _ := rfl
  skippable_ne_nil u hu := hu.ne_nil
  failed_step w h := by
    obtain ⟨e, he⟩ := h
    rw [step_done he]
    exact ⟨e, he⟩
  skip w k u x hk hlt _ := absurd hlt (Nat.not_lt_zero k)
  refuse w k u x hk _ hu := by
    obtain ⟨hphase, -⟩ := completingSkipped_eq_some hk
    obtain ⟨code, payload, henc, hign⟩ := hu
    simp only [step, feedControl, hphase, stepCompleting, readFrame_of_encodeFrame henc,
      completion, hign]
    exact ⟨_, rfl⟩
  foreign w k u x hk hu := by
    obtain ⟨hphase, -⟩ := completingSkipped_eq_some hk
    obtain ⟨code, payload, owner, henc, href⟩ := hu
    simp only [step, feedControl, hphase, stepCompleting, readFrame_of_encodeFrame henc,
      completion, href]
    exact ⟨_, rfl⟩
  forget _ _ _ _ _ := rfl
  consume w := by
    by_cases hphase : w.phase = .completing
    · obtain ⟨result, hdone⟩ := @step_completing σ H O env req w hphase
      refine .inr fun n => ?_
      rw [iterate_done hdone]
      simp only [completingSkipped, hdone]
    · refine .inl ⟨[], ?_, fun x => ?_⟩
      · rw [(@step_feedControl σ H O env req w hphase []).2, List.nil_append]
      · rw [List.nil_append]
        exact (step_feedControl hphase x).1

end Sender

/-! ### Waiting for one frame -/

/-- A side that waits for one frame: what it made of it, and the bytes to arrive. -/
structure Wait (α : Type) where
  result : Option α
  recv : RecvStream

namespace Wait

variable {ε α : Type}

/-- Read the frame. -/
def step (read : RecvStream → Except ε α) (w : Wait (Except ε α)) : Wait (Except ε α) :=
  match w.result with
  | some _ => w
  | none => { w with result := some (read w.recv) }

/-- The same with other bytes to arrive. -/
def feed (w : Wait (Except ε α)) (x : List UInt8) : Wait (Except ε α) :=
  { w with recv := { w.recv with bytes := x } }

/-- No frame is skipped. -/
def skipped (w : Wait (Except ε α)) : Option ℕ :=
  match w.result with
  | none => some 0
  | some _ => none

/-- The frame was refused. -/
def Failed (w : Wait (Except ε α)) : Prop :=
  ∃ e, w.result = some (.error e)

theorem skipped_eq_some {w : Wait (Except ε α)} {k : ℕ} (h : w.skipped = some k) :
    w.result = none ∧ k = 0 := by
  unfold skipped at h
  split at h
  · rename_i hres
    exact ⟨hres, (Option.some.inj h).symm⟩
  · cases h

theorem step_of_error {read : RecvStream → Except ε α} {w : Wait (Except ε α)} {k : ℕ}
    (h : w.skipped = some k) {e : ε} (he : read w.recv = .error e) : (step read w).Failed := by
  simp only [step, (skipped_eq_some h).1, he]
  exact ⟨e, rfl⟩

theorem iterate_of_result {read : RecvStream → Except ε α} {w : Wait (Except ε α)}
    {r : Except ε α} (h : w.result = some r) (n : ℕ) : (step read)^[n] w = w := by
  induction n with
  | zero => rfl
  | succ n ih =>
      rw [iterate_succ_apply', ih]
      simp only [step, h]

/-- A side that refuses every frame with a code that is not assigned on its plane, as a
machine that skips frames: none. -/
def skipper (read : RecvStream → Except ε α) (limit : UInt32) (plane : Plane)
    (hread : ∀ code payload u, encodeFrame code payload limit = .ok u →
      (∀ m, classify code plane ≠ .known m) → ∀ x ending, ∃ e, read ⟨u ++ x, ending⟩ = .error e) :
    Skipper (Wait (Except ε α)) UInt8 where
  step := step read
  input w := w.recv.bytes
  feed := feed
  count := skipped
  setCount w _ := w
  bound := 0
  Skippable := Unassigned limit plane
  Foreign := OtherPlane limit plane
  Failed := Failed
  input_feed _ _ := rfl
  feed_feed _ _ _ := rfl
  feed_input _ := rfl
  count_feed _ _ := rfl
  input_setCount _ _ := rfl
  feed_setCount _ _ _ := rfl
  count_setCount w j k hj hk := by
    obtain ⟨-, rfl⟩ := skipped_eq_some hj
    obtain rfl := Nat.le_zero.mp hk
    exact hj
  setCount_setCount _ _ _ := rfl
  setCount_count _ _ _ := rfl
  skippable_ne_nil u hu := hu.ne_nil
  failed_step w h := by
    obtain ⟨e, he⟩ := h
    refine ⟨e, ?_⟩
    simp only [step, he]
  skip w k u x hk hlt _ := absurd hlt (Nat.not_lt_zero k)
  refuse w k u x hk _ hu := by
    obtain ⟨code, payload, henc, hign⟩ := hu
    obtain ⟨e, he⟩ := hread code payload u henc (fun m hm => by rw [hign] at hm; cases hm) x
      w.recv.ending
    exact step_of_error (w := w.feed (u ++ x)) hk he
  foreign w k u x hk hu := by
    obtain ⟨code, payload, owner, henc, href⟩ := hu
    obtain ⟨e, he⟩ := hread code payload u henc (fun m hm => by rw [href] at hm; cases hm) x
      w.recv.ending
    exact step_of_error (w := w.feed (u ++ x)) hk he
  forget _ _ _ _ _ := rfl
  consume w := by
    right
    intro n
    have hres : ∃ r, (step read w).result = some r := by
      unfold step
      split
      · rename_i r hr
        exact ⟨r, hr⟩
      · exact ⟨_, rfl⟩
    obtain ⟨r, hr⟩ := hres
    rw [iterate_of_result hr]
    simp only [skipped, hr]

end Wait

/-- The side that awaits the accept refuses a frame that is not one. -/
theorem readTransferAccept_error (proto : OfferProto) (offer : TransferOffer) {limit : UInt32}
    {code : UInt8} {payload u : List UInt8} (henc : encodeFrame code payload limit = .ok u)
    (hcode : ∀ m, classify code .control ≠ .known m) (x : List UInt8)
    (ending : Option TransportError) :
    ∃ e, (readTransferAccept proto offer ⟨u ++ x, ending⟩ limit).1 = .error e := by
  have hne : code ≠ MessageType.transferAccept.code := by
    intro heq
    exact hcode .transferAccept (classify_known_iff.mpr ⟨heq.symm, rfl⟩)
  refine ⟨.frame (.wrongMessageType MessageType.transferAccept.code code), ?_⟩
  unfold readTransferAccept
  rw [readFrame_of_encodeFrame henc]
  dsimp only
  unfold decodeTransferAcceptFrame decodeOfferFrame
  rw [if_pos hne]

/-! ### The answer to a Browse request -/

/-- The answer a Browse client expects to a request. -/
structure AnswerKind (α β : Type) where
  expected : MessageType
  message : ProtoMessage α
  fromWire : α → Except BrowseDomainError β
  plane : expected.plane = .browse

namespace Download

variable {α β : Type}

/-- Read the answer to a request. -/
def readAnswerOf (proto : BrowseProto) (kind : AnswerKind α β) (maxFrameSize : UInt32)
    (sizes : List ℕ) (recv : RecvStream) : Except DownloadError β :=
  match readAnswerFrame proto ⟨recv, sizes⟩ maxFrameSize with
  | (.error e, _) => .error e
  | (.ok frame, _) =>
    (decodeTypedFrame kind.expected kind.message kind.fromWire frame).mapError .decode

/-- A frame at the front of the stream is read. -/
theorem readFrameOrEof_of_encodeFrame {limit : UInt32} {code : UInt8} {payload u : List UInt8}
    (henc : encodeFrame code payload limit = .ok u) (x : List UInt8)
    (ending : Option TransportError) (sizes : List ℕ) :
    ∃ r, readFrameOrEof ⟨⟨u ++ x, ending⟩, sizes⟩ limit = (.ok (some ⟨code, payload⟩), r) := by
  have hunit : frameVerdict limit (u ++ x) = .unit ⟨code, payload⟩ u.length :=
    frameParser_encodeFrame henc x
  obtain ⟨sizes', hspec⟩ := Transfer.readFrame_spec ⟨⟨u ++ x, ending⟩, sizes⟩ limit
  dsimp only at hspec
  rw [hunit] at hspec
  exact ⟨_, readFrameOrEof_eq_some.mpr ⟨_, hspec⟩⟩

/-- A client refuses a frame that is no answer. -/
theorem readAnswerOf_error (proto : BrowseProto) (kind : AnswerKind α β) {limit : UInt32}
    (sizes : List ℕ) {code : UInt8} {payload u : List UInt8}
    (henc : encodeFrame code payload limit = .ok u)
    (hcode : ∀ m, classify code .browse ≠ .known m) (x : List UInt8)
    (ending : Option TransportError) :
    ∃ e, readAnswerOf proto kind limit sizes ⟨u ++ x, ending⟩ = .error e := by
  have hne : ∀ m : MessageType, m.plane = .browse → code ≠ m.code := by
    intro m hm heq
    exact hcode m (classify_known_iff.mpr ⟨heq.symm, hm⟩)
  obtain ⟨r, hr⟩ := readFrameOrEof_of_encodeFrame henc x ending sizes
  refine ⟨.decode (.codecError (.wrongMessageType kind.expected.code code)), ?_⟩
  unfold readAnswerOf readAnswerFrame readAnswer
  rw [hr]
  dsimp only
  rw [if_neg (hne .refused rfl)]
  dsimp only
  unfold decodeTypedFrame
  rw [if_pos (hne kind.expected kind.plane)]
  rfl

end Download

/-! ### The serving side of a Browse stream -/

/-- The Browse codec only decodes frames of messages of its plane. -/
theorem browseDecodeFrame_error (codec : ProtoBrowseCodec) {code : UInt8}
    {payload u : List UInt8} (henc : encodeFrame code payload codec.maxFrameSize = .ok u)
    (hcode : ∀ m, classify code .browse ≠ .known m) (x : List UInt8) :
    ∃ e, codec.decodeFrame (u ++ x) = .error e := by
  have hunit : frameVerdict codec.maxFrameSize (u ++ x) = .unit ⟨code, payload⟩ u.length :=
    frameParser_encodeFrame henc x
  have hne : ∀ m : MessageType, m.plane = .browse → code ≠ m.code := by
    intro m hm heq
    exact hcode m (classify_known_iff.mpr ⟨heq.symm, hm⟩)
  refine ⟨.unsupportedMessage, ?_⟩
  rw [codec.decodeFrame_eq, hunit]
  dsimp only
  unfold ProtoBrowseCodec.decodeMessage
  dsimp only
  rw [if_neg (show ¬code = 0x40 from hne .listDir rfl),
    if_neg (show ¬code = 0x41 from hne .dirListing rfl),
    if_neg (show ¬code = 0x42 from hne .stat rfl),
    if_neg (show ¬code = 0x43 from hne .statResult rfl),
    if_neg (show ¬code = 0x44 from hne .readFile rfl),
    if_neg (show ¬code = 0x45 from hne .readFileBegin rfl),
    if_neg (show ¬code = 0x46 from hne .writeFile rfl),
    if_neg (show ¬code = 0x47 from hne .mkdir rfl),
    if_neg (show ¬code = 0x48 from hne .delete rfl),
    if_neg (show ¬code = 0x49 from hne .rename rfl),
    if_neg (show ¬code = 0x4a from hne .ack rfl),
    if_neg (show ¬code = 0x4d from hne .refused rfl)]
  rfl

namespace Browse.Serving

variable {σ H : Type}

/-- The serving side of a Browse stream, as a machine that skips frames: none. -/
def skipper (ctx : BrowseContext σ H) (hvfs : WriteSplits ctx.vfs) :
    Skipper (Serving σ) UInt8 where
  step := step ctx
  input := pending
  feed := feed
  count := skipped
  setCount s _ := s
  bound := 0
  Skippable := Unassigned ctx.codec.maxFrameSize .browse
  Foreign := OtherPlane ctx.codec.maxFrameSize .browse
  Failed := Failed
  input_feed _ _ := rfl
  feed_feed _ _ _ := rfl
  feed_input _ := rfl
  count_feed _ _ := rfl
  input_setCount _ _ := rfl
  feed_setCount _ _ _ := rfl
  count_setCount s j k hj hk := by
    obtain ⟨-, rfl⟩ := skipped_eq_some hj
    obtain rfl := Nat.le_zero.mp hk
    exact hj
  setCount_setCount _ _ _ := rfl
  setCount_count _ _ _ := rfl
  skippable_ne_nil u hu := hu.ne_nil
  failed_step s hs := by
    obtain ⟨e, he⟩ := hs
    exact ⟨e, by simp only [step, he]⟩
  skip s k u x hk hlt _ := absurd hlt (Nat.not_lt_zero k)
  refuse s k u x hk _ hu := by
    obtain ⟨code, payload, henc, hign⟩ := hu
    obtain ⟨e, he⟩ := browseDecodeFrame_error ctx.codec henc
      (fun m hm => by rw [hign] at hm; cases hm) x
    exact step_of_error (s := s.feed (u ++ x)) (skipped_eq_some hk).1 he
  foreign s k u x hk hu := by
    obtain ⟨code, payload, owner, henc, href⟩ := hu
    obtain ⟨e, he⟩ := browseDecodeFrame_error ctx.codec henc
      (fun m hm => by rw [href] at hm; cases hm) x
    exact step_of_error (s := s.feed (u ++ x)) (skipped_eq_some hk).1 he
  forget _ _ _ _ _ := rfl
  consume s := by
    rcases step_consume hvfs s with h | ⟨e, he⟩
    · exact .inl h
    · refine .inr fun n => ?_
      rw [iterate_of_result he]
      simp only [skipped, he]

end Browse.Serving

end Tradr
