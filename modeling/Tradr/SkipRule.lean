import Tradr.SkippingReaders

/-!
# The Rule for Unassigned Frames

A frame with an unassigned code of the stream's own plane is to be skipped, at most sixteen
in a row; a seventeenth is refused, and so is a frame of another plane. Every reader of
frames follows the rule, or not, on its own.

## Main definitions

* `SessionStream`: the readers of a session, `SessionEnv.skipper`: each as a machine.
* `FollowsSkipRule`: the rule, for a run of frames put in at a place of a stream.

## Main results

* `followsSkipRule_iff`: a reader follows the rule for a run of one to sixteen frames if and
  only if it skips, and the run is not next to others that make it too long.
-/

open Function

namespace Tradr

variable {σ H O α β : Type}

/-- The streams of a session past the frame that decided what they are for, each with the
side that reads it. -/
inductive SessionStream
  | accept
  | requests
  | pieces
  | itemComplete
  | browseRequests
  | browseAnswer
  deriving DecidableEq, Repr

namespace SessionStream

/-- The plane of a stream. -/
def plane : SessionStream → Plane
  | .accept | .itemComplete => .control
  | .requests | .pieces => .data
  | .browseRequests | .browseAnswer => .browse

/-- The readers that skip unassigned frames. -/
def Skips : SessionStream → Prop
  | .requests | .pieces => True
  | .accept | .itemComplete | .browseRequests | .browseAnswer => False

/-- Where the reader of a stream stands, and the world it acts on. -/
def State (σ H β : Type) : SessionStream → Type
  | .accept => Wait (Except OfferReadError TransferAccept)
  | .requests | .itemComplete => Sender σ H
  | .pieces => Receiver σ H
  | .browseRequests => Browse.Serving σ
  | .browseAnswer => Wait (Except Download.DownloadError β)

end SessionStream

/-- What the readers of a session are given: the offer that is to be accepted, the file that
is sent and the one that is received, the share that is served, and the answer that is
expected. -/
structure SessionEnv (σ H O α β : Type) where
  offerProto : OfferProto
  offer : TransferOffer
  acceptBound : UInt32
  send : SendEnv σ H O
  sendRequest : SendRequest O
  receiveVfs : Vfs σ H
  receive : ReceiveEnv
  receiveRequest : ReceiveRequest
  browse : Browse.BrowseContext σ H
  writeSplits : Browse.WriteSplits browse.vfs
  browseProto : BrowseProto
  answer : AnswerKind α β
  answerBound : UInt32
  answerSizes : List ℕ

namespace SessionEnv

variable (env : SessionEnv σ H O α β)

/-- The bound of the frames on a stream. -/
def maxFrameSize : SessionStream → UInt32
  | .accept => env.acceptBound
  | .requests | .itemComplete => env.sendRequest.maxFrameSize
  | .pieces => env.receiveRequest.maxFrameSize
  | .browseRequests => env.browse.codec.maxFrameSize
  | .browseAnswer => env.answerBound

/-- The reader of a stream as a machine. -/
def skipper : (stream : SessionStream) → Skipper (stream.State σ H β) UInt8
  | .accept =>
    Wait.skipper (fun recv => (readTransferAccept env.offerProto env.offer recv
      env.acceptBound).1) env.acceptBound .control
      fun _ _ _ henc hcode => readTransferAccept_error env.offerProto env.offer henc hcode
  | .requests => Sender.requestSkipper env.send env.sendRequest
  | .pieces => Receiver.skipper env.receiveVfs env.receive env.receiveRequest
  | .itemComplete => Sender.completionSkipper env.send env.sendRequest
  | .browseRequests => Browse.Serving.skipper env.browse env.writeSplits
  | .browseAnswer =>
    Wait.skipper (Download.readAnswerOf env.browseProto env.answer env.answerBound
      env.answerSizes) env.answerBound .browse
      fun _ _ _ henc hcode =>
        Download.readAnswerOf_error env.browseProto env.answer env.answerSizes henc hcode

variable {env} {stream : SessionStream}

/-- What a reader may skip. -/
theorem skippable_iff {u : List UInt8} : (env.skipper stream).Skippable u ↔
    Unassigned (env.maxFrameSize stream) stream.plane u := by
  cases stream <;> exact Iff.rfl

/-- What a reader must refuse. -/
theorem foreign_iff {u : List UInt8} : (env.skipper stream).Foreign u ↔
    OtherPlane (env.maxFrameSize stream) stream.plane u := by
  cases stream <;> exact Iff.rfl

/-- A reader skips sixteen frames or none. -/
theorem bound_cases : (stream.Skips ∧ (env.skipper stream).bound = 16) ∨
    (¬stream.Skips ∧ (env.skipper stream).bound = 0) := by
  cases stream
  · exact .inr ⟨id, rfl⟩
  · exact .inl ⟨trivial, rfl⟩
  · exact .inl ⟨trivial, rfl⟩
  · exact .inr ⟨id, rfl⟩
  · exact .inr ⟨id, rfl⟩
  · exact .inr ⟨id, rfl⟩

end SessionEnv

/-- The rule for a run of unassigned frames that is put into a stream where its reader stands
after `n` steps: sixteen make no difference, seventeen are refused, and so is a frame of
another plane. -/
structure FollowsSkipRule (env : SessionEnv σ H O α β) (stream : SessionStream)
    (s : stream.State σ H β) (n : ℕ) (run : List (List UInt8)) : Prop where
  skipped : run.length ≤ 16 →
    (env.skipper stream).Merges ((env.skipper stream).insert s n run) s
  refused : run.length = 17 → (env.skipper stream).Fails ((env.skipper stream).insert s n run)
  foreign : ∀ u, OtherPlane (env.maxFrameSize stream) stream.plane u →
    (env.skipper stream).Fails ((env.skipper stream).insert s n [u])

/-- The runs that a reader has to skip and does, at a place where it has skipped `k` frames:
together with those and the unassigned frames that follow there are no more than sixteen. -/
def SkipsRun (env : SessionEnv σ H O α β) (stream : SessionStream) (s : stream.State σ H β)
    (n k : ℕ) (run : List (List UInt8)) : Prop :=
  stream.Skips ∧ ∃ following,
    (env.skipper stream).Leading following
      ((env.skipper stream).input ((env.skipper stream).step^[n] s)) ∧
    k + run.length + following.length ≤ 16

section Rule

variable {env : SessionEnv σ H O α β} {stream : SessionStream} {s : stream.State σ H β} {n k : ℕ}
  {run : List (List UInt8)}
  (hcount : (env.skipper stream).count ((env.skipper stream).step^[n] s) = some k)
  (hrun : ∀ u ∈ run, Unassigned (env.maxFrameSize stream) stream.plane u)

include hcount in
/-- A frame of another plane is refused by every reader. -/
theorem fails_otherPlane {u : List UInt8}
    (hu : OtherPlane (env.maxFrameSize stream) stream.plane u) :
    (env.skipper stream).Fails ((env.skipper stream).insert s n [u]) :=
  Skipper.fails_insert_foreign hcount (SessionEnv.foreign_iff.mpr hu)

include hcount hrun in
/-- Seventeen frames are refused by every reader. -/
theorem fails_run (hlen : run.length = 17) :
    (env.skipper stream).Fails ((env.skipper stream).insert s n run) := by
  refine Skipper.fails_insert hcount (fun u hu => SessionEnv.skippable_iff.mpr (hrun u hu)) ?_
  rcases @SessionEnv.bound_cases σ H O α β env stream with ⟨-, hbound⟩ | ⟨-, hbound⟩
  · omega
  · omega

include hcount hrun in
/-- A run that a reader has to skip and does makes no difference. -/
theorem merges_run (h : SkipsRun env stream s n k run) :
    (env.skipper stream).Merges ((env.skipper stream).insert s n run) s := by
  obtain ⟨hskips, following, hleading, hle⟩ := h
  have hbound : (env.skipper stream).bound = 16 := by
    rcases @SessionEnv.bound_cases σ H O α β env stream with ⟨-, hbound⟩ | ⟨hnot, -⟩
    · exact hbound
    · exact absurd hskips hnot
  exact Skipper.merges_insert hcount (fun u hu => SessionEnv.skippable_iff.mpr (hrun u hu))
    hleading (.inr (by omega))

include hcount hrun in
/-- Any other run of up to sixteen frames makes a reader fail. -/
theorem skipsRun_of_merges (hs : ¬(env.skipper stream).Fails s) (hne : run ≠ [])
    (h : (env.skipper stream).Merges ((env.skipper stream).insert s n run) s) :
    SkipsRun env stream s n k run := by
  obtain ⟨following, hleading⟩ := (env.skipper stream).exists_leading
    ((env.skipper stream).input ((env.skipper stream).step^[n] s))
  have hpos := List.length_pos_iff.mpr hne
  have hle := ((Skipper.merges_insert_iff hs hcount
    (fun u hu => SessionEnv.skippable_iff.mpr (hrun u hu)) hleading).mp h).resolve_left hne
  rcases @SessionEnv.bound_cases σ H O α β env stream with ⟨hskips, hbound⟩ | ⟨-, hbound⟩
  · exact ⟨hskips, following, hleading, by omega⟩
  · omega

include hcount hrun in
/-- **Which readers follow the rule, and where.** A run that is empty or longer than sixteen
frames is treated by every reader as the rule says; another one by those that skip, where
it makes no more than sixteen together with the unassigned frames around it, and, in a
session that does not fail anyway, by no other and nowhere else. -/
theorem followsSkipRule_iff :
    (run = [] ∨ 16 < run.length ∨ SkipsRun env stream s n k run →
      FollowsSkipRule env stream s n run) ∧
    (¬(env.skipper stream).Fails s → FollowsSkipRule env stream s n run →
      run = [] ∨ 16 < run.length ∨ SkipsRun env stream s n k run) := by
  constructor
  · intro hcond
    refine ⟨fun hle => ?_, fails_run hcount hrun, fun u hu => fails_otherPlane hcount hu⟩
    rcases hcond with rfl | hlong | hskips
    · obtain ⟨following, hleading⟩ := (env.skipper stream).exists_leading
        ((env.skipper stream).input ((env.skipper stream).step^[n] s))
      exact Skipper.merges_insert hcount (by simp) hleading (.inl rfl)
    · omega
    · exact merges_run hcount hrun hskips
  · intro hs hrule
    by_cases hne : run = []
    · exact .inl hne
    by_cases hlong : 16 < run.length
    · exact .inr (.inl hlong)
    · exact .inr (.inr (skipsRun_of_merges hcount hrun hs hne (hrule.skipped (by omega))))

end Rule

namespace SessionSample

/-- The transfer of the session. -/
def transferId : TransferId := .sample

/-- Its only item. -/
def itemId : ItemId := .sample

/-- The completion of the item, in protobuf: it was verified and placed under its name. -/
def completion : List UInt8 :=
  [0x0a, 36] ++ transferId.display.map (fun d => UInt8.ofNat d.toNat) ++
    [0x12, 1, 0x61, 0x18, 1, 0x22, 1, 0x61]

/-- The protobuf layer on this completion. -/
def codec : SendCodec where
  encodeChunkRequest _ := []
  decodeChunkData _ := none
  encodeItemComplete _ := completion
  decodeChunkRequest _ := none
  decodeChunkRerequest _ := none
  encodeChunkData _ := []
  decodeItemComplete payload :=
    if payload = completion then some ⟨transferId.display, itemId.value, true, "a".toList⟩
    else none

/-- The readers of a session about the item. -/
def env : SessionEnv Tree ℕ Unit WireReadFileBegin ReadFileBegin where
  offerProto := ⟨fun _ => [], fun _ => none, fun _ => [], fun _ => none⟩
  offer := {
    transferId
    items := [⟨itemId, Download.Sample.path, 2, .zeroes, Nat.two_pos⟩]
    totalBytes := 2
    senderLabel := none
    origin := none
    items_ne_nil := by simp
    nodup := List.nodup_singleton _
    total := rfl
    total_lt := by decide }
  acceptBound := 512
  send := ⟨PosixVfs.vfs, codec, ⟨fun _ => ((), .zeroes), fun _ => none, fun _ _ _ _ _ => none⟩⟩
  sendRequest := ⟨Download.Sample.path, transferId, itemId, 512, ⟨2, .zeroes, ()⟩⟩
  receiveVfs := PosixVfs.vfs
  receive := ⟨codec.toTransferCodec, ⟨fun _ _ _ _ => .error .mismatch⟩, id⟩
  receiveRequest := ⟨Download.Sample.path, 2, .zeroes, transferId, itemId, 512⟩
  browse := Download.Sample.context PosixVfs.vfs
  writeSplits := Browse.writeSplits_posix
  browseProto := Download.Sample.proto
  answer := ⟨.readFileBegin, Download.Sample.proto.readFileBegin, readFileBeginFromWire, rfl⟩
  answerBound := 512
  answerSizes := []

/-- The sending side, whose peer has all of the item already. -/
def session : Sender Tree ℕ :=
  Sender.start Download.Sample.servedTree ⟨[], none⟩
    ⟨[0, 0, 0, 47, 0x0a] ++ completion, none⟩ .fresh

/-- An unassigned frame of the data plane. -/
def dataFrame : List UInt8 :=
  [0, 0, 0, 1, 0x24]

/-- An unassigned frame of the control plane. -/
def controlFrame : List UInt8 :=
  [0, 0, 0, 1, 0x0f]

theorem unassigned_dataFrame : Unassigned 512 .data dataFrame :=
  ⟨0x24, [], by decide, by decide⟩

theorem unassigned_controlFrame : Unassigned 512 .control controlFrame :=
  ⟨0x0f, [], by decide, by decide⟩

/-- The session ends well. -/
theorem session_done :
    ((Sender.step env.send env.sendRequest)^[4] session).phase = .done (.ok true) :=
  SendPhase.eq_done_of_result? (by decide +kernel)

/-- Where the completion is awaited. -/
theorem session_completing :
    (env.skipper .itemComplete).count ((env.skipper .itemComplete).step^[3] session) = some 0 := by
  decide +kernel

/-- Where the first request is awaited. -/
theorem session_awaiting :
    (env.skipper .requests).count ((env.skipper .requests).step^[2] session) = some 0 := by
  decide +kernel

end SessionSample

/-- An unassigned frame before the first request is skipped. -/
theorem followsSkipRule_iff_one_request :
    FollowsSkipRule SessionSample.env .requests SessionSample.session 2
      [SessionSample.dataFrame] := by
  refine (followsSkipRule_iff SessionSample.session_awaiting ?_).1 (.inr (.inr ?_))
  · intro u hu
    rw [List.mem_singleton.mp hu]
    exact SessionSample.unassigned_dataFrame
  · refine ⟨trivial, [], ⟨by simp, [], ?_, fun u x hu heq => ?_⟩, by decide⟩
    · decide +kernel
    · exact hu.ne_nil (List.append_eq_nil_iff.mp heq.symm).1

/-- An unassigned frame before the completion of the item, of which the sending side would
otherwise have learned, makes it fail. -/
theorem unassigned_frame_before_completion_refused :
    (∀ u ∈ [SessionSample.controlFrame], Unassigned
      (SessionSample.env.maxFrameSize .itemComplete) SessionStream.itemComplete.plane u) ∧
    (SessionSample.env.skipper .itemComplete).count
      ((SessionSample.env.skipper .itemComplete).step^[3] SessionSample.session) = some 0 ∧
    ¬(SessionSample.env.skipper .itemComplete).Fails SessionSample.session ∧
    ¬FollowsSkipRule SessionSample.env .itemComplete SessionSample.session 3
      [SessionSample.controlFrame] := by
  have hun : ∀ u ∈ [SessionSample.controlFrame], Unassigned
      (SessionSample.env.maxFrameSize .itemComplete) SessionStream.itemComplete.plane u := by
    intro u hu
    rw [List.mem_singleton.mp hu]
    exact SessionSample.unassigned_controlFrame
  have hgood : ¬(SessionSample.env.skipper .itemComplete).Fails SessionSample.session := by
    rintro ⟨n, hn⟩
    exact Sender.not_failed_of_done SessionSample.session_done n hn
  refine ⟨hun, SessionSample.session_completing, hgood, fun hrule => ?_⟩
  obtain ⟨hskips, -⟩ := skipsRun_of_merges SessionSample.session_completing hun hgood (by simp)
    (hrule.skipped (by decide))
  exact hskips

end Tradr
