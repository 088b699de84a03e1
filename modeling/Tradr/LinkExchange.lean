import Tradr.Eff
import Tradr.Link
import Tradr.Receive

/-!
# The Link Exchange

The two sides of a link exchange over one stream. The replier sends a `LinkReply` and
reads one answer; the inviter, whose listener read the reply, checks it, asks a person and
answers with `LinkApprove` or `LinkDecline`. The inviter records the link before it sends
its approval, the replier when it has read one.

Each side is a computation over what it handed to its stream and a log of the calls it
made to `verify`, to the person and to `record`. Clocks, callbacks and the outcome of a
write are given by the side's world. A `LinkExchange` joins the two: each side reads some
first part of what the other handed to the stream, also when the write of it failed.

## Main results

* `inviterEnding`, `replierEnding`: every way a side can end.
* `LinkExchange.sides_agree`: a replier that is linked has an inviter that recorded the
  same link with the same secret after its user approved.
-/

namespace Tradr

/-! ### What the two sides share -/

/-- What is needed to check a peer's attestation: its token, its two keys and the device
the channel authenticated. -/
structure LinkAttestationRequest where
  token : Text
  identityPub : PublicKeyPoint
  agreementPub : PublicKeyPoint
  authenticatedPeer : DeviceId
  deriving DecidableEq

/-- What the inviter shows a person. -/
structure LinkProposal where
  peerAccount : AccountId
  peerFingerprint : Fingerprint
  peerLabel : Option Text
  linkId : LinkId
  deriving DecidableEq

/-- What a person answers. -/
inductive LinkDecision
  | approve
  | decline
  deriving DecidableEq, Repr

/-- How a link exchange ended. -/
inductive LinkOutcome
  | linked (id : LinkId)
  | declined (reason : Option LinkDeclineReason) (detail : Option Text)
  deriving DecidableEq

/-- What the peer did that this stream does not allow. -/
inductive LinkViolation
  | incompleteFrame
  | unexpectedFrame (what : Classification)
  deriving DecidableEq

/-- Why a link exchange failed. -/
inductive LinkExchangeError
  | unknownInvite
  | inviteExpired
  | verificationFailed (reason : Text)
  | linkIdMismatch
  | recordFailed (reason : Text)
  | protocolViolation (v : LinkViolation)
  | rng (source : Text)
  | frame (e : LinkFrameError)
  | framing (e : FrameError)
  | transport (e : TransportError)
  deriving DecidableEq

/-- The calls a side makes out of the exchange, with what they answered. No decision is
one that did not come in time. -/
inductive LinkCall
  | verified (request : LinkAttestationRequest) (result : Except Text AccountId)
  | decided (proposal : LinkProposal) (decision : Option LinkDecision)
  | recorded (link : Link) (secret : LinkSecret) (result : Except Text Unit)

/-- One side of an exchange: the bytes it handed to its stream and its calls in order. -/
structure LinkSide where
  sent : List UInt8
  log : List LinkCall

/-- A side before its exchange. -/
def LinkSide.start : LinkSide :=
  ⟨[], []⟩

/-- The side stored a link, with its secret. -/
def LinkSide.Recorded (s : LinkSide) (link : Link) (secret : LinkSecret) : Prop :=
  .recorded link secret (.ok ()) ∈ s.log

/-- The whole seconds left between a clock and a deadline. -/
def budgetSecs (deadline now : UnixTime) : ℕ :=
  (deadline.elapsedSince now).getD 0

/-- A computation of one side. -/
abbrev LinkEff := Eff LinkSide LinkExchangeError

/-- Keep a call in the log. -/
def logCall (event : LinkCall) : LinkEff Unit :=
  Eff.modify fun s => { s with log := s.log ++ [event] }

/-- Hand a frame to the stream. A write that fails may have sent any part of it. -/
def writeFrame (write : List UInt8 → Except TransportError Unit)
    (encoded : Except LinkFrameError (List UInt8)) : LinkEff Unit := fun s =>
  match encoded with
  | .error e => (.error (.frame e), s)
  | .ok bytes => ((write bytes).mapError .transport, { s with sent := s.sent ++ bytes })

/-- The bytes handed to the stream when a frame is written. -/
def handed : Except LinkFrameError (List UInt8) → List UInt8
  | .error _ => []
  | .ok bytes => bytes

/-- How a side ends that writes a frame last. -/
def lastWritten {A : Type} (write : List UInt8 → Except TransportError Unit)
    (encoded : Except LinkFrameError (List UInt8)) (outcome : A) :
    Except LinkExchangeError A := do
  let bytes ← encoded.mapError .frame
  (write bytes).mapError .transport
  return outcome

theorem lastWritten_ok {A : Type} (write : List UInt8 → Except TransportError Unit)
    (bytes : List UInt8) (outcome : A) :
    lastWritten write (.ok bytes) outcome =
      (write bytes).mapError .transport >>= fun _ => .ok outcome := rfl

/-- Writing a frame and ending. -/
theorem writeFrame_bind_pure {A : Type} (write : List UInt8 → Except TransportError Unit)
    (encoded : Except LinkFrameError (List UInt8)) (outcome : A) (s : LinkSide) :
    (writeFrame write encoded >>= fun _ => pure outcome) s =
      (lastWritten write encoded outcome, { s with sent := s.sent ++ handed encoded }) := by
  rcases encoded with e | bytes
  · rw [Eff.bind_of_error (show writeFrame write (.error e) s = (.error (.frame e), s) from rfl)]
    simp only [handed, List.append_nil]
    rfl
  · rcases hw : write bytes with e | _
    · have h : writeFrame write (.ok bytes) s =
          (.error (.transport e), { s with sent := s.sent ++ bytes }) := by
        simp only [writeFrame, hw]
        rfl
      rw [Eff.bind_of_error h, lastWritten_ok, hw]
      rfl
    · have h : writeFrame write (.ok bytes) s =
          (.ok (), { s with sent := s.sent ++ bytes }) := by
        simp only [writeFrame, hw]
        rfl
      rw [Eff.bind_of_ok h, lastWritten_ok, hw]
      rfl

/-- A side that wrote its last frame ended with the outcome, or failed at that frame. -/
theorem lastWritten_cases {A : Type} (write : List UInt8 → Except TransportError Unit)
    (encoded : Except LinkFrameError (List UInt8)) (outcome : A) :
    lastWritten write encoded outcome = .ok outcome ∨
      (∃ e, lastWritten write encoded outcome = .error (.frame e)) ∨
      ∃ e, lastWritten write encoded outcome = .error (.transport e) := by
  rcases encoded with e | bytes
  · exact .inr (.inl ⟨e, rfl⟩)
  · rw [lastWritten_ok]
    rcases write bytes with e | _
    · exact .inr (.inr ⟨e, rfl⟩)
    · exact .inl rfl

/-- Keeping a call and going on. -/
theorem logCall_bind {A : Type} (event : LinkCall) (f : Unit → LinkEff A) (s : LinkSide) :
    (logCall event >>= f) s = f () { s with log := s.log ++ [event] } :=
  Eff.bind_of_ok rfl

/-! ### The inviter -/

/-- What the inviter's side meets: the readings of its clock in order, its callbacks, and
the outcome of a write. `decide` is given the seconds until its deadline. -/
structure InviterWorld where
  clock : ℕ → UnixTime
  verify : LinkAttestationRequest → Except Text AccountId
  decide : ℕ → LinkProposal → Option LinkDecision
  record : Link → LinkSecret → Except Text Unit
  write : List UInt8 → Except TransportError Unit

/-- The inviter's side: the invite it holds, the reply that arrived, the device the channel
authenticated and the peer's frame limit. -/
structure InviterParams where
  invite : Invite
  reply : LinkReply
  authenticatedPeer : DeviceId
  maxFrameSize : UInt32

section Inviter

variable (proto : LinkProto) (blake3 : Blake3Kdf) (world : InviterWorld) (params : InviterParams)

/-- Send a `LinkDecline` and end the exchange with it. -/
def decline (reason : Option LinkDeclineReason) (detail : Option Text) : LinkEff LinkOutcome := do
  writeFrame world.write
    (encodeLinkDeclineFrame proto ⟨params.invite.inviteId, reason⟩ params.maxFrameSize)
  return .declined reason detail

/-- What the inviter has verified: the reply's own token and keys, against the device the
channel authenticated. -/
def InviterParams.request : LinkAttestationRequest where
  token := params.reply.attestationToken
  identityPub := params.reply.identityPub
  agreementPub := params.reply.agreementPub
  authenticatedPeer := params.authenticatedPeer

/-- The secret the inviter derives: its own half first. -/
def InviterParams.secret : LinkSecret :=
  deriveLinkSecret blake3 params.invite.halfSecret params.reply.halfSecret

/-- The identifier the inviter derives. -/
def InviterParams.linkId : LinkId :=
  deriveLinkId blake3 (params.secret blake3)

/-- What the inviter's user decides on. -/
def InviterParams.proposal (peerAccount : AccountId) : LinkProposal where
  peerAccount
  peerFingerprint := deviceFingerprint blake3 params.reply.identityPub params.reply.agreementPub
  peerLabel := params.reply.displayName.map DisplayName.value
  linkId := params.linkId blake3

/-- The link the inviter records. -/
def InviterParams.link (peerAccount : AccountId) (createdAt : UnixTime) : Link :=
  .new (params.linkId blake3) peerAccount createdAt params.reply.displayName

/-- Serve a reply as the inviter. -/
def serveLinkReply : LinkEff LinkOutcome := do
  if params.reply.inviteId ≠ params.invite.inviteId then
    Eff.fail .unknownInvite
  else if params.invite.isExpired (world.clock 0) 0 then
    decline proto world params (some .inviteExpired) none
  else
    logCall (.verified params.request (world.verify params.request))
    match world.verify params.request with
    | .error reason =>
      decline proto world params (some .verificationFailed) (some reason)
    | .ok peerAccount =>
      let proposal := params.proposal blake3 peerAccount
      let decision :=
        world.decide (budgetSecs params.invite.expiresAt (world.clock 1)) proposal
      logCall (.decided proposal decision)
      match decision with
      | none => decline proto world params (some .inviteExpired) none
      | some .decline => decline proto world params (some .userDeclined) none
      | some .approve =>
        let link := params.link blake3 peerAccount (world.clock 2)
        let secret := params.secret blake3
        logCall (.recorded link secret (world.record link secret))
        match world.record link secret with
        | .error reason => decline proto world params none (some reason)
        | .ok () =>
          writeFrame world.write
            (encodeLinkApproveFrame proto ⟨params.invite.inviteId, params.linkId blake3⟩
              params.maxFrameSize)
          return .linked (params.linkId blake3)

/-- The inviter's side when it declines after some calls. -/
def declinedRun (reason : Option LinkDeclineReason) (detail : Option Text)
    (log : List LinkCall) : Except LinkExchangeError LinkOutcome × LinkSide :=
  (lastWritten world.write
      (encodeLinkDeclineFrame proto ⟨params.invite.inviteId, reason⟩ params.maxFrameSize)
      (.declined reason detail),
    ⟨handed (encodeLinkDeclineFrame proto ⟨params.invite.inviteId, reason⟩
      params.maxFrameSize), log⟩)

/-- The inviter's side when it approves after some calls. -/
def approvedRun (log : List LinkCall) : Except LinkExchangeError LinkOutcome × LinkSide :=
  (lastWritten world.write
      (encodeLinkApproveFrame proto ⟨params.invite.inviteId, params.linkId blake3⟩
        params.maxFrameSize)
      (.linked (params.linkId blake3)),
    ⟨handed (encodeLinkApproveFrame proto ⟨params.invite.inviteId, params.linkId blake3⟩
      params.maxFrameSize), log⟩)

theorem decline_start (reason : Option LinkDeclineReason) (detail : Option Text)
    (log : List LinkCall) :
    decline proto world params reason detail ⟨[], log⟩ =
      declinedRun proto world params reason detail log := by
  rw [decline, writeFrame_bind_pure]
  rfl

/-- Every way the inviter's side can end. -/
inductive InviterEnding : Except LinkExchangeError LinkOutcome × LinkSide → Prop
  | unknown (h : params.reply.inviteId ≠ params.invite.inviteId) :
      InviterEnding (.error .unknownInvite, .start)
  | expired :
      InviterEnding (declinedRun proto world params (some .inviteExpired) none [])
  | unverified {reason : Text} (h : world.verify params.request = .error reason) :
      InviterEnding (declinedRun proto world params (some .verificationFailed) (some reason)
        [.verified params.request (.error reason)])
  | undecided {peerAccount : AccountId} {decision : Option LinkDecision}
      {reason : Option LinkDeclineReason} (h : world.verify params.request = .ok peerAccount)
      (hdecision : decision ≠ some .approve) :
      InviterEnding (declinedRun proto world params reason none
        [.verified params.request (.ok peerAccount),
          .decided (params.proposal blake3 peerAccount) decision])
  | unrecorded {peerAccount : AccountId} {link : Link} {reason : Text}
      (h : world.verify params.request = .ok peerAccount)
      (hlink : link = params.link blake3 peerAccount (world.clock 2)) :
      InviterEnding (declinedRun proto world params none (some reason)
        [.verified params.request (.ok peerAccount),
          .decided (params.proposal blake3 peerAccount) (some .approve),
          .recorded link (params.secret blake3) (.error reason)])
  | approved {peerAccount : AccountId} {link : Link}
      (h : world.verify params.request = .ok peerAccount)
      (hlink : link = params.link blake3 peerAccount (world.clock 2)) :
      InviterEnding (approvedRun proto blake3 world params
        [.verified params.request (.ok peerAccount),
          .decided (params.proposal blake3 peerAccount) (some .approve),
          .recorded link (params.secret blake3) (.ok ())])

/-- Every run of the inviter's side ends in one of these ways. -/
theorem inviterEnding :
    InviterEnding proto blake3 world params
      (serveLinkReply proto blake3 world params .start) := by
  unfold serveLinkReply
  by_cases hid : params.reply.inviteId ≠ params.invite.inviteId
  · rw [if_pos hid]
    exact .unknown hid
  rw [if_neg hid]
  by_cases hexp : params.invite.isExpired (world.clock 0) 0 = true
  · rw [if_pos hexp, LinkSide.start, decline_start]
    exact .expired
  rw [if_neg hexp, logCall_bind, LinkSide.start]
  rcases hv : world.verify params.request with reason | peerAccount
  · dsimp only
    rw [List.nil_append, decline_start]
    exact .unverified hv
  dsimp only
  rw [logCall_bind]
  generalize hd : world.decide (budgetSecs params.invite.expiresAt (world.clock 1))
    (params.proposal blake3 peerAccount) = decision
  rcases decision with _ | _ | _
  · dsimp only
    rw [List.nil_append, decline_start]
    exact .undecided hv (by simp)
  · dsimp only
    rw [logCall_bind]
    rcases world.record (params.link blake3 peerAccount (world.clock 2))
      (params.secret blake3) with reason | _
    · dsimp only
      rw [List.nil_append, decline_start]
      exact .unrecorded hv rfl
    · dsimp only
      rw [writeFrame_bind_pure]
      exact .approved hv rfl
  · dsimp only
    rw [List.nil_append, decline_start]
    exact .undecided hv (by simp)

end Inviter

/-! ### The replier -/

/-- What the replier's side meets. `fillBytes` draws its half secret; `readTimesOut` says
whether the answer is still missing after so many seconds. -/
structure ReplierWorld where
  clock : ℕ → UnixTime
  verify : LinkAttestationRequest → Except Text AccountId
  record : Link → LinkSecret → Except Text Unit
  write : List UInt8 → Except TransportError Unit
  fillBytes : Except Text (Bytes linkIdLen)
  readTimesOut : ℕ → Bool

/-- The replier's side: the invite it answers and what it says about itself. -/
structure ReplierParams where
  invite : Invite
  ourIdentity : PublicIdentity
  ourAttestationToken : Text
  ourDisplayName : Option DisplayName
  authenticatedPeer : DeviceId
  maxFrameSize : UInt32
  inviteSkewSecs : UInt64

/-- A frame that could not be read, in the terms of this exchange. -/
def LinkExchangeError.ofRead : TransferSessionError → LinkExchangeError
  | .transport e => .transport e
  | .streamClosed => .transport .closed
  | .proto (.framing e) => .framing e
  | _ => .protocolViolation .incompleteFrame

/-- Read exactly one frame. -/
def readOneFrame (recv : RecvStream) (maxFrameSize : UInt32) : Except LinkExchangeError Frame :=
  (recv.readFrame maxFrameSize).1.mapError .ofRead

section Replier

variable (proto : LinkProto) (blake3 : Blake3Kdf) (world : ReplierWorld) (params : ReplierParams)

/-- What the replier has verified: the invite's own token and keys, against the device the
channel authenticated. -/
def ReplierParams.request : LinkAttestationRequest where
  token := params.invite.attestationToken
  identityPub := params.invite.identityPub
  agreementPub := params.invite.agreementPub
  authenticatedPeer := params.authenticatedPeer

/-- The reply with a half secret. -/
def ReplierParams.reply (half : HalfSecret) : LinkReply where
  inviteId := params.invite.inviteId
  identityPub := params.ourIdentity.identityPub
  agreementPub := params.ourIdentity.agreementPub
  attestationToken := params.ourAttestationToken
  halfSecret := half
  displayName := params.ourDisplayName

/-- The secret the replier derives: the inviter's half first. -/
def ReplierParams.secret (half : HalfSecret) : LinkSecret :=
  deriveLinkSecret blake3 params.invite.halfSecret half

/-- The identifier the replier derives. -/
def ReplierParams.linkId (half : HalfSecret) : LinkId :=
  deriveLinkId blake3 (params.secret blake3 half)

/-- The link the replier records. -/
def ReplierParams.link (half : HalfSecret) (peerAccount : AccountId) (createdAt : UnixTime) :
    Link :=
  .new (params.linkId blake3 half) peerAccount createdAt params.invite.displayName

/-- The replier up to its reply: the account it verified and the half it drew. -/
def sendReply : LinkEff (AccountId × HalfSecret) := do
  if params.invite.isExpired (world.clock 0) params.inviteSkewSecs then
    Eff.fail .inviteExpired
  else
    logCall (.verified params.request (world.verify params.request))
    match world.verify params.request with
    | .error reason => Eff.fail (.verificationFailed reason)
    | .ok peerAccount =>
      match world.fillBytes with
      | .error source => Eff.fail (.rng source)
      | .ok bytes =>
        writeFrame world.write (encodeLinkReplyFrame proto (params.reply ⟨bytes⟩)
          params.maxFrameSize)
        return (peerAccount, ⟨bytes⟩)

/-- The replier on an approval: compare identifiers, then record. -/
def acceptApprove (peerAccount : AccountId) (half : HalfSecret) (frame : Frame) :
    LinkEff LinkOutcome :=
  match decodeLinkApproveFrame proto frame with
  | .error e => Eff.fail (.frame e)
  | .ok approve => do
    if approve.inviteId ≠ params.invite.inviteId then Eff.fail .unknownInvite
    else if approve.linkId ≠ params.linkId blake3 half then Eff.fail .linkIdMismatch
    else
      let link := params.link blake3 half peerAccount (world.clock 2)
      let secret := params.secret blake3 half
      logCall (.recorded link secret (world.record link secret))
      match world.record link secret with
      | .error reason => Eff.fail (.recordFailed reason)
      | .ok () => return .linked (params.linkId blake3 half)

/-- The replier on a refusal. -/
def acceptDecline (frame : Frame) : LinkEff LinkOutcome :=
  match decodeLinkDeclineFrame proto frame with
  | .error e => Eff.fail (.frame e)
  | .ok declined =>
    if declined.inviteId ≠ params.invite.inviteId then Eff.fail .unknownInvite
    else pure (.declined declined.reason none)

/-- The replier on the frame it read. -/
def acceptAnswer (peerAccount : AccountId) (half : HalfSecret) (frame : Frame) :
    LinkEff LinkOutcome :=
  match classify frame.typeCode .control with
  | .known .linkApprove => acceptApprove proto blake3 world params peerAccount half frame
  | .known .linkDecline => acceptDecline proto params frame
  | other => Eff.fail (.protocolViolation (.unexpectedFrame other))

/-- A frame is an approval, a refusal, or none of this stream's. -/
theorem acceptAnswer_cases (peerAccount : AccountId) (half : HalfSecret) (frame : Frame) :
    acceptAnswer proto blake3 world params peerAccount half frame =
        acceptApprove proto blake3 world params peerAccount half frame ∨
      acceptAnswer proto blake3 world params peerAccount half frame =
        acceptDecline proto params frame ∨
      ∃ what, acceptAnswer proto blake3 world params peerAccount half frame =
        Eff.fail (.protocolViolation (.unexpectedFrame what)) := by
  unfold acceptAnswer
  split
  · exact .inl rfl
  · exact .inr (.inl rfl)
  · exact .inr (.inr ⟨_, rfl⟩)

/-- Send a reply and read the inviter's answer, which arrives on `recv`. -/
def sendLinkReply (recv : RecvStream) : LinkEff LinkOutcome := do
  let (peerAccount, half) ← sendReply proto world params
  let budget := budgetSecs (params.invite.deadline params.inviteSkewSecs) (world.clock 1)
  if world.readTimesOut budget then Eff.fail .inviteExpired
  else
    match readOneFrame recv params.maxFrameSize with
    | .error e => Eff.fail e
    | .ok frame => acceptAnswer proto blake3 world params peerAccount half frame

/-- The bytes of the reply. -/
def ReplierParams.replyFrame (half : HalfSecret) : Except LinkFrameError (List UInt8) :=
  encodeLinkReplyFrame proto (params.reply half) params.maxFrameSize

/-- The replier's reply is out, with the account it verified and the half it drew. -/
structure ReplySent (peerAccount : AccountId) (half : HalfSecret) : Prop where
  verify : world.verify params.request = .ok peerAccount
  run : sendReply proto world params .start =
    (.ok (peerAccount, half),
      ⟨handed (params.replyFrame proto half), [.verified params.request (.ok peerAccount)]⟩)

/-- The replier fails before its reply is out, having made no call but to `verify`, or its
reply is out. -/
theorem sendReply_cases :
    (∃ e s, sendReply proto world params .start = (.error e, s) ∧
      ∀ link secret r, .recorded link secret r ∉ s.log) ∨
      ∃ peerAccount half, ReplySent proto world params peerAccount half := by
  by_cases hexp : params.invite.isExpired (world.clock 0) params.inviteSkewSecs = true
  · refine .inl ⟨.inviteExpired, .start, ?_, by simp [LinkSide.start]⟩
    rw [sendReply, if_pos hexp]
    rfl
  rcases hv : world.verify params.request with reason | peerAccount
  · refine .inl ⟨.verificationFailed reason, ⟨[], [.verified params.request (.error reason)]⟩,
      ?_, by simp⟩
    rw [sendReply, if_neg hexp, logCall_bind, hv]
    rfl
  rcases hr : world.fillBytes with source | bytes
  · refine .inl ⟨.rng source, ⟨[], [.verified params.request (.ok peerAccount)]⟩, ?_, by simp⟩
    rw [sendReply, if_neg hexp, logCall_bind, hv, hr]
    rfl
  have hrun : sendReply proto world params .start =
      (lastWritten world.write (params.replyFrame proto ⟨bytes⟩) (peerAccount, ⟨bytes⟩),
        ⟨handed (params.replyFrame proto ⟨bytes⟩),
          [.verified params.request (.ok peerAccount)]⟩) := by
    rw [sendReply, if_neg hexp, logCall_bind, hv, hr]
    exact writeFrame_bind_pure _ _ _ _
  rcases lastWritten_cases world.write (params.replyFrame proto ⟨bytes⟩)
    (peerAccount, (⟨bytes⟩ : HalfSecret)) with hw | ⟨e, hw⟩ | ⟨e, hw⟩
  · rw [hw] at hrun
    exact .inr ⟨peerAccount, ⟨bytes⟩, hv, hrun⟩
  · rw [hw] at hrun
    exact .inl ⟨_, _, hrun, by simp⟩
  · rw [hw] at hrun
    exact .inl ⟨_, _, hrun, by simp⟩

/-- Every way the replier's side can end, with the answer on `recv`. -/
inductive ReplierEnding (recv : RecvStream) :
    Except LinkExchangeError LinkOutcome × LinkSide → Prop
  | unlinked {res : Except LinkExchangeError LinkOutcome} {s : LinkSide}
      (h : ∀ link secret r, .recorded link secret r ∉ s.log)
      (hres : ∀ id, res ≠ .ok (.linked id)) : ReplierEnding recv (res, s)
  | unrecorded {peerAccount : AccountId} {half : HalfSecret} {link : Link} {reason : Text}
      (hsent : ReplySent proto world params peerAccount half)
      (hlink : link = params.link blake3 half peerAccount (world.clock 2)) :
      ReplierEnding recv (.error (.recordFailed reason),
        ⟨handed (params.replyFrame proto half), [.verified params.request (.ok peerAccount),
          .recorded link (params.secret blake3 half) (.error reason)]⟩)
  | linked {peerAccount : AccountId} {half : HalfSecret} {link : Link} {frame : Frame}
      (hsent : ReplySent proto world params peerAccount half)
      (hlink : link = params.link blake3 half peerAccount (world.clock 2))
      (hread : readOneFrame recv params.maxFrameSize = .ok frame)
      (hframe : decodeLinkApproveFrame proto frame =
        .ok ⟨params.invite.inviteId, params.linkId blake3 half⟩) :
      ReplierEnding recv (.ok (.linked (params.linkId blake3 half)),
        ⟨handed (params.replyFrame proto half), [.verified params.request (.ok peerAccount),
          .recorded link (params.secret blake3 half) (.ok ())]⟩)

/-- Every run of the replier's side ends in one of these ways. -/
theorem replierEnding (recv : RecvStream) :
    ReplierEnding proto blake3 world params recv
      (sendLinkReply proto blake3 world params recv .start) := by
  unfold sendLinkReply
  rcases sendReply_cases proto world params with ⟨e, s, hs, hlog⟩ | ⟨peerAccount, half, hsent⟩
  · rw [Eff.bind_of_error hs]
    exact .unlinked hlog (by simp)
  rw [Eff.bind_of_ok hsent.run]
  dsimp only
  split_ifs with htime
  · exact .unlinked (by simp) (by simp)
  rcases hread : readOneFrame recv params.maxFrameSize with e | frame
  · exact .unlinked (by simp) (by simp)
  dsimp only
  rcases acceptAnswer_cases proto blake3 world params peerAccount half frame with
    hans | hans | ⟨what, hans⟩
  · rw [hans, acceptApprove]
    rcases hdec : decodeLinkApproveFrame proto frame with e | approve
    · exact .unlinked (by simp) (by simp)
    dsimp only
    split_ifs with hinvite hid
    · exact .unlinked (by simp) (by simp)
    · exact .unlinked (by simp) (by simp)
    obtain rfl : approve = ⟨params.invite.inviteId, params.linkId blake3 half⟩ := by
      rw [not_not] at hinvite hid
      rw [← hinvite, ← hid]
    rw [logCall_bind]
    rcases world.record (params.link blake3 half peerAccount (world.clock 2))
      (params.secret blake3 half) with reason | _
    · exact .unrecorded hsent rfl
    · exact .linked hsent rfl hread hdec
  · rw [hans, acceptDecline]
    rcases decodeLinkDeclineFrame proto frame with e | declined
    · exact .unlinked (by simp) (by simp)
    dsimp only
    split_ifs
    · exact .unlinked (by simp) (by simp)
    · exact .unlinked (by simp) (by simp)
  · rw [hans]
    exact .unlinked (by simp) (by simp)

end Replier

/-! ### Both sides over one stream -/

/-- Why a listener does not hand a stream to the link exchange. -/
inductive LinkAcceptError
  | read (e : LinkExchangeError)
  | unexpectedFrame (what : Classification)
  | frame (e : LinkFrameError)
  deriving DecidableEq

/-- The listener: read the first frame of a stream, which opens a link exchange when it is
a reply. -/
def acceptLinkReply (proto : LinkProto) (recv : RecvStream) (maxFrameSize : UInt32) :
    Except LinkAcceptError LinkReply := do
  let frame ← (readOneFrame recv maxFrameSize).mapError .read
  match classify frame.typeCode .control with
  | .known .linkReply => (decodeLinkReplyFrame proto frame).mapError .frame
  | other => .error (.unexpectedFrame other)

/-- The part of the bytes sent on a stream that arrives, and how the stream ends then. -/
structure Delivery where
  count : ℕ
  ending : Option TransportError

/-- The receiving half on which the delivered part of `sent` arrives. -/
def Delivery.recv (d : Delivery) (sent : List UInt8) : RecvStream :=
  ⟨sent.take d.count, d.ending⟩

/-- A run of the two sides on one invite, over one stream that may be cut anywhere. -/
structure LinkExchange where
  proto : LinkProto
  blake3 : Blake3Kdf
  replierWorld : ReplierWorld
  replier : ReplierParams
  inviterWorld : InviterWorld
  inviterPeer : DeviceId
  inviterMaxFrameSize : UInt32
  replyDelivery : Delivery
  answerDelivery : Delivery

namespace LinkExchange

variable (x : LinkExchange)

/-- The reply the inviter's listener reads, if it reads one. -/
def received : Except LinkAcceptError LinkReply :=
  acceptLinkReply x.proto
    (x.replyDelivery.recv (sendReply x.proto x.replierWorld x.replier .start).2.sent)
    x.inviterMaxFrameSize

/-- The inviter's side on a reply, for the invite the replier answers. -/
def inviter (reply : LinkReply) : InviterParams :=
  ⟨x.replier.invite, reply, x.inviterPeer, x.inviterMaxFrameSize⟩

/-- How the inviter's side ends on a reply. -/
def inviterRun (reply : LinkReply) : Except LinkExchangeError LinkOutcome × LinkSide :=
  serveLinkReply x.proto x.blake3 x.inviterWorld (x.inviter reply) .start

/-- What the inviter hands to the stream: nothing when no reply reached it. -/
def answered : List UInt8 :=
  match x.received with
  | .error _ => []
  | .ok reply => (x.inviterRun reply).2.sent

/-- How the replier's side ends. -/
def replierRun : Except LinkExchangeError LinkOutcome × LinkSide :=
  sendLinkReply x.proto x.blake3 x.replierWorld x.replier (x.answerDelivery.recv x.answered) .start

end LinkExchange

/-- No frame is read off a stream on which nothing arrives. -/
theorem readOneFrame_nil {recv : RecvStream} {limit : UInt32} {f : Frame}
    (h : recv.bytes = []) : readOneFrame recv limit ≠ .ok f := by
  intro hread
  rw [readOneFrame, Fallible.mapError_eq_ok] at hread
  obtain ⟨n, hv, -⟩ := RecvStream.readFrame_eq_ok
    (show recv.readFrame limit = (.ok f, (recv.readFrame limit).2) from Prod.ext hread rfl)
  obtain ⟨hlt, hle, -⟩ := frameVerdict_eq_unit hv
  rw [h, List.length_nil] at hle
  omega

/-- Part of what was handed to a stream is read as the frame written, or not at all. -/
theorem readOneFrame_of_handed {recv : RecvStream} {limit limit' : UInt32} {f : Frame}
    {message : MessageType} {payload : List UInt8}
    (hrecv : recv.bytes <+:
      handed ((encodeFrame message.code payload limit').mapError .framing))
    (h : readOneFrame recv limit = .ok f) : f = ⟨message.code, payload⟩ := by
  rcases henc : encodeFrame message.code payload limit' with e | enc
  · rw [henc] at hrecv
    exact absurd h (readOneFrame_nil (List.prefix_nil.mp hrecv))
  · rw [henc] at hrecv
    rw [readOneFrame, Fallible.mapError_eq_ok] at h
    have hread : recv.readFrame limit = (.ok f, (recv.readFrame limit).2) := Prod.ext h rfl
    exact RecvStream.readFrame_of_prefix henc hrecv hread

/-- A frame of another message is not an approval. -/
theorem decodeLinkApproveFrame_ne_ok {proto : LinkProto} {message : MessageType}
    (h : message ≠ .linkApprove) (payload : List UInt8) (approve : LinkApprove) :
    decodeLinkApproveFrame proto ⟨message.code, payload⟩ ≠ .ok approve := by
  have hcode : message.code ≠ MessageType.linkApprove.code :=
    fun heq => h (MessageType.code_injective heq)
  rw [decodeLinkApproveFrame, decodeLinkFrame, if_pos hcode]
  rintro ⟨⟩

/-- **An approval the replier reads was sent after the inviter recorded the link**: whatever
part of the inviter's bytes arrived. -/
theorem InviterEnding.recorded_of_approve {proto : LinkProto} {blake3 : Blake3Kdf}
    {world : InviterWorld} {params : InviterParams}
    (hproto : proto.ReadsApprove ⟨params.invite.inviteId, params.linkId blake3⟩)
    {run : Except LinkExchangeError LinkOutcome × LinkSide}
    (hrun : InviterEnding proto blake3 world params run) {recv : RecvStream} {limit : UInt32}
    {frame : Frame} {approve : LinkApprove} (hrecv : recv.bytes <+: run.2.sent)
    (hread : readOneFrame recv limit = .ok frame)
    (hframe : decodeLinkApproveFrame proto frame = .ok approve) :
    ∃ peerAccount link, world.verify params.request = .ok peerAccount ∧
      link = params.link blake3 peerAccount (world.clock 2) ∧
      approve = ⟨params.invite.inviteId, params.linkId blake3⟩ ∧
      run.2.log = [.verified params.request (.ok peerAccount),
        .decided (params.proposal blake3 peerAccount) (some .approve),
        .recorded link (params.secret blake3) (.ok ())] := by
  have hdeclined : ∀ {reason detail log}, recv.bytes <+:
      (declinedRun proto world params reason detail log).2.sent → False := by
    intro reason detail log hsent
    obtain rfl := readOneFrame_of_handed hsent hread
    exact decodeLinkApproveFrame_ne_ok (by decide) _ _ hframe
  cases hrun with
  | unknown h =>
      exact (@hdeclined none none [] (hrecv.trans List.nil_prefix)).elim
  | expired => exact (hdeclined hrecv).elim
  | unverified h => exact (hdeclined hrecv).elim
  | undecided h hdecision => exact (hdeclined hrecv).elim
  | unrecorded h hlink => exact (hdeclined hrecv).elim
  | approved h hlink =>
      obtain rfl := readOneFrame_of_handed hrecv hread
      rw [decodeLinkApproveFrame_of_encode hproto] at hframe
      exact ⟨_, _, h, hlink, (Except.ok.inj hframe).symm, rfl⟩

/-- The reply an inviter serves is the one the replier sent. -/
theorem LinkExchange.eq_of_received {x : LinkExchange} {peerAccount : AccountId}
    {half : HalfSecret} (hproto : x.proto.ReadsReply (x.replier.reply half))
    (hsent : ReplySent x.proto x.replierWorld x.replier peerAccount half) {reply : LinkReply}
    (h : x.received = .ok reply) : reply = x.replier.reply half := by
  unfold received acceptLinkReply at h
  obtain ⟨frame, hread, h⟩ := Fallible.bind_eq_ok.mp h
  have hprefix : (x.replyDelivery.recv (sendReply x.proto x.replierWorld x.replier
      .start).2.sent).bytes <+: handed (x.replier.replyFrame x.proto half) := by
    rw [hsent.run]
    exact List.take_prefix _ _
  obtain rfl := readOneFrame_of_handed hprefix (Fallible.mapError_eq_ok.mp hread)
  have hclass : classify MessageType.linkReply.code .control = .known .linkReply := by decide
  simp only [hclass] at h
  exact decodeLinkReplyFrame_of_encode hproto (Fallible.mapError_eq_ok.mp h)

/-! ### What the sides record -/

/-- What a side's run records: nothing when it declined or failed before its record call;
the last thing it does otherwise, but for sending its answer; and only for the account
`verify` returned for the peer's message and the authenticated device. -/
structure SoundRecords (verify : LinkAttestationRequest → Except Text AccountId)
    (request : LinkAttestationRequest)
    (run : Except LinkExchangeError LinkOutcome × LinkSide) : Prop where
  early : ((∃ reason detail, run.1 = .ok (.declined reason detail)) ∨
      (∃ e, run.1 = .error e) ∧ ∀ link secret r, .recorded link secret r ∉ run.2.log) →
    ∀ link secret, ¬run.2.Recorded link secret
  late : ∀ link secret, run.2.Recorded link secret →
    run.2.log.getLast? = some (.recorded link secret (.ok ())) ∧
      (run.1 = .ok (.linked link.linkId) ∨ (∃ e, run.1 = .error (.frame e)) ∨
        ∃ e, run.1 = .error (.transport e))
  verified : ∀ link secret r, .recorded link secret r ∈ run.2.log →
    verify request = .ok link.peerAccount ∧
      [.verified request (.ok link.peerAccount), .recorded link secret r].Sublist run.2.log

section Records

variable {proto : LinkProto} {blake3 : Blake3Kdf}
  {verify : LinkAttestationRequest → Except Text AccountId} {request : LinkAttestationRequest}
  {res : Except LinkExchangeError LinkOutcome} {sent : List UInt8} {log : List LinkCall}

/-- A side that called no `record`. -/
theorem SoundRecords.of_not_recorded (h : ∀ link secret r, .recorded link secret r ∉ log) :
    SoundRecords verify request (res, ⟨sent, log⟩) where
  early _ link secret := h link secret _
  late link secret hrec := absurd hrec (h link secret _)
  verified link secret r hrec := absurd hrec (h link secret r)

/-- A side whose last call is to `record`, after it verified the link's account. -/
theorem SoundRecords.of_record (calls : List LinkCall) {peerAccount : AccountId} {link : Link}
    {secret : LinkSecret} {r : Except Text Unit} (hverify : verify request = .ok peerAccount)
    (hlink : link.peerAccount = peerAccount)
    (hcalls : ∀ link secret r, .recorded link secret r ∉ calls)
    (hres : r = .ok () → res = .ok (.linked link.linkId) ∨ (∃ e, res = .error (.frame e)) ∨
      ∃ e, res = .error (.transport e)) :
    SoundRecords verify request (res, ⟨sent, .verified request (.ok peerAccount) ::
      calls ++ [.recorded link secret r]⟩) := by
  subst hlink
  -- The only record call in the log is its last entry.
  have honly : ∀ link' secret' r', LinkCall.recorded link' secret' r' ∈
      .verified request (.ok link.peerAccount) :: calls ++ [.recorded link secret r] →
      link' = link ∧ secret' = secret ∧ r' = r := by
    intro link' secret' r' hmem
    rcases List.mem_append.mp hmem with hmem | hmem
    · rcases List.mem_cons.mp hmem with heq | hmem
      · cases heq
      · exact absurd hmem (hcalls _ _ _)
    · cases List.mem_singleton.mp hmem
      exact ⟨rfl, rfl, rfl⟩
  constructor
  · rintro (⟨reason, detail, hdeclined⟩ | ⟨-, hnone⟩) link' secret' hrec
    · obtain ⟨rfl, rfl, hr⟩ := honly _ _ _ hrec
      dsimp only at hdeclined
      rcases hres hr.symm with h | ⟨e, h⟩ | ⟨e, h⟩
      · rw [h] at hdeclined
        cases hdeclined
      · rw [h] at hdeclined
        cases hdeclined
      · rw [h] at hdeclined
        cases hdeclined
    · exact hnone _ _ _ hrec
  · intro link' secret' hrec
    obtain ⟨rfl, rfl, rfl⟩ := honly _ _ _ hrec
    exact ⟨List.getLast?_concat, hres rfl⟩
  · intro link' secret' r' hrec
    obtain ⟨rfl, rfl, rfl⟩ := honly _ _ _ hrec
    exact ⟨hverify, (List.sublist_append_right calls _).cons_cons _⟩

/-- The inviter records soundly. -/
theorem InviterEnding.soundRecords {world : InviterWorld} {params : InviterParams}
    {run : Except LinkExchangeError LinkOutcome × LinkSide}
    (h : InviterEnding proto blake3 world params run) :
    SoundRecords world.verify params.request run := by
  cases h with
  | unknown h => exact .of_not_recorded (by simp)
  | expired => exact .of_not_recorded (by simp)
  | unverified h => exact .of_not_recorded (by simp)
  | undecided h hdecision => exact .of_not_recorded (by simp)
  | unrecorded h hlink =>
      subst hlink
      exact .of_record [_] h rfl (by simp) (fun h => by cases h)
  | approved h hlink =>
      subst hlink
      exact .of_record [_] h rfl (by simp) fun _ => lastWritten_cases _ _ _

/-- The replier records soundly. -/
theorem ReplierEnding.soundRecords {world : ReplierWorld} {params : ReplierParams}
    {recv : RecvStream} {run : Except LinkExchangeError LinkOutcome × LinkSide}
    (h : ReplierEnding proto blake3 world params recv run) :
    SoundRecords world.verify params.request run := by
  cases h with
  | unlinked h hres => exact .of_not_recorded h
  | unrecorded hsent hlink =>
      subst hlink
      exact .of_record [] hsent.verify rfl (by simp) (fun h => by cases h)
  | linked hsent hlink hread hframe =>
      subst hlink
      exact .of_record [] hsent.verify rfl (by simp) fun _ => .inl rfl

end Records

/-- **The two sides of a link exchange agree**, for any clocks, decisions and outcomes of
the callbacks and however much of either side's bytes arrives. A replier that is linked has
an inviter that recorded a link with the same identifier and secret right after its user
approved; a side that declined, or failed before its record call, recorded nothing, and a
replier that failed at all recorded nothing; and a recorded account is the one `verify`
returned for the keys in the message and the device the channel authenticated. -/
theorem LinkExchange.sides_agree (x : LinkExchange)
    (hreply : ∀ half, x.proto.ReadsReply (x.replier.reply half))
    (happrove : ∀ id, x.proto.ReadsApprove ⟨x.replier.invite.inviteId, id⟩) :
    (∀ id, x.replierRun.1 = .ok (.linked id) →
      ∃ reply, x.received = .ok reply ∧ ∃ before proposal link link' secret,
        (x.inviterRun reply).2.log =
          before ++ [.decided proposal (some .approve), .recorded link secret (.ok ())] ∧
        link.linkId = id ∧ x.replierRun.2.Recorded link' secret ∧ link'.linkId = id) ∧
    (∀ reply, x.received = .ok reply →
      SoundRecords x.inviterWorld.verify (x.inviter reply).request (x.inviterRun reply)) ∧
    SoundRecords x.replierWorld.verify x.replier.request x.replierRun ∧
    ∀ e link secret, x.replierRun.1 = .error e → ¬x.replierRun.2.Recorded link secret := by
  have hreplier := replierEnding x.proto x.blake3 x.replierWorld x.replier
    (x.answerDelivery.recv x.answered)
  change ReplierEnding x.proto x.blake3 x.replierWorld x.replier
    (x.answerDelivery.recv x.answered) x.replierRun at hreplier
  refine ⟨?_, fun reply _ => (inviterEnding _ _ _ _).soundRecords, hreplier.soundRecords, ?_⟩
  · intro id hid
    generalize hrun : x.replierRun = run at hreplier hid
    cases hreplier with
    | unlinked h hres => exact absurd hid (hres id)
    | unrecorded hsent hlink => cases hid
    | @linked peerAccount half link' frame hsent hlink hread hframe =>
        obtain rfl := LinkOutcome.linked.inj (Except.ok.inj hid)
        rcases hreceived : x.received with e | reply
        · -- A frame was read, so the inviter's side ran.
          have hnil : (x.answerDelivery.recv x.answered).bytes = [] := by
            simp only [answered, hreceived, Delivery.recv, List.take_nil]
          exact absurd hread (readOneFrame_nil hnil)
        obtain rfl := eq_of_received (hreply half) hsent hreceived
        have hprefix : (x.answerDelivery.recv x.answered).bytes <+:
            (x.inviterRun (x.replier.reply half)).2.sent := by
          simp only [answered, hreceived, Delivery.recv]
          exact List.take_prefix _ _
        obtain ⟨account, link, -, hinviterLink, -, hlog⟩ :=
          (inviterEnding _ _ _ _).recorded_of_approve (happrove _) hprefix hread hframe
        refine ⟨_, rfl, [_], _, link, link', _, hlog, by rw [hinviterLink]; rfl, ?_,
          by rw [hlink]; rfl⟩
        exact List.mem_cons_of_mem _ (List.mem_singleton.mpr rfl)
  · intro e link secret he
    generalize x.replierRun = run at hreplier he
    cases hreplier with
    | unlinked h hres => exact h _ _ _
    | unrecorded hsent hlink => simp [LinkSide.Recorded]
    | linked hsent hlink hread hframe => cases he

/-! ### A link that comes about -/

namespace LinkedPair

/-- Sixteen equal bytes. -/
def sixteen (b : UInt8) : Bytes linkIdLen :=
  .replicate 16 b

/-- A point with equal coordinates' bytes; no arithmetic is done with it here. -/
def point (b : UInt8) : PublicKeyPoint :=
  ⟨⟨0x04 :: List.replicate 64 b, rfl⟩⟩

/-- The link secret of the two halves. -/
def secret : Bytes 32 :=
  ⟨[0xc7, 0xbb, 0x93, 0xd2, 0x71, 0xb5, 0x30, 0xa7, 0xd2, 0x5e, 0xa0, 0x2c, 0x79, 0x33, 0x87,
    0x7b, 0x62, 0x50, 0x39, 0x4e, 0xdb, 0x54, 0x64, 0x71, 0xa1, 0x60, 0x2b, 0x62, 0xc7, 0x01,
    0x17, 0x14], by decide⟩

/-- The digest of the link secret. -/
def secretDigest : Bytes 32 :=
  ⟨[0x5b, 0x09, 0x70, 0xe5, 0xd2, 0x16, 0x97, 0xbd, 0x15, 0x2b, 0xcb, 0xd7, 0x57, 0x3a, 0x46,
    0xb1, 0xe0, 0x8b, 0x01, 0xcc, 0x88, 0x6e, 0x1b, 0x0f, 0x19, 0x76, 0x91, 0xfd, 0xd7, 0x4f,
    0xae, 0x2e], by decide⟩

/-- The digest of the replier's two keys. -/
def keyDigest : Bytes 32 :=
  ⟨[0x35, 0xe3, 0xcd, 0x9f, 0xe0, 0xb1, 0x7b, 0x05, 0x59, 0xfc, 0x74, 0xb6, 0x45, 0x03, 0x1b,
    0x99, 0x25, 0x12, 0xe5, 0xc8, 0x7d, 0xb3, 0xfb, 0x29, 0xe1, 0x25, 0xf4, 0x4b, 0x35, 0x2a,
    0x46, 0x63], by decide⟩

/-- BLAKE3 on the inputs of this exchange: it hashes the secret and the replier's keys. -/
def blake3 : Blake3Kdf where
  hash bytes := if bytes = secret.val then secretDigest else keyDigest
  deriveKey _ _ := secret

/-- The invite: shown at second 1000 with a window of five minutes. -/
def invite : Invite :=
  ⟨⟨sixteen 0xa1⟩, point 3, point 4, ['i'], ⟨sixteen 0x11⟩, ⟨1300⟩, none⟩

/-- The replier. -/
def replier : ReplierParams :=
  ⟨invite, ⟨point 1, point 2, ⟨⟨List.replicate 16 0x0b, by decide⟩⟩⟩, ['r'], none,
    ⟨⟨List.replicate 16 0x0a, by decide⟩⟩, 512, 60⟩

/-- A protobuf field of fewer than 128 bytes. -/
def bytesField (tag : UInt8) (bytes : List UInt8) : List UInt8 :=
  if bytes = [] then [] else tag :: UInt8.ofNat bytes.length :: bytes

/-- A text of one-byte characters. -/
def oneByte (s : Text) : List UInt8 :=
  s.map fun c => UInt8.ofNat c.toNat

/-- A reply in protobuf up to its half secret; the device takes 134 bytes. -/
def replyHead (m : WireLinkReply) : List UInt8 :=
  bytesField 0x0a m.inviteId ++
    (m.device.elim [] fun d =>
      [0x12, 0x86, 0x01] ++ bytesField 0x12 d.identityPub ++ bytesField 0x1a d.agreementPub ++
        bytesField 0x22 (oneByte d.displayName)) ++
    (m.attestation.elim [] fun a => bytesField 0x1a (bytesField 0x0a (oneByte a.idToken))) ++
    [0x22, 0x10]

/-- A reply of this replier as protobuf carries it, but for its half secret. -/
def wireReply : WireLinkReply :=
  { linkReplyToWire (replier.reply ⟨sixteen 0⟩) with halfSecret := [] }

/-- Protobuf on the messages of this exchange. -/
def proto : LinkProto where
  encodeLinkReply m := replyHead m ++ m.halfSecret
  decodeLinkReply bytes :=
    if bytes.take 162 = replyHead wireReply then
      some { wireReply with halfSecret := bytes.drop 162 }
    else none
  encodeLinkApprove m := bytesField 0x0a m.inviteId ++ bytesField 0x12 m.linkId
  decodeLinkApprove bytes := some ⟨(bytes.drop 2).take 16, (bytes.drop 20).take 16⟩
  encodeLinkDecline m :=
    bytesField 0x0a m.inviteId ++ [0x10, UInt8.ofNat m.reason.toInt.toNat]
  decodeLinkDecline bytes :=
    some ⟨(bytes.drop 2).take 16, Int32.ofNat (bytes.getD 19 0).toNat⟩

/-- Both users' devices are online, their clocks agree, and the inviter's user approves. -/
def exchange : LinkExchange where
  proto := proto
  blake3 := blake3
  replierWorld :=
    { clock := fun _ => ⟨1010⟩
      verify := fun _ => .ok ⟨"i", "alice"⟩
      record := fun _ _ => .ok ()
      write := fun _ => .ok ()
      fillBytes := .ok (sixteen 0x22)
      readTimesOut := fun _ => false }
  replier := replier
  inviterWorld :=
    { clock := fun _ => ⟨1010⟩
      verify := fun _ => .ok ⟨"i", "bob"⟩
      decide := fun _ _ => some .approve
      record := fun _ _ => .ok ()
      write := fun _ => .ok () }
  inviterPeer := ⟨⟨List.replicate 16 0x0b, by decide⟩⟩
  inviterMaxFrameSize := 512
  replyDelivery := ⟨512, none⟩
  answerDelivery := ⟨512, none⟩

/-- The identifier of the link. -/
def linkId : LinkId :=
  ⟨⟨secretDigest.val.take 16, by decide⟩⟩

theorem readsReply (half : HalfSecret) : proto.ReadsReply (replier.reply half) := by
  have hwire : linkReplyToWire (replier.reply half) =
      { wireReply with halfSecret := half.bytes.val } := rfl
  have hhead : replyHead { wireReply with halfSecret := half.bytes.val } = replyHead wireReply :=
    rfl
  have hlen : (replyHead wireReply).length = 162 := by decide +kernel
  simp only [LinkProto.ReadsReply, proto, hwire, hhead, List.take_left' hlen, if_true,
    List.drop_left' hlen]

theorem readsApprove (id : LinkId) : proto.ReadsApprove ⟨invite.inviteId, id⟩ := by
  have hfield : ∀ tag (bytes : Bytes linkIdLen),
      bytesField tag bytes.val = tag :: 16 :: bytes.val := by
    intro tag bytes
    have hne : bytes.val ≠ [] := List.ne_nil_of_length_eq_add_one bytes.property
    rw [bytesField, if_neg hne, bytes.property]
    rfl
  have hlen : ∀ bytes : Bytes linkIdLen, bytes.val.length = 16 := fun bytes => bytes.property
  simp only [LinkProto.ReadsApprove, proto, linkApproveToWire, hfield]
  simp [List.take_of_length_le, List.drop_append, hlen]

end LinkedPair

/-- Two devices that meet in time are linked, on both sides. -/
theorem LinkExchange.sides_agree_linked :
    LinkedPair.exchange.replierRun.1 = .ok (.linked LinkedPair.linkId) ∧
      ∃ reply, LinkedPair.exchange.received = .ok reply ∧ ∃ link secret,
        (LinkedPair.exchange.inviterRun reply).2.Recorded link secret ∧
        link.linkId = LinkedPair.linkId := by
  have hlinked : LinkedPair.exchange.replierRun.1 = .ok (.linked LinkedPair.linkId) := by
    decide +kernel
  obtain ⟨reply, hreceived, before, proposal, link, link', secret, hlog, hid, -⟩ :=
    (LinkedPair.exchange.sides_agree LinkedPair.readsReply LinkedPair.readsApprove).1 _ hlinked
  refine ⟨hlinked, reply, hreceived, link, secret, ?_, hid⟩
  rw [LinkSide.Recorded, hlog]
  simp

end Tradr
