import Tradr.LinkExchange
import Tradr.Machine

/-!
# The Invite Window

A device's invite window: the invite it offers and the one decision of a person it waits
for. Any number of streams are served against the window at once, each taking the open
invite, verifying its reply, parking a proposal and waiting for the decision; the user
opens invites, looks at the pending proposal and answers it.

A parked decision is the sending half of a one-shot channel whose receiving half the
exchange waits on. Dropping the sender closes the channel, which the exchange takes for a
refusal. The machine performs one poll of one exchange, or one call of the user, a step.

## Main results

* `inviteLaw_iff`: decisions reach the exchange they were made for along a run exactly when
  no exchange parks or leaves while another one waits for its decision.
-/

namespace Tradr

/-! ### The window -/

/-- A decision a person has not made yet: the proposal, and the exchange on whose channel
it is sent. -/
structure Parked where
  proposal : LinkProposal
  sender : ℕ
  deriving DecidableEq

/-- The invite window of a device. -/
structure LinkInviteState where
  opened : Option Invite
  pending : Option Parked
  deriving DecidableEq

namespace LinkInviteState

/-- Nothing open and nothing pending. -/
def new : LinkInviteState :=
  ⟨none, none⟩

/-- Open an invite, replacing the one that was open; refused while a decision is parked. -/
def openInvite (w : LinkInviteState) (invite : Invite) : Option LinkInviteState :=
  if w.pending.isSome then none else some { w with opened := some invite }

/-- Take the open invite when it is the one named, and close the window. -/
def takeIf (w : LinkInviteState) (id : InviteId) : Option Invite × LinkInviteState :=
  match w.opened with
  | some invite => if invite.inviteId = id then (some invite, { w with opened := none }) else (none, w)
  | none => (none, w)

/-- Park a decision: the one whose sender is dropped for it, and the window. -/
def park (w : LinkInviteState) (parked : Parked) : Option Parked × LinkInviteState :=
  (w.pending, { w with pending := some parked })

/-- Take the parked decision to answer it. -/
def takePending (w : LinkInviteState) : Option Parked × LinkInviteState :=
  (w.pending, { w with pending := none })

/-- Drop any parked decision: the one dropped, and the window. -/
def clearPending (w : LinkInviteState) : Option Parked × LinkInviteState :=
  (w.pending, { w with pending := none })

end LinkInviteState

/-! ### Exchanges -/

/-- A one-shot channel for a decision, as its receiver finds it. -/
inductive DecisionChannel
  | unanswered
  | sent (decision : LinkDecision)
  | closed
  deriving DecidableEq, Repr

/-- How far an exchange has come: verifying the reply, waiting for the decision on its
proposal, or past it, with the answer still to be written; it has left when `serve` has
returned. -/
inductive ExchangePhase
  | absent
  | verifying (params : InviterParams)
  | waiting (proposal : LinkProposal) (channel : DecisionChannel)
  | concluding
  | left

/-- The window and the exchanges served against it, in the order they took an invite;
`opens` counts the invites opened. -/
structure LinkServing where
  window : LinkInviteState
  opens : ℕ
  served : ℕ
  phases : ℕ → ExchangePhase

/-- What the user and the exchanges do: a user's call, a stream that brings a reply, the end
of a verification, a poll of a waiting exchange whose channel or whose deadline is ready,
and the end of `serve`. -/
inductive InviteAction
  | openInvite (invite : Invite)
  | pending
  | answer (decision : LinkDecision)
  | serve (reply : LinkReply) (peer : DeviceId) (maxFrameSize : UInt32) (now : UnixTime)
  | verified (e : ℕ) (result : Except Text AccountId)
  | wake (e : ℕ)
  | timeout (e : ℕ)
  | leave (e : ℕ)

/-- What a step lets an observer see. An answered decision names the proposal that was
pending and the exchange it was sent to. -/
inductive InviteEvent
  | silent
  | opened (n : ℕ)
  | decisionPending
  | showed (proposal : Option LinkProposal)
  | answered (proposal : LinkProposal) (e : ℕ) (decision : LinkDecision)
  | noPendingDecision
  | took (e n : ℕ)
  | unknownInvite
  | parked (e : ℕ) (proposal : LinkProposal)
  | received (e : ℕ) (decision : LinkDecision)
  | dropped (e : ℕ)
  | timedOut (e : ℕ)
  | left (e : ℕ)
  deriving DecidableEq

namespace LinkServing

/-- A device before anything happened. -/
def start : LinkServing :=
  ⟨.new, 0, 0, fun _ => .absent⟩

/-- Move an exchange to a phase. -/
def goto (s : LinkServing) (e : ℕ) (phase : ExchangePhase) : LinkServing :=
  { s with phases := Function.update s.phases e phase }

/-- The exchanges after a sender is dropped: the one that waits on it finds its channel
closed. -/
def dropSender (phases : ℕ → ExchangePhase) (parked? : Option Parked) (e : ℕ) : ExchangePhase :=
  match phases e with
  | .waiting proposal .unanswered =>
    if parked?.map Parked.sender = some e then .waiting proposal .closed
    else .waiting proposal .unanswered
  | phase => phase

/-- The user opens an invite. -/
def stepOpen (s : LinkServing) (invite : Invite) : InviteEvent × LinkServing :=
  match s.window.openInvite invite with
  | none => (.decisionPending, s)
  | some window => (.opened (s.opens + 1), { s with window, opens := s.opens + 1 })

/-- The user answers the pending proposal; nothing is sent to an exchange that has stopped
listening. -/
def stepAnswer (s : LinkServing) (decision : LinkDecision) : InviteEvent × LinkServing :=
  match s.window.takePending with
  | (none, window) => (.noPendingDecision, { s with window })
  | (some parked, window) =>
    match s.phases parked.sender with
    | .waiting proposal .unanswered =>
      (.answered parked.proposal parked.sender decision,
        { s with window }.goto parked.sender (.waiting proposal (.sent decision)))
    | _ => (.noPendingDecision, { s with window })

/-- A reply arrives: take the invite it names, and check that it has not expired. -/
def stepServe (s : LinkServing) (reply : LinkReply) (peer : DeviceId) (maxFrameSize : UInt32)
    (now : UnixTime) : InviteEvent × LinkServing :=
  match s.window.takeIf reply.inviteId with
  | (none, window) => (.unknownInvite, { s with window })
  | (some invite, window) =>
    (.took s.served s.opens,
      { s with window, served := s.served + 1 }.goto s.served
        (if invite.isExpired now 0 then .concluding
          else .verifying ⟨invite, reply, peer, maxFrameSize⟩))

/-- A verification ends: decline, or park the proposal and wait. -/
def stepVerified (blake3 : Blake3Kdf) (s : LinkServing) (e : ℕ)
    (result : Except Text AccountId) : InviteEvent × LinkServing :=
  match s.phases e with
  | .verifying params =>
    match result with
    | .error _ => (.silent, s.goto e .concluding)
    | .ok account =>
      let proposal := params.proposal blake3 account
      let (replaced, window) := s.window.park ⟨proposal, e⟩
      (.parked e proposal,
        { s with window, phases := dropSender s.phases replaced }.goto e
          (.waiting proposal .unanswered))
  | _ => (.silent, s)

/-- A waiting exchange finds its channel ready: it takes a closed one for a refusal. -/
def stepWake (s : LinkServing) (e : ℕ) : InviteEvent × LinkServing :=
  match s.phases e with
  | .waiting _ (.sent decision) => (.received e decision, s.goto e .concluding)
  | .waiting _ .closed => (.dropped e, s.goto e .concluding)
  | _ => (.silent, s)

/-- The deadline of a waiting exchange passes; what is in its channel comes first. -/
def stepTimeout (s : LinkServing) (e : ℕ) : InviteEvent × LinkServing :=
  match s.phases e with
  | .waiting _ .unanswered => (.timedOut e, s.goto e .concluding)
  | _ => (.silent, s)

/-- An exchange leaves `serve`, which drops whatever is parked. -/
def stepLeave (s : LinkServing) (e : ℕ) : InviteEvent × LinkServing :=
  match s.phases e with
  | .concluding =>
    let (cleared, window) := s.window.clearPending
    (.left e, { s with window, phases := dropSender s.phases cleared }.goto e .left)
  | _ => (.silent, s)

/-- One step of the device. -/
def step (blake3 : Blake3Kdf) (s : LinkServing) : InviteAction → InviteEvent × LinkServing
  | .openInvite invite => s.stepOpen invite
  | .pending => (.showed (s.window.pending.map Parked.proposal), s)
  | .answer decision => s.stepAnswer decision
  | .serve reply peer maxFrameSize now => s.stepServe reply peer maxFrameSize now
  | .verified e result => s.stepVerified blake3 e result
  | .wake e => s.stepWake e
  | .timeout e => s.stepTimeout e
  | .leave e => s.stepLeave e

/-- An exchange parks its proposal, or leaves. -/
def Disturbs (s : LinkServing) : InviteAction → Prop
  | .verified e (.ok _) => ∃ params, s.phases e = .verifying params
  | .leave e => s.phases e = .concluding
  | _ => False

/-- What a step can do, case by case. -/
inductive Effect (blake3 : Blake3Kdf) (s : LinkServing) :
    InviteAction → InviteEvent × LinkServing → Prop
  | idle {a : InviteAction} {event : InviteEvent} (hidle : ¬s.Disturbs a)
      (hevent : event ∈ [.silent, .decisionPending, .noPendingDecision, .unknownInvite] ∨
        event = .showed (s.window.pending.map Parked.proposal)) :
      Effect blake3 s a (event, s)
  | opened {invite : Invite} (h : s.window.pending = none) :
      Effect blake3 s (.openInvite invite) (.opened (s.opens + 1),
        { s with window := ⟨some invite, none⟩, opens := s.opens + 1 })
  | answered {decision : LinkDecision} {parked : Parked} {proposal : LinkProposal}
      (h : s.window.pending = some parked)
      (hphase : s.phases parked.sender = .waiting proposal .unanswered) :
      Effect blake3 s (.answer decision) (.answered parked.proposal parked.sender decision,
        { s with window := { s.window with pending := none } }.goto parked.sender
          (.waiting proposal (.sent decision)))
  | unheard {decision : LinkDecision} {parked : Parked} (h : s.window.pending = some parked)
      (hphase : ∀ proposal, s.phases parked.sender ≠ .waiting proposal .unanswered) :
      Effect blake3 s (.answer decision) (.noPendingDecision,
        { s with window := { s.window with pending := none } })
  | took {reply : LinkReply} {peer : DeviceId} {maxFrameSize : UInt32} {now : UnixTime}
      {invite : Invite} {phase : ExchangePhase} (h : s.window.opened = some invite)
      (hphase : phase = .concluding ∨
        phase = .verifying ⟨invite, reply, peer, maxFrameSize⟩) :
      Effect blake3 s (.serve reply peer maxFrameSize now) (.took s.served s.opens,
        { s with window := { s.window with opened := none }, served := s.served + 1 }.goto
          s.served phase)
  | unverified {e : ℕ} {reason : Text} {params : InviterParams}
      (h : s.phases e = .verifying params) :
      Effect blake3 s (.verified e (.error reason)) (.silent, s.goto e .concluding)
  | parked {e : ℕ} {account : AccountId} {params : InviterParams}
      (h : s.phases e = .verifying params) :
      Effect blake3 s (.verified e (.ok account)) (.parked e (params.proposal blake3 account),
        { s with
          window := { s.window with pending := some ⟨params.proposal blake3 account, e⟩ }
          phases := dropSender s.phases s.window.pending }.goto e
            (.waiting (params.proposal blake3 account) .unanswered))
  | received {e : ℕ} {proposal : LinkProposal} {decision : LinkDecision}
      (h : s.phases e = .waiting proposal (.sent decision)) :
      Effect blake3 s (.wake e) (.received e decision, s.goto e .concluding)
  | dropped {e : ℕ} {proposal : LinkProposal} (h : s.phases e = .waiting proposal .closed) :
      Effect blake3 s (.wake e) (.dropped e, s.goto e .concluding)
  | timedOut {e : ℕ} {proposal : LinkProposal}
      (h : s.phases e = .waiting proposal .unanswered) :
      Effect blake3 s (.timeout e) (.timedOut e, s.goto e .concluding)
  | left {e : ℕ} (h : s.phases e = .concluding) :
      Effect blake3 s (.leave e) (.left e,
        { s with
          window := { s.window with pending := none }
          phases := dropSender s.phases s.window.pending }.goto e .left)

/-- Every step is one of these. -/
theorem effect_step (blake3 : Blake3Kdf) (s : LinkServing) (a : InviteAction) :
    Effect blake3 s a (step blake3 s a) := by
  cases a with
  | openInvite invite =>
      simp only [step, stepOpen, LinkInviteState.openInvite]
      rcases hp : s.window.pending with _ | parked
      · simpa [hp] using Effect.opened hp
      · exact .idle id (.inl (by simp))
  | pending => exact .idle id (.inr rfl)
  | answer decision =>
      simp only [step, stepAnswer, LinkInviteState.takePending]
      rcases hp : s.window.pending with _ | parked
      · have hsame : { s with window := { s.window with pending := none } } = s := by rw [← hp]
        simp only [hsame]
        exact .idle id (.inl (by simp))
      dsimp only
      split
      · rename_i proposal hphase
        exact .answered hp hphase
      · rename_i hphase
        exact .unheard hp hphase
  | serve reply peer maxFrameSize now =>
      simp only [step, stepServe, LinkInviteState.takeIf]
      rcases ho : s.window.opened with _ | invite
      · exact .idle id (.inl (by simp))
      dsimp only
      split_ifs with hid
      · refine .took ho ?_
        split_ifs
        · exact .inl rfl
        · exact .inr rfl
      · exact .idle id (.inl (by simp))
  | verified e result =>
      simp only [step, stepVerified]
      split
      · rename_i params h
        rcases result with reason | account
        · exact .unverified h
        · exact .parked h
      · rename_i h
        refine .idle ?_ (.inl (by simp))
        rcases result with reason | account
        · exact id
        · rintro ⟨params, hv⟩
          exact h params hv
  | wake e =>
      simp only [step, stepWake]
      split
      · rename_i h
        exact .received h
      · rename_i h
        exact .dropped h
      · exact .idle id (.inl (by simp))
  | timeout e =>
      simp only [step, stepTimeout]
      split
      · rename_i h
        exact .timedOut h
      · exact .idle id (.inl (by simp))
  | leave e =>
      simp only [step, stepLeave]
      split
      · rename_i h
        exact .left h
      · rename_i h
        exact .idle h (.inl (by simp))

/-- A run of the device. -/
def run (blake3 : Blake3Kdf) (acts : List InviteAction) : List InviteEvent × LinkServing :=
  Machine.run (step blake3) start acts

/-- Dropping a sender changes nothing but a wait for a decision that now never comes. -/
theorem dropSender_cases (phases : ℕ → ExchangePhase) (parked? : Option Parked) (e : ℕ) :
    dropSender phases parked? e = phases e ∨
      ∃ proposal, phases e = .waiting proposal .unanswered ∧
        parked?.map Parked.sender = some e ∧
        dropSender phases parked? e = .waiting proposal .closed := by
  unfold dropSender
  split
  · rename_i proposal h
    split_ifs with hs
    · exact .inr ⟨proposal, h, hs, rfl⟩
    · exact .inl h.symm
  · exact .inl rfl

/-! ### What happened to an exchange -/

/-- The proposals an exchange parked. -/
def parkedBy (history : List InviteEvent) (e : ℕ) : List LinkProposal :=
  history.filterMap fun
    | .parked e' p => if e' = e then some p else none
    | _ => none

/-- The decisions the user's answers sent to an exchange, each with the proposal that was
pending when it was made. -/
def answersTo (history : List InviteEvent) (e : ℕ) : List (LinkProposal × LinkDecision) :=
  history.filterMap fun
    | .answered p e' d => if e' = e then some (p, d) else none
    | _ => none

/-- The decisions an exchange received. -/
def receivedBy (history : List InviteEvent) (e : ℕ) : List LinkDecision :=
  history.filterMap fun
    | .received e' d => if e' = e then some d else none
    | _ => none

/-- The exchanges that took the `n`th invite opened. -/
def takersOf (history : List InviteEvent) (n : ℕ) : List ℕ :=
  history.filterMap fun
    | .took e n' => if n' = n then some e else none
    | _ => none

/-- A decision in the channel of an exchange. -/
def inChannel : ExchangePhase → List LinkDecision
  | .waiting _ (.sent d) => [d]
  | _ => []

/-- An event that tells nothing about an exchange. -/
def Unrelated (e : ℕ) : InviteEvent → Prop
  | .parked e' _ | .answered _ e' _ | .received e' _ => e' ≠ e
  | _ => True

/-- What is known of an exchange in a phase. -/
inductive Tracks (history : List InviteEvent) (e : ℕ) : ExchangePhase → Prop
  | early {phase : ExchangePhase}
      (hphase : phase = .absent ∨ ∃ params, phase = .verifying params)
      (hparked : parkedBy history e = []) (hanswers : answersTo history e = [])
      (hreceived : receivedBy history e = []) : Tracks history e phase
  | waiting {p : LinkProposal} {channel : DecisionChannel}
      (hchannel : channel = .unanswered ∨ channel = .closed)
      (hparked : parkedBy history e = [p]) (hanswers : answersTo history e = [])
      (hreceived : receivedBy history e = []) : Tracks history e (.waiting p channel)
  | sent {p : LinkProposal} {d : LinkDecision} (hparked : parkedBy history e = [p])
      (hanswers : answersTo history e = [(p, d)]) (hreceived : receivedBy history e = []) :
      Tracks history e (.waiting p (.sent d))
  | pastUnanswered {phase : ExchangePhase} (hphase : phase = .concluding ∨ phase = .left)
      (hanswers : answersTo history e = []) (hreceived : receivedBy history e = []) :
      Tracks history e phase
  | pastAnswered {phase : ExchangePhase} {p : LinkProposal} {d : LinkDecision}
      (hphase : phase = .concluding ∨ phase = .left) (hparked : parkedBy history e = [p])
      (hanswers : answersTo history e = [(p, d)]) (hreceived : receivedBy history e = [d]) :
      Tracks history e phase

variable {history : List InviteEvent} {s : LinkServing} {e : ℕ} {event : InviteEvent}

theorem parkedBy_concat (h : Unrelated e event) :
    parkedBy (history ++ [event]) e = parkedBy history e := by
  cases event <;> simp_all [parkedBy, Unrelated]

theorem answersTo_concat (h : Unrelated e event) :
    answersTo (history ++ [event]) e = answersTo history e := by
  cases event <;> simp_all [answersTo, Unrelated]

theorem receivedBy_concat (h : Unrelated e event) :
    receivedBy (history ++ [event]) e = receivedBy history e := by
  cases event <;> simp_all [receivedBy, Unrelated]

/-- An unrelated event changes nothing about an exchange. -/
theorem Tracks.concat {phase : ExchangePhase} (h : Tracks history e phase)
    (hevent : Unrelated e event) : Tracks (history ++ [event]) e phase := by
  cases h with
  | early hphase hparked hanswers hreceived =>
      exact .early hphase (by rwa [parkedBy_concat hevent]) (by rwa [answersTo_concat hevent])
        (by rwa [receivedBy_concat hevent])
  | waiting hchannel hparked hanswers hreceived =>
      exact .waiting hchannel (by rwa [parkedBy_concat hevent])
        (by rwa [answersTo_concat hevent]) (by rwa [receivedBy_concat hevent])
  | sent hparked hanswers hreceived =>
      exact .sent (by rwa [parkedBy_concat hevent]) (by rwa [answersTo_concat hevent])
        (by rwa [receivedBy_concat hevent])
  | pastUnanswered hphase hanswers hreceived =>
      exact .pastUnanswered hphase (by rwa [answersTo_concat hevent])
        (by rwa [receivedBy_concat hevent])
  | pastAnswered hphase hparked hanswers hreceived =>
      exact .pastAnswered hphase (by rwa [parkedBy_concat hevent])
        (by rwa [answersTo_concat hevent]) (by rwa [receivedBy_concat hevent])

/-- An exchange that stops waiting without an answer, or does not start to. -/
theorem Tracks.conclude {phase : ExchangePhase} (h : Tracks history e phase)
    (hphase : ∀ p d, phase ≠ .waiting p (.sent d)) (hevent : Unrelated e event) :
    Tracks (history ++ [event]) e .concluding := by
  cases h.concat hevent with
  | early _ _ hanswers hreceived => exact .pastUnanswered (.inl rfl) hanswers hreceived
  | waiting _ _ hanswers hreceived => exact .pastUnanswered (.inl rfl) hanswers hreceived
  | sent _ _ _ => exact absurd rfl (hphase _ _)
  | pastUnanswered _ hanswers hreceived => exact .pastUnanswered (.inl rfl) hanswers hreceived
  | pastAnswered _ hparked hanswers hreceived =>
      exact .pastAnswered (.inl rfl) hparked hanswers hreceived

/-- A verified exchange parks its proposal. -/
theorem Tracks.park {params : InviterParams} (h : Tracks history e (.verifying params))
    (p : LinkProposal) :
    Tracks (history ++ [.parked e p]) e (.waiting p .unanswered) := by
  cases h with
  | early _ hparked hanswers hreceived =>
      refine .waiting (.inl rfl) ?_ ?_ ?_
      · simpa [parkedBy] using hparked
      · simpa [answersTo] using hanswers
      · simpa [receivedBy] using hreceived
  | pastUnanswered hphase => simp at hphase
  | pastAnswered hphase => simp at hphase

/-- A waiting exchange is answered. -/
theorem Tracks.answer {p : LinkProposal} (h : Tracks history e (.waiting p .unanswered))
    (d : LinkDecision) :
    Tracks (history ++ [.answered p e d]) e (.waiting p (.sent d)) := by
  cases h with
  | early hphase => simp at hphase
  | waiting _ hparked hanswers hreceived =>
      refine .sent ?_ ?_ ?_
      · simpa [parkedBy] using hparked
      · simpa [answersTo] using hanswers
      · simpa [receivedBy] using hreceived
  | pastUnanswered hphase => simp at hphase
  | pastAnswered hphase => simp at hphase

/-- An exchange receives the decision in its channel. -/
theorem Tracks.receive {p : LinkProposal} {d : LinkDecision}
    (h : Tracks history e (.waiting p (.sent d))) :
    Tracks (history ++ [.received e d]) e .concluding := by
  cases h with
  | early hphase => simp at hphase
  | waiting hchannel => simp at hchannel
  | sent hparked hanswers hreceived =>
      have hparked' : parkedBy (history ++ [.received e d]) e = [p] := by
        simpa [parkedBy] using hparked
      have hanswers' : answersTo (history ++ [.received e d]) e = [(p, d)] := by
        simpa [answersTo] using hanswers
      have hreceived' : receivedBy (history ++ [.received e d]) e = [d] := by
        simpa [receivedBy] using hreceived
      exact .pastAnswered (.inl rfl) hparked' hanswers' hreceived'
  | pastUnanswered hphase => simp at hphase
  | pastAnswered hphase => simp at hphase

/-- Closing the channel of a waiting exchange tells nothing about it. -/
theorem Tracks.dropSender {phases : ℕ → ExchangePhase} (h : Tracks history e (phases e))
    (parked? : Option Parked) : Tracks history e (LinkServing.dropSender phases parked? e) := by
  rcases dropSender_cases phases parked? e with heq | ⟨p, hwait, -, heq⟩
  · rw [heq]
    exact h
  · rw [heq]
    rw [hwait] at h
    cases h with
    | early hphase => simp at hphase
    | waiting _ hparked hanswers hreceived =>
        exact .waiting (.inr rfl) hparked hanswers hreceived
    | pastUnanswered hphase => simp at hphase
    | pastAnswered hphase => simp at hphase

/-- One exchange moves on, and the event is about no other. -/
theorem tracks_update {phases : ℕ → ExchangePhase} {phase : ExchangePhase}
    (h : ∀ e, Tracks history e (phases e)) (hself : Tracks (history ++ [event]) e phase)
    (hothers : ∀ e', e' ≠ e → Unrelated e' event) (e' : ℕ) :
    Tracks (history ++ [event]) e' (Function.update phases e phase e') := by
  by_cases he : e' = e
  · subst he
    rwa [Function.update_self]
  · rw [Function.update_of_ne he]
    exact (h e').concat (hothers e' he)

/-! ### What every step keeps -/

/-- The exchange is past its decision. -/
def Past (s : LinkServing) (e : ℕ) : Prop :=
  s.phases e = .concluding ∨ s.phases e = .left

/-- What holds along every run: what is known of each exchange, that a parked decision is
one its exchange waits for or no longer needs, and who took which invite. -/
structure Consistent (history : List InviteEvent) (s : LinkServing) : Prop where
  absent : ∀ e, s.served ≤ e → s.phases e = .absent
  tracks : ∀ e, Tracks history e (s.phases e)
  pending : ∀ parked, s.window.pending = some parked →
    s.phases parked.sender = .waiting parked.proposal .unanswered ∨ s.Past parked.sender
  takers : ∀ n, (takersOf history n).length ≤ 1
  untaken : ∀ n, s.opens < n ∨ n = s.opens ∧ s.window.opened ≠ none → takersOf history n = []

/-- Nothing is known at the start. -/
theorem consistent_start : Consistent [] start where
  absent _ _ := rfl
  tracks _ := .early (.inl rfl) rfl rfl rfl
  pending _ h := by simp [start, LinkInviteState.new] at h
  takers _ := by simp [takersOf]
  untaken _ _ := rfl

section Step

variable {blake3 : Blake3Kdf} {a : InviteAction} {res : InviteEvent × LinkServing}

/-- Only an exchange that took an invite moves. -/
theorem lt_served (h : Consistent history s) (he : s.phases e ≠ .absent) : e < s.served := by
  by_contra hge
  exact he (h.absent e (by omega))

/-- Moving an exchange that took an invite leaves the later ones absent. -/
theorem absent_update {phases : ℕ → ExchangePhase} {served : ℕ} (he : e < served)
    (h : ∀ e', served ≤ e' → phases e' = .absent) (phase : ExchangePhase) :
    ∀ e', served ≤ e' → Function.update phases e phase e' = .absent := by
  intro e' he'
  rw [Function.update_of_ne (by omega)]
  exact h e' he'

/-- Dropping a sender leaves absent exchanges absent. -/
theorem absent_dropSender (h : Consistent history s) (parked? : Option Parked) :
    ∀ e, s.served ≤ e → dropSender s.phases parked? e = .absent := by
  intro e he
  have habsent := h.absent e he
  simp only [dropSender, habsent]

theorem absent_step (h : Consistent history s) (heff : Effect blake3 s a res) :
    ∀ e, res.2.served ≤ e → res.2.phases e = .absent := by
  cases heff with
  | idle => exact h.absent
  | opened => exact h.absent
  | answered hp hphase =>
      exact absent_update (lt_served h (by rw [hphase]; exact nofun)) h.absent _
  | unheard => exact h.absent
  | took =>
      exact absent_update (Nat.lt_succ_self _)
        (fun e' he' => h.absent e' (Nat.le_of_succ_le he')) _
  | unverified hv => exact absent_update (lt_served h (by rw [hv]; exact nofun)) h.absent _
  | parked hv =>
      exact absent_update (lt_served h (by rw [hv]; exact nofun)) (absent_dropSender h _) _
  | received hv => exact absent_update (lt_served h (by rw [hv]; exact nofun)) h.absent _
  | dropped hv => exact absent_update (lt_served h (by rw [hv]; exact nofun)) h.absent _
  | timedOut hv => exact absent_update (lt_served h (by rw [hv]; exact nofun)) h.absent _
  | left hv =>
      exact absent_update (lt_served h (by rw [hv]; exact nofun)) (absent_dropSender h _) _

theorem tracks_step (h : Consistent history s) (heff : Effect blake3 s a res) :
    ∀ e, Tracks (history ++ [res.1]) e (res.2.phases e) := by
  cases heff with
  | idle hidle hevent =>
      intro e
      refine (h.tracks e).concat ?_
      rcases hevent with hevent | hevent
      · simp only [List.mem_cons, List.not_mem_nil, or_false] at hevent
        rcases hevent with rfl | rfl | rfl | rfl <;> trivial
      · rw [hevent]
        trivial
  | opened hp => exact fun e => (h.tracks e).concat trivial
  | @answered d parked p hp hphase =>
      obtain rfl : p = parked.proposal := by
        rcases h.pending parked hp with hwait | hpast | hpast
        · rw [hphase] at hwait
          injection hwait
        · rw [hphase] at hpast
          cases hpast
        · rw [hphase] at hpast
          cases hpast
      have hself := h.tracks parked.sender
      rw [hphase] at hself
      exact tracks_update h.tracks (hself.answer d) fun e' he' => he'.symm
  | unheard hp hphase => exact fun e => (h.tracks e).concat trivial
  | @took reply peer maxFrameSize now invite phase ho hphase =>
      have hself : Tracks (history ++ [.took s.served s.opens]) s.served (s.phases s.served) :=
        (h.tracks s.served).concat trivial
      rw [h.absent s.served le_rfl] at hself
      refine tracks_update h.tracks ?_ fun e' _ => trivial
      rcases hphase with rfl | rfl
      · refine (h.absent s.served le_rfl ▸ h.tracks s.served).conclude ?_ trivial
        rintro _ _ ⟨⟩
      · cases hself with
        | early _ hparked hanswers hreceived =>
            exact .early (.inr ⟨_, rfl⟩) hparked hanswers hreceived
        | pastUnanswered hphase => simp at hphase
        | pastAnswered hphase => simp at hphase
  | @unverified e reason params hv =>
      refine tracks_update h.tracks ((h.tracks e).conclude ?_ trivial) fun e' _ => trivial
      simp [hv]
  | @parked e account params hv =>
      have hself := h.tracks e
      rw [hv] at hself
      exact tracks_update (fun e' => (h.tracks e').dropSender _) (hself.park _)
        fun e' he' => he'.symm
  | @received e p d hv =>
      have hself := h.tracks e
      rw [hv] at hself
      exact tracks_update h.tracks hself.receive fun e' he' => he'.symm
  | @dropped e p hv =>
      refine tracks_update h.tracks ((h.tracks e).conclude ?_ trivial) fun e' _ => trivial
      simp [hv]
  | @timedOut e p hv =>
      refine tracks_update h.tracks ((h.tracks e).conclude ?_ trivial) fun e' _ => trivial
      simp [hv]
  | @left e hv =>
      have hself : Tracks (history ++ [.left e]) e (s.phases e) := (h.tracks e).concat trivial
      rw [hv] at hself
      refine tracks_update (fun e' => (h.tracks e').dropSender _) ?_ fun e' _ => trivial
      cases hself with
      | early hphase => simp at hphase
      | pastUnanswered _ hanswers hreceived =>
          exact .pastUnanswered (.inr rfl) hanswers hreceived
      | pastAnswered _ hparked hanswers hreceived =>
          exact .pastAnswered (.inr rfl) hparked hanswers hreceived

/-- A parked decision stays needed or past when one exchange concludes. -/
theorem pending_conclude (h : Consistent history s) (e : ℕ) :
    ∀ parked, s.window.pending = some parked →
      (s.goto e .concluding).phases parked.sender = .waiting parked.proposal .unanswered ∨
        (s.goto e .concluding).Past parked.sender := by
  intro parked hp
  by_cases he : parked.sender = e
  · exact .inr (.inl (by rw [goto, he]; exact Function.update_self ..))
  · simp only [Past, goto, Function.update_of_ne he]
    exact h.pending parked hp

theorem pending_step (h : Consistent history s) (heff : Effect blake3 s a res) :
    ∀ parked, res.2.window.pending = some parked →
      res.2.phases parked.sender = .waiting parked.proposal .unanswered ∨
        res.2.Past parked.sender := by
  cases heff with
  | idle => exact h.pending
  | opened => exact nofun
  | answered => exact nofun
  | unheard => exact nofun
  | took =>
      intro parked hp
      have hlt : parked.sender < s.served := by
        refine lt_served h ?_
        rcases h.pending parked hp with hwait | hpast | hpast
        · rw [hwait]
          exact nofun
        · rw [hpast]
          exact nofun
        · rw [hpast]
          exact nofun
      simp only [Past, goto, Function.update_of_ne hlt.ne]
      exact h.pending parked hp
  | unverified => exact pending_conclude h _
  | parked hv =>
      intro parked hp
      obtain rfl := Option.some.inj hp
      exact .inl (Function.update_self ..)
  | received => exact pending_conclude h _
  | dropped => exact pending_conclude h _
  | timedOut => exact pending_conclude h _
  | left => exact nofun

/-- Only taking an invite is remembered as such. -/
theorem takersOf_concat (hevent : ∀ e n, event ≠ .took e n) (n : ℕ) :
    takersOf (history ++ [event]) n = takersOf history n := by
  cases event <;> simp_all [takersOf]

/-- Who took which invite, after a step that takes none. -/
theorem takers_concat (h : Consistent history s) (hevent : ∀ e n, event ≠ .took e n)
    {s' : LinkServing} (hopens : s'.opens = s.opens) (hopened : s'.window.opened = s.window.opened) :
    (∀ n, (takersOf (history ++ [event]) n).length ≤ 1) ∧
      ∀ n, s'.opens < n ∨ n = s'.opens ∧ s'.window.opened ≠ none →
        takersOf (history ++ [event]) n = [] := by
  simp only [takersOf_concat hevent, hopens, hopened]
  exact ⟨h.takers, h.untaken⟩

theorem takers_step (h : Consistent history s) (heff : Effect blake3 s a res) :
    (∀ n, (takersOf (history ++ [res.1]) n).length ≤ 1) ∧
      ∀ n, res.2.opens < n ∨ n = res.2.opens ∧ res.2.window.opened ≠ none →
        takersOf (history ++ [res.1]) n = [] := by
  cases heff with
  | idle hidle hevent =>
      refine takers_concat h ?_ rfl rfl
      rintro e n rfl
      simp at hevent
  | opened hp =>
      have hconcat : ∀ n, takersOf (history ++ [.opened (s.opens + 1)]) n = takersOf history n :=
        takersOf_concat nofun
      simp only [hconcat]
      exact ⟨h.takers, fun n hn => h.untaken n (.inl (by omega))⟩
  | answered => exact takers_concat h (by simp) rfl rfl
  | unheard => exact takers_concat h (by simp) rfl rfl
  | took ho =>
      have hnone := h.untaken s.opens (.inr ⟨rfl, by rw [ho]; exact nofun⟩)
      have hconcat : ∀ n, takersOf (history ++ [.took s.served s.opens]) n =
          takersOf history n ++ if s.opens = n then [s.served] else [] := by
        intro n
        by_cases hn : s.opens = n
        · simp [takersOf, hn]
        · simp [takersOf, hn]
      constructor
      · intro n
        rw [hconcat]
        by_cases hn : s.opens = n
        · rw [← hn, hnone, if_pos rfl]
          exact le_rfl
        · rw [if_neg hn, List.append_nil]
          exact h.takers n
      · rintro n (hn | ⟨-, hn⟩)
        · have hlt : s.opens < n := hn
          rw [hconcat, if_neg hlt.ne, List.append_nil]
          exact h.untaken n (.inl hlt)
        · exact absurd rfl hn
  | unverified => exact takers_concat h (by simp) rfl rfl
  | parked => exact takers_concat h (by simp) rfl rfl
  | received => exact takers_concat h (by simp) rfl rfl
  | dropped => exact takers_concat h (by simp) rfl rfl
  | timedOut => exact takers_concat h (by simp) rfl rfl
  | left => exact takers_concat h (by simp) rfl rfl

/-- Every step keeps it. -/
theorem consistent_step (h : Consistent history s) (heff : Effect blake3 s a res) :
    Consistent (history ++ [res.1]) res.2 where
  absent := absent_step h heff
  tracks := tracks_step h heff
  pending := pending_step h heff
  takers := (takers_step h heff).1
  untaken := (takers_step h heff).2

end Step

/-! ### Decisions reach the exchange they were made for -/

/-- The exchange waits for a decision, within its deadline, and has none yet. -/
def Awaiting (s : LinkServing) (e : ℕ) : Prop :=
  ∃ p, s.phases e = .waiting p .unanswered

/-- What the window promises. The decisions the user made for an exchange are those it
received and the one on its way to it; each was made when the exchange's own proposal was
pending; an exchange that waits without a decision on its way has its decision parked; and
an invite is taken by at most one exchange. -/
structure InviteLaw (history : List InviteEvent) (s : LinkServing) : Prop where
  delivered : ∀ e, (answersTo history e).map Prod.snd =
    receivedBy history e ++ inChannel (s.phases e)
  own : ∀ e p d, (p, d) ∈ answersTo history e → parkedBy history e = [p]
  kept : ∀ e p channel, s.phases e = .waiting p channel → (∀ d, channel ≠ .sent d) →
    channel = .unanswered ∧ s.window.pending = some ⟨p, e⟩
  single : ∀ n, (takersOf history n).length ≤ 1

/-- What is known of an exchange says where the decisions made for it are. -/
theorem Tracks.delivered {phase : ExchangePhase} (h : Tracks history e phase) :
    (answersTo history e).map Prod.snd = receivedBy history e ++ inChannel phase ∧
      ∀ p d, (p, d) ∈ answersTo history e → parkedBy history e = [p] := by
  cases h with
  | early hphase hparked hanswers hreceived =>
      rw [hanswers, hreceived]
      rcases hphase with rfl | ⟨params, rfl⟩ <;> simp [inChannel]
  | waiting hchannel hparked hanswers hreceived =>
      rw [hanswers, hreceived]
      rcases hchannel with rfl | rfl <;> simp [inChannel]
  | sent hparked hanswers hreceived =>
      rw [hanswers, hreceived, hparked]
      simp [inChannel, eq_comm]
  | pastUnanswered hphase hanswers hreceived =>
      rw [hanswers, hreceived]
      rcases hphase with rfl | rfl <;> simp [inChannel]
  | pastAnswered hphase hparked hanswers hreceived =>
      rw [hanswers, hreceived, hparked]
      rcases hphase with rfl | rfl <;> simp [inChannel, eq_comm]

/-- Every waiting exchange has its decision parked, or on its way. -/
def Kept (s : LinkServing) : Prop :=
  ∀ e p channel, s.phases e = .waiting p channel → (∀ d, channel ≠ .sent d) →
    channel = .unanswered ∧ s.window.pending = some ⟨p, e⟩

/-- All that can go wrong is a parked decision that is lost. -/
theorem Consistent.inviteLaw_iff_kept (h : Consistent history s) : InviteLaw history s ↔ s.Kept := by
  constructor
  · exact fun hlaw => hlaw.kept
  · exact fun hkept => ⟨fun e => (h.tracks e).delivered.1, fun e => (h.tracks e).delivered.2,
      hkept, h.takers⟩

/-- No exchange parks its proposal or leaves while another one waits for its decision. -/
def Undisturbed (s : LinkServing) (a : InviteAction) : Prop :=
  s.Disturbs a → ∀ e, ¬s.Awaiting e

section Kept

variable {blake3 : Blake3Kdf} {a : InviteAction} {res : InviteEvent × LinkServing}

/-- When nothing is awaited, a dropped sender leaves no exchange waiting in vain. -/
theorem sent_of_dropSender (hkept : s.Kept) (hnone : ∀ e, ¬s.Awaiting e) {parked? : Option Parked}
    {p : LinkProposal} {channel : DecisionChannel}
    (h : dropSender s.phases parked? e = .waiting p channel) : ∃ d, channel = .sent d := by
  by_contra hsent
  rcases dropSender_cases s.phases parked? e with heq | ⟨q, hwait, -⟩
  · rw [heq] at h
    obtain ⟨rfl, -⟩ := hkept e p channel h fun d hd => hsent ⟨d, hd⟩
    exact hnone e ⟨p, h⟩
  · exact hnone e ⟨q, hwait⟩

/-- An exchange that is done leaves the others' decisions where they are. -/
theorem kept_conclude (hkept : s.Kept) (e : ℕ) : (s.goto e .concluding).Kept := by
  intro e' p channel hphase hsent
  have hne : e' ≠ e := by
    rintro rfl
    simp only [goto, Function.update_self] at hphase
    cases hphase
  simp only [goto, Function.update_of_ne hne] at hphase
  exact hkept e' p channel hphase hsent

/-- A step that disturbs nobody keeps every parked decision. -/
theorem kept_step (hkept : s.Kept) (heff : Effect blake3 s a res) (hok : s.Undisturbed a) :
    res.2.Kept := by
  cases heff with
  | idle => exact hkept
  | opened hp =>
      intro e p channel hphase hsent
      obtain ⟨-, hpending⟩ := hkept e p channel hphase hsent
      rw [hp] at hpending
      cases hpending
  | @answered d parked q hp hphase =>
      intro e p channel hwait hsent
      by_cases he : e = parked.sender
      · simp only [goto, he, Function.update_self] at hwait
        injection hwait with _ hchannel
        exact absurd hchannel.symm (hsent d)
      · simp only [goto, Function.update_of_ne he] at hwait
        obtain ⟨-, hpending⟩ := hkept e p channel hwait hsent
        rw [hp] at hpending
        exact absurd (congrArg Parked.sender (Option.some.inj hpending)).symm he
  | @unheard d parked hp hphase =>
      intro e p channel hwait hsent
      obtain ⟨rfl, hpending⟩ := hkept e p channel hwait hsent
      rw [hp] at hpending
      obtain rfl := Option.some.inj hpending
      exact absurd hwait (hphase p)
  | @took reply peer maxFrameSize now invite phase ho hphase =>
      intro e p channel hwait hsent
      by_cases he : e = s.served
      · simp only [goto, he, Function.update_self] at hwait
        rcases hphase with rfl | rfl <;> cases hwait
      · simp only [goto, Function.update_of_ne he] at hwait
        exact hkept e p channel hwait hsent
  | unverified => exact kept_conclude hkept _
  | @parked e account params hv =>
      intro e' p channel hwait hsent
      by_cases he : e' = e
      · simp only [goto, he, Function.update_self] at hwait
        injection hwait with hp hchannel
        exact ⟨hchannel.symm, by rw [he, ← hp]; rfl⟩
      · simp only [goto, Function.update_of_ne he] at hwait
        obtain ⟨d, hd⟩ := sent_of_dropSender hkept (hok ⟨params, hv⟩) hwait
        exact absurd hd (hsent d)
  | received => exact kept_conclude hkept _
  | dropped => exact kept_conclude hkept _
  | timedOut => exact kept_conclude hkept _
  | @left e hv =>
      intro e' p channel hwait hsent
      by_cases he : e' = e
      · simp only [goto, he, Function.update_self] at hwait
        cases hwait
      · simp only [goto, Function.update_of_ne he] at hwait
        obtain ⟨d, hd⟩ := sent_of_dropSender hkept (hok hv) hwait
        exact absurd hd (hsent d)

/-- An exchange whose decision was parked finds its channel closed when the sender goes. -/
theorem closed_of_dropSender (hkept : s.Kept) {p : LinkProposal}
    (h : s.phases e = .waiting p .unanswered) :
    dropSender s.phases s.window.pending e = .waiting p .closed := by
  obtain ⟨-, hpending⟩ := hkept e p .unanswered h nofun
  rw [dropSender, h, hpending]
  exact if_pos rfl

/-- A step that disturbs an exchange loses its parked decision. -/
theorem not_kept_step (hkept : s.Kept) (heff : Effect blake3 s a res) (hok : ¬s.Undisturbed a) :
    ¬res.2.Kept := by
  simp only [Undisturbed, not_forall, not_not] at hok
  obtain ⟨hdisturbs, e', p, hwait⟩ := hok
  intro hkept'
  have hclosed : ∀ e phase, res.2.phases = Function.update
      (dropSender s.phases s.window.pending) e phase → s.phases e ≠ s.phases e' → False := by
    intro e phase hphases hne
    have hphase : res.2.phases e' = .waiting p .closed := by
      rw [hphases, Function.update_of_ne (fun h => hne (by rw [h])), closed_of_dropSender hkept hwait]
    exact absurd (hkept' e' p .closed hphase nofun).1 nofun
  cases heff with
  | idle hidle => exact hidle hdisturbs
  | parked hv => exact hclosed _ _ rfl (by rw [hv, hwait]; exact nofun)
  | left hv => exact hclosed _ _ rfl (by rw [hv, hwait]; exact nofun)
  | _ => exact hdisturbs

end Kept

/-! ### Whole runs -/

section Run

variable (blake3 : Blake3Kdf)

/-- Every run is consistent. -/
theorem consistent_run (acts : List InviteAction) :
    Consistent (run blake3 acts).1 (run blake3 acts).2 :=
  Machine.run_invariant (step blake3) consistent_start
    (fun _ s a h => consistent_step h (effect_step blake3 s a)) acts

/-- Along a run in which nobody is disturbed, every parked decision is kept. -/
theorem kept_of_allows {acts : List InviteAction}
    (h : Machine.Allows (step blake3) Undisturbed start acts) : (run blake3 acts).2.Kept :=
  Machine.run_invariant_of_allows (step blake3) (I := fun _ s => s.Kept)
    (fun _ _ _ hphase => by cases hphase)
    (fun _ s a hok hkept => kept_step hkept (effect_step blake3 s a) hok) h

/-- **Decisions reach the exchange they were made for exactly when nobody is disturbed**: the
window keeps its promise in every state of a run if and only if no exchange parks its
proposal or leaves while another one waits for its decision. -/
theorem inviteLaw_iff (acts : List InviteAction) :
    (∀ before, before <+: acts → InviteLaw (run blake3 before).1 (run blake3 before).2) ↔
      Machine.Allows (step blake3) Undisturbed start acts := by
  constructor
  · intro hlaw
    induction acts using List.reverseRecOn with
    | nil => trivial
    | append_singleton acts a ih =>
        have hacts := ih fun before hbefore => hlaw before (hbefore.trans (List.prefix_append ..))
        refine (Machine.allows_append ..).mpr ⟨hacts, ?_, trivial⟩
        by_contra hok
        have hkept := (hlaw _ List.prefix_rfl).kept
        rw [run, Machine.run_concat] at hkept
        exact not_kept_step (kept_of_allows blake3 hacts) (effect_step blake3 _ a) hok hkept
  · rintro h before ⟨after, rfl⟩
    exact (consistent_run blake3 before).inviteLaw_iff_kept.mpr
      (kept_of_allows blake3 ((Machine.allows_append ..).mp h).1)

end Run

/-! ### Two replies at once -/

namespace TwoReplies

/-- A second invite. -/
def second : Invite :=
  { LinkedPair.invite with inviteId := ⟨LinkedPair.sixteen 0xa2⟩ }

/-- The reply to an invite. -/
def replyTo (invite : Invite) : LinkReply :=
  { LinkedPair.replier.reply ⟨LinkedPair.sixteen 0x22⟩ with inviteId := invite.inviteId }

/-- A reply to an invite arrives in time. -/
def serve (invite : Invite) : InviteAction :=
  .serve (replyTo invite) LinkedPair.exchange.inviterPeer 512 ⟨1010⟩

/-- The user shows a second invite while the first reply is still being verified, and both
replies verify. -/
def actions : List InviteAction :=
  [.openInvite LinkedPair.invite, serve LinkedPair.invite, .openInvite second, serve second,
    .verified 0 (.ok ⟨"i", "bob"⟩), .verified 1 (.ok ⟨"i", "carol"⟩)]

end TwoReplies

/-- The second exchange's proposal takes the place of the first one's, which waits in vain. -/
theorem second_proposal_replaces_first :
    ¬InviteLaw (run LinkedPair.blake3 TwoReplies.actions).1
      (run LinkedPair.blake3 TwoReplies.actions).2 := by
  intro h
  have hphase : ∃ p, (run LinkedPair.blake3 TwoReplies.actions).2.phases 0 =
      .waiting p .closed := ⟨_, rfl⟩
  obtain ⟨p, hphase⟩ := hphase
  exact absurd (h.kept 0 p .closed hphase nofun).1 nofun

end LinkServing

end Tradr
