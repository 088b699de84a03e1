import Tradr.Handshake
import Tradr.LinkExchange
import Tradr.Offer
import Tradr.ReceiveConcurrent

/-!
# The Listener

A device that listens serves up to eight channels at once. On a channel it runs the handshake,
reads an offer, answers it and receives the accepted items one after the other; or it serves
a Browse stream or a link exchange, which place nothing. The paths at which the items were
placed are kept until the handling of the channel ends, and only a handling that ends well
gives them to the arrival callback.

A listener is advanced by what the world gives it: a channel or the end of the listening, and
at each channel whatever the handling waits for there. What a receiving session does to the
store is a step of its own, so that the steps of all channels interleave in any order. Files
that were moved into place are noted when they are moved, calls of the callback when they are
made.

## Main definitions

* `handleIncomingChannel`: one step of the handling of a channel.
* `listenForTransfers`: one step of the listener.
* `Listener.Reported`: every file that was placed is in one call of the callback.
* `Listener.Keeps`: what a step needs for that.

## Main results

* `Receiver.held_step`: which phases of a receiving session have moved their file.
* `Listener.reported_iff`: every file is reported exactly when no channel fails that has placed
  one.
-/

namespace Tradr

open Fallible

/-! ### Handling a channel -/

/-- How far a channel had come when it failed; the items count from one. -/
inductive ChannelPhase
  | beforeStream
  | handshake
  | offer
  | item (ordinal count : ℕ)
  | linkExchange
  deriving DecidableEq, Repr

/-- Why a channel failed. -/
inductive ListenerError
  | transport (e : TransportError)
  | handshake (e : HandshakeError)
  | unexpectedFirstFrame (what : Classification)
  | offer (e : OfferReadError)
  | offerFrame (e : OfferFrameError)
  | acceptValidation (e : TransferAcceptError)
  | itemAcceptance (e : ItemAcceptanceError)
  | transferSession (e : TransferSessionError)
  | vfs (e : VfsError)
  | linkFrame (e : LinkFrameError)
  | linkExchange (e : LinkExchangeError)
  | noInviteOpen

/-- A channel's failure: its peer, how far it had come and why. -/
structure ChannelFailure where
  peer : DeviceId
  phase : ChannelPhase
  error : ListenerError

/-- What the listener is run with: the code outside, the filter on items, whether an invite can
be open, and whether there is an arrival callback. -/
structure ListenerEnv where
  receive : ReceiveEnv
  offers : OfferProto
  itemFilter : Option (OfferItem → Bool)
  linkService : Bool
  onArrival : Bool

/-- What the first frame of a channel led to: a session with the peer's frame size and the
control stream, or a reply to an invite. -/
inductive HandshakeOutcome
  | session (peerMaxFrameSize : UInt32) (controlSend : SendStream)
  | linkReply

/-- The answer to an offer while it is drawn up, item by item. -/
structure Negotiation where
  offer : TransferOffer
  peerMaxFrameSize : UInt32
  controlSend : SendStream
  remaining : List OfferItem
  acceptedItems : List ItemAcceptance
  itemsToReceive : List OfferItem

/-- A transfer under way: the items to come, the number of the current one, and the paths at
which items were placed. -/
structure Transfer where
  transferId : TransferId
  remaining : List OfferItem
  ordinal : ℕ
  totalItems : ℕ
  placedPaths : List RelPath
  negotiatedFrameBound : UInt32
  controlSend : SendStream

/-- Where the handling of a channel waits. -/
inductive ChannelStage (σ H : Type*)
  | handshaking
  | linking
  | offering (peerMaxFrameSize : UInt32) (controlSend : SendStream)
  | browsing
  | negotiating (n : Negotiation)
  | awaitingData (t : Transfer) (item : OfferItem)
  | receiving (t : Transfer) (item : OfferItem) (session : Receiver σ H)
  | removingDir (t : Transfer)
  | closing (outcome : Except ListenerError (List RelPath))
  | ended (outcome : Except ChannelFailure (List RelPath))

/-- A channel that was accepted, with its number. -/
structure IncomingChannel (σ H : Type*) where
  number : ℕ
  peer : DeviceId
  maxFrameSize : UInt32
  stage : ChannelStage σ H

/-- What the world gives a channel where it waits; `go` is an effect of its own. -/
inductive ChannelInput
  | handshake (outcome : Except (ChannelPhase × ListenerError) HandshakeOutcome)
  | offer (res : Except OfferReadError TransferOffer)
  | browse (res : Except TransportError Unit)
  | browsed
  | linked (res : Except LinkExchangeError Unit)
  | data (res : Except TransportError (RecvStream × SendStream))
  | go
  | closed

/-- The progress on an item from its partial file; only a file that is not there will do for
none. -/
def deriveItemResumption (item : OfferItem) (meta? : Except VfsError Metadata) :
    Except VfsError ItemResumption :=
  match meta? with
  | .ok m =>
    let fullChunks := min (m.sizeBytes / referenceChunkSizeBytes) item.chunkCount
    match deriveChunks fullChunks 0 (.new item.itemId item.size) with
    | .error _ => .ok (.new item.itemId item.size)
    | .ok r =>
      if fullChunks < item.chunkCount ∧ m.sizeBytes ≥ item.size then
        match deriveChunk r (item.chunkCount - 1) with
        | .error _ => .ok (.new item.itemId item.size)
        | .ok r => .ok r
      else .ok r
  | .error .notFound => .ok (.new item.itemId item.size)
  | .error e => .error e

/-- The chunk to go on with; one of a complete item is its last. -/
def resumeChunk (item : OfferItem) (resumption : ItemResumption) : ℕ :=
  match resumption.nextChunkRequest 1 with
  | some (chunk, _) => chunk
  | none => item.chunkCount - 1

/-- The answers for all items: when none is accepted, each is declined. -/
def Negotiation.answers (n : Negotiation) : Except ItemAcceptanceError (List ItemAcceptance) :=
  if n.acceptedItems = [] then
    n.offer.items.mapM fun item => ItemAcceptance.new item.itemId false 0 []
  else .ok n.acceptedItems

/-- The frame that answers the offer. -/
def Negotiation.acceptFrame (proto : OfferProto) (n : Negotiation) :
    Except ListenerError (List UInt8) := do
  let answers ← n.answers.mapError .itemAcceptance
  let accept ← (TransferAccept.new n.offer.transferId answers none).mapError .acceptValidation
  (accept.forOffer n.offer).mapError .acceptValidation
  (encodeTransferAcceptFrame proto accept n.peerMaxFrameSize).mapError .offerFrame

/-- What a receiving session is asked for. -/
def Transfer.receiveRequest (t : Transfer) (item : OfferItem) : ReceiveRequest where
  destRelPath := item.relPath
  totalBytes := UInt64.ofNat item.size
  contentHash := item.contentHash
  transferId := t.transferId
  itemId := item.itemId
  maxFrameSize := t.negotiatedFrameBound

/-- Go on with the next item, or end the transfer. -/
def Transfer.next {σ H : Type*} (t : Transfer) : ChannelStage σ H :=
  match t.remaining with
  | [] => .removingDir t
  | item :: rest => .awaitingData { t with remaining := rest, ordinal := t.ordinal + 1 } item

/-- The phase a transfer's failures are reported with. -/
def Transfer.phase (t : Transfer) : ChannelPhase :=
  .item t.ordinal t.totalItems

namespace IncomingChannel

variable {σ H : Type*} (vfs : Vfs σ H) (env : ListenerEnv) (ch : IncomingChannel σ H)

/-- The handling of the channel fails. -/
def fail (phase : ChannelPhase) (error : ListenerError) : ChannelStage σ H :=
  .ended (.error ⟨ch.peer, phase, error⟩)

/-- The first frame was handled, within the deadline or not. -/
def afterHandshake : Except (ChannelPhase × ListenerError) HandshakeOutcome → ChannelStage σ H
  | .error (phase, e) => ch.fail phase e
  | .ok (.session peerMaxFrameSize controlSend) => .offering peerMaxFrameSize controlSend
  | .ok .linkReply => if env.linkService then .linking else ch.fail .linkExchange .noInviteOpen

/-- An offer was read: its items are looked at one by one. -/
def afterOffer (peerMaxFrameSize : UInt32) (controlSend : SendStream) :
    Except OfferReadError TransferOffer → ChannelStage σ H
  | .error e => ch.fail .offer (.offer e)
  | .ok offer => .negotiating ⟨offer, peerMaxFrameSize, controlSend, offer.items, [], []⟩

/-- Answer the offer. -/
def answerOffer (n : Negotiation) : ChannelStage σ H :=
  match n.acceptFrame env.offers with
  | .error e => ch.fail .offer e
  | .ok frame =>
    match n.controlSend.writeAll frame with
    | (.error e, _) => ch.fail .offer (.transport e)
    | (.ok (), controlSend) =>
      Transfer.next {
        transferId := n.offer.transferId
        remaining := n.itemsToReceive
        ordinal := 0
        totalItems := n.itemsToReceive.length
        placedPaths := []
        negotiatedFrameBound := min n.peerMaxFrameSize ch.maxFrameSize
        controlSend }

/-- The filter takes the item. -/
def accepts (item : OfferItem) : Bool :=
  match env.itemFilter with
  | none => true
  | some f => f item

/-- Look at the next item of the offer, or answer it. -/
def negotiate (store : σ) (n : Negotiation) : σ × ChannelStage σ H :=
  match n.remaining with
  | [] => (store, ch.answerOffer env n)
  | item :: rest =>
    if accepts env item then
      let (meta?, store) := vfs.stat store (partialFileRelPath n.offer.transferId item.itemId)
      match deriveItemResumption item meta? with
      | .error e => (store, ch.fail .offer (.vfs e))
      | .ok resumption =>
        match ItemAcceptance.new item.itemId true (resumeChunk item resumption) [] with
        | .error e => (store, ch.fail .offer (.itemAcceptance e))
        | .ok answer =>
          (store, .negotiating { n with
            remaining := rest
            acceptedItems := n.acceptedItems ++ [answer]
            itemsToReceive := n.itemsToReceive ++ [item] })
    else (store, .negotiating { n with remaining := rest })

/-- The data stream of an item was accepted. -/
def afterData (store : σ) (t : Transfer) (item : OfferItem) :
    Except TransportError (RecvStream × SendStream) → ChannelStage σ H
  | .error e => ch.fail t.phase (.transport e)
  | .ok (dataRecv, dataSend) =>
    .receiving t item (Receiver.start store dataRecv dataSend t.controlSend)

/-- One effect of a receiving session, or what follows on its answer. -/
def receive (store : σ) (t : Transfer) (item : OfferItem) (session : Receiver σ H) :
    σ × ChannelStage σ H :=
  match session.phase with
  | .done (.ok placed) =>
    (store, Transfer.next { t with
      placedPaths := t.placedPaths ++ [placed], controlSend := session.controlSend })
  | .done (.error e) => (store, ch.fail t.phase (.transferSession e))
  | _ =>
    let next := (Receiver.step vfs env.receive (t.receiveRequest item)
      { session with store := store }).2
    (next.store, .receiving t item next)

end IncomingChannel

/-- One step of the handling of a channel; what it is not waiting for changes nothing. While it
waits for an offer, a stream of the peer makes it serve Browse. -/
def handleIncomingChannel {σ H : Type*} (vfs : Vfs σ H) (env : ListenerEnv)
    (ch : IncomingChannel σ H) (store : σ) (input : ChannelInput) : σ × ChannelStage σ H :=
  match ch.stage, input with
  | .handshaking, .handshake outcome => (store, ch.afterHandshake env outcome)
  | .linking, .linked res => (store, .closing ((res.mapError .linkExchange).map fun _ => []))
  | .offering peerMaxFrameSize controlSend, .offer res =>
    (store, ch.afterOffer peerMaxFrameSize controlSend res)
  | .offering _ _, .browse (.error e) => (store, ch.fail .offer (.transport e))
  | .offering _ _, .browse (.ok ()) => (store, .browsing)
  | .browsing, .browsed => (store, .closing (.ok []))
  | .negotiating n, .go => ch.negotiate vfs env store n
  | .awaitingData t item, .data res => (store, ch.afterData store t item res)
  | .receiving t item session, .go => ch.receive vfs env store t item session
  | .removingDir t, .go =>
    ((vfs.remove store (partialDirRelPath t.transferId)).2, .closing (.ok t.placedPaths))
  | .closing (.ok placed), .closed => (store, .ended (.ok placed))
  | .closing (.error e), .closed => (store, ch.fail .linkExchange e)
  | stage, _ => (store, stage)

/-! ### The listener -/

/-- Channels handled at once. -/
def maxConcurrentChannels : ℕ := 8

/-- A file that was moved into place: the channel, its peer and the path. -/
structure Placement where
  channel : ℕ
  peer : DeviceId
  path : RelPath
  deriving DecidableEq

/-- A call of the arrival callback, with the channel it is made for. -/
structure Arrival where
  channel : ℕ
  peer : DeviceId
  paths : List RelPath
  deriving DecidableEq

/-- A listener: whether it waits for a channel, how many it has accepted, those in flight, the
error that ended the accepting, and what it has returned. -/
structure Listener (σ H : Type*) where
  store : σ
  pendingAccept : Bool
  accepted : ℕ
  inFlight : List (IncomingChannel σ H)
  acceptErr : Option TransportError
  returned : Option (Except TransportError Unit)
  placements : List Placement
  arrivals : List Arrival

/-- What happens: a channel or an error is accepted, something at one of the channels in flight,
the wait for the last of them ends, or someone else changes the folder. -/
inductive ListenerMove (σ : Type*)
  | accept (res : Except TransportError (DeviceId × UInt32))
  | advance (k : ℕ) (input : ChannelInput)
  | drained
  | outside (store : σ)

/-- The path the next step of a session moves its file to: it is about to rename, and that
works. -/
def Receiver.moves {σ H : Type*} (vfs : Vfs σ H) (req : ReceiveRequest) (w : Receiver σ H) :
    Option RelPath :=
  match w.phase with
  | .renaming _ candidate _ =>
    match (vfs.renameNoReplace w.store (Receiver.partialFile req) candidate).1 with
    | .ok () => some candidate
    | .error _ => none
  | _ => none

/-- The path a channel's next step moves a file to. -/
def IncomingChannel.placing {σ H : Type*} (vfs : Vfs σ H) (ch : IncomingChannel σ H) (store : σ)
    (input : ChannelInput) : Option RelPath :=
  match ch.stage, input with
  | .receiving t item session, .go =>
    Receiver.moves vfs (t.receiveRequest item) { session with store := store }
  | _, _ => none

namespace Listener

variable {σ H : Type*} (vfs : Vfs σ H) (env : ListenerEnv)

/-- A listener that was just started. -/
def start (store : σ) : Listener σ H :=
  ⟨store, true, 0, [], none, none, [], []⟩

/-- The head of the loop: wait for a channel again when there is room for one. -/
def listen (w : Listener σ H) : Listener σ H :=
  if w.acceptErr.isNone ∧ w.inFlight.length < maxConcurrentChannels then
    { w with pendingAccept := true }
  else w

/-- Tell the callback what a channel placed; nothing placed is no arrival, and a failure is
only printed. -/
def reportCompletion (w : Listener σ H) (ch : IncomingChannel σ H) :
    Except ChannelFailure (List RelPath) → Listener σ H
  | .ok placed =>
    if env.onArrival ∧ placed ≠ [] then
      { w with arrivals := w.arrivals ++ [⟨ch.number, ch.peer, placed⟩] }
    else w
  | .error _ => w

/-- Note the file a channel's next step places. -/
def notePlacement (w : Listener σ H) (ch : IncomingChannel σ H) (path : Option RelPath) :
    Listener σ H :=
  { w with placements := w.placements ++ path.toList.map fun path => ⟨ch.number, ch.peer, path⟩ }

/-- A channel in flight has come to another stage; one that has ended is reported. -/
def settle (w : Listener σ H) (k : ℕ) (ch : IncomingChannel σ H) :
    ChannelStage σ H → Listener σ H
  | .ended outcome =>
    (reportCompletion env { w with inFlight := w.inFlight.eraseIdx k } ch outcome).listen
  | stage => { w with inFlight := w.inFlight.set k { ch with stage } }

end Listener

open Listener in
/-- One step of the listener. -/
def listenForTransfers {σ H : Type*} (vfs : Vfs σ H) (env : ListenerEnv) (w : Listener σ H) :
    ListenerMove σ → Unit × Listener σ H
  | .accept res =>
    if w.pendingAccept then
      match res with
      | .ok (peer, maxFrameSize) =>
        ((), Listener.listen { w with
          pendingAccept := false
          accepted := w.accepted + 1
          inFlight := w.inFlight ++ [⟨w.accepted, peer, maxFrameSize, .handshaking⟩] })
      | .error e => ((), { w with pendingAccept := false, acceptErr := some e })
    else ((), w)
  | .advance k input =>
    match w.inFlight[k]? with
    | none => ((), w)
    | some ch =>
      let (store, stage) := handleIncomingChannel vfs env ch w.store input
      ((), settle env ({ w with store }.notePlacement ch (ch.placing vfs w.store input)) k ch stage)
  | .drained =>
    match w.acceptErr with
    | none => ((), w)
    | some e =>
      if w.inFlight = [] then
        ((), { w with returned := some (if e = .closed then .ok () else .error e) })
      else ((), w)
  | .outside store => ((), { w with store })

namespace Listener

variable {σ H : Type*} (vfs : Vfs σ H) (env : ListenerEnv)

/-! ### The property and the condition -/

/-- The paths a channel has placed files at, in order. -/
def placedBy (w : Listener σ H) (number : ℕ) : List RelPath :=
  (w.placements.filter fun p => p.channel = number).map Placement.path

/-- The calls made for a channel. -/
def arrivalsOf (w : Listener σ H) (number : ℕ) : List Arrival :=
  w.arrivals.filter fun a => a.channel = number

/-- The channel is in flight. -/
def Flying (w : Listener σ H) (number : ℕ) : Prop :=
  number ∈ w.inFlight.map IncomingChannel.number

/-- **Every placed file is reported.** The files of a channel that is no longer in flight are
in the one call made for it, which is for its peer and lists nothing else; no call names a
path at which that channel placed nothing; and a listener that has returned left no channel in
flight. There are never more than eight. -/
structure Reported (w : Listener σ H) : Prop where
  once : ∀ p ∈ w.placements, ¬w.Flying p.channel →
    w.arrivalsOf p.channel = [⟨p.channel, p.peer, w.placedBy p.channel⟩]
  placed : ∀ a ∈ w.arrivals, ∀ path ∈ a.paths, ⟨a.channel, a.peer, path⟩ ∈ w.placements
  drained : w.returned.isSome → w.inFlight = []
  bounded : w.inFlight.length ≤ maxConcurrentChannels

/-- On this input the handling of a channel ends without a call: a data stream cannot be
accepted, a receiving session has failed, or there is no callback. -/
def Drops (ch : IncomingChannel σ H) (input : ChannelInput) : Prop :=
  match ch.stage, input with
  | .awaitingData _ _, .data (.error _) => True
  | .receiving _ _ session, .go => ∃ e, session.phase = .done (.error e)
  | .closing _, .closed => env.onArrival = false
  | _, _ => False

/-- What a step needs for placed files to be reported: a channel that drops its list of placed
paths has placed no file. -/
def Keeps (w : Listener σ H) : ListenerMove σ → Prop
  | .advance k input =>
    ∀ ch, w.inFlight[k]? = some ch → Drops env ch input → w.placedBy ch.number = []
  | _ => True

end Listener

/-! ### What a channel has placed -/

/-- The paths a session in this phase has moved its file to; one that cleans up may have moved
it or not. -/
def ReceivePhase.Held {H : Type*} (paths : List RelPath) : ReceivePhase H → Prop
  | .finishing path | .reporting path | .done (.ok path) => paths = [path]
  | .cleaningFile _ | .cleaningDir _ | .done (.error _) => True
  | _ => paths = []

/-- A session holds on to what it has moved. -/
theorem Receiver.held_step {σ H : Type*} (vfs : Vfs σ H) (env : ReceiveEnv) (req : ReceiveRequest)
    {w : Receiver σ H} {paths : List RelPath} (h : w.phase.Held paths) :
    (Receiver.step vfs env req w).2.phase.Held (paths ++ (w.moves vfs req).toList) := by
  unfold Receiver.step Receiver.moves
  cases hphase : w.phase with
  | «renaming» sanitized candidate attempts =>
      rw [hphase] at h
      obtain rfl : paths = [] := h
      obtain ⟨-, ⟨hok, hp⟩ | ⟨e, herr, ⟨why, hp⟩ | hp⟩⟩ :=
        Receiver.stepRenaming_cases vfs req w sanitized candidate attempts
      · dsimp only
        rw [hp, hok]
        rfl
      · dsimp only
        rw [hp]
        trivial
      · dsimp only
        rw [hp, herr]
        rfl
  | finishing candidate =>
      rw [hphase] at h
      obtain ⟨-, ⟨e, -, hp⟩ | ⟨-, hp⟩⟩ := Receiver.stepFinish_cases w (.reporting candidate)
      · dsimp only
        rw [hp]
        trivial
      · dsimp only
        rw [hp, Option.toList_none, List.append_nil]
        exact h
  | reporting candidate =>
      rw [hphase] at h
      obtain ⟨-, ⟨-, why, hp⟩ | ⟨-, hp⟩⟩ :=
        Receiver.stepReport_cases env req w (some candidate) (.done (.ok candidate))
      · dsimp only
        rw [hp]
        trivial
      · dsimp only
        rw [hp, Option.toList_none, List.append_nil]
        exact h
  | done result =>
      dsimp only
      rw [Option.toList_none, List.append_nil]
      exact h
  | creatingDir =>
      rw [hphase] at h
      obtain ⟨-, ⟨e, -, hp⟩ | ⟨-, hp⟩⟩ := Receiver.stepCreatingDir_cases vfs req w
      all_goals
        dsimp only
        rw [hp]
        first | trivial | exact (List.append_nil _).trans h
  | opening =>
      rw [hphase] at h
      obtain ⟨-, ⟨e, -, hp⟩ | ⟨handle, -, hp⟩⟩ := Receiver.stepOpening_cases vfs req w
      all_goals
        dsimp only
        rw [hp]
        first | trivial | exact (List.append_nil _).trans h
  | «deriving» handle =>
      rw [hphase] at h
      exact (List.append_nil _).trans h
  | requesting handle r k =>
      rw [hphase] at h
      obtain ⟨-, ⟨why, hp⟩ | hp | ⟨-, p, hp⟩ | ⟨count, hp⟩⟩ :=
        Receiver.stepRequesting_cases env req w handle r k
      all_goals
        dsimp only
        rw [hp]
        first | trivial | exact (List.append_nil _).trans h
  | receiving r =>
      rw [hphase] at h
      obtain ⟨-, ⟨-, ⟨why, hp⟩ | hp⟩ | ⟨p, -, -, hp⟩⟩ := Receiver.stepReceiving_cases env req w r
      all_goals
        dsimp only
        rw [hp]
        first | trivial | exact (List.append_nil _).trans h
  | storing r header verified =>
      rw [hphase] at h
      obtain ⟨-, ⟨e, -, hp⟩ | ⟨-, hp⟩⟩ := Receiver.stepStoring_cases vfs w r header verified
      all_goals
        dsimp only
        rw [hp]
        first | trivial | exact (List.append_nil _).trans h
  | syncing r header verified =>
      rw [hphase] at h
      obtain ⟨-, ⟨why, hp⟩ | ⟨r', -, hp | hp⟩⟩ := Receiver.stepSyncing_cases vfs w r header verified
      all_goals
        dsimp only
        rw [hp]
        first | trivial | exact (List.append_nil _).trans h
  | probing sanitized candidate counter attempts =>
      rw [hphase] at h
      obtain ⟨-, ⟨why, hp⟩ | hp | ⟨next, hp⟩⟩ :=
        Receiver.stepProbing_cases vfs w sanitized candidate counter attempts
      all_goals
        dsimp only
        rw [hp]
        first | trivial | exact (List.append_nil _).trans h
  | abandoning =>
      rw [hphase] at h
      obtain ⟨-, ⟨e, -, hp⟩ | ⟨-, hp⟩⟩ := Receiver.stepFinish_cases w .reportingFailure
      all_goals
        dsimp only
        rw [hp]
        first | trivial | exact (List.append_nil _).trans h
  | reportingFailure =>
      obtain ⟨-, ⟨-, why, hp⟩ | ⟨-, hp⟩⟩ :=
        Receiver.stepReport_cases env req w none (.cleaningFile .verificationFailed)
      all_goals
        dsimp only
        rw [hp]
        trivial
  | cleaningFile why =>
      obtain ⟨-, ⟨-, hp⟩ | ⟨e, -, -, why', hp⟩⟩ := Receiver.stepCleaningFile_cases vfs req w why
      all_goals
        dsimp only
        rw [hp]
        trivial
  | cleaningDir why =>
      obtain ⟨-, e, hp⟩ := Receiver.stepCleaningDir_cases vfs req w why
      dsimp only
      rw [hp]
      trivial

/-- The paths a channel at this stage has placed files at. -/
def ChannelStage.Holds {σ H : Type*} (paths : List RelPath) : ChannelStage σ H → Prop
  | .awaitingData t _ | .removingDir t => paths = t.placedPaths
  | .receiving t _ session => ∃ held, paths = t.placedPaths ++ held ∧ session.phase.Held held
  | .closing (.ok placed) | .ended (.ok placed) => paths = placed
  | .ended (.error _) => True
  | _ => paths = []

namespace IncomingChannel

variable {σ H : Type*} {vfs : Vfs σ H} {env : ListenerEnv} {ch : IncomingChannel σ H}
  {paths : List RelPath}

/-- The next item starts with what was placed. -/
theorem holds_next {t : Transfer} (h : paths = t.placedPaths) :
    (t.next : ChannelStage σ H).Holds paths := by
  unfold Transfer.next
  split
  · exact h
  · exact h

/-- While the answer to the offer is drawn up nothing is placed. -/
theorem holds_negotiate (store : σ) (n : Negotiation) :
    (ch.negotiate vfs env store n).2.Holds [] := by
  unfold negotiate
  split
  · unfold answerOffer
    split
    · trivial
    · split
      · trivial
      · exact holds_next rfl
  · split_ifs
    · dsimp only
      split
      · trivial
      · split
        · trivial
        · rfl
    · rfl

/-- A session's step, and what follows on its answer. -/
theorem holds_receive {store : σ} {t : Transfer} {item : OfferItem} {session : Receiver σ H}
    (h : (ChannelStage.receiving t item session).Holds paths) :
    (ch.receive vfs env store t item session).2.Holds (paths ++
      (Receiver.moves vfs (t.receiveRequest item) { session with store := store }).toList) := by
  obtain ⟨held, rfl, hheld⟩ := h
  unfold receive
  split
  · rename_i placed hphase
    rw [hphase] at hheld
    obtain rfl : held = [placed] := hheld
    apply holds_next
    rw [Receiver.moves]
    dsimp only
    rw [hphase]
    exact List.append_nil _
  · trivial
  · refine ⟨_, List.append_assoc .., ?_⟩
    exact Receiver.held_step vfs env.receive (t.receiveRequest item)
      (w := { session with store := store }) hheld

theorem holds_afterHandshake (outcome : Except (ChannelPhase × ListenerError) HandshakeOutcome) :
    (ch.afterHandshake env outcome).Holds [] := by
  unfold afterHandshake
  split
  · trivial
  · rfl
  · split_ifs
    · rfl
    · trivial

variable (vfs env) in
/-- **What one step of a channel places it holds on to**, until it fails. -/
theorem holds_handle (h : ch.stage.Holds paths) (store : σ) (input : ChannelInput) :
    (handleIncomingChannel vfs env ch store input).2.Holds
      (paths ++ (ch.placing vfs store input).toList) := by
  have hsame : ∀ {stage : ChannelStage σ H}, stage.Holds paths → stage.Holds (paths ++ []) := by
    intro stage hs
    rwa [List.append_nil]
  obtain ⟨number, peer, limit, stage⟩ := ch
  cases stage with
  | handshaking =>
      cases input with
      | handshake outcome =>
          obtain rfl : paths = [] := h
          exact holds_afterHandshake outcome
      | _ => exact hsame h
  | linking =>
      cases input with
      | linked res =>
          cases res with
          | error e => exact hsame h
          | ok _ => exact hsame h
      | _ => exact hsame h
  | offering peerMaxFrameSize controlSend =>
      cases input with
      | offer res =>
          cases res with
          | error e => trivial
          | ok offer => exact hsame h
      | browse res =>
          cases res with
          | error e => trivial
          | ok _ => exact hsame h
      | _ => exact hsame h
  | browsing =>
      cases input with
      | browsed => exact hsame h
      | _ => exact hsame h
  | negotiating n =>
      cases input with
      | go =>
          obtain rfl : paths = [] := h
          exact holds_negotiate store n
      | _ => exact hsame h
  | awaitingData t item =>
      cases input with
      | data res =>
          cases res with
          | error e => trivial
          | ok streams => exact ⟨[], congrArg (· ++ []) h, rfl⟩
      | _ => exact hsame h
  | receiving t item session =>
      cases input with
      | go => exact holds_receive h
      | _ => exact hsame h
  | removingDir t =>
      cases input with
      | go => exact hsame h
      | _ => exact hsame h
  | closing outcome =>
      cases outcome with
      | error e =>
          cases input with
          | closed => trivial
          | _ => exact hsame h
      | ok placed => cases input <;> exact hsame h
  | ended outcome => exact hsame h

/-- A channel that fails on an input on which it drops nothing has placed nothing. -/
theorem nil_of_failed {store : σ} {input : ChannelInput} {failure : ChannelFailure}
    (h : ch.stage.Holds paths) (hdrops : ¬Listener.Drops env ch input)
    (hnot : ∀ outcome, ch.stage ≠ .ended outcome)
    (hend : (handleIncomingChannel vfs env ch store input).2 = .ended (.error failure)) :
    paths = [] := by
  obtain ⟨number, peer, limit, stage⟩ := ch
  cases stage with
  | handshaking | linking | offering | browsing | negotiating => exact h
  | awaitingData t item =>
      cases input with
      | data res =>
          cases res with
          | error e => exact absurd trivial hdrops
          | ok streams => cases hend
      | _ => cases hend
  | receiving t item session =>
      cases input with
      | go =>
          rw [show handleIncomingChannel vfs env ⟨number, peer, limit, .receiving t item session⟩
            store .go = receive vfs env ⟨number, peer, limit, .receiving t item session⟩ store t
              item session from rfl, receive] at hend
          split at hend
          · unfold Transfer.next at hend
            split at hend <;> cases hend
          · rename_i e hphase
            exact absurd ⟨e, hphase⟩ hdrops
          · cases hend
      | _ => cases hend
  | removingDir t => cases input <;> cases hend
  | closing outcome =>
      cases outcome with
      | error e => exact h
      | ok placed => cases input <;> cases hend
  | ended outcome => exact absurd rfl (hnot outcome)

/-- A channel that ends well on an input on which it drops nothing is reported. -/
theorem callback_of_ended {store : σ} {input : ChannelInput} {placed : List RelPath}
    (hdrops : ¬Listener.Drops env ch input) (hnot : ∀ outcome, ch.stage ≠ .ended outcome)
    (hend : (handleIncomingChannel vfs env ch store input).2 = .ended (.ok placed)) :
    env.onArrival = true := by
  -- Only the wait for the peer's close ends well.
  have hclosing : ∃ outcome, ch.stage = .closing outcome ∧ input = .closed := by
    unfold handleIncomingChannel at hend
    split at hend
    · unfold afterHandshake fail at hend
      split at hend
      · cases hend
      · cases hend
      · split_ifs at hend
        cases hend
    · cases hend
    · unfold afterOffer fail at hend
      split at hend <;> cases hend
    · cases hend
    · cases hend
    · cases hend
    · unfold negotiate answerOffer fail Transfer.next at hend
      repeat' split at hend
      all_goals cases hend
    · unfold afterData fail at hend
      split at hend <;> cases hend
    · unfold receive fail Transfer.next at hend
      repeat' split at hend
      all_goals cases hend
    · cases hend
    · rename_i hstage
      exact ⟨_, hstage, rfl⟩
    · cases hend
    · exact absurd hend (hnot _)
  obtain ⟨outcome, hstage, rfl⟩ := hclosing
  unfold Listener.Drops at hdrops
  rw [hstage] at hdrops
  exact eq_true_of_ne_false hdrops

/-- The step with which a channel ends places nothing. -/
theorem placing_eq_none {store : σ} {input : ChannelInput}
    {outcome : Except ChannelFailure (List RelPath)}
    (hend : (handleIncomingChannel vfs env ch store input).2 = .ended outcome) :
    ch.placing vfs store input = none := by
  unfold placing
  split
  · rename_i t item session hstage
    unfold handleIncomingChannel at hend
    rw [hstage] at hend
    dsimp only at hend
    unfold receive at hend
    unfold Receiver.moves
    dsimp only
    split
    · rename_i hphase
      rw [hphase] at hend
      cases hend
    · rfl
  · rfl

variable (vfs) in
/-- A channel that drops its list ends, with a failure or where there is no callback. -/
theorem ended_of_drops (store : σ) {input : ChannelInput} (hdrops : Listener.Drops env ch input) :
    ∃ outcome, (handleIncomingChannel vfs env ch store input).2 = .ended outcome ∧
      (env.onArrival = true → ∃ failure, outcome = .error failure) := by
  unfold Listener.Drops at hdrops
  unfold handleIncomingChannel
  split at hdrops
  · rename_i t item e hstage
    rw [hstage]
    exact ⟨_, rfl, fun _ => ⟨_, rfl⟩⟩
  · rename_i t item session hstage
    obtain ⟨e, hphase⟩ := hdrops
    rw [hstage]
    dsimp only
    unfold receive
    rw [hphase]
    exact ⟨_, rfl, fun _ => ⟨_, rfl⟩⟩
  · rename_i outcome hstage
    rw [hstage]
    cases outcome with
    | error e => exact ⟨_, rfl, fun _ => ⟨_, rfl⟩⟩
    | ok placed =>
        refine ⟨_, rfl, ?_⟩
        intro hcallback
        rw [hdrops] at hcallback
        cases hcallback
  · exact hdrops.elim

end IncomingChannel

/-! ### Whole runs -/

namespace Listener

variable {σ H : Type*} {vfs : Vfs σ H} {env : ListenerEnv} {w : Listener σ H}

/-- What holds throughout: the channels in flight have numbers of their own, hold what they
have placed and were not reported yet, and everything was done by a channel that was
accepted. -/
structure Inv (w : Listener σ H) : Prop where
  reported : w.Reported
  numbers : (w.inFlight.map IncomingChannel.number).Nodup
  below : ∀ n, w.Flying n → n < w.accepted
  placedBelow : ∀ p ∈ w.placements, p.channel < w.accepted
  calledBelow : ∀ a ∈ w.arrivals, a.channel < w.accepted
  holds : ∀ ch ∈ w.inFlight, ch.stage.Holds (w.placedBy ch.number)
  running : ∀ ch ∈ w.inFlight, ∀ outcome, ch.stage ≠ .ended outcome
  silent : ∀ ch ∈ w.inFlight, w.arrivalsOf ch.number = []
  peers : ∀ ch ∈ w.inFlight, ∀ p ∈ w.placements, p.channel = ch.number → p.peer = ch.peer
  room : w.pendingAccept = true → w.inFlight.length < maxConcurrentChannels
  stopped : w.acceptErr.isSome → w.pendingAccept = false
  returned : w.returned.isSome → w.acceptErr.isSome

/-- The head of the loop keeps everything. -/
theorem inv_listen (h : w.Inv) : w.listen.Inv := by
  unfold listen
  split_ifs with hroom
  · obtain ⟨hnone, hlen⟩ := hroom
    refine ⟨⟨h.reported.once, h.reported.placed, h.reported.drained, h.reported.bounded⟩,
      h.numbers, h.below, h.placedBelow, h.calledBelow, h.holds, h.running, h.silent, h.peers,
      fun _ => hlen, ?_, h.returned⟩
    intro hsome
    rw [Option.isNone_iff_eq_none.mp hnone] at hsome
    cases hsome
  · exact h

theorem flying_append {ch : IncomingChannel σ H} {n : ℕ} :
    n ∈ (w.inFlight ++ [ch]).map IncomingChannel.number ↔ w.Flying n ∨ n = ch.number := by
  rw [List.map_append, List.mem_append]
  exact or_congr Iff.rfl List.mem_singleton

/-- Nothing was placed or reported under a number that is not taken yet. -/
theorem Inv.placedBy_accepted (h : w.Inv) : w.placedBy w.accepted = [] := by
  unfold placedBy
  rw [List.map_eq_nil_iff, List.filter_eq_nil_iff]
  intro p hp
  have := h.placedBelow p hp
  simp only [decide_eq_true_eq]
  omega

theorem Inv.arrivalsOf_accepted (h : w.Inv) : w.arrivalsOf w.accepted = [] := by
  unfold arrivalsOf
  rw [List.filter_eq_nil_iff]
  intro a ha
  have := h.calledBelow a ha
  simp only [decide_eq_true_eq]
  omega

/-- A channel is accepted. -/
theorem inv_accept (h : w.Inv) (hpending : w.pendingAccept = true) (peer : DeviceId)
    (maxFrameSize : UInt32) :
    ({ w with
        pendingAccept := false
        accepted := w.accepted + 1
        inFlight := w.inFlight ++ [⟨w.accepted, peer, maxFrameSize, .handshaking⟩] } :
      Listener σ H).Inv := by
  have hroom := h.room hpending
  have hmem : ∀ ch ∈ w.inFlight ++ [⟨w.accepted, peer, maxFrameSize, .handshaking⟩],
      ch ∈ w.inFlight ∨ ch = ⟨w.accepted, peer, maxFrameSize, .handshaking⟩ := by
    intro ch hch
    rcases List.mem_append.mp hch with hold | hnew
    · exact .inl hold
    · exact .inr (List.mem_singleton.mp hnew)
  constructor
  · refine ⟨?_, h.reported.placed, ?_, ?_⟩
    · intro p hp hflying
      exact h.reported.once p hp fun hf => hflying (flying_append.mpr (.inl hf))
    · intro hreturned
      have := h.stopped (h.returned hreturned)
      rw [hpending] at this
      cases this
    · rw [List.length_append, List.length_singleton]
      exact Nat.succ_le_of_lt hroom
  · rw [List.map_append]
    refine List.nodup_append.mpr ⟨h.numbers, List.nodup_singleton _, ?_⟩
    rintro a ha b hb rfl
    obtain rfl := List.mem_singleton.mp hb
    exact absurd (h.below _ ha) (lt_irrefl _)
  · intro n hn
    rcases flying_append.mp hn with hold | rfl
    · exact Nat.lt_succ_of_lt (h.below n hold)
    · exact Nat.lt_succ_self _
  · exact fun p hp => Nat.lt_succ_of_lt (h.placedBelow p hp)
  · exact fun a ha => Nat.lt_succ_of_lt (h.calledBelow a ha)
  · intro ch hch
    rcases hmem ch hch with hold | rfl
    · exact h.holds ch hold
    · exact h.placedBy_accepted
  · intro ch hch
    rcases hmem ch hch with hold | rfl
    · exact h.running ch hold
    · rintro outcome ⟨⟩
  · intro ch hch
    rcases hmem ch hch with hold | rfl
    · exact h.silent ch hold
    · exact h.arrivalsOf_accepted
  · intro ch hch p hp hchannel
    rcases hmem ch hch with hold | rfl
    · exact h.peers ch hold p hp hchannel
    · exact absurd (h.placedBelow p hp) (hchannel ▸ lt_irrefl _)
  · exact nofun
  · exact fun _ => rfl
  · exact h.returned

/-- A channel in flight is told from the others by its number. -/
theorem eq_of_number {l : List (IncomingChannel σ H)}
    (hnodup : (l.map IncomingChannel.number).Nodup) {a b : IncomingChannel σ H} (ha : a ∈ l)
    (hb : b ∈ l) (h : a.number = b.number) : a = b :=
  List.inj_on_of_nodup_map hnodup ha hb h

section Advance

variable {k : ℕ} {ch : IncomingChannel σ H}

/-- A channel that goes on keeps its number. -/
theorem map_number_set (hk : w.inFlight[k]? = some ch) (stage : ChannelStage σ H) :
    (w.inFlight.set k { ch with stage }).map IncomingChannel.number =
      w.inFlight.map IncomingChannel.number := by
  apply List.ext_getElem?
  intro i
  rw [List.getElem?_map, List.getElem?_map, List.getElem?_set]
  split_ifs with hi hlt
  · subst hi
    rw [hk]
    rfl
  · subst hi
    rw [List.getElem?_eq_none (by omega)]
  · rfl

/-- The channels in flight after one of them went on. -/
theorem mem_set_cases (h : w.Inv) (hk : w.inFlight[k]? = some ch) {stage : ChannelStage σ H}
    {a : IncomingChannel σ H} (ha : a ∈ w.inFlight.set k { ch with stage }) :
    a = { ch with stage } ∨ a ∈ w.inFlight ∧ a.number ≠ ch.number := by
  have hlt : k < w.inFlight.length := (List.getElem?_eq_some_iff.mp hk).1
  by_cases hnumber : a.number = ch.number
  · left
    refine eq_of_number ?_ ha (List.mem_set hlt _) hnumber
    rw [map_number_set hk]
    exact h.numbers
  · right
    refine ⟨?_, hnumber⟩
    rcases List.mem_or_eq_of_mem_set ha with hold | rfl
    · exact hold
    · exact absurd rfl hnumber

/-- The channels in flight after one of them ended. -/
theorem mem_eraseIdx_iff (h : w.Inv) (hk : w.inFlight[k]? = some ch) {a : IncomingChannel σ H} :
    a ∈ w.inFlight.eraseIdx k ↔ a ∈ w.inFlight ∧ a.number ≠ ch.number := by
  obtain ⟨_, hch⟩ := List.getElem?_eq_some_iff.mp hk
  rw [List.mem_eraseIdx_iff_getElem]
  constructor
  · rintro ⟨i, hi, hne, rfl⟩
    refine ⟨List.getElem_mem hi, ?_⟩
    intro hnumber
    apply hne
    refine (List.getElem?_inj (by rwa [List.length_map]) h.numbers).mp ?_
    rw [List.getElem?_map, List.getElem?_map, List.getElem?_eq_getElem hi, hk]
    exact congrArg some hnumber
  · rintro ⟨hmem, hnumber⟩
    obtain ⟨i, hi, rfl⟩ := List.getElem_of_mem hmem
    refine ⟨i, hi, ?_, rfl⟩
    rintro rfl
    exact hnumber (congrArg IncomingChannel.number hch)

/-- The paths placed by a channel after one more file of a channel. -/
theorem placedBy_notePlacement (w : Listener σ H) (ch : IncomingChannel σ H)
    (path : Option RelPath) (n : ℕ) :
    (w.notePlacement ch path).placedBy n =
      w.placedBy n ++ if n = ch.number then path.toList else [] := by
  unfold placedBy notePlacement
  rw [List.filter_append, List.map_append]
  congr 1
  cases path with
  | none =>
      split_ifs
      · rfl
      · rfl
  | some path =>
      by_cases hn : n = ch.number
      · rw [if_pos hn, hn]
        simp
      · rw [if_neg hn]
        simp [Ne.symm hn]

theorem mem_notePlacement {path : Option RelPath} {p : Placement}
    (hp : p ∈ (w.notePlacement ch path).placements) :
    p ∈ w.placements ∨ p.channel = ch.number ∧ p.peer = ch.peer := by
  rcases List.mem_append.mp hp with hold | hnew
  · exact .inl hold
  · obtain ⟨q, -, rfl⟩ := List.mem_map.mp hnew
    exact .inr ⟨rfl, rfl⟩

/-- A channel in flight goes on, and may have placed a file. -/
theorem inv_set (h : w.Inv) (hk : w.inFlight[k]? = some ch) {stage : ChannelStage σ H}
    {path : Option RelPath} (hholds : stage.Holds (w.placedBy ch.number ++ path.toList))
    (hrunning : ∀ outcome, stage ≠ .ended outcome) :
    ({ w.notePlacement ch path with inFlight := w.inFlight.set k { ch with stage } } :
      Listener σ H).Inv := by
  have hch : ch ∈ w.inFlight := List.mem_of_getElem? hk
  have hflying : w.Flying ch.number := List.mem_map_of_mem hch
  have hother : ∀ n, n ≠ ch.number → (w.notePlacement ch path).placedBy n = w.placedBy n := by
    intro n hn
    rw [placedBy_notePlacement, if_neg hn, List.append_nil]
  constructor
  · refine ⟨?_, ?_, ?_, ?_⟩
    · intro p hp hnot
      have hnot' : ¬w.Flying p.channel := by
        intro hf
        apply hnot
        unfold Flying
        rw [map_number_set hk]
        exact hf
      have hne : p.channel ≠ ch.number := by
        intro heq
        exact hnot' (heq ▸ hflying)
      rcases mem_notePlacement hp with hold | ⟨heq, -⟩
      · exact (h.reported.once p hold hnot').trans (by rw [← hother _ hne]; rfl)
      · exact absurd heq hne
    · intro a ha q hq
      exact List.mem_append_left _ (h.reported.placed a ha q hq)
    · intro hreturned
      have hempty := h.reported.drained hreturned
      rw [hempty] at hch
      cases hch
    · rw [List.length_set]
      exact h.reported.bounded
  · rw [map_number_set hk]
    exact h.numbers
  · intro n hn
    unfold Flying at hn
    rw [map_number_set hk] at hn
    exact h.below n hn
  · intro p hp
    rcases mem_notePlacement hp with hold | ⟨heq, -⟩
    · exact h.placedBelow p hold
    · exact heq ▸ h.below ch.number hflying
  · exact h.calledBelow
  · intro a ha
    rcases mem_set_cases h hk ha with rfl | ⟨hmem, hne⟩
    · refine (placedBy_notePlacement w ch path ch.number).symm ▸ ?_
      rw [if_pos rfl]
      exact hholds
    · exact (hother _ hne).symm ▸ h.holds a hmem
  · intro a ha
    rcases mem_set_cases h hk ha with rfl | ⟨hmem, -⟩
    · exact hrunning
    · exact h.running a hmem
  · intro a ha
    rcases mem_set_cases h hk ha with rfl | ⟨hmem, -⟩
    · exact h.silent ch hch
    · exact h.silent a hmem
  · intro a ha p hp hchannel
    rcases mem_set_cases h hk ha with rfl | ⟨hmem, hne⟩
    · rcases mem_notePlacement hp with hold | ⟨-, hpeer⟩
      · exact h.peers ch hch p hold hchannel
      · exact hpeer
    · rcases mem_notePlacement hp with hold | ⟨heq, -⟩
      · exact h.peers a hmem p hold hchannel
      · exact absurd (hchannel.symm.trans heq) hne
  · intro hpending
    rw [List.length_set]
    exact h.room hpending
  · exact h.stopped
  · exact h.returned

/-- The calls made for a channel when it ends: one with all its paths, if it has placed any. -/
def lastCalls (w : Listener σ H) (ch : IncomingChannel σ H) : List Arrival :=
  if w.placedBy ch.number = [] then [] else [⟨ch.number, ch.peer, w.placedBy ch.number⟩]

theorem mem_lastCalls {a : Arrival} (ha : a ∈ w.lastCalls ch) :
    a = ⟨ch.number, ch.peer, w.placedBy ch.number⟩ := by
  unfold lastCalls at ha
  split_ifs at ha
  · cases ha
  · exact List.mem_singleton.mp ha

theorem arrivalsOf_append (n : ℕ) :
    (w.arrivals ++ w.lastCalls ch).filter (fun a => a.channel = n) =
      w.arrivalsOf n ++ if n = ch.number then w.lastCalls ch else [] := by
  rw [List.filter_append]
  congr 1
  split_ifs with hn
  · rw [List.filter_eq_self]
    intro a ha
    rw [mem_lastCalls ha, hn]
    exact decide_eq_true rfl
  · rw [List.filter_eq_nil_iff]
    intro a ha hc
    rw [mem_lastCalls ha] at hc
    exact hn (of_decide_eq_true hc).symm

/-- A channel ends, and its files are reported. -/
theorem inv_end (h : w.Inv) (hk : w.inFlight[k]? = some ch) :
    ({ w with
        inFlight := w.inFlight.eraseIdx k
        arrivals := w.arrivals ++ w.lastCalls ch } : Listener σ H).Inv := by
  have hch : ch ∈ w.inFlight := List.mem_of_getElem? hk
  have hflying : w.Flying ch.number := List.mem_map_of_mem hch
  have hmem : ∀ a ∈ w.inFlight.eraseIdx k, a ∈ w.inFlight ∧ a.number ≠ ch.number :=
    fun a ha => (mem_eraseIdx_iff h hk).mp ha
  have hlen : (w.inFlight.eraseIdx k).length ≤ w.inFlight.length :=
    List.length_eraseIdx_le _ _
  constructor
  · refine ⟨?_, ?_, ?_, hlen.trans h.reported.bounded⟩
    · intro p hp hnot
      refine (arrivalsOf_append p.channel).trans ?_
      by_cases heq : p.channel = ch.number
      · have hne : w.placedBy ch.number ≠ [] := by
          intro hnil
          have : p.path ∈ w.placedBy ch.number :=
            List.mem_map_of_mem (List.mem_filter.mpr ⟨hp, decide_eq_true heq⟩)
          rw [hnil] at this
          cases this
        rw [if_pos heq, heq, h.silent ch hch, List.nil_append, lastCalls, if_neg hne,
          h.peers ch hch p hp heq]
        rfl
      · rw [if_neg heq, List.append_nil]
        refine h.reported.once p hp ?_
        intro hf
        obtain ⟨a, ha, hnumber⟩ := List.mem_map.mp hf
        exact hnot (List.mem_map.mpr
          ⟨a, (mem_eraseIdx_iff h hk).mpr ⟨ha, fun hc => heq (hnumber.symm.trans hc)⟩, hnumber⟩)
    · intro a ha path hpath
      rcases List.mem_append.mp ha with hold | hnew
      · exact h.reported.placed a hold path hpath
      · rw [mem_lastCalls hnew] at hpath ⊢
        obtain ⟨p, hp, rfl⟩ := List.mem_map.mp hpath
        obtain ⟨hp, hchannel⟩ := List.mem_filter.mp hp
        rw [← h.peers ch hch p hp (of_decide_eq_true hchannel), ← of_decide_eq_true hchannel]
        exact hp
    · intro hreturned
      rw [h.reported.drained hreturned] at hch
      cases hch
  · rw [← List.eraseIdx_map]
    exact h.numbers.eraseIdx _
  · intro n hn
    obtain ⟨a, ha, rfl⟩ := List.mem_map.mp hn
    exact h.below _ (List.mem_map_of_mem (hmem a ha).1)
  · exact h.placedBelow
  · intro a ha
    rcases List.mem_append.mp ha with hold | hnew
    · exact h.calledBelow a hold
    · rw [mem_lastCalls hnew]
      exact h.below _ hflying
  · exact fun a ha => h.holds a (hmem a ha).1
  · exact fun a ha => h.running a (hmem a ha).1
  · intro a ha
    refine (arrivalsOf_append a.number).trans ?_
    rw [if_neg (hmem a ha).2, List.append_nil]
    exact h.silent a (hmem a ha).1
  · exact fun a ha => h.peers a (hmem a ha).1
  · exact fun hpending => hlen.trans_lt (h.room hpending)
  · exact h.stopped
  · exact h.returned

/-- What is reported of a channel that ends is what it has placed, unless it drops that. -/
theorem reportCompletion_eq {paths : List RelPath}
    {outcome : Except ChannelFailure (List RelPath)}
    (hok : ∀ placed, outcome = .ok placed → paths = placed ∧ (env.onArrival = true ∨ paths = []))
    (herr : ∀ failure, outcome = .error failure → paths = []) :
    reportCompletion env w ch outcome = { w with
      arrivals := w.arrivals ++
        if paths = [] then [] else [⟨ch.number, ch.peer, paths⟩] } := by
  cases outcome with
  | error failure =>
      rw [if_pos (herr failure rfl), List.append_nil]
      rfl
  | ok placed =>
      obtain ⟨rfl, hcall⟩ := hok placed rfl
      unfold reportCompletion
      dsimp only
      by_cases hnil : paths = []
      · rw [if_neg fun hc => hc.2 hnil, if_pos hnil, List.append_nil]
      · rw [if_pos ⟨hcall.resolve_right hnil, hnil⟩, if_neg hnil]

theorem notePlacement_none (w : Listener σ H) (ch : IncomingChannel σ H) :
    w.notePlacement ch none = w := by
  unfold notePlacement
  rw [Option.toList_none, List.map_nil, List.append_nil]

variable (env) in
/-- A channel that has not ended stays in flight. -/
theorem settle_of_running (w : Listener σ H) (k : ℕ) (ch : IncomingChannel σ H)
    {stage : ChannelStage σ H} (h : ∀ outcome, stage ≠ .ended outcome) :
    settle env w k ch stage = { w with inFlight := w.inFlight.set k { ch with stage } } := by
  unfold settle
  split
  · exact absurd rfl (h _)
  · rfl

/-- **One step of a channel keeps every placed file reported.** -/
theorem inv_advance (h : w.Inv) (hk : w.inFlight[k]? = some ch) {input : ChannelInput}
    (hkeeps : Drops env ch input → w.placedBy ch.number = []) {store : σ}
    {stage : ChannelStage σ H}
    (hres : handleIncomingChannel vfs env ch w.store input = (store, stage)) :
    (settle env (({ w with store := store } : Listener σ H).notePlacement ch
      (ch.placing vfs w.store input)) k ch stage).Inv := by
  have hch : ch ∈ w.inFlight := List.mem_of_getElem? hk
  have hholds := IncomingChannel.holds_handle vfs env (h.holds ch hch) w.store input
  have hstore : ({ w with store := store } : Listener σ H).Inv :=
    ⟨⟨h.reported.once, h.reported.placed, h.reported.drained, h.reported.bounded⟩, h.numbers,
      h.below, h.placedBelow, h.calledBelow, h.holds, h.running, h.silent, h.peers, h.room, h.stopped,
      h.returned⟩
  have hstage : (handleIncomingChannel vfs env ch w.store input).2 = stage := by rw [hres]
  rw [hstage] at hholds
  by_cases hended : ∃ outcome, stage = .ended outcome
  · obtain ⟨outcome, rfl⟩ := hended
    have hnone := IncomingChannel.placing_eq_none hstage
    rw [hnone, Option.toList_none, List.append_nil] at hholds
    have hreport : reportCompletion env
        { w with store := store, inFlight := w.inFlight.eraseIdx k } ch outcome =
        { w with
          store := store
          inFlight := w.inFlight.eraseIdx k
          arrivals := w.arrivals ++ w.lastCalls ch } := by
      apply reportCompletion_eq
      · rintro placed rfl
        refine ⟨hholds, ?_⟩
        by_cases hdrops : Drops env ch input
        · exact .inr (hkeeps hdrops)
        · exact .inl (IncomingChannel.callback_of_ended hdrops (h.running ch hch) hstage)
      · rintro failure rfl
        by_cases hdrops : Drops env ch input
        · exact hkeeps hdrops
        · exact IncomingChannel.nil_of_failed (h.holds ch hch) hdrops (h.running ch hch) hstage
    rw [hnone, notePlacement_none]
    unfold settle
    dsimp only
    rw [hreport]
    exact inv_listen (inv_end hstore hk)
  · have hrunning : ∀ outcome, stage ≠ .ended outcome := fun outcome heq => hended ⟨outcome, heq⟩
    rw [settle_of_running env _ _ _ hrunning]
    exact inv_set hstore hk hholds hrunning

end Advance

/-- **One step of the listener keeps every placed file reported.** -/
theorem inv_step (h : w.Inv) {move : ListenerMove σ} (hkeeps : Keeps env w move) :
    (listenForTransfers vfs env w move).2.Inv := by
  cases move with
  | accept res =>
      unfold listenForTransfers
      dsimp only
      split_ifs with hpending
      · cases res with
        | ok channel => exact inv_listen (inv_accept h hpending channel.1 channel.2)
        | error e =>
            exact ⟨⟨h.reported.once, h.reported.placed, h.reported.drained, h.reported.bounded⟩,
              h.numbers, h.below, h.placedBelow, h.calledBelow, h.holds, h.running, h.silent,
              h.peers, nofun, fun _ => rfl, fun _ => rfl⟩
      · exact h
  | advance k input =>
      unfold listenForTransfers
      dsimp only
      split
      · exact h
      · rename_i ch hk
        rcases hres : handleIncomingChannel vfs env ch w.store input with ⟨store, stage⟩
        exact inv_advance h hk (hkeeps ch hk) hres
  | drained =>
      unfold listenForTransfers
      dsimp only
      split
      · exact h
      · rename_i e herr
        by_cases hempty : w.inFlight = []
        · rw [if_pos hempty]
          exact ⟨⟨h.reported.once, h.reported.placed, fun _ => hempty, h.reported.bounded⟩,
            h.numbers, h.below, h.placedBelow, h.calledBelow, h.holds, h.running, h.silent,
            h.peers, h.room, h.stopped, fun _ => Option.isSome_iff_exists.mpr ⟨e, herr⟩⟩
        · rw [if_neg hempty]
          exact h
  | outside store =>
      exact ⟨⟨h.reported.once, h.reported.placed, h.reported.drained, h.reported.bounded⟩,
        h.numbers, h.below, h.placedBelow, h.calledBelow, h.holds, h.running, h.silent, h.peers,
        h.room, h.stopped, h.returned⟩

/-- Nothing is reported of a channel that drops its list. -/
theorem reportCompletion_of_dropped (w : Listener σ H) (ch : IncomingChannel σ H)
    {outcome : Except ChannelFailure (List RelPath)}
    (h : env.onArrival = true → ∃ failure, outcome = .error failure) :
    reportCompletion env w ch outcome = w := by
  cases outcome with
  | error failure => rfl
  | ok placed =>
      unfold reportCompletion
      dsimp only
      rw [if_neg]
      rintro ⟨hcallback, -⟩
      obtain ⟨failure, hf⟩ := h hcallback
      cases hf

theorem reported_of_listen (h : w.listen.Reported) : w.Reported := by
  unfold listen at h
  split_ifs at h
  · exact ⟨h.once, h.placed, h.drained, h.bounded⟩
  · exact h

/-- A step that drops a list of placed paths leaves a file that is in no call. -/
theorem not_reported_of_not_keeps (h : w.Inv) {move : ListenerMove σ}
    (hkeeps : ¬Keeps env w move) : ¬(listenForTransfers vfs env w move).2.Reported := by
  cases move with
  | accept res => exact absurd trivial hkeeps
  | drained => exact absurd trivial hkeeps
  | outside store => exact absurd trivial hkeeps
  | advance k input =>
      unfold Keeps at hkeeps
      push Not at hkeeps
      obtain ⟨ch, hk, hdrops, hne⟩ := hkeeps
      have hch : ch ∈ w.inFlight := List.mem_of_getElem? hk
      obtain ⟨outcome, hend, hfailed⟩ := IncomingChannel.ended_of_drops vfs w.store hdrops
      unfold listenForTransfers
      dsimp only
      rw [hk]
      dsimp only
      rw [hend, IncomingChannel.placing_eq_none hend, notePlacement_none]
      unfold settle
      dsimp only
      rw [reportCompletion_of_dropped _ _ hfailed]
      intro hreported
      obtain ⟨path, hpath⟩ := List.exists_mem_of_ne_nil _ hne
      obtain ⟨p, hp, rfl⟩ := List.mem_map.mp hpath
      obtain ⟨hp, hchannel⟩ := List.mem_filter.mp hp
      have hchannel := of_decide_eq_true hchannel
      have hcall := (reported_of_listen hreported).once p hp ?_
      · rw [hchannel] at hcall
        have hsilent := h.silent ch hch
        rw [show w.arrivalsOf ch.number = _ from hcall] at hsilent
        cases hsilent
      · intro hflying
        obtain ⟨a, ha, hnumber⟩ := List.mem_map.mp hflying
        exact ((mem_eraseIdx_iff h hk).mp ha).2 (hnumber.trans hchannel)

/-- A listener that was just started has placed nothing. -/
theorem inv_start (store : σ) : (start store : Listener σ H).Inv := by
  refine ⟨⟨?_, ?_, fun _ => rfl, Nat.zero_le _⟩, List.nodup_nil, ?_, ?_, ?_, ?_, ?_, ?_, ?_,
    fun _ => Nat.zero_lt_succ _, ?_, ?_⟩
  · rintro p ⟨⟩
  · rintro a ⟨⟩
  · rintro n ⟨⟩
  · rintro p ⟨⟩
  · rintro a ⟨⟩
  · rintro ch ⟨⟩
  · rintro ch ⟨⟩
  · rintro ch ⟨⟩
  · rintro ch ⟨⟩
  · rintro ⟨⟩
  · rintro ⟨⟩

/-- **Every placed file is reported exactly when no channel fails that has placed one.** In
every order of what happens at the listener and its channels, under every filter and against
every peer: every file that was moved into place stands in one call for its peer once its
channel is no longer in flight, no call names anything else and none is missing when the
listener returns, if and only if no channel that has placed a file fails to accept the data
stream of a later item, has a receiving session fail, or finds no callback. -/
theorem reported_iff (vfs : Vfs σ H) (env : ListenerEnv) (store : σ)
    (moves : List (ListenerMove σ)) :
    (∀ n, (Machine.run (listenForTransfers vfs env) (start store) (moves.take n)).2.Reported) ↔
      Machine.Allows (listenForTransfers vfs env) (Keeps env) (start store) moves :=
  Machine.forall_take_iff_allows (listenForTransfers vfs env) (fun _ h => h.reported)
    (fun _ _ h hkeeps => inv_step h hkeeps) (fun _ _ h hkeeps => not_reported_of_not_keeps h hkeeps)
    (inv_start store) moves

end Listener

/-! ### A file nobody hears of -/

namespace Listener

namespace TwoItems

/-- The peer. -/
def peer : DeviceId :=
  ⟨.replicate 16 0x2a⟩

/-- A second item, after the two bytes. -/
def second : OfferItem :=
  ⟨⟨"b".toList, by decide⟩, Receivers.otherReq.destRelPath, 2, Receivers.otherReq.contentHash,
    Nat.two_pos⟩

/-- An offer of two items of two bytes each. -/
def offer : TransferOffer where
  transferId := TwoBytes.transferId
  items := [⟨TwoBytes.itemId, TwoBytes.dest, 2, TwoBytes.hash, by decide⟩, second]
  totalBytes := 4
  senderLabel := none
  origin := none
  items_ne_nil := nofun
  nodup := by decide
  total := rfl
  total_lt := by decide

/-- The answer for an item in protobuf. -/
def encodeItemAcceptance (m : WireItemAcceptance) : List UInt8 :=
  TwoBytes.textField 0x0a m.itemId ++ TwoBytes.numberField 0x10 m.accepted.toNat ++
    TwoBytes.numberField 0x18 m.resumeChunk

/-- Protobuf on the messages of this transfer; nothing is read here. -/
def offers : OfferProto where
  encodeOffer _ := []
  decodeOffer _ := none
  encodeAccept m :=
    TwoBytes.textField 0x0a m.transferId ++
      m.items.flatMap fun item => 0x12 :: UInt8.ofNat (encodeItemAcceptance item).length ::
        encodeItemAcceptance item
  decodeAccept _ := none

/-- A listener with a callback that takes every item. -/
def env : ListenerEnv :=
  ⟨TwoBytes.env, offers, none, true, true⟩

/-- Effects of the first channel, one after the other. -/
def effects (n : ℕ) : List (ListenerMove Tree) :=
  List.replicate n (.advance 0 .go)

/-- The peer offers both items and sends the first; then the connection is lost. -/
def moves : List (ListenerMove Tree) :=
  List.flatten [
    [.accept (.ok (peer, 512)), .advance 0 (.handshake (.ok (.session 512 .fresh))),
      .advance 0 (.offer (.ok offer))],
    effects 3, [.advance 0 (.data (.ok (TwoBytes.peer 0, .fresh)))], effects 13,
    [.advance 0 (.data (.error .closed)), .accept (.error .closed), .drained]]

/-- The listener in the end. -/
def last : Listener Tree ℕ :=
  (Machine.run (listenForTransfers PosixVfs.vfs env) (start TwoBytes.tree) moves).2

end TwoItems

open TwoItems in
/-- **A file is placed and never reported.** The first of two items arrives and is moved into
place; the data stream of the second cannot be accepted. The channel fails, the listener ends
and returns, and the callback was never called. -/
theorem placed_file_is_never_reported :
    last.placements = [⟨0, peer, TwoBytes.dest⟩] ∧ last.returned.isSome ∧
      PosixVfs.content last.store TwoBytes.dest = some TwoBytes.whole ∧ last.arrivals = [] ∧
      ¬last.Reported := by
  have hlast : last.placements = [⟨0, peer, TwoBytes.dest⟩] ∧ last.returned.isSome ∧
      PosixVfs.content last.store TwoBytes.dest = some TwoBytes.whole ∧ last.arrivals = [] ∧
      last.inFlight.length = 0 := by
    decide +kernel
  obtain ⟨hplaced, hreturned, hcontent, hcalls, hempty⟩ := hlast
  refine ⟨hplaced, hreturned, hcontent, hcalls, ?_⟩
  intro hreported
  have hnone : ¬last.Flying 0 := by
    unfold Flying
    rw [List.length_eq_zero_iff.mp hempty]
    exact List.not_mem_nil
  have hcall := hreported.once ⟨0, peer, TwoBytes.dest⟩ (by rw [hplaced]; exact List.mem_cons_self)
    hnone
  unfold arrivalsOf at hcall
  rw [hcalls] at hcall
  cases hcall

end Listener

end Tradr
