import Tradr.MuxSafety
import Tradr.Pipe

/-!
# Two Multiplexers on One Link

A dialler and a listener multiplexer joined by two ordered channels of records. Either
side may make any local call at any time; a delivery takes the oldest record a side has
emitted off the wire, decodes it and hands it to the other side's `onFrame`.

Each stream is, in each direction it has, the one-way pipe of `Pipe`: `MuxLink.pipe`
reads it off the history and the state, and every action is one operation of a pipe. The
joint invariant `MuxLink.Inv` holds this for every direction whose receiver has not
latched a refusal.

## Main results

* `MuxLink.Inv.step`: every action keeps the joint invariant.
* `MuxLink.refusals_of_honest_peers`: only the two resource bounds are ever refused.
* `MuxLink.streams_are_faithful_pipes`: reads are prefixes of writes, the end is the end,
  and streams do not interfere.
-/

namespace Tradr

/-! ### The link -/

/-- The records an answer puts on the wire, in order. -/
def MuxResponse.emitted : MuxResponse → List (List UInt8)
  | .wrote (.ok frames) => frames
  | .finished (.ok frame) => [frame]
  | _ => []

/-- Both sides, and the records each has emitted that were not delivered yet. -/
structure MuxLink where
  mux : StreamOpener → Multiplexer
  wire : StreamOpener → List (List UInt8)

/-- What may happen on a link. -/
inductive LinkAction
  | call (side : StreamOpener) (call : MuxCall)
  | deliver (receiver : StreamOpener)

/-- What an action was answered with. -/
inductive LinkEvent
  | called (side : StreamOpener) (call : MuxCall) (response : MuxResponse)
  | delivered (receiver : StreamOpener) (frame : MuxFrame) (result : Except MuxRefusal Unit)
  | garbled (receiver : StreamOpener)
  | idle (receiver : StreamOpener)

/-- The bytes an event adds to what a side has written on a stream. -/
def LinkEvent.written (side : StreamOpener) (s : StreamId) : LinkEvent → List UInt8
  | .called side' (.write s' bytes) (.wrote (.ok _)) =>
    if side' = side ∧ s' = s then bytes else []
  | _ => []

/-- Whether an event is a side's finish of a stream. -/
def LinkEvent.finishes (side : StreamOpener) (s : StreamId) : LinkEvent → Bool
  | .called side' (.finish s') (.finished (.ok _)) => side' = side ∧ s' = s
  | _ => false

/-- The bytes an event adds to what a side has read from a stream. -/
def LinkEvent.taken (side : StreamOpener) (s : StreamId) : LinkEvent → List UInt8
  | .called side' (.read s' _) (.read (.ok (.read bytes))) =>
    if side' = side ∧ s' = s then bytes else []
  | _ => []

/-- Everything a side's `write` has accepted on a stream. -/
def written (es : List LinkEvent) (side : StreamOpener) (s : StreamId) : List UInt8 :=
  es.flatMap (LinkEvent.written side s)

/-- Whether a side has finished a stream. -/
def finishedBy (es : List LinkEvent) (side : StreamOpener) (s : StreamId) : Bool :=
  es.any (LinkEvent.finishes side s)

/-- Everything a side's `read` has returned of a stream. -/
def taken (es : List LinkEvent) (side : StreamOpener) (s : StreamId) : List UInt8 :=
  es.flatMap (LinkEvent.taken side s)

/-- Whether a side may write on a stream: it opened the stream, or the stream carries
bytes both ways. -/
def StreamId.writableBy (s : StreamId) (side : StreamOpener) : Bool :=
  s.openedBy = side || s.isBidirectional

namespace MuxLink

/-- Two new multiplexers with the same sizes, and empty wires. -/
def new (frameSize recordLimit : UInt32) : Except MuxFault MuxLink := do
  let dialler ← Multiplexer.new .dialler frameSize recordLimit
  let listener ← Multiplexer.new .listener frameSize recordLimit
  return ⟨fun
    | .dialler => dialler
    | .listener => listener, fun _ => []⟩

/-- Replace one side's multiplexer. -/
def setMux (l : MuxLink) (side : StreamOpener) (m : Multiplexer) : MuxLink :=
  { l with mux := Function.update l.mux side m }

/-- Replace the records one side has on the wire. -/
def setWire (l : MuxLink) (side : StreamOpener) (records : List (List UInt8)) : MuxLink :=
  { l with wire := Function.update l.wire side records }

/-- One action. -/
def step (l : MuxLink) : LinkAction → LinkEvent × MuxLink
  | .call side c =>
    let (response, m) := (l.mux side).call c
    (.called side c response,
      (l.setMux side m).setWire side (l.wire side ++ response.emitted))
  | .deliver receiver =>
    match l.wire receiver.other with
    | [] => (.idle receiver, l)
    | record :: rest =>
      match decodeMuxFrame (l.mux receiver).recordLimit record with
      | none => (.garbled receiver, l.setWire receiver.other rest)
      | some frame =>
        let (result, m) := (l.mux receiver).onFrame frame
        (.delivered receiver frame result, (l.setWire receiver.other rest).setMux receiver m)

/-- A run of the link. -/
def run (l : MuxLink) (actions : List LinkAction) : List LinkEvent × MuxLink :=
  Machine.run step l actions

/-- The frames a side has in flight. -/
def flight (l : MuxLink) (limit : UInt32) (side : StreamOpener) : List MuxFrame :=
  (l.wire side).filterMap (decodeMuxFrame limit)

/-- A frame as an item of its stream's pipe. -/
def frameItem (f : MuxFrame) : Pipe.Item UInt8 :=
  match f.kind with
  | .data => .data f.payload
  | .fin => .fin

/-- The items of one stream among frames in flight. -/
def itemsOf (s : StreamId) (frames : List MuxFrame) : List (Pipe.Item UInt8) :=
  (frames.filter fun f => f.streamId = s).map frameItem

/-- **The pipe of a stream** in the direction away from `side`. -/
def pipe (l : MuxLink) (limit : UInt32) (es : List LinkEvent) (side : StreamOpener)
    (s : StreamId) : Pipe UInt8 where
  written := written es side s
  closed := finishedBy es side s
  transit := itemsOf s (l.flight limit side)
  buffered := ((l.mux side.other).view s).recvBuf
  ended := ((l.mux side.other).view s).peerFinished
  taken := taken es side.other s

/-! ### The joint invariant -/

/-- One direction while its receiver is open: what is in flight was written on streams
the sender may write and knows; what the sender knows of the receiver's own identifiers
the receiver has issued; and every stream is a pipe. -/
structure Lane (l : MuxLink) (limit : UInt32) (es : List LinkEvent) (side : StreamOpener) :
    Prop where
  flight : ∀ f ∈ l.flight limit side,
    f.streamId.writableBy side = true ∧ (l.mux side).known f.streamId = true
  known : ∀ s, s.openedBy = side.other → (l.mux side).known s = true →
    (l.mux side.other).known s = true
  pipe : ∀ s, s.writableBy side = true → (l.pipe limit es side s).Inv

/-- The joint invariant of both sides, the wires and the history. -/
structure Inv (limit : UInt32) (es : List LinkEvent) (l : MuxLink) : Prop where
  wf : ∀ side, (l.mux side).Wf
  opener : ∀ side, (l.mux side).opener = side
  recordLimit : ∀ side, (l.mux side).recordLimit = limit
  decodes : ∀ side, ∀ record ∈ l.wire side, (decodeMuxFrame limit record).isSome = true
  refusal : ∀ side r, (l.mux side).refusal = some r →
    (∃ s, r = .receiveWindowExceeded s) ∨ r = .tooManyPendingStreams
  closed : ∀ side s, s.writableBy side = true →
    ((l.mux side).view s).localFinished = finishedBy es side s
  lane : ∀ side, (l.mux side.other).refusal = none → l.Lane limit es side
  taken_isPrefixOf : ∀ side s, s.writableBy side = true →
    taken es side.other s <+: written es side s

/-! ### Reading the history -/

theorem written_concat (es : List LinkEvent) (e : LinkEvent) (side : StreamOpener)
    (s : StreamId) : written (es ++ [e]) side s = written es side s ++ e.written side s := by
  simp [written]

theorem finishedBy_concat (es : List LinkEvent) (e : LinkEvent) (side : StreamOpener)
    (s : StreamId) :
    finishedBy (es ++ [e]) side s = (finishedBy es side s || e.finishes side s) := by
  simp [finishedBy]

theorem taken_concat (es : List LinkEvent) (e : LinkEvent) (side : StreamOpener)
    (s : StreamId) : taken (es ++ [e]) side s = taken es side s ++ e.taken side s := by
  simp [taken]

theorem itemsOf_append (s : StreamId) (fs gs : List MuxFrame) :
    itemsOf s (fs ++ gs) = itemsOf s fs ++ itemsOf s gs := by
  simp [itemsOf]

/-- A frame of a stream is the next item of that stream's pipe, and of no other. -/
theorem itemsOf_cons (s : StreamId) (f : MuxFrame) (fs : List MuxFrame) :
    itemsOf s (f :: fs) = if f.streamId = s then frameItem f :: itemsOf s fs else itemsOf s fs := by
  by_cases h : f.streamId = s <;> simp [itemsOf, h]

/-- Chunks of a stream in flight are the chunks of its pipe. -/
theorem itemsOf_data (s : StreamId) (chunks : List (List UInt8)) :
    itemsOf s (chunks.map fun c => ⟨.data, s, c⟩) = chunks.map Pipe.Item.data := by
  induction chunks with
  | nil => rfl
  | cons c chunks ih =>
      rw [List.map_cons, itemsOf_cons, if_pos rfl, ih]
      rfl

/-- Chunks of a stream are nothing in the pipe of another. -/
theorem itemsOf_data_ne {s t : StreamId} (h : s ≠ t) (chunks : List (List UInt8)) :
    itemsOf t (chunks.map fun c => ⟨.data, s, c⟩) = [] := by
  induction chunks with
  | nil => rfl
  | cons c chunks ih =>
      rw [List.map_cons, itemsOf_cons, if_neg h, ih]

/-- A side may write exactly where it does not face a stream the peer opened one way. -/
theorem peerUnidirectional_eq {m : Multiplexer} {side : StreamOpener} (h : m.opener = side)
    (s : StreamId) : m.peerUnidirectional s = !s.writableBy side := by
  simp only [Multiplexer.peerUnidirectional, StreamId.writableBy, h]
  by_cases ho : s.openedBy = side <;> simp [ho]

/-- A side may read exactly where the other may write. -/
theorem ownUnidirectional_eq {m : Multiplexer} {side : StreamOpener} (h : m.opener = side)
    (s : StreamId) : m.ownUnidirectional s = !s.writableBy side.other := by
  simp only [Multiplexer.ownUnidirectional, StreamId.writableBy, h]
  by_cases ho : s.openedBy = side
  · simp [ho]
  · have ho' : s.openedBy = side.other := StreamOpener.ne_iff.mp ho
    simp [ho']

/-! ### A local call -/

/-- What a change on one side by a local call has to respect for the joint invariant to
survive it; `send` and `recv` are its effects on the pipes the side writes and reads. -/
structure LocalChange (m m' : Multiplexer) (limit : UInt32) (side : StreamOpener)
    (e : LinkEvent) (records : List (List UInt8)) : Prop where
  wf : m'.Wf
  opener : m'.opener = side
  recordLimit : m'.recordLimit = limit
  refusal : m'.refusal = m.refusal
  known_mono : ∀ t, m.known t = true → m'.known t = true
  known_peer : ∀ t, t.openedBy = side.other → m'.known t = true → m.known t = true
  emits : ∀ r ∈ records, ∃ f, decodeMuxFrame limit r = some f ∧
    f.streamId.writableBy side = true ∧ m'.known f.streamId = true
  elsewhere : ∀ s, e.written side.other s = [] ∧ e.finishes side.other s = false ∧
    e.taken side.other s = []
  closed : ∀ s, s.writableBy side = true →
    (m'.view s).localFinished = ((m.view s).localFinished || e.finishes side s)
  send : ∀ s, s.writableBy side = true → ∀ p : Pipe UInt8, p.Inv →
    p.closed = (m.view s).localFinished →
    ({ p with
      written := p.written ++ e.written side s
      closed := p.closed || e.finishes side s
      transit := p.transit ++ itemsOf s (records.filterMap (decodeMuxFrame limit)) } :
      Pipe UInt8).Inv
  recv : m.refusal = none → ∀ s, s.writableBy side.other = true → ∀ p : Pipe UInt8, p.Inv →
    p.buffered = (m.view s).recvBuf → p.ended = (m.view s).peerFinished →
    ({ p with
      buffered := (m'.view s).recvBuf
      ended := (m'.view s).peerFinished
      taken := p.taken ++ e.taken side s } : Pipe UInt8).Inv
  frozen : m.refusal ≠ none → ∀ s, e.taken side s = []

/-- **A local change keeps the joint invariant.** -/
theorem Inv.localChange {l : MuxLink} {limit : UInt32} {es : List LinkEvent}
    (h : Inv limit es l) {side : StreamOpener} {m' : Multiplexer} {e : LinkEvent}
    {records : List (List UInt8)}
    (hc : LocalChange (l.mux side) m' limit side e records) :
    Inv limit (es ++ [e]) ((l.setMux side m').setWire side (l.wire side ++ records)) := by
  set l' := (l.setMux side m').setWire side (l.wire side ++ records) with hl'
  have hmux : l'.mux side = m' := by simp [hl', setMux, setWire]
  have hmux' : l'.mux side.other = l.mux side.other := by simp [hl', setMux, setWire]
  have hwire : l'.wire side = l.wire side ++ records := by simp [hl', setMux, setWire]
  have hwire' : l'.wire side.other = l.wire side.other := by simp [hl', setMux, setWire]
  have hflight : l'.flight limit side =
      l.flight limit side ++ records.filterMap (decodeMuxFrame limit) := by
    simp [flight, hwire]
  have hflight' : l'.flight limit side.other = l.flight limit side.other := by
    simp [flight, hwire']
  have hsplit : ∀ {P : StreamOpener → Prop}, P side → P side.other → ∀ x, P x := by
    intro P h1 h2 x
    by_cases hx : x = side
    · exact hx ▸ h1
    · exact (StreamOpener.ne_iff.mp hx) ▸ h2
  have hlane : (l'.mux side.other).refusal = none → l'.Lane limit (es ++ [e]) side := by
    intro hr
    rw [hmux'] at hr
    have hold := h.lane side hr
    refine ⟨?_, ?_, ?_⟩
    · intro f hf
      rw [hflight, List.mem_append] at hf
      rw [hmux]
      rcases hf with hf | hf
      · exact ⟨(hold.flight f hf).1, hc.known_mono _ (hold.flight f hf).2⟩
      · obtain ⟨r, hr, hdec⟩ := List.mem_filterMap.mp hf
        obtain ⟨f', hdec', hw, hk⟩ := hc.emits r hr
        obtain rfl : f' = f := Option.some.inj (hdec'.symm.trans hdec)
        exact ⟨hw, hk⟩
    · intro s hs hk
      rw [hmux] at hk
      rw [hmux']
      exact hold.known s hs (hc.known_peer s hs hk)
    · intro s hs
      have hp := hc.send s hs _ (hold.pipe s hs) (h.closed side s hs).symm
      have heq : l'.pipe limit (es ++ [e]) side s =
          { l.pipe limit es side s with
            written := (l.pipe limit es side s).written ++ e.written side s
            closed := (l.pipe limit es side s).closed || e.finishes side s
            transit := (l.pipe limit es side s).transit ++
              itemsOf s (records.filterMap (decodeMuxFrame limit)) } := by
        simp only [pipe, written_concat, finishedBy_concat, taken_concat, hflight,
          itemsOf_append, hmux', (hc.elsewhere s).2.2, List.append_nil]
      rw [heq]
      exact hp
  have hlane' : (l'.mux side).refusal = none → l'.Lane limit (es ++ [e]) side.other := by
    intro hr
    rw [hmux, hc.refusal] at hr
    have hold := h.lane side.other (by rw [StreamOpener.other_other]; exact hr)
    refine ⟨?_, ?_, ?_⟩
    · intro f hf
      rw [hflight'] at hf
      rw [hmux']
      exact hold.flight f hf
    · intro s hs hk
      rw [hmux'] at hk
      have := hold.known s hs hk
      rw [StreamOpener.other_other] at this ⊢
      rw [hmux]
      exact hc.known_mono s this
    · intro s hs
      have hbuf : (l.pipe limit es side.other s).buffered = ((l.mux side).view s).recvBuf := by
        simp [pipe]
      have hend : (l.pipe limit es side.other s).ended =
          ((l.mux side).view s).peerFinished := by
        simp [pipe]
      have hp := hc.recv hr s hs _ (hold.pipe s hs) hbuf hend
      have heq : l'.pipe limit (es ++ [e]) side.other s =
          { l.pipe limit es side.other s with
            buffered := (m'.view s).recvBuf
            ended := (m'.view s).peerFinished
            taken := (l.pipe limit es side.other s).taken ++ e.taken side s } := by
        simp only [pipe, written_concat, finishedBy_concat, taken_concat, hflight',
          StreamOpener.other_other, hmux, (hc.elsewhere s).1, (hc.elsewhere s).2.1,
          List.append_nil, Bool.or_false]
      rw [heq]
      exact hp
  refine ⟨hsplit ?_ ?_, hsplit ?_ ?_, hsplit ?_ ?_, hsplit ?_ ?_, hsplit ?_ ?_, hsplit ?_ ?_,
    hsplit ?_ ?_, hsplit ?_ ?_⟩
  · rw [hmux]
    exact hc.wf
  · rw [hmux']
    exact h.wf _
  · rw [hmux]
    exact hc.opener
  · rw [hmux']
    exact h.opener _
  · rw [hmux]
    exact hc.recordLimit
  · rw [hmux']
    exact h.recordLimit _
  · intro r hr
    rw [hwire, List.mem_append] at hr
    rcases hr with hr | hr
    · exact h.decodes side r hr
    · obtain ⟨f, hf, -⟩ := hc.emits r hr
      rw [hf]
      rfl
  · rw [hwire']
    exact h.decodes _
  · rw [hmux, hc.refusal]
    exact h.refusal side
  · rw [hmux']
    exact h.refusal _
  · intro s hs
    rw [hmux, finishedBy_concat, ← h.closed side s hs]
    exact hc.closed s hs
  · intro s hs
    rw [hmux', finishedBy_concat, (hc.elsewhere s).2.1, Bool.or_false]
    exact h.closed _ s hs
  · exact hlane
  · rw [StreamOpener.other_other]
    exact hlane'
  · intro s hs
    cases hr : (l'.mux side.other).refusal with
    | none => exact ((hlane hr).pipe s hs).taken_isPrefixOf
    | some r =>
        rw [taken_concat, (hc.elsewhere s).2.2, List.append_nil, written_concat]
        exact (h.taken_isPrefixOf side s hs).trans (List.prefix_append _ _)
  · intro s hs
    cases hr : (l'.mux side).refusal with
    | none => exact ((hlane' hr).pipe s hs).taken_isPrefixOf
    | some r =>
        have hfrozen := hc.frozen (by rw [← hc.refusal, ← hmux, hr]; simp) s
        have hold := h.taken_isPrefixOf side.other s hs
        rw [StreamOpener.other_other] at hold ⊢
        rw [taken_concat, hfrozen, List.append_nil, written_concat, (hc.elsewhere s).1,
          List.append_nil]
        exact hold

/-- Whether an event is silent on a side: it writes, finishes and reads nothing. -/
def Silent (e : LinkEvent) : Prop :=
  ∀ side s, e.written side s = [] ∧ e.finishes side s = false ∧ e.taken side s = []

/-- A change that nothing is written, finished or read by, and no pipe can see. -/
theorem LocalChange.silent {m m' : Multiplexer} {limit : UInt32} {side : StreamOpener}
    {e : LinkEvent} (he : Silent e) (hwf : m'.Wf) (hop : m'.opener = side)
    (hlim : m'.recordLimit = limit) (href : m'.refusal = m.refusal)
    (hmono : ∀ t, m.known t = true → m'.known t = true)
    (hpeer : ∀ t, t.openedBy = side.other → m'.known t = true → m.known t = true)
    (hsend : ∀ s, s.writableBy side = true →
      (m'.view s).localFinished = (m.view s).localFinished)
    (hrecv : ∀ s, s.writableBy side.other = true →
      (m'.view s).recvBuf = (m.view s).recvBuf ∧
        (m'.view s).peerFinished = (m.view s).peerFinished) :
    LocalChange m m' limit side e [] where
  wf := hwf
  opener := hop
  recordLimit := hlim
  refusal := href
  known_mono := hmono
  known_peer := hpeer
  emits r hr := by cases hr
  elsewhere s := he side.other s
  closed s hs := by
    rw [(he side s).2.1, Bool.or_false]
    exact hsend s hs
  send s _ p hp _ := by
    rw [(he side s).1, (he side s).2.1]
    simpa [itemsOf] using hp
  recv _ s hs p hp hbuf hend := by
    rw [(he side s).2.2, (hrecv s hs).1, (hrecv s hs).2, ← hbuf, ← hend]
    simpa using hp
  frozen _ s := (he side s).2.2

/-- A state that does not change at all. -/
theorem LocalChange.refl {m : Multiplexer} {limit : UInt32} {side : StreamOpener}
    {e : LinkEvent} (he : Silent e) (hwf : m.Wf) (hop : m.opener = side)
    (hlim : m.recordLimit = limit) : LocalChange m m limit side e [] :=
  .silent he hwf hop hlim rfl (fun _ h => h) (fun _ _ h => h) (fun _ _ => rfl)
    fun _ _ => ⟨rfl, rfl⟩

/-- An event of one side is silent on the other. -/
theorem silent_other (side : StreamOpener) (c : MuxCall) (r : MuxResponse) (s : StreamId) :
    (LinkEvent.called side c r).written side.other s = [] ∧
      (LinkEvent.called side c r).finishes side.other s = false ∧
      (LinkEvent.called side c r).taken side.other s = [] := by
  refine ⟨?_, ?_, ?_⟩
  · simp only [LinkEvent.written]
    split <;> simp_all
  · simp only [LinkEvent.finishes]
    split <;> simp_all
  · simp only [LinkEvent.taken]
    split <;> simp_all

section Calls

variable {m : Multiplexer} {limit : UInt32} {side : StreamOpener}

/-- The call of a refused side. -/
theorem localChange_refused {r : MuxRefusal} (hr : m.refusal = some r) (hwf : m.Wf)
    (hop : m.opener = side) (hlim : m.recordLimit = limit) (c : MuxCall) :
    LocalChange m (m.call c).2 limit side (.called side c (m.call c).1)
      (m.call c).1.emitted := by
  have hstep := Multiplexer.step_refused hr (.call c)
  simp only [Multiplexer.step, Prod.mk.injEq] at hstep
  rw [hstep.2]
  have hev := hstep.1
  cases c <;> simp only [Multiplexer.refusedEvent, MuxEvent.called.injEq, true_and] at hev <;>
    rw [hev] <;> exact .refl (fun _ _ => ⟨rfl, rfl, rfl⟩) hwf hop hlim

/-- Opening a stream. -/
theorem localChange_allocates {m' : Multiplexer} {s : StreamId} {c : MuxCall}
    (hwf : m.Wf) (hop : m.opener = side) (hlim : m.recordLimit = limit)
    (ha : m.Allocates m' s) (hwf' : m'.Wf) :
    LocalChange m m' limit side (.called side c (.opened (.ok s))) [] := by
  have hview := ha.view_eq hwf.tracked
  refine .silent ?_ hwf' (ha.opener.trans hop) (ha.recordLimit.trans hlim) ha.refusal
    (fun t hk => (ha.known t).mpr (Or.inl hk)) ?_ (fun t _ => by rw [hview])
    (fun t _ => by rw [hview]; exact ⟨rfl, rfl⟩)
  · intro _ _
    cases c <;> exact ⟨rfl, rfl, rfl⟩
  · intro t ht hk
    refine ((ha.known t).mp hk).resolve_right ?_
    rintro rfl
    rw [ha.openedBy, hop] at ht
    exact absurd ht (StreamOpener.ne_other side)

/-- Writing on a stream. -/
theorem localChange_write (hr : m.refusal = none) (hwf : m.Wf) (hop : m.opener = side)
    (hlim : m.recordLimit = limit) (s : StreamId) (bytes : List UInt8) :
    LocalChange m m limit side (.called side (.write s bytes) (.wrote (m.write s bytes)))
      (MuxResponse.wrote (m.write s bytes)).emitted := by
  rcases Multiplexer.write_cases hr hwf.recordLimit s bytes with
    ⟨e, he⟩ | ⟨state, frames, hst, hp, hf, he, chunks, hbytes, hdec⟩
  · rw [he]
    exact .refl (fun _ _ => ⟨rfl, rfl, rfl⟩) hwf hop hlim
  rw [he]
  rw [hlim] at hdec
  have hk := hwf.known_of_stream hst
  have hw : s.writableBy side = true := by
    rw [peerUnidirectional_eq hop] at hp
    simpa using hp
  have hfm : frames.filterMap (decodeMuxFrame limit) = chunks.map fun c => ⟨.data, s, c⟩ := by
    have := congrArg (List.filterMap id) hdec
    simpa [List.filterMap_map, Function.comp_def] using this
  exact {
    wf := hwf
    opener := hop
    recordLimit := hlim
    refusal := rfl
    known_mono := fun _ h => h
    known_peer := fun _ _ h => h
    emits := by
      intro r hr
      have : decodeMuxFrame limit r ∈ frames.map (decodeMuxFrame limit) :=
        List.mem_map_of_mem hr
      rw [hdec] at this
      obtain ⟨c, -, hc⟩ := List.mem_map.mp this
      exact ⟨_, hc.symm, hw, hk⟩
    elsewhere := silent_other side _ _
    closed := fun t _ => by simp [LinkEvent.finishes]
    send := by
      intro t _ p hp hcl
      by_cases hts : s = t
      · subst hts
        rw [Multiplexer.view_of_stream hst, hf] at hcl
        have := hp.write hcl chunks
        simpa [MuxResponse.emitted, hfm, itemsOf_data, LinkEvent.written, LinkEvent.finishes,
          hbytes, hcl] using this
      · simpa [MuxResponse.emitted, hfm, itemsOf_data_ne hts, LinkEvent.written,
          LinkEvent.finishes, hts] using hp
    recv := by
      intro _ t _ p hp hb he
      rw [← hb, ← he]
      simpa [LinkEvent.taken] using hp
    frozen := fun h => absurd hr h }

/-- Finishing a stream. -/
theorem localChange_finish (hr : m.refusal = none) (hwf : m.Wf) (hop : m.opener = side)
    (hlim : m.recordLimit = limit) (s : StreamId) :
    LocalChange m (m.finish s).2 limit side
      (.called side (.finish s) (.finished (m.finish s).1))
      (MuxResponse.finished (m.finish s).1).emitted := by
  rcases Multiplexer.finish_cases hr hwf.recordLimit s with
    ⟨e, he⟩ | ⟨state, frame, hst, hp, hf, hdec, he⟩
  · rw [he]
    exact .refl (fun _ _ => ⟨rfl, rfl, rfl⟩) hwf hop hlim
  rw [he]
  rw [hlim] at hdec
  have hk := hwf.known_of_stream hst
  have hw : s.writableBy side = true := by
    rw [peerUnidirectional_eq hop] at hp
    simpa using hp
  have hview := Multiplexer.view_of_stream hst
  obtain ⟨hbuf, hloc, hpeer⟩ :=
    Multiplexer.view_setStream_settle { state with localFinished := true } hk
  exact {
    wf := hwf.settle hst _ (hwf.buf_le s state hst)
    opener := hop
    recordLimit := hlim
    refusal := rfl
    known_mono := fun _ h => h
    known_peer := fun _ _ h => h
    emits := by
      intro r hr
      rw [MuxResponse.emitted, List.mem_singleton] at hr
      exact ⟨⟨.fin, s, []⟩, hr ▸ hdec, hw, hk⟩
    elsewhere := silent_other side _ _
    closed := by
      intro t _
      by_cases hts : t = s
      · subst hts
        rw [hloc hp]
        simp [LinkEvent.finishes]
      · rw [Multiplexer.view_setStream_ne hts]
        simp [LinkEvent.finishes, Ne.symm hts]
    send := by
      intro t _ p hpi hcl
      by_cases hts : s = t
      · subst hts
        rw [hview, hf] at hcl
        have := hpi.close hcl
        simpa [MuxResponse.emitted, hdec, itemsOf, frameItem, LinkEvent.written,
          LinkEvent.finishes, hcl] using this
      · simpa [MuxResponse.emitted, hdec, itemsOf, LinkEvent.written, LinkEvent.finishes, hts]
          using hpi
    recv := by
      intro _ t ht p hpi hb he
      have hown : m.ownUnidirectional t = false := by
        rw [ownUnidirectional_eq hop, ht]
        rfl
      have hsame : ((m.setStream s (m.settle s { state with localFinished := true })).view
            t).recvBuf = (m.view t).recvBuf ∧
          ((m.setStream s (m.settle s { state with localFinished := true })).view
            t).peerFinished = (m.view t).peerFinished := by
        by_cases hts : t = s
        · subst hts
          rw [hbuf, hpeer hown, hview]
          exact ⟨rfl, rfl⟩
        · rw [Multiplexer.view_setStream_ne hts]
          exact ⟨rfl, rfl⟩
      rw [hsame.1, hsame.2, ← hb, ← he]
      simpa [LinkEvent.taken] using hpi
    frozen := fun h => absurd hr h }

/-- Releasing a stream. -/
theorem localChange_retire (hwf : m.Wf) (hop : m.opener = side)
    (hlim : m.recordLimit = limit) (s : StreamId) :
    LocalChange m (m.retire s) limit side (.called side (.retire s) .retired) [] := by
  rcases Multiplexer.retire_cases m s with he | ⟨state, hr, hst, he⟩
  · rw [he]
    exact .refl (fun _ _ => ⟨rfl, rfl, rfl⟩) hwf hop hlim
  rw [he]
  have hk := hwf.known_of_stream hst
  have hview := Multiplexer.view_of_stream hst
  obtain ⟨hbuf, hloc, hpeer⟩ :=
    Multiplexer.view_setStream_settle { state with released := true } hk
  refine .silent (fun _ _ => ⟨rfl, rfl, rfl⟩) (hwf.settle hst _ (hwf.buf_le s state hst)) hop
    hlim rfl (fun _ h => h) (fun _ _ h => h) ?_ ?_
  · intro t ht
    by_cases hts : t = s
    · subst hts
      rw [hloc (by rw [peerUnidirectional_eq hop, ht]; rfl), hview]
    · rw [Multiplexer.view_setStream_ne hts]
  · intro t ht
    by_cases hts : t = s
    · subst hts
      rw [hbuf, hpeer (by rw [ownUnidirectional_eq hop, ht]; rfl), hview]
      exact ⟨rfl, rfl⟩
    · rw [Multiplexer.view_setStream_ne hts]
      exact ⟨rfl, rfl⟩

/-- Reading from a stream. -/
theorem localChange_read (hr : m.refusal = none) (hwf : m.Wf) (hop : m.opener = side)
    (hlim : m.recordLimit = limit) (s : StreamId) (len : ℕ) :
    LocalChange m (m.read s len).2 limit side
      (.called side (.read s len) (.read (m.read s len).1)) [] := by
  rcases Multiplexer.read_cases hr s len with
    ⟨e, he⟩ | ⟨state, hst, ho, ⟨-, -, he⟩ | ⟨-, -, he⟩ | ⟨-, he⟩⟩
  · rw [he]
    exact .refl (fun _ _ => ⟨rfl, rfl, rfl⟩) hwf hop hlim
  · rw [he]
    exact .refl (fun _ _ => ⟨rfl, rfl, rfl⟩) hwf hop hlim
  · rw [he]
    exact .refl (fun _ _ => ⟨rfl, rfl, rfl⟩) hwf hop hlim
  rw [he]
  have hk := hwf.known_of_stream hst
  have hview := Multiplexer.view_of_stream hst
  obtain ⟨hbuf, hloc, hpeer⟩ :=
    Multiplexer.view_setStream_settle { state with recvBuf := state.recvBuf.drop len } hk
  have hlen : (state.recvBuf.drop len).length ≤ m.receiveWindow := by
    have := hwf.buf_le s state hst
    rw [List.length_drop]
    omega
  exact {
    wf := hwf.settle hst _ hlen
    opener := hop
    recordLimit := hlim
    refusal := rfl
    known_mono := fun _ h => h
    known_peer := fun _ _ h => h
    emits := fun r hr => by cases hr
    elsewhere := silent_other side _ _
    closed := by
      intro t ht
      by_cases hts : t = s
      · subst hts
        rw [hloc (by rw [peerUnidirectional_eq hop, ht]; rfl), hview]
        simp [LinkEvent.finishes]
      · rw [Multiplexer.view_setStream_ne hts]
        simp [LinkEvent.finishes]
    send := by
      intro t _ p hpi _
      simpa [itemsOf, LinkEvent.written, LinkEvent.finishes] using hpi
    recv := by
      intro _ t ht p hpi hb hend
      by_cases hts : t = s
      · subst hts
        rw [hview] at hb hend
        simp only [hbuf, hpeer ho, LinkEvent.taken, true_and, if_true]
        rw [← hb, ← hend]
        exact hpi.take len
      · simp only [Multiplexer.view_setStream_ne hts, ← hb, ← hend]
        simpa [LinkEvent.taken, Ne.symm hts] using hpi
    frozen := fun h => absurd hr h }

/-- **Every local call is a local change.** -/
theorem localChange_call (hwf : m.Wf) (hop : m.opener = side)
    (hlim : m.recordLimit = limit) (c : MuxCall) :
    LocalChange m (m.call c).2 limit side (.called side c (m.call c).1)
      (m.call c).1.emitted := by
  cases hr : m.refusal with
  | some r => exact localChange_refused hr hwf hop hlim c
  | none =>
      cases c with
      | openBidirectional =>
          rcases hwf.openBidirectional hr with he | ⟨s, m', he, ha, hwf'⟩
          · rw [Multiplexer.call, he]
            exact .refl (fun _ _ => ⟨rfl, rfl, rfl⟩) hwf hop hlim
          · rw [Multiplexer.call, he]
            exact localChange_allocates hwf hop hlim ha hwf'
      | openUnidirectional =>
          rcases hwf.openUnidirectional hr with he | ⟨s, m', he, ha, hwf'⟩
          · rw [Multiplexer.call, he]
            exact .refl (fun _ _ => ⟨rfl, rfl, rfl⟩) hwf hop hlim
          · rw [Multiplexer.call, he]
            exact localChange_allocates hwf hop hlim ha hwf'
      | write s bytes => exact localChange_write hr hwf hop hlim s bytes
      | finish s => exact localChange_finish hr hwf hop hlim s
      | retire s => exact localChange_retire hwf hop hlim s
      | read s len => exact localChange_read hr hwf hop hlim s len
      | acceptBidirectional =>
          rw [Multiplexer.call, Multiplexer.acceptBidirectional, if_neg (by simp [hr])]
          exact .silent (fun _ _ => ⟨rfl, rfl, rfl⟩)
            (hwf.dequeue (List.tail_suffix _) (List.suffix_refl _)) hop hlim rfl
            (fun _ h => h) (fun _ _ h => h) (fun _ _ => rfl) (fun _ _ => ⟨rfl, rfl⟩)
      | acceptUnidirectional =>
          rw [Multiplexer.call, Multiplexer.acceptUnidirectional, if_neg (by simp [hr])]
          exact .silent (fun _ _ => ⟨rfl, rfl, rfl⟩)
            (hwf.dequeue (List.suffix_refl _) (List.tail_suffix _)) hop hlim rfl
            (fun _ h => h) (fun _ _ h => h) (fun _ _ => rfl) (fun _ _ => ⟨rfl, rfl⟩)

end Calls

/-! ### A delivery -/

/-- What a change on the receiving side by a delivery has to respect. -/
structure Received (l : MuxLink) (m' : Multiplexer) (limit : UInt32)
    (es : List LinkEvent) (receiver : StreamOpener) (rest : List (List UInt8)) : Prop where
  wf : m'.Wf
  opener : m'.opener = receiver
  recordLimit : m'.recordLimit = limit
  refusal : ∀ r, m'.refusal = some r →
    (∃ s, r = .receiveWindowExceeded s) ∨ r = .tooManyPendingStreams
  known_mono : ∀ t, (l.mux receiver).known t = true → m'.known t = true
  known_peer : (l.mux receiver.other).refusal = none → ∀ t, t.openedBy = receiver.other →
    m'.known t = true → (l.mux receiver.other).known t = true
  closed : ∀ s, s.writableBy receiver = true →
    (m'.view s).localFinished = ((l.mux receiver).view s).localFinished
  lane : m'.refusal = none → (l.mux receiver).refusal = none ∧
    ∀ s, s.writableBy receiver.other = true →
      ({ l.pipe limit es receiver.other s with
        transit := itemsOf s (rest.filterMap (decodeMuxFrame limit))
        buffered := (m'.view s).recvBuf
        ended := (m'.view s).peerFinished } : Pipe UInt8).Inv

/-- **A delivery keeps the joint invariant.** -/
theorem Inv.received {l : MuxLink} {limit : UInt32} {es : List LinkEvent}
    (h : Inv limit es l) {receiver : StreamOpener} {record : List UInt8}
    {rest : List (List UInt8)} (hw : l.wire receiver.other = record :: rest)
    {m' : Multiplexer} {e : LinkEvent} (he : Silent e)
    (hc : l.Received m' limit es receiver rest) :
    Inv limit (es ++ [e]) ((l.setWire receiver.other rest).setMux receiver m') := by
  set l' := (l.setWire receiver.other rest).setMux receiver m' with hl'
  have hmux : l'.mux receiver = m' := by simp [hl', setMux, setWire]
  have hmux' : l'.mux receiver.other = l.mux receiver.other := by simp [hl', setMux, setWire]
  have hwire : l'.wire receiver = l.wire receiver := by simp [hl', setMux, setWire]
  have hwire' : l'.wire receiver.other = rest := by simp [hl', setMux, setWire]
  have hflight : l'.flight limit receiver = l.flight limit receiver := by
    simp [flight, hwire]
  have hflight' : l'.flight limit receiver.other =
      rest.filterMap (decodeMuxFrame limit) := by
    simp [flight, hwire']
  have hsplit : ∀ {P : StreamOpener → Prop}, P receiver → P receiver.other → ∀ x, P x := by
    intro P h1 h2 x
    by_cases hx : x = receiver
    · exact hx ▸ h1
    · exact (StreamOpener.ne_iff.mp hx) ▸ h2
  have hpipes : ∀ side s, written (es ++ [e]) side s = written es side s ∧
      finishedBy (es ++ [e]) side s = finishedBy es side s ∧
      taken (es ++ [e]) side s = taken es side s := by
    intro side s
    rw [written_concat, finishedBy_concat, taken_concat, (he side s).1, (he side s).2.1,
      (he side s).2.2]
    simp
  refine ⟨hsplit ?_ ?_, hsplit ?_ ?_, hsplit ?_ ?_, hsplit ?_ ?_, hsplit ?_ ?_, hsplit ?_ ?_,
    hsplit ?_ ?_, ?_⟩
  · rw [hmux]
    exact hc.wf
  · rw [hmux']
    exact h.wf _
  · rw [hmux]
    exact hc.opener
  · rw [hmux']
    exact h.opener _
  · rw [hmux]
    exact hc.recordLimit
  · rw [hmux']
    exact h.recordLimit _
  · rw [hwire]
    exact h.decodes _
  · intro r hr
    rw [hwire'] at hr
    exact h.decodes receiver.other r (by rw [hw]; exact List.mem_cons_of_mem _ hr)
  · rw [hmux]
    exact hc.refusal
  · rw [hmux']
    exact h.refusal _
  · intro s hs
    rw [hmux, (hpipes receiver s).2.1, hc.closed s hs]
    exact h.closed receiver s hs
  · intro s hs
    rw [hmux', (hpipes receiver.other s).2.1]
    exact h.closed _ s hs
  · intro hr
    rw [hmux'] at hr
    have hold := h.lane receiver hr
    refine ⟨?_, ?_, ?_⟩
    · intro f hf
      rw [hflight] at hf
      rw [hmux]
      exact ⟨(hold.flight f hf).1, hc.known_mono _ (hold.flight f hf).2⟩
    · intro s hs hk
      rw [hmux] at hk
      rw [hmux']
      exact hc.known_peer hr s hs hk
    · intro s hs
      have heq : l'.pipe limit (es ++ [e]) receiver s = l.pipe limit es receiver s := by
        simp only [pipe, (hpipes receiver s).1, (hpipes receiver s).2.1,
          (hpipes receiver.other s).2.2, hflight, hmux']
      rw [heq]
      exact hold.pipe s hs
  · intro hr
    rw [StreamOpener.other_other, hmux] at hr
    obtain ⟨hr₀, hpipe⟩ := hc.lane hr
    have hold := h.lane receiver.other (by rw [StreamOpener.other_other]; exact hr₀)
    refine ⟨?_, ?_, ?_⟩
    · intro f hf
      rw [hflight'] at hf
      rw [hmux']
      refine hold.flight f ?_
      rw [flight, hw, List.filterMap_cons]
      split
      · exact hf
      · exact List.mem_cons_of_mem _ hf
    · intro s hs hk
      rw [hmux'] at hk
      have := hold.known s hs hk
      rw [StreamOpener.other_other] at this ⊢
      rw [hmux]
      exact hc.known_mono s this
    · intro s hs
      have heq : l'.pipe limit (es ++ [e]) receiver.other s =
          { l.pipe limit es receiver.other s with
            transit := itemsOf s (rest.filterMap (decodeMuxFrame limit))
            buffered := (m'.view s).recvBuf
            ended := (m'.view s).peerFinished } := by
        simp only [pipe, (hpipes receiver.other s).1, (hpipes receiver.other s).2.1,
          (hpipes _ s).2.2, hflight', StreamOpener.other_other, hmux]
      rw [heq]
      exact hpipe s hs
  · intro side s hs
    rw [(hpipes side.other s).2.2, (hpipes side s).1]
    exact h.taken_isPrefixOf side s hs

/-- The frame at the head of a lane is admitted: its stream has not ended and is not the
receiver's to write. -/
theorem Lane.head {l : MuxLink} {limit : UInt32} {es : List LinkEvent}
    {receiver : StreamOpener} {record : List UInt8} {rest : List (List UInt8)} {f : MuxFrame}
    (h : l.Lane limit es receiver.other) (hw : l.wire receiver.other = record :: rest)
    (hdec : decodeMuxFrame limit record = some f) :
    f.streamId.writableBy receiver.other = true ∧
      (l.mux receiver.other).known f.streamId = true ∧
      ((l.mux receiver).view f.streamId).peerFinished = false ∧
      (l.pipe limit es receiver.other f.streamId).transit =
        frameItem f :: itemsOf f.streamId (rest.filterMap (decodeMuxFrame limit)) := by
  have hflight : l.flight limit receiver.other =
      f :: rest.filterMap (decodeMuxFrame limit) := by
    simp [MuxLink.flight, hw, hdec]
  obtain ⟨hwr, hk⟩ := h.flight f (by rw [hflight]; exact List.mem_cons_self)
  have htr : (l.pipe limit es receiver.other f.streamId).transit =
      frameItem f :: itemsOf f.streamId (rest.filterMap (decodeMuxFrame limit)) := by
    simp only [MuxLink.pipe, hflight, itemsOf_cons, if_true]
  have hend := (h.pipe f.streamId hwr).not_ended_of_transit htr
  refine ⟨hwr, hk, ?_, htr⟩
  simpa [MuxLink.pipe] using hend

/-- Openings for a frame in flight make known, at the receiver, only identifiers that the
sender knows. -/
theorem known_sender_of_opens {m m' ms : Multiplexer} {s : StreamId} (ho : m.Opens m' s)
    (hs : ms.known s = true) {t : StreamId} (hm : m.known t = true → ms.known t = true)
    (hk : m'.known t = true) : ms.known t = true := by
  cases hkt : m.known t with
  | true => exact hm hkt
  | false =>
      obtain ⟨hsp, hle, -⟩ := ho.known_new t hkt hk
      exact Multiplexer.known_of_le hs hsp hle

section Delivery

variable {l : MuxLink} {limit : UInt32} {es : List LinkEvent} {receiver : StreamOpener}
  {rest : List (List UInt8)} {f : MuxFrame} {m' : Multiplexer}

/-- A frame that one of the two bounds refuses. -/
theorem Inv.received_refuse (h : Inv limit es l)
    (hks : (l.mux receiver.other).known f.streamId = true)
    (ho : (l.mux receiver).Opens m' f.streamId)
    (hs : m' = l.mux receiver ∨ f.streamId.openedBy ≠ (l.mux receiver).opener)
    {r : MuxRefusal} (hr : (∃ s, r = .receiveWindowExceeded s) ∨ r = .tooManyPendingStreams) :
    l.Received (m'.refuse r).2 limit es receiver rest where
  wf := ((h.wf receiver).opens ho hs).refuse r
  opener := ho.opener.trans (h.opener receiver)
  recordLimit := ho.recordLimit.trans (h.recordLimit receiver)
  refusal r' hr' := by
    cases hr'
    exact hr
  known_mono := ho.known_mono
  known_peer hro t ht hk := known_sender_of_opens ho hks ((h.lane receiver hro).known t ht) hk
  closed s _ := congrArg StreamState.localFinished (ho.view_eq (h.wf receiver).tracked s)
  lane hr' := by cases hr'

/-- A frame that is applied: only its own stream changes, by what its pipe says. -/
theorem Inv.received_apply (h : Inv limit es l) (hr : (l.mux receiver).refusal = none)
    (hks : (l.mux receiver.other).known f.streamId = true)
    (hflight : l.flight limit receiver.other = f :: rest.filterMap (decodeMuxFrame limit))
    (ho : (l.mux receiver).Opens m' f.streamId)
    {x : Option StreamState} (hwf : (m'.setStream f.streamId x).Wf)
    (hloc : f.streamId.writableBy receiver = true →
      ((m'.setStream f.streamId x).view f.streamId).localFinished =
        ((l.mux receiver).view f.streamId).localFinished)
    (hpipe : ({ l.pipe limit es receiver.other f.streamId with
        transit := itemsOf f.streamId (rest.filterMap (decodeMuxFrame limit))
        buffered := ((m'.setStream f.streamId x).view f.streamId).recvBuf
        ended := ((m'.setStream f.streamId x).view f.streamId).peerFinished } :
        Pipe UInt8).Inv) :
    l.Received (m'.setStream f.streamId x) limit es receiver rest where
  wf := hwf
  opener := ho.opener.trans (h.opener receiver)
  recordLimit := ho.recordLimit.trans (h.recordLimit receiver)
  refusal r hr' := by
    have : m'.refusal = some r := hr'
    rw [ho.refusal, hr] at this
    cases this
  known_mono := ho.known_mono
  known_peer hro t ht hk := known_sender_of_opens ho hks ((h.lane receiver hro).known t ht) hk
  closed s hws := by
    by_cases hsf : s = f.streamId
    · subst hsf
      exact hloc hws
    · rw [Multiplexer.view_setStream_ne hsf, ho.view_eq (h.wf receiver).tracked]
  lane _ := by
    refine ⟨hr, fun s hws => ?_⟩
    by_cases hsf : s = f.streamId
    · subst hsf
      exact hpipe
    · have hold := (h.lane receiver.other (by rw [StreamOpener.other_other]; exact hr)).pipe s hws
      rw [Multiplexer.view_setStream_ne hsf, ho.view_eq (h.wf receiver).tracked]
      simpa [MuxLink.pipe, hflight, itemsOf_cons, Ne.symm hsf] using hold

end Delivery

/-- **A frame of an honest peer** is applied, or refused by one of the two bounds. -/
theorem Inv.onFrame {l : MuxLink} {limit : UInt32} {es : List LinkEvent}
    (h : Inv limit es l) {receiver : StreamOpener} {record : List UInt8}
    {rest : List (List UInt8)} {f : MuxFrame} (hw : l.wire receiver.other = record :: rest)
    (hdec : decodeMuxFrame limit record = some f) :
    l.Received ((l.mux receiver).onFrame f).2 limit es receiver rest := by
  have hwf := h.wf receiver
  cases hr : (l.mux receiver).refusal with
  | some r =>
      have hsame : ((l.mux receiver).onFrame f).2 = l.mux receiver := by
        simp only [Multiplexer.onFrame, hr]
      rw [hsame]
      exact ⟨hwf, h.opener receiver, h.recordLimit receiver, h.refusal receiver,
        fun _ hk => hk, fun hro t ht hk => (h.lane receiver hro).known t ht hk, fun _ _ => rfl,
        fun hr' => by rw [hr] at hr'; cases hr'⟩
  | none =>
      have hlane := h.lane receiver.other (by rw [StreamOpener.other_other]; exact hr)
      obtain ⟨hwr, hks, hend, htr⟩ := hlane.head hw hdec
      have hpipe := hlane.pipe f.streamId hwr
      have hflight : l.flight limit receiver.other =
          f :: rest.filterMap (decodeMuxFrame limit) := by
        simp [MuxLink.flight, hw, hdec]
      rcases Multiplexer.onFrame_cases hr hwf.marks f with ⟨hst, hk, -⟩ | ⟨hk, hown, -⟩ |
        ⟨m', ho, hs, he⟩ | ⟨m', state, ho, hst, hs, he⟩
      · simp [Multiplexer.view, hst, hk, StreamState.retired] at hend
      · have := hlane.known f.streamId (by rw [StreamOpener.other_other, hown, h.opener]) hks
        rw [StreamOpener.other_other, hk] at this
        cases this
      · rw [he]
        exact h.received_refuse hks ho (Or.inr hs) (Or.inr rfl)
      · have hview : (l.mux receiver).view f.streamId = state := by
          rw [← ho.view_eq hwf.tracked, Multiplexer.view_of_stream hst]
        have hown : m'.ownUnidirectional f.streamId = false := by
          rw [ownUnidirectional_eq (ho.opener.trans (h.opener receiver)), hwr]
          rfl
        have hwf' := hwf.opens ho hs
        have happly := (hwf'.applyFrame hst).1
        rw [hview] at hend
        rw [he]
        simp only [Multiplexer.applyFrame, hown, hend, Bool.false_eq_true, if_false] at happly ⊢
        cases hkind : f.kind with
        | data =>
            simp only [hkind] at happly ⊢
            split
            · exact h.received_refuse hks ho hs (Or.inl ⟨_, rfl⟩)
            · rename_i hlen
              rw [if_neg hlen] at happly
              refine h.received_apply hr hks hflight ho happly ?_ ?_
              · intro _
                rw [Multiplexer.view_of_stream (Multiplexer.streams_setStream_self _ _ _), hview]
              · rw [Multiplexer.view_of_stream (Multiplexer.streams_setStream_self _ _ _)]
                have hitem : frameItem f = .data f.payload := by rw [frameItem, hkind]
                rw [hitem] at htr
                simpa [MuxLink.pipe, hview, hend] using hpipe.arrive_data htr
        | fin =>
            simp only [hkind] at happly ⊢
            obtain ⟨hbuf, hloc, hpeer⟩ := Multiplexer.view_setStream_settle
              { state with peerFinished := true } (hwf'.known_of_stream hst)
            refine h.received_apply hr hks hflight ho happly ?_ ?_
            · intro hws
              rw [hloc (by
                rw [peerUnidirectional_eq (ho.opener.trans (h.opener receiver)), hws]; rfl), hview]
            · rw [hbuf, hpeer hown]
              have hitem : frameItem f = .fin := by rw [frameItem, hkind]
              rw [hitem] at htr
              simpa [MuxLink.pipe, hview] using hpipe.arrive_fin htr

/-! ### Whole runs -/

/-- **Every action keeps the joint invariant.** -/
theorem Inv.step {l : MuxLink} {limit : UInt32} {es : List LinkEvent} (h : Inv limit es l)
    (a : LinkAction) : Inv limit (es ++ [(l.step a).1]) (l.step a).2 := by
  cases a with
  | call side c =>
      exact h.localChange
        (localChange_call (h.wf side) (h.opener side) (h.recordLimit side) c)
  | deliver receiver =>
      simp only [MuxLink.step, h.recordLimit]
      cases hw : l.wire receiver.other with
      | nil =>
          have hidle : LocalChange (l.mux receiver) (l.mux receiver) limit receiver
              (.idle receiver) [] :=
            .refl (fun _ _ => ⟨rfl, rfl, rfl⟩) (h.wf receiver) (h.opener receiver)
              (h.recordLimit receiver)
          simpa [setMux, setWire] using h.localChange hidle
      | cons record rest =>
          have hsome := h.decodes receiver.other record (by rw [hw]; exact List.mem_cons_self)
          obtain ⟨f, hf⟩ := Option.isSome_iff_exists.mp hsome
          simp only [hf]
          exact h.received hw (fun _ _ => ⟨rfl, rfl, rfl⟩) (h.onFrame hw hf)

/-- A new link satisfies the joint invariant. -/
theorem inv_new {frameSize recordLimit : UInt32} {l : MuxLink}
    (h : MuxLink.new frameSize recordLimit = .ok l) : Inv recordLimit [] l := by
  simp only [MuxLink.new, bind, Except.bind] at h
  split at h
  · cases h
  rename_i dialler hd
  split at h
  · cases h
  rename_i listener hl
  cases h
  set l : MuxLink := ⟨fun
    | .dialler => dialler
    | .listener => listener, fun _ => []⟩
  have hmux : ∀ side, Multiplexer.new side frameSize recordLimit = .ok (l.mux side) := by
    intro side
    cases side with
    | dialler => exact hd
    | listener => exact hl
  have hview : ∀ side s, (l.mux side).view s = StreamState.new := by
    intro side s
    have hnone : (l.mux side).streams s = none := (Multiplexer.new_eq_ok (hmux side)).2.2.1 s
    simp [Multiplexer.view, hnone, (Multiplexer.known_new (hmux side)).2 s]
  have hpipe : ∀ side s, l.pipe recordLimit [] side s = Pipe.empty := by
    intro side s
    have hwire : l.wire side = [] := rfl
    simp [pipe, hview, written, taken, finishedBy, flight, itemsOf, Pipe.empty,
      StreamState.new, hwire]
  refine ⟨fun side => Multiplexer.wf_new (hmux side),
    fun side => (Multiplexer.known_new (hmux side)).1,
    fun side => (Multiplexer.new_eq_ok (hmux side)).1, ?_, ?_, ?_, ?_, ?_⟩
  · intro side record hr
    cases hr
  · intro side r hr
    rw [(Multiplexer.new_eq_ok (hmux side)).2.1] at hr
    cases hr
  · intro side s _
    rw [hview]
    rfl
  · intro side _
    refine ⟨?_, ?_, ?_⟩
    · intro f hf
      cases hf
    · intro s _ hk
      rw [(Multiplexer.known_new (hmux side)).2 s] at hk
      cases hk
    · intro s _
      rw [hpipe]
      exact Pipe.inv_empty
  · intro side s _
    exact List.nil_prefix

/-- The joint invariant holds after every run. -/
theorem Inv.run {frameSize recordLimit : UInt32} {l : MuxLink}
    (h : MuxLink.new frameSize recordLimit = .ok l) (actions : List LinkAction) :
    Inv recordLimit (l.run actions).1 (l.run actions).2 :=
  Machine.run_invariant MuxLink.step (inv_new h) (fun _ _ a hI => hI.step a) actions

/-- **Honest multiplexers never kill the channel by a protocol refusal.** Whatever calls
the two sides make and however deliveries interleave with them, a side only ever latches
the receive window or the bound on pending streams, and every record decodes. -/
theorem refusals_of_honest_peers {frameSize recordLimit : UInt32} {l : MuxLink}
    (h : MuxLink.new frameSize recordLimit = .ok l) (actions : List LinkAction)
    (side : StreamOpener) :
    (∀ r, ((l.run actions).2.mux side).refusal = some r →
      (∃ s, r = .receiveWindowExceeded s) ∨ r = .tooManyPendingStreams) ∧
    ∀ record ∈ (l.run actions).2.wire side,
      (decodeMuxFrame recordLimit record).isSome = true :=
  ⟨(Inv.run h actions).refusal side, (Inv.run h actions).decodes side⟩

/-- One byte on one stream, delivered to a peer with a window of one frame. -/
theorem refusals_of_honest_peers_one_byte :
    ∃ l, MuxLink.new 1 6 = .ok l ∧ ∀ r, ((l.run [.call .dialler .openBidirectional,
        .call .dialler (.write ⟨0⟩ [7]), .deliver .listener]).2.mux .listener).refusal = some r →
      (∃ s, r = .receiveWindowExceeded s) ∨ r = .tooManyPendingStreams := by
  have h : MuxLink.new 1 6 = .ok _ := rfl
  exact ⟨_, h, (refusals_of_honest_peers h _ .listener).1⟩

/-- A frame of one stream leaves what can be read from every other stream: the same reads
return the same bytes, and the same reads find the end. -/
theorem read_onFrame_other {m : Multiplexer} (hwf : m.Wf) {f : MuxFrame} {s : StreamId}
    (hs : s ≠ f.streamId) (hr : (m.onFrame f).2.refusal = none) (len : ℕ) (o : ReadOutcome)
    (ho : o ≠ .pending) :
    ((m.onFrame f).2.read s len).1 = .ok o ↔ (m.read s len).1 = .ok o := by
  cases hr₀ : m.refusal with
  | some r =>
      have hsame : (m.onFrame f).2 = m := by simp only [Multiplexer.onFrame, hr₀]
      rw [hsame]
  | none =>
      rcases Multiplexer.onFrame_cases hr₀ hwf.marks f with ⟨-, -, he⟩ | ⟨-, -, he⟩ |
        ⟨m', -, -, he⟩ | ⟨m', state, hopen, hst, -, he⟩
      · rw [he] at hr
        cases hr
      · rw [he] at hr
        cases hr
      · rw [he] at hr
        cases hr
      · obtain ⟨x, hx⟩ := m'.applyFrame_eq_setStream (by rw [← he]; exact hr)
        have hop : (m.onFrame f).2.opener = m.opener := by
          rw [he, hx]
          exact hopen.opener
        have hstr : (m.onFrame f).2.streams s = m'.streams s := by
          rw [he, hx]
          exact Multiplexer.streams_setStream_ne hs x
        by_cases hk : m.known s = m'.known s
        · rw [Multiplexer.read_congr (hr.trans hr₀.symm) hop
            (hstr.trans (hopen.streams_old s hk))]
        · obtain ⟨hm, hm'⟩ := hopen.of_known_ne hk
          have hnone : m.streams s = none := by
            by_contra hsome
            rw [hwf.tracked s hsome] at hm
            cases hm
          rw [(hopen.known_new s hm hm').2.2] at hstr
          constructor
          · intro hread
            simp only [Multiplexer.read, hr, hstr, StreamState.new] at hread
            split at hread
            · cases hread
            · cases hread
              exact absurd rfl ho
          · intro hread
            simp [Multiplexer.read, hr₀, hnone] at hread

/-- **Streams are faithful byte pipes.** In every run and for every stream and direction
it can be written in, the bytes read are a prefix of the bytes accepted; a read that finds
the end does so after the sender finished, with everything read; and a delivery that is
not refused changes nothing that can be read from a stream other than the frame's. -/
theorem streams_are_faithful_pipes {frameSize recordLimit : UInt32} {l : MuxLink}
    (h : MuxLink.new frameSize recordLimit = .ok l) (actions : List LinkAction) :
    (∀ side s, s.writableBy side = true →
      taken (l.run actions).1 side.other s <+: written (l.run actions).1 side s) ∧
    (∀ side s len, (((l.run actions).2.mux side.other).read s len).1 = .ok .finished →
      s.writableBy side = true ∧ finishedBy (l.run actions).1 side s = true ∧
        taken (l.run actions).1 side.other s = written (l.run actions).1 side s) ∧
    (∀ receiver record rest f s, (l.run actions).2.wire receiver.other = record :: rest →
      decodeMuxFrame recordLimit record = some f → s ≠ f.streamId →
      (((l.run actions).2.step (.deliver receiver)).2.mux receiver).refusal = none →
      ∀ len o, o ≠ .pending →
        (((((l.run actions).2.step (.deliver receiver)).2.mux receiver).read s len).1 = .ok o ↔
          (((l.run actions).2.mux receiver).read s len).1 = .ok o)) := by
  have hinv := Inv.run h actions
  refine ⟨hinv.taken_isPrefixOf, ?_, ?_⟩
  · intro side s len hread
    cases hr : ((l.run actions).2.mux side.other).refusal with
    | some r => simp [Multiplexer.read, hr] at hread
    | none =>
        rcases Multiplexer.read_cases hr s len with
          ⟨e, he⟩ | ⟨state, hst, hown, ⟨hbuf, hfin, -⟩ | ⟨-, -, he⟩ | ⟨-, he⟩⟩
        · rw [he] at hread
          cases hread
        · have hw : s.writableBy side = true := by
            rw [ownUnidirectional_eq (hinv.opener side.other),
              StreamOpener.other_other] at hown
            simpa using hown
          have hpipe := (hinv.lane side hr).pipe s hw
          have hview := Multiplexer.view_of_stream hst
          have := hpipe.complete (by simp [pipe, hview, hfin]) (by simp [pipe, hview, hbuf])
          exact ⟨hw, this.1, this.2⟩
        · rw [he] at hread
          cases hread
        · rw [he] at hread
          cases hread
  · intro receiver record rest f s hw hdec hs hr len o ho
    have hstep : (((l.run actions).2.step (.deliver receiver)).2.mux receiver) =
        (((l.run actions).2.mux receiver).onFrame f).2 := by
      simp [step, hw, hinv.recordLimit, hdec, setMux, setWire]
    rw [hstep] at hr ⊢
    exact read_onFrame_other (hinv.wf receiver) hs hr len o ho

/-- Three bytes written in two frames, one of them delivered and read. -/
theorem streams_are_faithful_pipes_one_stream :
    ∃ l, MuxLink.new 16 7 = .ok l ∧
      taken (l.run [.call .dialler .openBidirectional, .call .dialler (.write ⟨0⟩ [1, 2, 3]),
        .deliver .listener, .call .listener (.read ⟨0⟩ 8)]).1 .listener ⟨0⟩ <+:
      written (l.run [.call .dialler .openBidirectional, .call .dialler (.write ⟨0⟩ [1, 2, 3]),
        .deliver .listener, .call .listener (.read ⟨0⟩ 8)]).1 .dialler ⟨0⟩ := by
  have h : MuxLink.new 16 7 = .ok _ := rfl
  exact ⟨_, h, (streams_are_faithful_pipes h _).1 .dialler ⟨0⟩ (by decide)⟩

end MuxLink

end Tradr
