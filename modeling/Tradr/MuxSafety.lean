import Mathlib.Tactic.Tauto
import Tradr.Machine
import Tradr.Mux

/-!
# A Multiplexer Against Any Peer

The multiplexer as a machine: its inputs are the local calls and arbitrary frames of the
peer. `Multiplexer.Wf` is the invariant of every run from `Multiplexer.new`, whatever
the peer sends: the bounds on what is pending and buffered, the marks above everything
that is open or queued, and the allocator exactly at the frontier of its own spaces.

## Main results

* `Multiplexer.Wf.step`: every input preserves the invariant.
* `Multiplexer.step_refused`: a latched refusal freezes the state and fixes the answers.
* `Multiplexer.bounded_against_any_peer`: the invariant, the issue of own identifiers,
  the finality of retirement and the finality of a refusal, over every run.
-/

namespace Tradr

/-! ### The machine -/

/-- A local call. -/
inductive MuxCall
  | openBidirectional
  | openUnidirectional
  | write (stream : StreamId) (bytes : List UInt8)
  | finish (stream : StreamId)
  | retire (stream : StreamId)
  | read (stream : StreamId) (len : ℕ)
  | acceptBidirectional
  | acceptUnidirectional

/-- The answer to a local call. -/
inductive MuxResponse
  | opened (result : Except MuxFault StreamId)
  | wrote (result : Except MuxFault (List (List UInt8)))
  | finished (result : Except MuxFault (List UInt8))
  | retired
  | read (result : Except MuxFault ReadOutcome)
  | acceptedBidirectional (result : Option StreamId)
  | acceptedUnidirectional (result : Option StreamId)

/-- What may happen to a multiplexer: a local call, or a frame of the peer. -/
inductive MuxInput
  | call (call : MuxCall)
  | frame (frame : MuxFrame)

/-- What an input was answered with. -/
inductive MuxEvent
  | called (call : MuxCall) (response : MuxResponse)
  | received (frame : MuxFrame) (result : Except MuxRefusal Unit)

/-- Whether an event names the refusal. -/
def MuxEvent.reports (r : MuxRefusal) : MuxEvent → Prop
  | .called _ (.opened result) => result = .error (.refused r)
  | .called _ (.wrote result) => result = .error (.refused r)
  | .called _ (.finished result) => result = .error (.refused r)
  | .called _ (.read result) => result = .error (.refused r)
  | .called _ _ => False
  | .received _ result => result = .error r

/-- The identifier an event issued. -/
def MuxEvent.issued : MuxEvent → Option StreamId
  | .called _ (.opened (.ok s)) => some s
  | _ => none

/-- The bidirectional stream an event handed to the caller. -/
def MuxEvent.takenBidi : MuxEvent → Option StreamId
  | .called _ (.acceptedBidirectional s) => s
  | _ => none

/-- The unidirectional stream an event handed to the caller. -/
def MuxEvent.takenUni : MuxEvent → Option StreamId
  | .called _ (.acceptedUnidirectional s) => s
  | _ => none

namespace Multiplexer

/-- Perform a local call. -/
def call (m : Multiplexer) : MuxCall → MuxResponse × Multiplexer
  | .openBidirectional => (.opened m.openBidirectional.1, m.openBidirectional.2)
  | .openUnidirectional => (.opened m.openUnidirectional.1, m.openUnidirectional.2)
  | .write s bytes => (.wrote (m.write s bytes), m)
  | .finish s => (.finished (m.finish s).1, (m.finish s).2)
  | .retire s => (.retired, m.retire s)
  | .read s len => (.read (m.read s len).1, (m.read s len).2)
  | .acceptBidirectional =>
    (.acceptedBidirectional m.acceptBidirectional.1, m.acceptBidirectional.2)
  | .acceptUnidirectional =>
    (.acceptedUnidirectional m.acceptUnidirectional.1, m.acceptUnidirectional.2)

/-- One input. -/
def step (m : Multiplexer) : MuxInput → MuxEvent × Multiplexer
  | .call c => (.called c (m.call c).1, (m.call c).2)
  | .frame f => (.received f (m.onFrame f).1, (m.onFrame f).2)

/-! ### The invariant -/

/-- The lowest bidirectional identifier of a side. -/
def firstBidi : StreamOpener → StreamId
  | .dialler => ⟨0⟩
  | .listener => ⟨1⟩

/-- The lowest unidirectional identifier of a side. -/
def firstUni : StreamOpener → StreamId
  | .dialler => ⟨2⟩
  | .listener => ⟨3⟩

theorem openedBy_firstBidi (o : StreamOpener) : (firstBidi o).openedBy = o := by
  cases o <;> decide

theorem openedBy_firstUni (o : StreamOpener) : (firstUni o).openedBy = o := by
  cases o <;> decide

theorem nextBidi_new (o : StreamOpener) :
    (StreamAllocator.new o).nextBidi = some (firstBidi o).baseStreamId := by
  cases o <;> decide

theorem nextUni_new (o : StreamOpener) :
    (StreamAllocator.new o).nextUni = some (firstUni o).baseStreamId := by
  cases o <;> decide

/-- The invariant of every run. The two frontiers say that an identifier of this side's
own spaces is known exactly when its allocator has issued it. -/
structure Wf (m : Multiplexer) : Prop where
  tracked : m.Tracked
  marks : m.MarksPlaced
  recordLimit : minRecordLimit ≤ m.recordLimit
  receiveWindow : m.receiveWindow < usizeMax
  pending_le : m.pendingBidi.length + m.pendingUni.length ≤ maxPendingStreams
  pending_known : ∀ t, t ∈ m.pendingBidi ∨ t ∈ m.pendingUni → m.known t = true
  buf_le : ∀ t state, m.streams t = some state → state.recvBuf.length ≤ m.receiveWindow
  issuedBidi : m.Frontier (firstBidi m.opener) m.allocator.nextBidi
  issuedUni : m.Frontier (firstUni m.opener) m.allocator.nextUni

/-- A new multiplexer is well formed. -/
theorem wf_new {opener : StreamOpener} {frameSize recordLimit : UInt32} {m : Multiplexer}
    (h : Multiplexer.new opener frameSize recordLimit = .ok m) : m.Wf := by
  have hsize := frameSize.toNat_lt
  simp only [Multiplexer.new] at h
  split at h
  case isTrue => cases h
  case isFalse hlim =>
    cases h
    refine ⟨?_, ?_, ?_, ?_, ?_, ?_, ?_, ?_, ?_⟩
    · intro t ht
      exact absurd rfl ht
    · intro i mark hmark
      cases hmark
    · exact UInt32.not_lt.mp hlim
    · simp only [receiveWindowFrames, usizeMax]
      omega
    · simp
    · simp
    · intro t state ht
      cases ht
    · change Frontier _ (firstBidi opener) (StreamAllocator.new opener).nextBidi
      rw [nextBidi_new]
      exact frontier_unmarked rfl
    · change Frontier _ (firstUni opener) (StreamAllocator.new opener).nextUni
      rw [nextUni_new]
      exact frontier_unmarked rfl

/-- Latching a refusal keeps the invariant. -/
theorem Wf.refuse {m : Multiplexer} (h : m.Wf) (r : MuxRefusal) : (m.refuse r).2.Wf :=
  ⟨h.tracked, h.marks, h.recordLimit, h.receiveWindow, h.pending_le, h.pending_known,
    h.buf_le, h.issuedBidi, h.issuedUni⟩

/-- Writing the entry of a known stream, within the window, keeps the invariant. -/
theorem Wf.setStream {m : Multiplexer} (h : m.Wf) {s : StreamId} {x : Option StreamState}
    (hk : m.known s = true)
    (hx : ∀ state, x = some state → state.recvBuf.length ≤ m.receiveWindow) :
    (m.setStream s x).Wf := by
  refine ⟨?_, h.marks, h.recordLimit, h.receiveWindow, h.pending_le, h.pending_known, ?_,
    h.issuedBidi, h.issuedUni⟩
  · intro t ht
    by_cases hts : t = s
    · rw [hts]
      exact hk
    · rw [streams_setStream_ne hts] at ht
      exact h.tracked t ht
  · intro t state ht
    by_cases hts : t = s
    · subst hts
      rw [streams_setStream_self] at ht
      exact hx state ht
    · rw [streams_setStream_ne hts] at ht
      exact h.buf_le t state ht

/-- A stream in the table is known. -/
theorem Wf.known_of_stream {m : Multiplexer} (h : m.Wf) {s : StreamId}
    {state : StreamState} (hst : m.streams s = some state) : m.known s = true :=
  h.tracked s (by rw [hst]; exact Option.some_ne_none state)

/-- Updating a stream that is in the table, retiring it if that is due, keeps the
invariant. -/
theorem Wf.settle {m : Multiplexer} (h : m.Wf) {s : StreamId} {state : StreamState}
    (hst : m.streams s = some state) (state' : StreamState)
    (hlen : state'.recvBuf.length ≤ m.receiveWindow) :
    (m.setStream s (m.settle s state')).Wf := by
  refine h.setStream (h.known_of_stream hst) fun x hx => ?_
  simp only [Multiplexer.settle] at hx
  split at hx
  · cases hx
  · cases hx
    exact hlen

/-- Implicit openings in the peer's spaces keep the invariant. -/
theorem Wf.opens {m m' : Multiplexer} (h : m.Wf) {s : StreamId} (ho : m.Opens m' s)
    (hs : m' = m ∨ s.openedBy ≠ m.opener) : m'.Wf := by
  rcases hs with rfl | hs
  · exact h
  have hown : ∀ t, t.openedBy = m.opener → m'.known t = m.known t := by
    intro t ht
    cases hk : m.known t with
    | true => exact ho.known_mono t hk
    | false =>
        by_contra hk'
        obtain ⟨hsp, -, -⟩ := ho.known_new t hk (by simpa using hk')
        rw [StreamId.openedBy_congr hsp] at ht
        exact hs ht
  refine ⟨ho.tracked h.tracked, ho.marks h.marks, ?_, ?_, ho.pending_le h.pending_le, ?_, ?_,
    ?_, ?_⟩
  · rw [ho.recordLimit]
    exact h.recordLimit
  · rw [ho.receiveWindow]
    exact h.receiveWindow
  · intro t ht
    obtain ⟨nb, hnb, hknb⟩ := ho.pendingBidi
    obtain ⟨nu, hnu, hknu⟩ := ho.pendingUni
    rw [hnb, hnu, List.mem_append, List.mem_append] at ht
    rcases ht with (ht | ht) | (ht | ht)
    · exact ho.known_mono t (h.pending_known t (Or.inl ht))
    · exact (hknb t ht).2
    · exact ho.known_mono t (h.pending_known t (Or.inr ht))
    · exact (hknu t ht).2
  · intro t state ht
    rw [ho.receiveWindow]
    by_cases hk : m.known t = m'.known t
    · rw [ho.streams_old t hk] at ht
      exact h.buf_le t state ht
    · obtain ⟨hm, hm'⟩ := ho.of_known_ne hk
      rw [(ho.known_new t hm hm').2.2] at ht
      cases ht
      exact Nat.zero_le _
  · rw [ho.opener, ho.allocator]
    refine h.issuedBidi.congr fun t hsp => hown t ?_
    rw [StreamId.openedBy_congr hsp, openedBy_firstBidi]
  · rw [ho.opener, ho.allocator]
    refine h.issuedUni.congr fun t hsp => hown t ?_
    rw [StreamId.openedBy_congr hsp, openedBy_firstUni]

/-- `m'` is `m` after its allocator issued `s`. -/
structure Allocates (m m' : Multiplexer) (s : StreamId) : Prop where
  opener : m'.opener = m.opener
  recordLimit : m'.recordLimit = m.recordLimit
  receiveWindow : m'.receiveWindow = m.receiveWindow
  refusal : m'.refusal = m.refusal
  pendingBidi : m'.pendingBidi = m.pendingBidi
  pendingUni : m'.pendingUni = m.pendingUni
  openedBy : s.openedBy = m.opener
  fresh : m.known s = false
  known : ∀ t, m'.known t = true ↔ m.known t = true ∨ t = s
  stream : m'.streams s = some StreamState.new
  streams : ∀ t, t ≠ s → m'.streams t = m.streams t

/-- Issuing an identifier is invisible in every view. -/
theorem Allocates.view_eq {m m' : Multiplexer} {s : StreamId} (h : m.Allocates m' s)
    (ht : m.Tracked) (t : StreamId) : m'.view t = m.view t := by
  by_cases hts : t = s
  · subst hts
    have hnone : m.streams t = none := by
      by_contra hst
      exact absurd (ht t hst) (by simp [h.fresh])
    rw [view_of_stream h.stream]
    simp [view, hnone, h.fresh]
  · refine view_congr (h.streams t hts) ?_
    rw [Bool.eq_iff_iff, h.known]
    simp [hts]

/-- Issuing the identifier at the frontier of an own space. -/
theorem allocates_of_frontier {m : Multiplexer} {s first : StreamId} {a : StreamAllocator}
    (hfr : m.Frontier first (some s)) (hfirst : first.openedBy = m.opener) :
    m.Allocates ((({ m with allocator := a }).updateHighWaterMark s).setStream s
      (some StreamState.new)) s where
  opener := rfl
  recordLimit := rfl
  receiveWindow := rfl
  refusal := rfl
  pendingBidi := rfl
  pendingUni := rfl
  openedBy := (StreamId.openedBy_congr hfr.1).trans hfirst
  fresh := hfr.not_known
  known := hfr.known_raise fun t => known_updateHighWaterMark { m with allocator := a } s t
  stream := streams_setStream_self _ _ _
  streams _ hts := streams_setStream_ne hts _

/-- Issuing keeps the invariant, once the frontiers are known to have moved. -/
theorem Wf.allocates {m m' : Multiplexer} (h : m.Wf) {s : StreamId}
    (ha : m.Allocates m' s) (hmarks : m'.MarksPlaced)
    (hbidi : m'.Frontier (firstBidi m.opener) m'.allocator.nextBidi)
    (huni : m'.Frontier (firstUni m.opener) m'.allocator.nextUni) : m'.Wf := by
  have hmono : ∀ t, m.known t = true → m'.known t = true := fun t hk =>
    (ha.known t).mpr (Or.inl hk)
  refine ⟨?_, hmarks, ?_, ?_, ?_, ?_, ?_, ?_, ?_⟩
  · intro t ht
    by_cases hts : t = s
    · exact (ha.known t).mpr (Or.inr hts)
    · rw [ha.streams t hts] at ht
      exact hmono t (h.tracked t ht)
  · rw [ha.recordLimit]
    exact h.recordLimit
  · rw [ha.receiveWindow]
    exact h.receiveWindow
  · rw [ha.pendingBidi, ha.pendingUni]
    exact h.pending_le
  · intro t ht
    rw [ha.pendingBidi, ha.pendingUni] at ht
    exact hmono t (h.pending_known t ht)
  · intro t state ht
    rw [ha.receiveWindow]
    by_cases hts : t = s
    · subst hts
      rw [ha.stream] at ht
      cases ht
      exact Nat.zero_le _
    · rw [ha.streams t hts] at ht
      exact h.buf_le t state ht
  · rw [ha.opener]
    exact hbidi
  · rw [ha.opener]
    exact huni

/-- The two own spaces are different. -/
theorem spaceIndex_firstBidi_ne (o : StreamOpener) :
    (firstBidi o).spaceIndex ≠ (firstUni o).spaceIndex := by
  cases o <;> decide

/-- Raising the mark of one space leaves the frontier of another. -/
theorem Frontier.allocates_other {m m' : Multiplexer} {s first : StreamId}
    {c : Option StreamId} (h : m.Frontier first c) (ha : m.Allocates m' s)
    (hne : s.spaceIndex ≠ first.spaceIndex) : m'.Frontier first c := by
  refine h.congr fun t hsp => ?_
  rw [Bool.eq_iff_iff, ha.known]
  refine ⟨fun hk => hk.resolve_right ?_, Or.inl⟩
  rintro rfl
  exact hne hsp

/-- **Opening a bidirectional stream**: the allocator is exhausted, or it issues an
identifier of its own space that was not known. -/
theorem Wf.openBidirectional {m : Multiplexer} (h : m.Wf) (hr : m.refusal = none) :
    m.openBidirectional = (.error .streamIdsExhausted, m) ∨
      ∃ s m', m.openBidirectional = (.ok s, m') ∧ m.Allocates m' s ∧ m'.Wf := by
  rcases openWith_cases hr StreamAllocator.nextBidirectional with he | ⟨s, a, hn, he⟩
  · exact Or.inl he
  · refine Or.inr ⟨s, _, he, ?_⟩
    simp only [StreamAllocator.nextBidirectional] at hn
    split at hn
    · cases hn
    · rename_i current hcur
      cases hn
      have hfr := h.issuedBidi
      rw [hcur] at hfr
      have ha := allocates_of_frontier
        (a := { m.allocator with nextBidi := s.nextInSpace }) hfr (openedBy_firstBidi m.opener)
      refine ⟨ha, h.allocates ha (h.marks.updateHighWaterMark s) (hfr.next ha.known) ?_⟩
      refine h.issuedUni.allocates_other ha ?_
      rw [hfr.1]
      exact spaceIndex_firstBidi_ne m.opener

/-- **Opening a unidirectional stream**, in the other own space. -/
theorem Wf.openUnidirectional {m : Multiplexer} (h : m.Wf) (hr : m.refusal = none) :
    m.openUnidirectional = (.error .streamIdsExhausted, m) ∨
      ∃ s m', m.openUnidirectional = (.ok s, m') ∧ m.Allocates m' s ∧ m'.Wf := by
  rcases openWith_cases hr StreamAllocator.nextUnidirectional with he | ⟨s, a, hn, he⟩
  · exact Or.inl he
  · refine Or.inr ⟨s, _, he, ?_⟩
    simp only [StreamAllocator.nextUnidirectional] at hn
    split at hn
    · cases hn
    · rename_i current hcur
      cases hn
      have hfr := h.issuedUni
      rw [hcur] at hfr
      have ha := allocates_of_frontier
        (a := { m.allocator with nextUni := s.nextInSpace }) hfr (openedBy_firstUni m.opener)
      refine ⟨ha, h.allocates ha (h.marks.updateHighWaterMark s) ?_ (hfr.next ha.known)⟩
      refine h.issuedBidi.allocates_other ha ?_
      rw [hfr.1]
      exact (spaceIndex_firstBidi_ne m.opener).symm

/-! ### What every step respects -/

/-- What a change of the state respects, given the identifier it issued and what it took
off the two queues: marks never fall, only the allocator makes own identifiers known,
what is retired stays out of the table, and only unknown identifiers are queued. -/
structure Grows (m m' : Multiplexer) (issued takenBidi takenUni : Option StreamId) : Prop where
  opener : m'.opener = m.opener
  known_mono : ∀ t, m.known t = true → m'.known t = true
  issued : ∀ t, m.known t = false → m'.known t = true → t.openedBy = m.opener →
    issued = some t
  gone : ∀ t, m.known t = true → m.streams t = none → m'.streams t = none
  bidi : ∃ new, takenBidi.toList ++ m'.pendingBidi = m.pendingBidi ++ new ∧
    ∀ t ∈ new, m.known t = false
  uni : ∃ new, takenUni.toList ++ m'.pendingUni = m.pendingUni ++ new ∧
    ∀ t ∈ new, m.known t = false

/-- Nothing changes. -/
theorem Grows.refl (m : Multiplexer) : m.Grows m none none none where
  opener := rfl
  known_mono _ h := h
  issued t h h' := by
    rw [h] at h'
    cases h'
  gone _ _ h := h
  bidi := ⟨[], by simp, by simp⟩
  uni := ⟨[], by simp, by simp⟩

/-- Latching a refusal. -/
theorem Grows.refuse (m : Multiplexer) (r : MuxRefusal) :
    m.Grows (m.refuse r).2 none none none :=
  ⟨rfl, (Grows.refl m).known_mono, (Grows.refl m).issued, (Grows.refl m).gone,
    (Grows.refl m).bidi, (Grows.refl m).uni⟩

/-- Writing the entry of a stream that is in the table. -/
theorem Grows.setStream {m : Multiplexer} {s : StreamId} {state : StreamState}
    (hst : m.streams s = some state) (x : Option StreamState) :
    m.Grows (m.setStream s x) none none none where
  opener := rfl
  known_mono := (Grows.refl m).known_mono
  issued := (Grows.refl m).issued
  gone t _ ht := by
    have hts : t ≠ s := by
      rintro rfl
      rw [hst] at ht
      cases ht
    rw [streams_setStream_ne hts, ht]
  bidi := (Grows.refl m).bidi
  uni := (Grows.refl m).uni

/-- Implicit openings in the peer's spaces. -/
theorem Grows.opens {m m' : Multiplexer} {s : StreamId} (ho : m.Opens m' s)
    (hs : m' = m ∨ s.openedBy ≠ m.opener) : m.Grows m' none none none := by
  rcases hs with rfl | hs
  · exact Grows.refl m'
  refine ⟨ho.opener, ho.known_mono, ?_, ?_, ?_, ?_⟩
  · intro t hk hk' hown
    rw [StreamId.openedBy_congr (ho.known_new t hk hk').1] at hown
    exact absurd hown hs
  · intro t hk ht
    rw [ho.streams_old t (hk.trans (ho.known_mono t hk).symm), ht]
  · obtain ⟨new, hnew, hunk⟩ := ho.pendingBidi
    exact ⟨new, hnew, fun t ht => (hunk t ht).1⟩
  · obtain ⟨new, hnew, hunk⟩ := ho.pendingUni
    exact ⟨new, hnew, fun t ht => (hunk t ht).1⟩

/-- A change after implicit openings. -/
theorem Grows.trans {m m' m'' : Multiplexer} (h : m.Grows m' none none none)
    (h' : m'.Grows m'' none none none) : m.Grows m'' none none none := by
  have hunk : ∀ t, m'.known t = false → m.known t = false := by
    intro t hk'
    by_contra hk
    rw [h.known_mono t (by simpa using hk)] at hk'
    cases hk'
  refine ⟨h'.opener.trans h.opener, fun t hk => h'.known_mono t (h.known_mono t hk), ?_,
    fun t hk ht => h'.gone t (h.known_mono t hk) (h.gone t hk ht), ?_, ?_⟩
  · intro t hk hk'' hown
    cases hk' : m'.known t with
    | true => exact h.issued t hk hk' hown
    | false => exact h'.issued t hk' hk'' (hown.trans h.opener.symm)
  · obtain ⟨new, hnew, hn⟩ := h.bidi
    obtain ⟨new', hnew', hn'⟩ := h'.bidi
    refine ⟨new ++ new', ?_, ?_⟩
    · rw [hnew', ← List.append_assoc, ← hnew]
      rfl
    · intro t ht
      rcases List.mem_append.mp ht with ht | ht
      · exact hn t ht
      · exact hunk t (hn' t ht)
  · obtain ⟨new, hnew, hn⟩ := h.uni
    obtain ⟨new', hnew', hn'⟩ := h'.uni
    refine ⟨new ++ new', ?_, ?_⟩
    · rw [hnew', ← List.append_assoc, ← hnew]
      rfl
    · intro t ht
      rcases List.mem_append.mp ht with ht | ht
      · exact hn t ht
      · exact hunk t (hn' t ht)

/-- Taking off the queues keeps the invariant. -/
theorem Wf.dequeue {m : Multiplexer} (h : m.Wf) {b u : List StreamId}
    (hb : b <:+ m.pendingBidi) (hu : u <:+ m.pendingUni) :
    ({ m with pendingBidi := b, pendingUni := u } : Multiplexer).Wf := by
  refine ⟨h.tracked, h.marks, h.recordLimit, h.receiveWindow, ?_, ?_, h.buf_le,
    h.issuedBidi, h.issuedUni⟩
  · have := hb.length_le
    have := hu.length_le
    have := h.pending_le
    change b.length + u.length ≤ _
    omega
  · intro t ht
    exact h.pending_known t (ht.imp (fun ht => hb.mem ht) (fun ht => hu.mem ht))

/-- A queue is its head and the rest. -/
theorem head_append_tail (l : List StreamId) : l.head?.toList ++ l.tail = l := by
  cases l <;> rfl

/-- Issuing an identifier. -/
theorem Grows.allocates {m m' : Multiplexer} {s : StreamId} (ha : m.Allocates m' s) :
    m.Grows m' (some s) none none where
  opener := ha.opener
  known_mono t hk := (ha.known t).mpr (Or.inl hk)
  issued t hk hk' _ := by
    rcases (ha.known t).mp hk' with hk'' | rfl
    · rw [hk] at hk''
      cases hk''
    · rfl
  gone t hk hst := by
    have hts : t ≠ s := by
      rintro rfl
      rw [ha.fresh] at hk
      cases hk
    rw [ha.streams t hts, hst]
  bidi := ⟨[], by simp [ha.pendingBidi], by simp⟩
  uni := ⟨[], by simp [ha.pendingUni], by simp⟩

/-- An applied frame keeps the invariant and respects the growth. -/
theorem Wf.applyFrame {m : Multiplexer} (h : m.Wf) {frame : MuxFrame} {state : StreamState}
    (hst : m.streams frame.streamId = some state) :
    (m.applyFrame frame state).2.Wf ∧
      m.Grows (m.applyFrame frame state).2 none none none := by
  simp only [Multiplexer.applyFrame]
  split
  · exact ⟨h.refuse _, Grows.refuse m _⟩
  split
  · exact ⟨h.refuse _, Grows.refuse m _⟩
  split
  · split
    · exact ⟨h.refuse _, Grows.refuse m _⟩
    · rename_i hlen
      refine ⟨h.setStream (h.known_of_stream hst) ?_, Grows.setStream hst _⟩
      intro x hx
      cases hx
      have := h.receiveWindow
      simp only [List.length_append]
      omega
  · exact ⟨h.settle hst _ (h.buf_le _ state hst), Grows.setStream hst _⟩

/-- A frame keeps the invariant and respects the growth. -/
theorem Wf.onFrame {m : Multiplexer} (h : m.Wf) (hr : m.refusal = none) (frame : MuxFrame) :
    (m.onFrame frame).2.Wf ∧ m.Grows (m.onFrame frame).2 none none none := by
  rcases onFrame_cases hr h.marks frame with ⟨-, -, he⟩ | ⟨-, -, he⟩ | ⟨m', ho, hs, he⟩ |
    ⟨m', state, ho, hst, hs, he⟩
  · rw [he]
    exact ⟨h.refuse _, Grows.refuse m _⟩
  · rw [he]
    exact ⟨h.refuse _, Grows.refuse m _⟩
  · rw [he]
    exact ⟨(h.opens ho (Or.inr hs)).refuse _,
      (Grows.opens ho (Or.inr hs)).trans (Grows.refuse m' _)⟩
  · rw [he]
    obtain ⟨hwf, hg⟩ := (h.opens ho hs).applyFrame hst
    exact ⟨hwf, (Grows.opens ho hs).trans hg⟩

/-- A local call keeps the invariant and respects the growth. -/
theorem Wf.call {m : Multiplexer} (h : m.Wf) (hr : m.refusal = none) (c : MuxCall) :
    (m.call c).2.Wf ∧
      m.Grows (m.call c).2 (MuxEvent.called c (m.call c).1).issued
        (MuxEvent.called c (m.call c).1).takenBidi
        (MuxEvent.called c (m.call c).1).takenUni := by
  cases c with
  | openBidirectional =>
      rcases h.openBidirectional hr with he | ⟨s, m', he, ha, hwf⟩
      · simp only [Multiplexer.call, he]
        exact ⟨h, Grows.refl m⟩
      · simp only [Multiplexer.call, he]
        exact ⟨hwf, Grows.allocates ha⟩
  | openUnidirectional =>
      rcases h.openUnidirectional hr with he | ⟨s, m', he, ha, hwf⟩
      · simp only [Multiplexer.call, he]
        exact ⟨h, Grows.refl m⟩
      · simp only [Multiplexer.call, he]
        exact ⟨hwf, Grows.allocates ha⟩
  | write s bytes => exact ⟨h, Grows.refl m⟩
  | finish s =>
      rcases finish_cases hr h.recordLimit s with ⟨e, he⟩ | ⟨state, f, hst, -, -, -, he⟩
      · simp only [Multiplexer.call, he]
        exact ⟨h, Grows.refl m⟩
      · simp only [Multiplexer.call, he]
        exact ⟨h.settle hst _ (h.buf_le s state hst), Grows.setStream hst _⟩
  | retire s =>
      rcases retire_cases m s with he | ⟨state, -, hst, he⟩
      · simp only [Multiplexer.call, he]
        exact ⟨h, Grows.refl m⟩
      · simp only [Multiplexer.call, he]
        exact ⟨h.settle hst _ (h.buf_le s state hst), Grows.setStream hst _⟩
  | read s len =>
      rcases read_cases hr s len with ⟨e, he⟩ | ⟨state, hst, -, ⟨-, -, he⟩ | ⟨-, -, he⟩ | ⟨-, he⟩⟩
      · simp only [Multiplexer.call, he]
        exact ⟨h, Grows.refl m⟩
      · simp only [Multiplexer.call, he]
        exact ⟨h, Grows.refl m⟩
      · simp only [Multiplexer.call, he]
        exact ⟨h, Grows.refl m⟩
      · simp only [Multiplexer.call, he]
        refine ⟨h.settle hst _ ?_, Grows.setStream hst _⟩
        have := h.buf_le s state hst
        simp only [List.length_drop]
        omega
  | acceptBidirectional =>
      rw [Multiplexer.call, Multiplexer.acceptBidirectional, if_neg (by simp [hr])]
      exact ⟨h.dequeue (List.tail_suffix _) (List.suffix_refl _), rfl,
        (Grows.refl m).known_mono, (Grows.refl m).issued, (Grows.refl m).gone,
        ⟨[], by simp [MuxEvent.takenBidi, head_append_tail], by simp⟩, (Grows.refl m).uni⟩
  | acceptUnidirectional =>
      rw [Multiplexer.call, Multiplexer.acceptUnidirectional, if_neg (by simp [hr])]
      exact ⟨h.dequeue (List.suffix_refl _) (List.tail_suffix _), rfl,
        (Grows.refl m).known_mono, (Grows.refl m).issued, (Grows.refl m).gone,
        (Grows.refl m).bidi, ⟨[], by simp [MuxEvent.takenUni, head_append_tail], by simp⟩⟩

/-! ### A latched refusal -/

/-- The answer of an operation on a channel a refusal has closed: the operations that
return a `Result` name the refusal, an accept finds nothing and a retire is void. -/
def refusedEvent (r : MuxRefusal) : MuxInput → MuxEvent
  | .call .openBidirectional => .called .openBidirectional (.opened (.error (.refused r)))
  | .call .openUnidirectional => .called .openUnidirectional (.opened (.error (.refused r)))
  | .call (.write s bytes) => .called (.write s bytes) (.wrote (.error (.refused r)))
  | .call (.finish s) => .called (.finish s) (.finished (.error (.refused r)))
  | .call (.retire s) => .called (.retire s) .retired
  | .call (.read s len) => .called (.read s len) (.read (.error (.refused r)))
  | .call .acceptBidirectional => .called .acceptBidirectional (.acceptedBidirectional none)
  | .call .acceptUnidirectional =>
    .called .acceptUnidirectional (.acceptedUnidirectional none)
  | .frame f => .received f (.error r)

/-- **A latched refusal is final**: every input leaves the state as it is and is
answered by the refusal alone. -/
theorem step_refused {m : Multiplexer} {r : MuxRefusal} (hr : m.refusal = some r)
    (input : MuxInput) : m.step input = (refusedEvent r input, m) := by
  cases input with
  | frame f => simp only [step, onFrame, hr, refusedEvent]
  | call c =>
      cases c with
      | openBidirectional =>
          simp only [step, call, openBidirectional, openWith, hr, refusedEvent]
      | openUnidirectional =>
          simp only [step, call, openUnidirectional, openWith, hr, refusedEvent]
      | write s bytes => simp only [step, call, write, hr, refusedEvent]
      | finish s => simp only [step, call, finish, hr, refusedEvent]
      | retire s => simp [step, call, retire, hr, refusedEvent]
      | read s len => simp only [step, call, read, hr, refusedEvent]
      | acceptBidirectional => simp [step, call, acceptBidirectional, hr, refusedEvent]
      | acceptUnidirectional => simp [step, call, acceptUnidirectional, hr, refusedEvent]

/-- **Every input keeps the invariant** and respects the growth. -/
theorem Wf.step {m : Multiplexer} (h : m.Wf) (input : MuxInput) :
    (m.step input).2.Wf ∧
      m.Grows (m.step input).2 (m.step input).1.issued (m.step input).1.takenBidi
        (m.step input).1.takenUni := by
  cases hr : m.refusal with
  | none =>
      cases input with
      | call c => exact h.call hr c
      | frame f => exact h.onFrame hr f
  | some r =>
      rw [step_refused hr]
      refine ⟨h, ?_⟩
      cases input with
      | frame f => exact Grows.refl m
      | call c => cases c <;> exact Grows.refl m

/-! ### Whole runs -/

/-- The machine of a multiplexer. -/
def run (m : Multiplexer) (inputs : List MuxInput) : List MuxEvent × Multiplexer :=
  Machine.run step m inputs

/-- The invariant holds after every run. -/
theorem Wf.run {m : Multiplexer} (h : m.Wf) (inputs : List MuxInput) :
    (m.run inputs).2.Wf :=
  Machine.run_invariant Multiplexer.step (I := fun _ m => Multiplexer.Wf m) h
    (fun _ _ a hm => (hm.step a).1) inputs

/-- Known identifiers of this side's own spaces were issued in the run. -/
theorem issued_of_known {m₀ : Multiplexer} (h : m₀.Wf)
    (hnew : ∀ t, m₀.known t = false) (inputs : List MuxInput) {s : StreamId}
    (hk : (m₀.run inputs).2.known s = true) (hs : s.openedBy = m₀.opener) :
    ∃ e ∈ (m₀.run inputs).1, e.issued = some s := by
  have hinv := Machine.run_invariant step (s := m₀)
    (I := fun es m => m.Wf ∧ m.opener = m₀.opener ∧
      ∀ t, m.known t = true → t.openedBy = m₀.opener → ∃ e ∈ es, e.issued = some t)
    ⟨h, rfl, fun t ht => by rw [hnew t] at ht; cases ht⟩ ?_ inputs
  · exact hinv.2.2 s hk hs
  · intro es m a hI
    obtain ⟨hwf, hop, hiss⟩ := hI
    obtain ⟨hwf', hg⟩ := hwf.step a
    refine ⟨hwf', hg.opener.trans hop, fun t ht hown => ?_⟩
    cases hkt : m.known t with
    | true =>
        obtain ⟨e, he, hse⟩ := hiss t hkt hown
        exact ⟨e, List.mem_append_left _ he, hse⟩
    | false =>
        exact ⟨_, List.mem_append_right _ (List.mem_singleton.mpr rfl),
          hg.issued t hkt ht (hown.trans hop.symm)⟩

/-- **Retirement is final**: once known and out of the table, an identifier stays out,
and nothing queued from then on is that identifier. -/
theorem gone_of_gone {m : Multiplexer} (h : m.Wf) {s : StreamId} (hk : m.known s = true)
    (hgone : m.streams s = none) (inputs : List MuxInput) :
    (m.run inputs).2.streams s = none ∧
      (∃ new, (m.run inputs).1.filterMap MuxEvent.takenBidi ++ (m.run inputs).2.pendingBidi =
        m.pendingBidi ++ new ∧ s ∉ new) ∧
      (∃ new, (m.run inputs).1.filterMap MuxEvent.takenUni ++ (m.run inputs).2.pendingUni =
        m.pendingUni ++ new ∧ s ∉ new) := by
  induction inputs generalizing m with
  | nil => exact ⟨hgone, ⟨[], by simp [run], by simp⟩, ⟨[], by simp [run], by simp⟩⟩
  | cons a inputs ih =>
      obtain ⟨hwf, hg⟩ := h.step a
      obtain ⟨hlast, ⟨nb, hnb, hsb⟩, ⟨nu, hnu, hsu⟩⟩ :=
        ih hwf (hg.known_mono s hk) (hg.gone s hk hgone)
      obtain ⟨nb₀, hnb₀, hunkb⟩ := hg.bidi
      obtain ⟨nu₀, hnu₀, hunku⟩ := hg.uni
      have hfresh : ∀ {new : List StreamId}, (∀ t ∈ new, m.known t = false) → s ∉ new := by
        intro new hunk hs
        rw [hunk s hs] at hk
        cases hk
      refine ⟨hlast, ⟨nb₀ ++ nb, ?_, ?_⟩, ⟨nu₀ ++ nu, ?_, ?_⟩⟩
      · rw [← List.append_assoc, ← hnb₀, List.append_assoc, ← hnb, run, Machine.run_cons,
          List.filterMap_cons]
        cases (m.step a).1.takenBidi <;> rfl
      · rw [List.mem_append, not_or]
        exact ⟨hfresh hunkb, hsb⟩
      · rw [← List.append_assoc, ← hnu₀, List.append_assoc, ← hnu, run, Machine.run_cons,
          List.filterMap_cons]
        cases (m.step a).1.takenUni <;> rfl
      · rw [List.mem_append, not_or]
        exact ⟨hfresh hunku, hsu⟩

/-- Marks never fall along a run. -/
theorem known_run {m : Multiplexer} (h : m.Wf) {s : StreamId} (hk : m.known s = true)
    (inputs : List MuxInput) : (m.run inputs).2.known s = true := by
  refine (Machine.run_invariant step (I := fun _ m => Multiplexer.Wf m ∧ m.known s = true)
    ⟨h, hk⟩ (fun _ m a hI => ?_) inputs).2
  obtain ⟨hwf, hg⟩ := hI.1.step a
  exact ⟨hwf, hg.known_mono s hI.2⟩

/-- A refusal stays latched along a run, in a state that never changes. -/
theorem run_refused {m : Multiplexer} {r : MuxRefusal} (hr : m.refusal = some r)
    (inputs : List MuxInput) : m.run inputs = (inputs.map (refusedEvent r), m) := by
  induction inputs with
  | nil => rfl
  | cons a inputs ih =>
      rw [run] at ih ⊢
      rw [Machine.run_cons, step_refused hr, ih]
      rfl

/-- A new multiplexer has its limit, no refusal and no stream. -/
theorem new_eq_ok {opener : StreamOpener} {frameSize recordLimit : UInt32}
    {m : Multiplexer} (h : Multiplexer.new opener frameSize recordLimit = .ok m) :
    m.recordLimit = recordLimit ∧ m.refusal = none ∧ (∀ s, m.streams s = none) ∧
      m.opener = opener := by
  simp only [Multiplexer.new] at h
  split at h
  · cases h
  · cases h
    exact ⟨rfl, rfl, fun _ => rfl, rfl⟩

/-- Nothing is known to a new multiplexer. -/
theorem known_new {opener : StreamOpener} {frameSize recordLimit : UInt32}
    {m : Multiplexer} (h : Multiplexer.new opener frameSize recordLimit = .ok m) :
    m.opener = opener ∧ ∀ t, m.known t = false := by
  simp only [Multiplexer.new] at h
  split at h
  · cases h
  · cases h
    exact ⟨rfl, fun t => rfl⟩

/-- **A multiplexer keeps its bounds against any peer.** After every sequence of local
calls and of arbitrary frames: the two accept queues together stay within their bound
and every receive buffer within its window; what is open or queued lies at or below the
mark of its space, and was issued by the allocator when it is this side's own; an
identifier that was open and is retired never returns to the table and is never queued
again; and a latched refusal freezes the state, is returned by `refusal` and by every
operation that returns a `Result`, makes an accept find nothing and a retire void. -/
theorem bounded_against_any_peer {opener : StreamOpener} {frameSize recordLimit : UInt32}
    {m₀ : Multiplexer} (h : Multiplexer.new opener frameSize recordLimit = .ok m₀)
    (inputs : List MuxInput) :
    (m₀.run inputs).2.pendingBidi.length + (m₀.run inputs).2.pendingUni.length ≤
        maxPendingStreams ∧
    (∀ s state, (m₀.run inputs).2.streams s = some state →
      state.recvBuf.length ≤ (m₀.run inputs).2.receiveWindow) ∧
    (∀ s, (m₀.run inputs).2.streams s ≠ none ∨ s ∈ (m₀.run inputs).2.pendingBidi ∨
        s ∈ (m₀.run inputs).2.pendingUni →
      (∃ mark, (m₀.run inputs).2.highWaterMark s = some mark ∧ s ≤ mark) ∧
      (s.openedBy = opener → ∃ e ∈ (m₀.run inputs).1, e.issued = some s)) ∧
    (∀ s later more, (m₀.run inputs).2.streams s ≠ none →
      ((m₀.run inputs).2.run later).2.streams s = none →
      ((m₀.run (inputs ++ later ++ more)).2.streams s = none ∧
        (∃ new, (((m₀.run (inputs ++ later)).2.run more).1.filterMap MuxEvent.takenBidi) ++
            (m₀.run (inputs ++ later ++ more)).2.pendingBidi =
          (m₀.run (inputs ++ later)).2.pendingBidi ++ new ∧ s ∉ new) ∧
        (∃ new, (((m₀.run (inputs ++ later)).2.run more).1.filterMap MuxEvent.takenUni) ++
            (m₀.run (inputs ++ later ++ more)).2.pendingUni =
          (m₀.run (inputs ++ later)).2.pendingUni ++ new ∧ s ∉ new))) ∧
    (∀ r more, (m₀.run inputs).2.refusal = some r →
      (m₀.run inputs).2.run more = (more.map (refusedEvent r), (m₀.run inputs).2)) := by
  have hwf₀ := wf_new h
  have hwf := hwf₀.run inputs
  obtain ⟨hop, hnew⟩ := known_new h
  refine ⟨hwf.pending_le, hwf.buf_le, ?_, ?_, fun r more hr => run_refused hr more⟩
  · intro s hs
    have hk : (m₀.run inputs).2.known s = true := by
      rcases hs with hs | hs
      · exact hwf.tracked s hs
      · exact hwf.pending_known s hs
    exact ⟨known_iff.mp hk, fun hown => issued_of_known hwf₀ hnew inputs hk (hown.trans hop.symm)⟩
  · intro s later more hin hout
    have hlater : (m₀.run (inputs ++ later)).2 = ((m₀.run inputs).2.run later).2 := by
      simp only [run, Machine.run_append]
    have hmore : (m₀.run (inputs ++ later ++ more)).2 =
        ((m₀.run (inputs ++ later)).2.run more).2 := by
      simp only [run, Machine.run_append]
    have hk : (m₀.run (inputs ++ later)).2.known s = true := by
      rw [hlater]
      exact known_run hwf (hwf.tracked s hin) later
    rw [hmore]
    exact gone_of_gone (hwf₀.run _) hk (by rw [hlater, hout]) more

/-- A dialler that is sent a frame on its own unallocated stream keeps its bounds. -/
theorem bounded_against_any_peer_own_space :
    ∃ m₀, Multiplexer.new .dialler 16 64 = .ok m₀ ∧
      (m₀.run [.frame ⟨.data, ⟨0⟩, [7]⟩]).2.run [.call .openBidirectional] =
        ([.called .openBidirectional (.opened (.error (.refused
          (.peerAllocatedInOurSpace ⟨0⟩))))], (m₀.run [.frame ⟨.data, ⟨0⟩, [7]⟩]).2) := by
  have h : Multiplexer.new .dialler 16 64 = .ok _ := rfl
  exact ⟨_, h, (bounded_against_any_peer h [.frame ⟨.data, ⟨0⟩, [7]⟩]).2.2.2.2
    (.peerAllocatedInOurSpace ⟨0⟩) [.call .openBidirectional] rfl⟩

/-- **An accept does not report the refusal**: on a channel that a refusal has closed it
answers what it answers on an empty queue, so not every later operation reports it. -/
theorem accept_after_refusal_is_silent :
    ¬ ∀ (m₀ : Multiplexer) (inputs : List MuxInput) (r : MuxRefusal) (input : MuxInput),
      Multiplexer.new .dialler 16 64 = .ok m₀ → (m₀.run inputs).2.refusal = some r →
      ((m₀.run inputs).2.step input).1.reports r := by
  intro h
  exact h _ [.frame ⟨.data, ⟨0⟩, [7]⟩] (.peerAllocatedInOurSpace ⟨0⟩)
    (.call .acceptBidirectional) rfl rfl

end Multiplexer

end Tradr
