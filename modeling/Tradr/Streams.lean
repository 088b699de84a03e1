import Tradr.Vfs

/-!
# Streams

The two halves of a stream of a secure channel. A receiving half is the bytes that will
arrive and how it ends; a sending half keeps what was written and a script of the
operations that fail.
-/

namespace Tradr

/-- Why a stream operation failed. -/
inductive TransportError
  | unreachable
  | timedOut
  | rejected
  | authenticationFailed
  | closed
  | io (kind : IoErrorKind)
  deriving DecidableEq, Repr

/-- The receiving half of a stream: the bytes that will arrive and how it ends, `none`
for a peer that finished writing. -/
structure RecvStream where
  bytes : List UInt8
  ending : Option TransportError
  deriving DecidableEq, Repr

/-- A receiving half together with how much each coming read delivers at most; after the
last size a read delivers what it has room for. -/
structure ScheduledRecv extends RecvStream where
  sizes : List ℕ
  deriving DecidableEq, Repr

/-- Read into `room` bytes: at least one byte and no more than fit while bytes remain, and
none at the end of the stream. -/
def ScheduledRecv.read (r : ScheduledRecv) (room : ℕ) :
    Except TransportError (List UInt8) × ScheduledRecv :=
  if room = 0 then (.ok [], r)
  else if r.bytes = [] then
    match r.ending with
    | none => (.ok [], r)
    | some e => (.error e, r)
  else
    let n := min (max 1 (r.sizes.headD room)) room
    (.ok (r.bytes.take n), { r with bytes := r.bytes.drop n, sizes := r.sizes.tail })

/-- What a read with room can do: deliver a part of the bytes that is not empty and fits,
or meet the end of the stream. -/
theorem ScheduledRecv.read_cases (r : ScheduledRecv) {room : ℕ} (h : 0 < room) :
    (r.bytes = [] ∧ r.ending = none ∧ r.read room = (.ok [], r)) ∨
      (∃ e, r.bytes = [] ∧ r.ending = some e ∧ r.read room = (.error e, r)) ∨
      ∃ chunk rest sizes, r.bytes = chunk ++ rest ∧ chunk ≠ [] ∧ chunk.length ≤ room ∧
        r.read room = (.ok chunk, ⟨⟨rest, r.ending⟩, sizes⟩) := by
  unfold ScheduledRecv.read
  rw [if_neg (by omega)]
  by_cases hb : r.bytes = []
  · rw [if_pos hb]
    rcases he : r.ending with _ | e
    · exact .inl ⟨hb, rfl, rfl⟩
    · exact .inr (.inl ⟨e, hb, rfl, rfl⟩)
  · rw [if_neg hb]
    have hn : 1 ≤ min (max 1 (r.sizes.headD room)) room := by omega
    have hpos : 0 < r.bytes.length := List.length_pos_iff.mpr hb
    refine .inr (.inr ⟨_, _, r.sizes.tail,
      (List.take_append_drop (min (max 1 (r.sizes.headD room)) room) r.bytes).symm, ?_, ?_, rfl⟩)
    · intro hnil
      have := congrArg List.length hnil
      rw [List.length_take, List.length_nil] at this
      omega
    · rw [List.length_take]
      omega

/-- The sending half of a stream: what was written, whether it was closed, and which of
the coming operations fail. -/
structure SendStream where
  written : List UInt8
  finished : Bool
  faults : List (Option TransportError)
  deriving DecidableEq, Repr

/-- Take the next fault of the script; after its end nothing fails. -/
def SendStream.nextFault (s : SendStream) : Option TransportError × SendStream :=
  match s.faults with
  | [] => (none, s)
  | fault :: faults => (fault, { s with faults })

/-- Write bytes in full; no write is valid once the stream was closed. -/
def SendStream.writeAll (s : SendStream) (bytes : List UInt8) :
    Except TransportError Unit × SendStream :=
  if s.finished then (.error .closed, s)
  else
    match s.nextFault with
    | (some e, s') => (.error e, s')
    | (none, s') => (.ok (), { s' with written := s'.written ++ bytes })

/-- Close the send half. -/
def SendStream.finish (s : SendStream) : Except TransportError Unit × SendStream :=
  if s.finished then (.error .closed, s)
  else
    match s.nextFault with
    | (some e, s') => (.error e, s')
    | (none, s') => (.ok (), { s' with finished := true })

/-- A stream on which nothing fails. -/
def SendStream.fresh : SendStream :=
  ⟨[], false, []⟩

end Tradr
