import Tradr.BrowseWire
import Tradr.Receive

/-!
# The Readers of Frames

One wire format is read in four places. An incremental decoder is fed what arrives and asked
for frames; the Browse codec delimits the frame at the front of a buffer; the transfer and
the handshake read a length prefix from a stream and then the bytes it announces, each in its
own words. All of them delimit frames as `frameVerdict` does, whatever pieces the stream
delivers: they return the same frames, refuse the same lengths on the four bytes of the
prefix alone, and leave what follows a frame to the next reader.

## Main definitions

* `ScheduledRecv.readExact`: fill a buffer from a stream that delivers pieces.
* `Transfer.readFrame`, `Handshake.readFrame`: the two readers of streams.
* `FrameBuffer`: a reader that keeps a buffer, with its laws; `FrameBuffer.pump` drives one
  from a stream.
* `FrameReader.read`: the four readers, with what each leaves behind.

## Main results

* `ScheduledRecv.readExact_eq`: pieces do not matter.
* `FrameReader.read_spec`: each reader answers as the frame parser does.
* `readers_agree`: so do any of them in turn, over a whole stream.
-/

open BigEndian

namespace Tradr

/-! ### Filling a buffer -/

/-- Why a buffer was not filled: the stream ended, or a read failed. -/
inductive ReadFailure
  | eof
  | transport (e : TransportError)
  deriving DecidableEq, Repr

/-- How a stream that ends too early fails a read. -/
def ReadFailure.ofEnding : Option TransportError → ReadFailure
  | none => .eof
  | some e => .transport e

/-- A read that delivers something leaves less room. -/
theorem ScheduledRecv.read_chunk {r r' : ScheduledRecv} {room : ℕ} {chunk : List UInt8}
    (h : r.read room = (.ok chunk, r')) (hroom : 0 < room) (hne : chunk ≠ []) :
    r.bytes = chunk ++ r'.bytes ∧ r'.ending = r.ending ∧ chunk.length ≤ room := by
  obtain ⟨-, -, heq⟩ | ⟨e, -, -, heq⟩ | ⟨c₀, rest, sizes, hb, -, hle, heq⟩ := r.read_cases hroom
  · rw [h] at heq
    exact absurd (Except.ok.inj (Prod.mk.inj heq).1) hne
  · rw [h] at heq
    cases (Prod.mk.inj heq).1
  · rw [h] at heq
    obtain ⟨h1, h2⟩ := Prod.mk.inj heq
    obtain rfl := Except.ok.inj h1
    obtain rfl := h2
    exact ⟨hb, rfl, hle⟩

/-- Read until a buffer is full. -/
def ScheduledRecv.readExact (r : ScheduledRecv) (room : ℕ) :
    Except ReadFailure (List UInt8) × ScheduledRecv :=
  if room = 0 then (.ok [], r)
  else
    match r.read room with
    | (.error e, r) => (.error (.transport e), r)
    | (.ok chunk, r) =>
      if chunk = [] then (.error .eof, r)
      else
        match r.readExact (room - chunk.length) with
        | (.error e, r) => (.error e, r)
        | (.ok rest, r) => (.ok (chunk ++ rest), r)
termination_by room
decreasing_by
  rename_i hroom hne
  have := List.length_pos_iff.mpr hne
  omega

/-- **Pieces do not matter**: a buffer is filled with the bytes at the front of the stream,
or the stream is found to end before. -/
theorem ScheduledRecv.readExact_eq (r : ScheduledRecv) (room : ℕ) :
    ∃ sizes, r.readExact room =
      if room ≤ r.bytes.length then
        (.ok (r.bytes.take room), ⟨⟨r.bytes.drop room, r.ending⟩, sizes⟩)
      else (.error (.ofEnding r.ending), ⟨⟨[], r.ending⟩, sizes⟩) := by
  induction room using Nat.strong_induction_on generalizing r with
  | _ room ih =>
    obtain rfl | hpos := Nat.eq_zero_or_pos room
    · refine ⟨r.sizes, ?_⟩
      rw [ScheduledRecv.readExact, if_pos rfl, if_pos (Nat.zero_le _)]
      rfl
    obtain ⟨hb, hend, hread⟩ | ⟨e, hb, hend, hread⟩ | ⟨chunk, rest, sizes, hb, hne, hle, hread⟩ :=
      r.read_cases hpos
    · refine ⟨r.sizes, ?_⟩
      have hr : (⟨⟨[], r.ending⟩, r.sizes⟩ : ScheduledRecv) = r := by rw [← hb]
      rw [ScheduledRecv.readExact, if_neg hpos.ne', hread,
        if_neg (by rw [hb, List.length_nil]; omega), hr, hend]
      rfl
    · refine ⟨r.sizes, ?_⟩
      have hr : (⟨⟨[], r.ending⟩, r.sizes⟩ : ScheduledRecv) = r := by rw [← hb]
      rw [ScheduledRecv.readExact, if_neg hpos.ne', hread,
        if_neg (by rw [hb, List.length_nil]; omega), hr, hend]
      rfl
    · have hchunk := List.length_pos_iff.mpr hne
      obtain ⟨sizes', hrest⟩ := ih (room - chunk.length) (by omega) ⟨⟨rest, r.ending⟩, sizes⟩
      refine ⟨sizes', ?_⟩
      rw [ScheduledRecv.readExact, if_neg hpos.ne', hread]
      dsimp only
      rw [if_neg hne, hrest, hb, List.length_append]
      by_cases hfull : room ≤ chunk.length + rest.length
      · rw [if_pos (by dsimp only; omega), if_pos hfull, List.take_append, List.drop_append,
          List.take_of_length_le hle, List.drop_of_length_le hle, List.nil_append]
      · rw [if_neg (by dsimp only; omega), if_neg hfull]

section Readers

/-! ### Reading from a stream -/

/-- How a transfer sees a read that failed. -/
def ReadFailure.toTransfer : ReadFailure → TransferSessionError
  | .eof => .streamClosed
  | .transport e => .ofTransport e

/-- The frame reader of the transfer: the frame, the stream behind it, and the buffers that
were sized from an announced length. -/
def Transfer.readFrame (r : ScheduledRecv) (maxFrameSize : UInt32) :
    Except TransferSessionError Frame × ScheduledRecv × List ℕ :=
  match r.readExact lenPrefixLen with
  | (.error e, r) => (.error e.toTransfer, r, [])
  | (.ok lenBytes, r) =>
    let announced := ofBE lenBytes
    if announced = 0 then (.error (.proto (.framing .empty)), r, [])
    else if announced > maxFrameSize.toNat then
      (.error (.proto (.framing (.oversized announced maxFrameSize))), r, [])
    else
      match r.readExact announced with
      | (.error e, r) => (.error e.toTransfer, r, [4 + announced])
      | (.ok body, r) =>
        match (((FrameDecoder.new maxFrameSize).feed (lenBytes ++ body)).nextFrame).1 with
        | .error e => (.error (.proto (.framing e)), r, [4 + announced])
        | .ok none => (.error (.protocolViolation .incompleteFrame), r, [4 + announced])
        | .ok (some frame) => (.ok frame, r, [4 + announced])

/-- Why the handshake read no frame. -/
inductive HandshakeReadError
  | transport (e : TransportError)
  | unexpectedEof
  | framing (e : FrameError)
  deriving DecidableEq, Repr

/-- How the handshake sees a read that failed. -/
def ReadFailure.toHandshake : ReadFailure → HandshakeReadError
  | .eof => .unexpectedEof
  | .transport e => .transport e

/-- The frame reader of the handshake. The decoder is shared by the frames of a handshake,
and is fed the prefix first, which makes it refuse a bad length. -/
def Handshake.readFrame (r : ScheduledRecv) (decoder : FrameDecoder) :
    Except HandshakeReadError Frame × ScheduledRecv × FrameDecoder × List ℕ :=
  match r.readExact 4 with
  | (.error e, r) => (.error e.toHandshake, r, decoder, [])
  | (.ok lenBytes, r) =>
    match (decoder.feed lenBytes).nextFrame with
    | (.error e, decoder) => (.error (.framing e), r, decoder, [])
    | (.ok _, decoder) =>
      let announced := ofBE lenBytes
      match r.readExact announced with
      | (.error e, r) => (.error e.toHandshake, r, decoder, [announced])
      | (.ok payload, r) =>
        match (decoder.feed payload).nextFrame with
        | (.error e, decoder) => (.error (.framing e), r, decoder, [announced])
        | (.ok none, decoder) => (.error .unexpectedEof, r, decoder, [announced])
        | (.ok (some frame), decoder) => (.ok frame, r, decoder, [announced])

/-- The frame reader of the transfer answers as the frame parser does. -/
theorem Transfer.readFrame_spec (r : ScheduledRecv) (limit : UInt32) :
    ∃ sizes, match frameVerdict limit r.bytes with
      | .unit f n => Transfer.readFrame r limit = (.ok f, ⟨⟨r.bytes.drop n, r.ending⟩, sizes⟩, [n])
      | .fail e => Transfer.readFrame r limit =
          (.error (.proto (.framing e)), ⟨⟨r.bytes.drop lenPrefixLen, r.ending⟩, sizes⟩, [])
      | .more => ∃ sized, Transfer.readFrame r limit =
          (.error (ReadFailure.ofEnding r.ending).toTransfer, ⟨⟨[], r.ending⟩, sizes⟩, sized) := by
  obtain ⟨sizes, hpre⟩ := r.readExact_eq lenPrefixLen
  obtain ⟨sizes', hbody⟩ := ScheduledRecv.readExact_eq
    ⟨⟨r.bytes.drop lenPrefixLen, r.ending⟩, sizes⟩ (ofBE (r.bytes.take lenPrefixLen))
  unfold Transfer.readFrame
  by_cases hlen : r.bytes.length < lenPrefixLen
  · refine ⟨sizes, ?_⟩
    rw [if_neg (by omega)] at hpre
    rw [frameVerdict, if_pos hlen, hpre]
    exact ⟨[], rfl⟩
  rw [if_pos (by omega)] at hpre
  rw [hpre]
  by_cases h0 : ofBE (r.bytes.take lenPrefixLen) = 0
  · refine ⟨sizes, ?_⟩
    simp only [frameVerdict, if_neg hlen, if_pos h0]
  by_cases hlim : ofBE (r.bytes.take lenPrefixLen) > limit.toNat
  · refine ⟨sizes, ?_⟩
    simp only [frameVerdict, if_neg hlen, if_neg h0, if_pos hlim]
  dsimp only at hbody ⊢
  rw [if_neg h0, if_neg hlim, hbody, List.length_drop]
  refine ⟨sizes', ?_⟩
  by_cases hshort : r.bytes.length < lenPrefixLen + ofBE (r.bytes.take lenPrefixLen)
  · have hmore : frameVerdict limit r.bytes = .more := by
      simp only [frameVerdict, if_neg hlen, if_neg h0, if_neg hlim, if_pos hshort]
    rw [hmore, if_neg (by omega)]
    exact ⟨_, rfl⟩
  · have hunit : ∃ f, frameVerdict limit r.bytes =
        .unit f (lenPrefixLen + ofBE (r.bytes.take lenPrefixLen)) := by
      simp only [frameVerdict, if_neg hlen, if_neg h0, if_neg hlim, if_neg hshort]
      exact ⟨_, rfl⟩
    obtain ⟨f, hf⟩ := hunit
    have hnext := FrameDecoder.nextFrame_eq limit
      (r.bytes.take (lenPrefixLen + ofBE (r.bytes.take lenPrefixLen)))
    rw [frameVerdict_take hf, List.take_add] at hnext
    rw [hf, if_pos (by omega)]
    dsimp only [FrameDecoder.feed, FrameDecoder.new]
    rw [List.nil_append, hnext, List.drop_drop]
    rfl

/-- So does that of the handshake, and it leaves its decoder as new. -/
theorem Handshake.readFrame_spec (r : ScheduledRecv) (limit : UInt32) :
    ∃ sizes, match frameVerdict limit r.bytes with
      | .unit f n => Handshake.readFrame r (.new limit) =
          (.ok f, ⟨⟨r.bytes.drop n, r.ending⟩, sizes⟩, .new limit, [n - lenPrefixLen])
      | .fail e => ∃ decoder, Handshake.readFrame r (.new limit) =
          (.error (.framing e), ⟨⟨r.bytes.drop lenPrefixLen, r.ending⟩, sizes⟩, decoder, [])
      | .more => ∃ decoder sized, Handshake.readFrame r (.new limit) =
          (.error (ReadFailure.ofEnding r.ending).toHandshake, ⟨⟨[], r.ending⟩, sizes⟩, decoder,
            sized) := by
  obtain ⟨sizes, hread⟩ := r.readExact_eq 4
  obtain ⟨sizes', hbody⟩ := ScheduledRecv.readExact_eq
    ⟨⟨r.bytes.drop 4, r.ending⟩, sizes⟩ (ofBE (r.bytes.take 4))
  have hpre : lenPrefixLen = 4 := rfl
  have hfirst := FrameDecoder.nextFrame_eq limit (r.bytes.take 4)
  unfold Handshake.readFrame
  dsimp only [FrameDecoder.feed, FrameDecoder.new]
  by_cases hlen : r.bytes.length < 4
  · refine ⟨sizes, ?_⟩
    rw [if_neg (by omega)] at hread
    rw [frameVerdict, if_pos (by omega), hread]
    exact ⟨_, [], rfl⟩
  rw [if_pos (by omega)] at hread
  rw [hread]
  dsimp only
  rw [List.nil_append, hfirst]
  rcases hv : frameVerdict limit r.bytes with _ | e | ⟨f, n⟩
  · have hmore : frameVerdict limit (r.bytes.take 4) = .more :=
      frameVerdict_prefix_more (by omega) (by rw [hv]; nofun)
    have hshort : r.bytes.length < 4 + ofBE (r.bytes.take 4) := by
      simp only [frameVerdict, hpre, if_neg hlen] at hv
      split_ifs at hv with h0 hlim hshort
      exact hshort
    refine ⟨sizes', ?_⟩
    rw [if_neg (by rw [List.length_drop]; omega)] at hbody
    rw [hmore]
    dsimp only
    rw [hbody]
    exact ⟨_, _, rfl⟩
  · refine ⟨sizes, ?_⟩
    rw [← hpre, frameVerdict_prefix hv]
    exact ⟨_, rfl⟩
  · have hmore : frameVerdict limit (r.bytes.take 4) = .more :=
      frameVerdict_prefix_more (by omega) (by rw [hv]; nofun)
    obtain ⟨-, hle, hn, -, -⟩ := frameVerdict_eq_unit hv
    rw [hpre] at hn
    have hwhole : r.bytes.take 4 ++ (r.bytes.drop 4).take (ofBE (r.bytes.take 4)) =
        r.bytes.take n := by rw [hn, List.take_add]
    have hnext := FrameDecoder.nextFrame_eq limit (r.bytes.take n)
    rw [frameVerdict_take hv] at hnext
    dsimp only at hnext
    rw [List.drop_take, Nat.sub_self, List.take_zero] at hnext
    refine ⟨sizes', ?_⟩
    rw [if_pos (by rw [List.length_drop]; omega), List.drop_drop, ← hn] at hbody
    rw [hmore]
    dsimp only
    rw [hbody]
    dsimp only
    rw [hwhole, hnext, hpre, show n - 4 = ofBE (r.bytes.take 4) by omega]

/-! ### Readers that keep a buffer -/

/-- A reader that is fed bytes and asked for frames. While no length was refused, it answers
by the verdict on what it has buffered, and a frame takes its bytes out of the buffer. -/
structure FrameBuffer (limit : UInt32) where
  State : Type
  empty : State
  feed : State → List UInt8 → State
  next : State → Except FrameError (Option Frame) × State
  buf : State → List UInt8
  Live : State → Prop
  live_empty : Live empty
  buf_empty : buf empty = []
  live_feed : ∀ s bytes, Live s → Live (feed s bytes)
  buf_feed : ∀ s bytes, buf (feed s bytes) = buf s ++ bytes
  next_eq : ∀ s, Live s → match frameVerdict limit (buf s) with
    | .more => next s = (.ok none, s)
    | .fail e => (next s).1 = .error e
    | .unit f n => ∃ s', next s = (.ok (some f), s') ∧ Live s' ∧ buf s' = (buf s).drop n

/-- The incremental decoder. -/
def FrameDecoder.buffer (limit : UInt32) : FrameBuffer limit where
  State := FrameDecoder
  empty := .new limit
  feed := FrameDecoder.feed
  next := FrameDecoder.nextFrame
  buf := FrameDecoder.buf
  Live := fun d => d.limit = limit ∧ d.poison = none
  live_empty := ⟨rfl, rfl⟩
  buf_empty := rfl
  live_feed := fun _ _ h => h
  buf_feed := fun _ _ => rfl
  next_eq := by
    rintro ⟨limit, buf, _⟩ ⟨rfl, rfl⟩
    rw [FrameDecoder.nextFrame_eq]
    dsimp only
    rcases frameVerdict limit buf with _ | e | ⟨f, n⟩
    · rfl
    · rfl
    · exact ⟨_, rfl, ⟨rfl, rfl⟩, rfl⟩

/-- The Browse codec over a buffer, as its stream handler uses it. -/
def ProtoBrowseCodec.buffer (codec : ProtoBrowseCodec) : FrameBuffer codec.maxFrameSize where
  State := List UInt8
  empty := []
  feed := (· ++ ·)
  next := fun buf =>
    match codec.delimitFrame buf with
    | .error e => (.error e, buf)
    | .ok none => (.ok none, buf)
    | .ok (some (frame, n)) => (.ok (some frame), buf.drop n)
  buf := id
  Live := fun _ => True
  live_empty := trivial
  buf_empty := rfl
  live_feed := fun _ _ _ => trivial
  buf_feed := fun _ _ => rfl
  next_eq := by
    intro buf _
    rw [codec.delimitFrame_eq]
    dsimp only [id]
    rcases frameVerdict codec.maxFrameSize buf with _ | e | ⟨f, n⟩
    · rfl
    · rfl
    · exact ⟨_, rfl, trivial, rfl⟩

end Readers

/-! ### The four readers -/

/-- Why a reader returned no frame: it refused a length, the stream ended within a frame, or
something the wire cannot bring about. -/
inductive ReaderError
  | refused (e : FrameError)
  | ended
  | broken
  deriving DecidableEq, Repr

/-- What a reader came to: the frame, what it left to the next reader (what it had buffered
but not taken, and the stream), the decoder of a handshake, and the buffers it sized from an
announced length. -/
structure FrameAnswer where
  outcome : Except ReaderError Frame
  rest : ScheduledRecv
  decoder : FrameDecoder
  sized : List ℕ

/-- Drive a reader that keeps a buffer: ask for a frame, and feed it a read while there is
none. -/
def FrameBuffer.pump {limit : UInt32} (b : FrameBuffer limit) (room : ℕ) (decoder : FrameDecoder)
    (s : b.State) (r : ScheduledRecv) : FrameAnswer :=
  match b.next s with
  | (.error e, _) => ⟨.error (.refused e), r, decoder, []⟩
  | (.ok (some f), s) => ⟨.ok f, { r with bytes := b.buf s ++ r.bytes }, decoder, []⟩
  | (.ok none, s) =>
    match _h : r.read (room + 1) with
    | (.error _, r) => ⟨.error .ended, r, decoder, []⟩
    | (.ok chunk, r) =>
      if chunk = [] then ⟨.error .ended, r, decoder, []⟩
      else b.pump room decoder (b.feed s chunk) r
termination_by r.bytes.length
decreasing_by
  rename_i hne
  obtain ⟨hbytes, -, -⟩ := ScheduledRecv.read_chunk _h (Nat.succ_pos room) hne
  have := List.length_pos_iff.mpr hne
  rw [hbytes, List.length_append]
  omega

/-- The four readers; one that keeps a buffer is fed reads of at most `room + 1` bytes. -/
inductive FrameReader
  | incremental (room : ℕ)
  | browse (room : ℕ)
  | transfer
  | handshake
  deriving DecidableEq, Repr

/-- How an answer of the transfer's reader is seen here. -/
def ReaderError.ofTransfer : TransferSessionError → ReaderError
  | .proto (.framing e) => .refused e
  | .streamClosed | .transport _ => .ended
  | _ => .broken

/-- How an answer of the handshake's reader is seen here. -/
def ReaderError.ofHandshake : HandshakeReadError → ReaderError
  | .framing e => .refused e
  | .unexpectedEof | .transport _ => .ended

/-- One of them reads a frame from a stream. -/
def FrameReader.read (codec : ProtoBrowseCodec) (decoder : FrameDecoder) (r : ScheduledRecv) :
    FrameReader → FrameAnswer
  | .incremental room =>
    (FrameDecoder.buffer codec.maxFrameSize).pump room decoder (.new codec.maxFrameSize) r
  | .browse room => codec.buffer.pump room decoder [] r
  | .transfer =>
    let (answer, rest, sized) := Transfer.readFrame r codec.maxFrameSize
    ⟨answer.mapError .ofTransfer, rest, decoder, sized⟩
  | .handshake =>
    let (answer, rest, decoder, sized) := Handshake.readFrame r decoder
    ⟨answer.mapError .ofHandshake, rest, decoder, sized⟩

/-- Read frames with one reader after the other, up to the first that returns none. -/
def FrameReader.readAll (codec : ProtoBrowseCodec) (decoder : FrameDecoder) (r : ScheduledRecv) :
    List FrameReader → List Frame × Option ReaderError × ScheduledRecv
  | [] => ([], none, r)
  | k :: ks =>
    let answer := k.read codec decoder r
    match answer.outcome with
    | .error e => ([], some e, answer.rest)
    | .ok f =>
      (f :: (readAll codec answer.decoder answer.rest ks).1,
        (readAll codec answer.decoder answer.rest ks).2)

/-- An answer is what the verdict on the stream says: the frame at its front, with all that
follows left behind; a refusal, with no buffer sized; or the end of the stream. -/
def FrameAnswer.Follows (a : FrameAnswer) (limit : UInt32) (r : ScheduledRecv) : Prop :=
  match frameVerdict limit r.bytes with
  | .unit f n => a.outcome = .ok f ∧ a.rest.toRecvStream = ⟨r.bytes.drop n, r.ending⟩ ∧
      a.decoder = .new limit
  | .fail e => a.outcome = .error (.refused e) ∧ a.sized = []
  | .more => a.outcome = .error .ended

/-- A reader that keeps a buffer follows the verdict on what it has and what is to come. -/
theorem FrameBuffer.pump_follows {limit : UInt32} (b : FrameBuffer limit) (room : ℕ)
    {s : b.State} (hs : b.Live s) (r : ScheduledRecv) :
    (b.pump room (.new limit) s r).Follows limit { r with bytes := b.buf s ++ r.bytes } := by
  induction hn : r.bytes.length using Nat.strong_induction_on generalizing s r with
  | _ len ih =>
    have hnext := b.next_eq s hs
    rw [FrameBuffer.pump]
    rcases hv : frameVerdict limit (b.buf s) with _ | e | ⟨f, n⟩
    · rw [hv] at hnext
      rw [hnext]
      dsimp only
      have hended : r.bytes = [] → frameVerdict limit (b.buf s ++ r.bytes) = .more := by
        intro hnil
        rw [hnil, List.append_nil, hv]
      split
      · rename_i e r' hread
        obtain ⟨-, -, heq⟩ | ⟨-, hnil, -, -⟩ | ⟨_, _, _, -, -, -, heq⟩ :=
          r.read_cases (Nat.succ_pos room)
        · rw [hread] at heq
          cases (Prod.mk.inj heq).1
        · simp only [FrameAnswer.Follows, hended hnil]
        · rw [hread] at heq
          cases (Prod.mk.inj heq).1
      · rename_i chunk r' hread
        split_ifs with hchunk
        · obtain ⟨hnil, -, -⟩ | ⟨_, -, -, heq⟩ | ⟨_, _, _, -, hne, -, heq⟩ :=
            r.read_cases (Nat.succ_pos room)
          · simp only [FrameAnswer.Follows, hended hnil]
          · rw [hread] at heq
            cases (Prod.mk.inj heq).1
          · rw [hread] at heq
            exact absurd ((Except.ok.inj (Prod.mk.inj heq).1).symm.trans hchunk) hne
        · obtain ⟨hbytes, hending, -⟩ := ScheduledRecv.read_chunk hread (Nat.succ_pos room) hchunk
          have hpos := List.length_pos_iff.mpr hchunk
          have hlen : r'.bytes.length < len := by
            rw [← hn, hbytes, List.length_append]
            omega
          have hrest := ih _ hlen (b.live_feed s chunk hs) r' rfl
          rw [b.buf_feed, List.append_assoc, ← hbytes] at hrest
          rw [FrameAnswer.Follows] at hrest ⊢
          dsimp only at hrest ⊢
          rwa [hending] at hrest
    · rw [hv] at hnext
      have hall : frameVerdict limit (b.buf s ++ r.bytes) = .fail e :=
        (frameParser limit).fail_append hv r.bytes
      rcases hb : b.next s with ⟨answer, s'⟩
      rw [hb] at hnext
      obtain rfl : answer = .error e := hnext
      simp only [FrameAnswer.Follows, hall, and_self]
    · rw [hv] at hnext
      obtain ⟨s', hb, hlive, hbuf⟩ := hnext
      have hall : frameVerdict limit (b.buf s ++ r.bytes) = .unit f n :=
        (frameParser limit).unit_append hv r.bytes
      rw [hb]
      simp only [FrameAnswer.Follows, hall, hbuf]
      refine ⟨trivial, ?_, trivial⟩
      rw [List.drop_append_of_le_length ((frameParser limit).consumed_le hv)]

/-- **Each of the four readers answers as the frame parser does**, whatever pieces the stream
delivers. -/
theorem FrameReader.read_follows (codec : ProtoBrowseCodec) (k : FrameReader)
    (r : ScheduledRecv) :
    (k.read codec (.new codec.maxFrameSize) r).Follows codec.maxFrameSize r := by
  cases k with
  | incremental room =>
      exact (FrameDecoder.buffer codec.maxFrameSize).pump_follows room
        (FrameDecoder.buffer codec.maxFrameSize).live_empty r
  | browse room => exact codec.buffer.pump_follows room trivial r
  | transfer =>
      obtain ⟨sizes, hspec⟩ := Transfer.readFrame_spec r codec.maxFrameSize
      unfold FrameAnswer.Follows FrameReader.read
      rcases hv : frameVerdict codec.maxFrameSize r.bytes with _ | e | ⟨f, n⟩
      · rw [hv] at hspec
        obtain ⟨sized, hspec⟩ := hspec
        rw [hspec]
        rcases r.ending with _ | e
        · rfl
        · cases e with
          | closed => rfl
          | _ => rfl
      · rw [hv] at hspec
        rw [hspec]
        exact ⟨rfl, rfl⟩
      · rw [hv] at hspec
        rw [hspec]
        exact ⟨rfl, rfl, rfl⟩
  | handshake =>
      obtain ⟨sizes, hspec⟩ := Handshake.readFrame_spec r codec.maxFrameSize
      unfold FrameAnswer.Follows FrameReader.read
      rcases hv : frameVerdict codec.maxFrameSize r.bytes with _ | e | ⟨f, n⟩
      · rw [hv] at hspec
        obtain ⟨decoder, sized, hspec⟩ := hspec
        rw [hspec]
        rcases r.ending with _ | e
        · rfl
        · rfl
      · rw [hv] at hspec
        obtain ⟨decoder, hspec⟩ := hspec
        rw [hspec]
        exact ⟨rfl, rfl⟩
      · rw [hv] at hspec
        rw [hspec]
        exact ⟨rfl, rfl, rfl⟩

/-! ### Over a whole stream -/

/-- A frame at the front takes its header and its payload. -/
theorem consumed_eq {limit : UInt32} {bs : List UInt8} {f : Frame} {n : ℕ}
    (h : frameVerdict limit bs = .unit f n) : n = frameHeaderLen + f.payload.length := by
  obtain ⟨hlt, hle, hn, -, rfl⟩ := frameVerdict_eq_unit h
  have hpre : lenPrefixLen = 4 := rfl
  have hhead : frameHeaderLen = 5 := rfl
  rw [List.length_take, List.length_drop]
  omega

/-- How many bytes frames take. -/
def framesLen (frames : List Frame) : ℕ :=
  (frames.map fun f => frameHeaderLen + f.payload.length).sum

/-- How the readers stop at the end of a parse. -/
def ReaderError.ofParse : Option FrameError → ReaderError
  | some e => .refused e
  | none => .ended

/-- Readers that take turns return the frames of the parse, stop where and as it does, and
leave what follows the frames they returned. -/
theorem FrameReader.readAll_eq (codec : ProtoBrowseCodec) (ks : List FrameReader)
    (r : ScheduledRecv) :
    let parse := (frameParser codec.maxFrameSize).parse r.bytes
    let all := readAll codec (.new codec.maxFrameSize) r ks
    all.1 = parse.1.take ks.length ∧
      (ks.length ≤ parse.1.length → all.2.1 = none ∧
        all.2.2.toRecvStream = ⟨r.bytes.drop (framesLen all.1), r.ending⟩) ∧
      (parse.1.length < ks.length → all.2.1 = some (.ofParse parse.2.1)) := by
  induction ks generalizing r with
  | nil => exact ⟨by rw [List.length_nil, List.take_zero, readAll], fun _ => ⟨rfl, rfl⟩, by simp⟩
  | cons k ks ih =>
      have hread := k.read_follows codec r
      unfold FrameAnswer.Follows at hread
      dsimp only
      rw [readAll]
      rcases hv : frameVerdict codec.maxFrameSize r.bytes with _ | e | ⟨f, n⟩
      · rw [hv] at hread
        have hparse := (frameParser codec.maxFrameSize).parse_more hv
        rw [hread, hparse]
        exact ⟨rfl, by simp, fun _ => rfl⟩
      · rw [hv] at hread
        have hparse := (frameParser codec.maxFrameSize).parse_fail hv
        rw [hread.1, hparse]
        exact ⟨rfl, by simp, fun _ => rfl⟩
      · rw [hv] at hread
        obtain ⟨houtcome, hrest, hdecoder⟩ := hread
        have hparse := (frameParser codec.maxFrameSize).parse_unit hv
        have hbytes : (k.read codec (.new codec.maxFrameSize) r).rest.bytes = r.bytes.drop n := by
          rw [hrest]
        have hending : (k.read codec (.new codec.maxFrameSize) r).rest.ending = r.ending := by
          rw [hrest]
        obtain ⟨hframes, hgo, hstop⟩ := ih (k.read codec (.new codec.maxFrameSize) r).rest
        rw [hbytes] at hframes hgo hstop
        rw [hending] at hgo
        rw [houtcome, hparse, hdecoder]
        refine ⟨?_, fun hle => ?_, fun hlt => ?_⟩
        · rw [List.length_cons, List.take_succ_cons, ← hframes]
        · obtain ⟨hnone, hleft⟩ := hgo (by simpa using hle)
          refine ⟨hnone, hleft.trans ?_⟩
          rw [List.drop_drop, framesLen, framesLen, List.map_cons, List.sum_cons, consumed_eq hv]
        · exact hstop (by simpa using hlt)

/-- **All frame readers agree.** Whatever is on a stream, whatever the bound and whatever
pieces the stream delivers: the four readers return the frame at the front with its type and
payload and leave exactly what follows it, or refuse a length of nothing or beyond the bound,
as they do when only the four bytes of the prefix have arrived and before a buffer is sized
from it, or find that the stream ends. Readers that take over from one another return the
frames of the stream in order; the incremental decoder hands out the same frames under every
schedule; and the Browse codec decodes the frame it delimits. -/
theorem readers_agree (codec : ProtoBrowseCodec) (r : ScheduledRecv) :
    (∀ k : FrameReader, (k.read codec (.new codec.maxFrameSize) r).Follows codec.maxFrameSize r) ∧
    (∀ e, frameVerdict codec.maxFrameSize r.bytes = .fail e →
      (∀ k : FrameReader, ∀ sizes, (k.read codec (.new codec.maxFrameSize)
        ⟨⟨r.bytes.take lenPrefixLen, r.ending⟩, sizes⟩).outcome = .error (.refused e)) ∧
      (Transfer.readFrame r codec.maxFrameSize).2.1.bytes = r.bytes.drop lenPrefixLen ∧
      (Handshake.readFrame r (.new codec.maxFrameSize)).2.1.bytes =
        r.bytes.drop lenPrefixLen) ∧
    (∀ ks : List FrameReader,
      let parse := (frameParser codec.maxFrameSize).parse r.bytes
      let all := FrameReader.readAll codec (.new codec.maxFrameSize) r ks
      all.1 = parse.1.take ks.length ∧
        (ks.length ≤ parse.1.length → all.2.1 = none ∧
          all.2.2.toRecvStream = ⟨r.bytes.drop (framesLen all.1), r.ending⟩) ∧
        (parse.1.length < ks.length → all.2.1 = some (.ofParse parse.2.1))) ∧
    (∀ ops : List (Incremental.Op UInt8), Incremental.fed ops = r.bytes →
      ∀ n, r.bytes.length < n →
        Incremental.units (FrameDecoder.run (.new codec.maxFrameSize)
          (ops ++ List.replicate n .pull)).1 =
            ((frameParser codec.maxFrameSize).parse r.bytes).1 ∧
        Incremental.firstError (FrameDecoder.run (.new codec.maxFrameSize)
          (ops ++ List.replicate n .pull)).1 =
            ((frameParser codec.maxFrameSize).parse r.bytes).2.1) ∧
    codec.decodeFrame r.bytes =
      match codec.delimitFrame r.bytes with
      | .error e => .error (.codecError (.framing e))
      | .ok none => .ok none
      | .ok (some (frame, n)) => (codec.decodeMessage frame).map fun msg => some (msg, n) := by
  refine ⟨fun k => k.read_follows codec r, fun e he => ⟨fun k sizes => ?_, ?_, ?_⟩,
    fun ks => FrameReader.readAll_eq codec ks r, fun ops hfed n hn => ?_,
    codec.decodeFrame_eq_delimitFrame r.bytes⟩
  · have hread := k.read_follows codec ⟨⟨r.bytes.take lenPrefixLen, r.ending⟩, sizes⟩
    rw [FrameAnswer.Follows, frameVerdict_prefix he] at hread
    exact hread.1
  · obtain ⟨sizes, hspec⟩ := Transfer.readFrame_spec r codec.maxFrameSize
    rw [he] at hspec
    rw [hspec]
  · obtain ⟨sizes, hspec⟩ := Handshake.readFrame_spec r codec.maxFrameSize
    rw [he] at hspec
    obtain ⟨decoder, hspec⟩ := hspec
    rw [hspec]
  · have hle := (frameParser codec.maxFrameSize).length_parse_le (Incremental.fed ops)
    have hrun := congrArg Prod.fst (FrameDecoder.run_eq (.new codec.maxFrameSize)
      (ops ++ List.replicate n .pull))
    obtain ⟨hu, herr, -⟩ := Incremental.run_drain (frameParser codec.maxFrameSize) ops (k := n)
      (by rw [hfed] at hle ⊢; omega) (fun _ => by rw [hfed] at hle ⊢; omega)
    rw [hfed] at hu herr
    dsimp only at hrun
    rw [hrun]
    exact ⟨hu, herr⟩

namespace ZeroLength

/-- A codec whose protobuf layer is not reached. -/
def codec : ProtoBrowseCodec where
  proto :=
    { listDir := ⟨fun _ => [], fun _ => none⟩
      dirListing := ⟨fun _ => [], fun _ => none⟩
      stat := ⟨fun _ => [], fun _ => none⟩
      statResult := ⟨fun _ => [], fun _ => none⟩
      readFile := ⟨fun _ => [], fun _ => none⟩
      readFileBegin := ⟨fun _ => [], fun _ => none⟩
      writeFile := ⟨fun _ => [], fun _ => none⟩
      mkdir := ⟨fun _ => [], fun _ => none⟩
      delete := ⟨fun _ => [], fun _ => none⟩
      rename := ⟨fun _ => [], fun _ => none⟩
      ack := ⟨fun _ => [], fun _ => none⟩
      refused := ⟨fun _ => [], fun _ => none⟩ }
  maxFrameSize := 512

/-- A length of nothing, which arrives in two pieces, and more bytes. -/
def stream : ScheduledRecv := ⟨⟨[0, 0, 0, 0, 1, 2], none⟩, [3, 1]⟩

end ZeroLength

/-- A length of nothing is refused by all of them, from the prefix alone. -/
theorem readers_agree_zero_length :
    (∀ k : FrameReader, (k.read ZeroLength.codec (.new 512)
      ⟨⟨[0, 0, 0, 0], none⟩, [3, 1]⟩).outcome = .error (.refused .empty)) ∧
    Incremental.firstError (FrameDecoder.run (.new 512)
      ([.feed [0, 0, 0, 0, 1, 2]] ++ List.replicate 7 .pull)).1 = some .empty := by
  obtain ⟨-, hfail, -, hops, -⟩ := readers_agree ZeroLength.codec ZeroLength.stream
  have hzero : frameVerdict ZeroLength.codec.maxFrameSize ZeroLength.stream.bytes =
      .fail .empty := rfl
  have hparse : (frameParser ZeroLength.codec.maxFrameSize).parse ZeroLength.stream.bytes =
      ([], some .empty, []) := Incremental.Parser.parse_fail hzero
  refine ⟨fun k => (hfail .empty hzero).1 k [3, 1], ?_⟩
  have herr := (hops [.feed [0, 0, 0, 0, 1, 2]] rfl 7 (by decide)).2
  rw [hparse] at herr
  exact herr

end Tradr
