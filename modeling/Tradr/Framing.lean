import Mathlib.Data.List.Forall2
import Mathlib.Data.List.GetD
import Tradr.BigEndian
import Tradr.Incremental

/-!
# Byte Framing

The wire framing of `tradr-proto`: a frame is `[len : u32 BE][type : u8][payload]`,
where `len` counts the type byte and the payload and never itself. `encodeFrame`
writes one frame under the peer's limit; `FrameDecoder` assembles frames from bytes
that arrive in arbitrary chunks, refuses a bad length the moment its four bytes are in
hand, and repeats that refusal for ever after.

The decoder is the incremental decoder of `Incremental` for the unit parser
`frameParser` (`FrameDecoder.run_eq`), so that the chunking laws are instances of the
library's.

## Main results

* `frameParser_encodeFrame`: an encoded frame in front of any bytes is parsed back.
* `parse_flatten`: a concatenation of encodings parses to its frames and nothing else.
* `FrameDecoder.decodes_exactly`: the frames an encoder accepted come out of any
  schedule, what any byte string yields depends on the bytes alone, and an error is
  absorbing.
-/

open BigEndian

namespace Tradr

/-! ### Encoding -/

/-- Four length bytes plus the type byte. -/
def frameHeaderLen : ℕ := 5

/-- The four-byte length prefix alone. -/
def lenPrefixLen : ℕ := frameHeaderLen - 1

/-- A frame that could not be encoded or decoded. `announced` is the value the length
field carries, or would carry. -/
inductive FrameError
  | oversized (announced : ℕ) (limit : UInt32)
  | empty
  deriving DecidableEq, Repr

/-- Encode `payload` under `typeCode`, refusing a frame the peer's `limit` does not
admit. -/
def encodeFrame (typeCode : UInt8) (payload : List UInt8) (limit : UInt32) :
    Except FrameError (List UInt8) :=
  let announced := 1 + payload.length
  if announced > limit.toNat then .error (.oversized announced limit)
  else .ok (toBE 4 announced ++ typeCode :: payload)

/-- What an accepted encoding looks like. -/
theorem encodeFrame_eq_ok_iff {typeCode : UInt8} {payload enc : List UInt8}
    {limit : UInt32} :
    encodeFrame typeCode payload limit = .ok enc ↔
      1 + payload.length ≤ limit.toNat ∧
        enc = toBE 4 (1 + payload.length) ++ typeCode :: payload := by
  simp only [encodeFrame]
  split
  · constructor
    · intro h
      cases h
    · rintro ⟨h, -⟩
      omega
  · constructor
    · intro h
      exact ⟨by omega, (Except.ok.inj h).symm⟩
    · rintro ⟨-, rfl⟩
      rfl

/-! ### Decoding -/

/-- A decoded frame: a type code carried verbatim and its payload. -/
structure Frame where
  typeCode : UInt8
  payload : List UInt8
  deriving DecidableEq, Repr

/-- Assembles frames out of a byte stream fed to it in arbitrary chunks. -/
structure FrameDecoder where
  limit : UInt32
  buf : List UInt8
  poison : Option FrameError

/-- A decoder bounded by this side's own advertised maximum frame size. -/
def FrameDecoder.new (limit : UInt32) : FrameDecoder :=
  ⟨limit, [], none⟩

/-- Append received bytes; never fails and never inspects them. -/
def FrameDecoder.feed (d : FrameDecoder) (bytes : List UInt8) : FrameDecoder :=
  { d with buf := d.buf ++ bytes }

/-- How many bytes no yielded frame has consumed. -/
def FrameDecoder.bufferedLen (d : FrameDecoder) : ℕ :=
  d.buf.length

/-- Pull the next complete frame out of the buffered bytes, if one is available. -/
def FrameDecoder.nextFrame (d : FrameDecoder) :
    Except FrameError (Option Frame) × FrameDecoder :=
  match d.poison with
  | some err => (.error err, d)
  | none =>
    if d.buf.length < lenPrefixLen then (.ok none, d)
    else
      let announced := ofBE (d.buf.take lenPrefixLen)
      if announced = 0 then
        (.error .empty, { d with poison := some .empty, buf := [] })
      else if announced > d.limit.toNat then
        (.error (.oversized announced d.limit),
          { d with poison := some (.oversized announced d.limit), buf := [] })
      else
        let totalLen := lenPrefixLen + announced
        if d.buf.length < totalLen then (.ok none, d)
        else
          (.ok (some ⟨d.buf.getD lenPrefixLen 0,
              (d.buf.drop (lenPrefixLen + 1)).take (totalLen - (lenPrefixLen + 1))⟩),
            { d with buf := d.buf.drop totalLen })

/-- Run a schedule of feeds and `nextFrame` calls, collecting the answers. -/
def FrameDecoder.run : FrameDecoder → List (Incremental.Op UInt8) →
    List (Except FrameError (Option Frame)) × FrameDecoder :=
  Incremental.runWith FrameDecoder.feed FrameDecoder.nextFrame

/-! ### The unit parser -/

/-- What stands at the front of a byte stream, under a limit. -/
def frameVerdict (limit : UInt32) (bs : List UInt8) :
    Incremental.Verdict Frame FrameError :=
  if bs.length < lenPrefixLen then .more
  else
    let announced := ofBE (bs.take lenPrefixLen)
    if announced = 0 then .fail .empty
    else if announced > limit.toNat then .fail (.oversized announced limit)
    else if bs.length < lenPrefixLen + announced then .more
    else
      .unit ⟨bs.getD lenPrefixLen 0,
        (bs.drop (lenPrefixLen + 1)).take (lenPrefixLen + announced - (lenPrefixLen + 1))⟩
        (lenPrefixLen + announced)

/-- Inversion of a frame at the front of the stream. -/
theorem frameVerdict_eq_unit {limit : UInt32} {bs : List UInt8} {f : Frame} {n : ℕ}
    (h : frameVerdict limit bs = .unit f n) :
    lenPrefixLen < n ∧ n ≤ bs.length ∧ n = lenPrefixLen + ofBE (bs.take lenPrefixLen) ∧
      ofBE (bs.take lenPrefixLen) ≤ limit.toNat ∧
      f = ⟨bs.getD lenPrefixLen 0,
        (bs.drop (lenPrefixLen + 1)).take (n - (lenPrefixLen + 1))⟩ := by
  simp only [frameVerdict] at h
  split at h
  · cases h
  split at h
  · cases h
  split at h
  · cases h
  split at h
  · cases h
  injection h with hf hn
  subst hn
  exact ⟨by omega, by omega, rfl, by omega, hf.symm⟩

/-- A frame is the same one under every limit that admits it. -/
theorem frameVerdict_unit_unique {limit limit' : UInt32} {bs : List UInt8} {f f' : Frame}
    {n n' : ℕ} (h : frameVerdict limit bs = .unit f n) (h' : frameVerdict limit' bs = .unit f' n') :
    f' = f ∧ n' = n := by
  obtain ⟨-, -, hn, -, rfl⟩ := frameVerdict_eq_unit h
  obtain ⟨-, -, hn', -, rfl⟩ := frameVerdict_eq_unit h'
  rw [hn, hn']
  exact ⟨rfl, rfl⟩

/-- Inversion of a refusal: the four length bytes are in hand. -/
theorem frameVerdict_eq_fail {limit : UInt32} {bs : List UInt8} {e : FrameError}
    (h : frameVerdict limit bs = .fail e) :
    lenPrefixLen ≤ bs.length ∧
      ((ofBE (bs.take lenPrefixLen) = 0 ∧ e = .empty) ∨
        (ofBE (bs.take lenPrefixLen) ≠ 0 ∧ limit.toNat < ofBE (bs.take lenPrefixLen) ∧
          e = .oversized (ofBE (bs.take lenPrefixLen)) limit)) := by
  simp only [frameVerdict] at h
  split at h
  · cases h
  split at h
  · injection h with he
    exact ⟨by omega, Or.inl ⟨by assumption, he.symm⟩⟩
  split at h
  · injection h with he
    exact ⟨by omega, Or.inr ⟨by assumption, by omega, he.symm⟩⟩
  split at h <;> cases h

/-- The length prefix of a longer stream. -/
theorem take_lenPrefix_append {bs : List UInt8} (h : lenPrefixLen ≤ bs.length)
    (t : List UInt8) : (bs ++ t).take lenPrefixLen = bs.take lenPrefixLen :=
  List.take_append_of_le_length h

/-- The **frame parser**: prefix-stable, since the verdict reads only the bytes it
counts. -/
def frameParser (limit : UInt32) : Incremental.Parser UInt8 Frame FrameError where
  next := frameVerdict limit
  consumed_pos h := by
    have := (frameVerdict_eq_unit h).1
    omega
  consumed_le h := (frameVerdict_eq_unit h).2.1
  unit_append := by
    intro bs f n h t
    obtain ⟨hlt, hle, hn, hlim, rfl⟩ := frameVerdict_eq_unit h
    have hpre := take_lenPrefix_append (show lenPrefixLen ≤ bs.length by omega) t
    have hget : (bs ++ t).getD lenPrefixLen 0 = bs.getD lenPrefixLen 0 := by
      rw [List.getD_append _ _ _ _ (by omega)]
    have hdrop : ((bs ++ t).drop (lenPrefixLen + 1)).take (n - (lenPrefixLen + 1)) =
        (bs.drop (lenPrefixLen + 1)).take (n - (lenPrefixLen + 1)) := by
      rw [List.drop_append_of_le_length (by omega),
        List.take_append_of_le_length (by rw [List.length_drop]; omega)]
    simp only [frameVerdict, hpre, List.length_append]
    rw [if_neg (by omega), if_neg (by omega), if_neg (by omega), if_neg (by omega), ← hn,
      hget, hdrop]
  fail_append := by
    intro bs e h t
    obtain ⟨hle, hcase⟩ := frameVerdict_eq_fail h
    have hpre := take_lenPrefix_append hle t
    simp only [frameVerdict, hpre, List.length_append]
    rw [if_neg (by omega)]
    rcases hcase with ⟨h0, rfl⟩ | ⟨h0, hgt, rfl⟩
    · rw [if_pos h0]
    · rw [if_neg h0, if_pos hgt]

@[simp] theorem frameParser_next (limit : UInt32) :
    (frameParser limit).next = frameVerdict limit := rfl

/-- The verdict on a frame needs its own bytes only. -/
theorem frameVerdict_take {limit : UInt32} {bs : List UInt8} {f : Frame} {n : ℕ}
    (h : frameVerdict limit bs = .unit f n) : frameVerdict limit (bs.take n) = .unit f n := by
  obtain ⟨hlt, hle, hn, hlim, rfl⟩ := frameVerdict_eq_unit h
  have htake : (bs.take n).take lenPrefixLen = bs.take lenPrefixLen := by
    rw [List.take_take, Nat.min_eq_left (by omega)]
  have hlen : (bs.take n).length = n := List.length_take_of_le hle
  have hget : (bs.take n).getD lenPrefixLen 0 = bs.getD lenPrefixLen 0 := by
    rw [List.getD_eq_getElem?_getD, List.getD_eq_getElem?_getD, List.getElem?_take_of_lt hlt]
  have hdrop : ((bs.take n).drop (lenPrefixLen + 1)).take (n - (lenPrefixLen + 1)) =
      (bs.drop (lenPrefixLen + 1)).take (n - (lenPrefixLen + 1)) := by
    rw [List.drop_take, List.take_take, Nat.min_self]
  simp only [frameVerdict, htake, hlen, hget]
  rw [if_neg (by omega), if_neg (by omega), if_neg (by omega), if_neg (by omega), ← hn, hdrop]

/-- The verdict on a length that is refused needs its four bytes only. -/
theorem frameVerdict_prefix {limit : UInt32} {bs : List UInt8} {e : FrameError}
    (h : frameVerdict limit bs = .fail e) :
    frameVerdict limit (bs.take lenPrefixLen) = .fail e := by
  obtain ⟨hle, hcase⟩ := frameVerdict_eq_fail h
  have htake : (bs.take lenPrefixLen).take lenPrefixLen = bs.take lenPrefixLen := by
    rw [List.take_take, Nat.min_self]
  have hlen : (bs.take lenPrefixLen).length = lenPrefixLen := List.length_take_of_le hle
  simp only [frameVerdict, htake, hlen]
  rw [if_neg (by omega)]
  rcases hcase with ⟨h0, rfl⟩ | ⟨h0, hgt, rfl⟩
  · rw [if_pos h0]
  · rw [if_neg h0, if_pos hgt]

/-- The four bytes of a length that is not refused are no frame yet. -/
theorem frameVerdict_prefix_more {limit : UInt32} {bs : List UInt8}
    (hlen : lenPrefixLen ≤ bs.length) (h : ∀ e, frameVerdict limit bs ≠ .fail e) :
    frameVerdict limit (bs.take lenPrefixLen) = .more := by
  have htake : (bs.take lenPrefixLen).take lenPrefixLen = bs.take lenPrefixLen := by
    rw [List.take_take, Nat.min_self]
  have hlen' : (bs.take lenPrefixLen).length = lenPrefixLen := List.length_take_of_le hlen
  simp only [frameVerdict, if_neg (show ¬bs.length < lenPrefixLen by omega)] at h
  simp only [frameVerdict, htake, hlen', if_neg (lt_irrefl lenPrefixLen)]
  by_cases h0 : ofBE (bs.take lenPrefixLen) = 0
  · exact absurd (if_pos h0) (h _)
  by_cases hlim : ofBE (bs.take lenPrefixLen) > limit.toNat
  · exact absurd ((if_neg h0).trans (if_pos hlim)) (h _)
  rw [if_neg h0, if_neg hlim, if_pos (by omega)]

/-- **An encoded frame in front of any bytes is parsed back**, and exactly its bytes
are consumed. -/
theorem frameParser_encodeFrame {limit : UInt32} {typeCode : UInt8}
    {payload enc : List UInt8} (h : encodeFrame typeCode payload limit = .ok enc)
    (rest : List UInt8) :
    (frameParser limit).next (enc ++ rest) = .unit ⟨typeCode, payload⟩ enc.length := by
  obtain ⟨hle, rfl⟩ := encodeFrame_eq_ok_iff.mp h
  have hlim : limit.toNat < 256 ^ 4 := limit.toNat_lt
  have htake : (toBE 4 (1 + payload.length) ++ typeCode :: payload ++ rest).take
      lenPrefixLen = toBE 4 (1 + payload.length) := by
    rw [List.append_assoc, List.take_append_of_le_length (by simp [lenPrefixLen, frameHeaderLen]),
      List.take_of_length_le (by simp [lenPrefixLen, frameHeaderLen])]
  have hread : ofBE (toBE 4 (1 + payload.length)) = 1 + payload.length :=
    ofBE_toBE (by omega)
  have hdrop : (toBE 4 (1 + payload.length) ++ typeCode :: payload ++ rest).drop 4 =
      typeCode :: (payload ++ rest) := by
    rw [List.append_assoc, List.drop_append_of_le_length (by simp),
      List.drop_of_length_le (by simp)]
    rfl
  have hget : (toBE 4 (1 + payload.length) ++ typeCode :: payload ++ rest).getD
      lenPrefixLen 0 = typeCode := by
    rw [List.append_assoc, List.getD_append_right _ _ _ _ (by simp [lenPrefixLen, frameHeaderLen])]
    simp [lenPrefixLen, frameHeaderLen]
  have hpay : ((toBE 4 (1 + payload.length) ++ typeCode :: payload ++ rest).drop
      (lenPrefixLen + 1)).take (lenPrefixLen + (1 + payload.length) - (lenPrefixLen + 1)) =
      payload := by
    have hstep : lenPrefixLen + 1 = 4 + 1 := rfl
    rw [hstep, ← List.drop_drop, hdrop]
    have hlen : lenPrefixLen + (1 + payload.length) - (4 + 1) = payload.length := by
      simp only [lenPrefixLen, frameHeaderLen]
      omega
    rw [hlen]
    simp
  have hlen : (toBE 4 (1 + payload.length) ++ typeCode :: payload).length =
      lenPrefixLen + (1 + payload.length) := by
    simp only [List.length_append, length_toBE, List.length_cons, lenPrefixLen,
      frameHeaderLen]
    omega
  simp only [frameParser_next, frameVerdict, htake, hread, hget, hpay]
  rw [if_neg (by rw [List.length_append, hlen]; omega), if_neg (by omega),
    if_neg (by omega), if_neg (by rw [List.length_append, hlen]; omega), hlen]

/-- A frame at the front is the encoding of what it carries. -/
theorem encodeFrame_of_unit {limit : UInt32} {bs : List UInt8} {f : Frame} {n : ℕ}
    (h : frameVerdict limit bs = .unit f n) :
    encodeFrame f.typeCode f.payload limit = .ok (bs.take n) := by
  obtain ⟨hlt, hle, hn, hlim, rfl⟩ := frameVerdict_eq_unit h
  have hpre : lenPrefixLen = 4 := rfl
  rw [hpre] at hlt hn hlim ⊢
  have hlen : ((bs.drop (4 + 1)).take (n - (4 + 1))).length = n - 5 := by
    rw [List.length_take, List.length_drop]
    omega
  refine encodeFrame_eq_ok_iff.mpr ⟨?_, ?_⟩
  · rw [hlen]
    omega
  · have hword : toBE 4 (1 + ((bs.drop (4 + 1)).take (n - (4 + 1))).length) = bs.take 4 := by
      have hback := toBE_ofBE (bs.take 4)
      rw [List.length_take, Nat.min_eq_left (by omega)] at hback
      rw [hlen, show 1 + (n - 5) = ofBE (bs.take 4) by omega, hback]
    have hbody : bs.getD 4 0 :: (bs.drop (4 + 1)).take (n - (4 + 1)) =
        (bs.drop 4).take (n - 4) := by
      rw [List.drop_eq_getElem_cons (show 4 < bs.length by omega),
        show n - 4 = (n - (4 + 1)) + 1 by omega, List.take_succ_cons,
        List.getD_eq_getElem _ _ (show 4 < bs.length by omega)]
    rw [hword, hbody, ← List.take_add, show 4 + (n - 4) = n by omega]

/-- **A concatenation of encodings parses to its frames**, with no error and nothing
left over. -/
theorem parse_flatten {limit : UInt32} {frames : List (UInt8 × List UInt8)}
    {encs : List (List UInt8)}
    (h : List.Forall₂ (fun f enc => encodeFrame f.1 f.2 limit = .ok enc) frames encs) :
    (frameParser limit).parse encs.flatten =
      (frames.map fun f => ⟨f.1, f.2⟩, none, []) := by
  induction h with
  | nil => exact Incremental.Parser.parse_more rfl
  | @cons f enc frames encs hf _ ih =>
      rw [List.flatten_cons,
        Incremental.Parser.parse_unit (frameParser_encodeFrame hf encs.flatten),
        List.drop_left, ih]
      rfl

/-! ### The decoder is the incremental decoder of the parser -/

/-- What the incremental decoder of the library sees of a `FrameDecoder`. -/
def FrameDecoder.view (d : FrameDecoder) : Incremental.Decoder UInt8 FrameError :=
  ⟨d.buf, d.poison⟩

/-- The limit never changes. -/
theorem FrameDecoder.nextFrame_limit (d : FrameDecoder) :
    d.nextFrame.2.limit = d.limit := by
  simp only [FrameDecoder.nextFrame]
  split
  · rfl
  · repeat' split
    all_goals rfl

/-- One call of `nextFrame` is one pull of the library's decoder. -/
theorem FrameDecoder.view_nextFrame (d : FrameDecoder) :
    (d.nextFrame.1, d.nextFrame.2.view) = d.view.pull (frameParser d.limit) := by
  obtain ⟨limit, buf, poison⟩ := d
  cases poison with
  | some e => rfl
  | none =>
      simp only [FrameDecoder.nextFrame, FrameDecoder.view, Incremental.Decoder.pull,
        frameParser, frameVerdict]
      split
      · rfl
      split
      · rfl
      split
      · rfl
      split <;> rfl

/-- What `nextFrame` answers, by the verdict on its buffer. -/
theorem FrameDecoder.nextFrame_eq (limit : UInt32) (buf : List UInt8) :
    (⟨limit, buf, none⟩ : FrameDecoder).nextFrame =
      match frameVerdict limit buf with
      | .more => (.ok none, ⟨limit, buf, none⟩)
      | .fail e => (.error e, ⟨limit, [], some e⟩)
      | .unit f n => (.ok (some f), ⟨limit, buf.drop n, none⟩) := by
  simp only [FrameDecoder.nextFrame, frameVerdict]
  split_ifs
  · rfl
  · rfl
  · rfl
  · rfl
  · rfl

/-- A new decoder that was fed one encoded frame yields it. -/
theorem FrameDecoder.nextFrame_encodeFrame {limit : UInt32} {typeCode : UInt8}
    {payload enc : List UInt8} (h : encodeFrame typeCode payload limit = .ok enc) :
    ((FrameDecoder.new limit).feed enc).nextFrame.1 = .ok (some ⟨typeCode, payload⟩) := by
  have hunit := frameParser_encodeFrame h []
  rw [List.append_nil] at hunit
  have hview := FrameDecoder.view_nextFrame ((FrameDecoder.new limit).feed enc)
  have hlim : ((FrameDecoder.new limit).feed enc).limit = limit := rfl
  have hbuf : ((FrameDecoder.new limit).feed enc).view = ⟨enc, none⟩ := rfl
  rw [hlim, hbuf, Incremental.Decoder.pull] at hview
  simp only [hunit] at hview
  exact congrArg Prod.fst hview

/-- Every schedule gives the answers of the library's decoder, from any state. -/
theorem FrameDecoder.run_eq (d : FrameDecoder) (ops : List (Incremental.Op UInt8)) :
    ((d.run ops).1, (d.run ops).2.view) =
      Incremental.run (frameParser d.limit) d.view ops := by
  refine Incremental.runWith_eq_run FrameDecoder.feed FrameDecoder.nextFrame
    (frameParser d.limit) FrameDecoder.view (fun d' => d'.limit = d.limit) ?_ ?_ ?_ ?_
    d rfl ops
  · intro d' bs hd
    exact hd
  · intro d' hd
    rw [FrameDecoder.nextFrame_limit, hd]
  · intro d' bs hd
    rfl
  · intro d' hd
    rw [FrameDecoder.view_nextFrame, hd]

/-- **Frame streams decode exactly and independently of chunking.** The frames an
encoder accepted come out of every schedule of feeds and `nextFrame` calls, in order,
leaving an empty buffer; what any byte string yields before its first error, and that
error, are a function of the bytes alone; and once an error was returned, every later
call returns it, whatever is fed. -/
theorem FrameDecoder.decodes_exactly (limit : UInt32) :
    (∀ (frames : List (UInt8 × List UInt8)) (encs : List (List UInt8)),
      List.Forall₂ (fun f enc => encodeFrame f.1 f.2 limit = .ok enc) frames encs →
      ∀ (ops : List (Incremental.Op UInt8)), Incremental.fed ops = encs.flatten →
      ∀ k, frames.length ≤ k →
        Incremental.units (FrameDecoder.run (.new limit)
            (ops ++ List.replicate k .pull)).1 = (frames.map fun f => ⟨f.1, f.2⟩) ∧
        Incremental.firstError (FrameDecoder.run (.new limit)
            (ops ++ List.replicate k .pull)).1 = none ∧
        (FrameDecoder.run (.new limit) (ops ++ List.replicate k .pull)).2.buf = []) ∧
    (∀ bytes : List UInt8, ∃ (frames : List Frame) (err : Option FrameError),
      ∀ ops : List (Incremental.Op UInt8), Incremental.fed ops = bytes →
        Incremental.units (FrameDecoder.run (.new limit) ops).1 <+: frames ∧
        (∀ e, Incremental.firstError (FrameDecoder.run (.new limit) ops).1 = some e →
          Incremental.units (FrameDecoder.run (.new limit) ops).1 = frames ∧
            err = some e) ∧
        ∀ k, bytes.length < k →
          Incremental.units (FrameDecoder.run (.new limit)
              (ops ++ List.replicate k .pull)).1 = frames ∧
          Incremental.firstError (FrameDecoder.run (.new limit)
              (ops ++ List.replicate k .pull)).1 = err) ∧
    (∀ (ops : List (Incremental.Op UInt8)) (e : FrameError),
      Incremental.firstError (FrameDecoder.run (.new limit) ops).1 = some e →
      ∀ ops' : List (Incremental.Op UInt8),
        ∀ out ∈ (FrameDecoder.run (FrameDecoder.run (.new limit) ops).2 ops').1,
          out = .error e) := by
  have hout : ∀ ops, (FrameDecoder.run (.new limit) ops).1 =
      (Incremental.run (frameParser limit) .fresh ops).1 := fun ops =>
    congrArg Prod.fst (FrameDecoder.run_eq (.new limit) ops)
  have hview : ∀ ops, (FrameDecoder.run (.new limit) ops).2.view =
      (Incremental.run (frameParser limit) .fresh ops).2 := fun ops =>
    congrArg Prod.snd (FrameDecoder.run_eq (.new limit) ops)
  refine ⟨?_, ?_, ?_⟩
  · intro frames encs henc ops hfed k hk
    have hparse := parse_flatten henc
    rw [← hfed] at hparse
    obtain ⟨hu, he, hbuf⟩ := Incremental.run_drain (frameParser limit) ops (k := k)
      (by rw [hparse]; simpa using hk) (fun hne => absurd (by rw [hparse]) hne)
    rw [hparse] at hu he hbuf
    have hb := congrArg Incremental.Decoder.buf (hview (ops ++ List.replicate k .pull))
    rw [hout, hu, he]
    exact ⟨rfl, rfl, hb.trans (hbuf rfl)⟩
  · intro bytes
    refine ⟨((frameParser limit).parse bytes).1, ((frameParser limit).parse bytes).2.1, ?_⟩
    rintro ops rfl
    have hle := (frameParser limit).length_parse_le (Incremental.fed ops)
    refine ⟨?_, ?_, ?_⟩
    · rw [hout]
      exact Incremental.units_run_prefix _ ops
    · intro e he
      rw [hout] at he ⊢
      obtain ⟨hu, herr, -⟩ := Incremental.run_of_firstError (frameParser limit) he
      exact ⟨hu, herr⟩
    · intro k hk
      obtain ⟨hu, he, -⟩ := Incremental.run_drain (frameParser limit) ops (k := k)
        (by omega) (fun _ => by omega)
      rw [hout]
      exact ⟨hu, he⟩
  · intro ops e he ops'
    rw [hout] at he
    have hpoison : (FrameDecoder.run (.new limit) ops).2.poison = some e := by
      have hp := (Incremental.run_of_firstError (frameParser limit) he).2.2
      rw [← hview] at hp
      exact hp
    generalize (FrameDecoder.run (.new limit) ops).2 = d at hpoison
    have hrun := congrArg Prod.fst (FrameDecoder.run_eq d ops')
    intro out hmem
    refine (Incremental.run_poisoned (p := frameParser d.limit) (d := d.view) hpoison ops').1
      out ?_
    rw [← hrun]
    exact hmem

/-- Two frames with the header of the first split across two feeds, and a zero length
after which a valid frame is fed. -/
theorem FrameDecoder.decodes_exactly_split_header :
    (Incremental.units (FrameDecoder.run (.new 1024)
        ([.feed [0, 0], .pull, .feed [0, 3, 7, 104, 105, 0, 0, 0, 1, 2]] ++
          List.replicate 2 .pull)).1 = [⟨7, [104, 105]⟩, ⟨2, []⟩] ∧
      Incremental.firstError (FrameDecoder.run (.new 1024)
        ([.feed [0, 0], .pull, .feed [0, 3, 7, 104, 105, 0, 0, 0, 1, 2]] ++
          List.replicate 2 .pull)).1 = none ∧
      (FrameDecoder.run (.new 1024)
        ([.feed [0, 0], .pull, .feed [0, 3, 7, 104, 105, 0, 0, 0, 1, 2]] ++
          List.replicate 2 .pull)).2.buf = []) ∧
    ∀ out ∈ (FrameDecoder.run (FrameDecoder.run (.new 1024)
        [.feed [0, 0, 0, 0], .pull]).2 [.feed [0, 0, 0, 1, 2], .pull]).1,
      out = .error .empty :=
  ⟨(FrameDecoder.decodes_exactly 1024).1 [(7, [104, 105]), (2, [])]
      [[0, 0, 0, 3, 7, 104, 105], [0, 0, 0, 1, 2]]
      (.cons (by decide) (.cons (by decide) .nil)) _ rfl 2 le_rfl,
    (FrameDecoder.decodes_exactly 1024).2.2 [.feed [0, 0, 0, 0], .pull] .empty (by decide) _⟩

end Tradr
