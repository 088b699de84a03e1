import Tradr.BigEndian
import Tradr.Incremental
import Tradr.Streams

/-!
# Record Framing

A noise channel runs over a link that moves records. Where the link below is a stream of
bytes whose operations have no boundaries, each record goes out behind its length in two
bytes (`RecordSink`) and is put together again on the other side (`RecordSource`).

What stands at the front of the receiving buffer is judged by a prefix-stable unit parser
(`recordParser`), so that the records that come out are those of the parse of all bytes,
however the link cut them.

## Main results

* `recvLoop_parse`: what one call yields, by the parse of the bytes that are still to come.
* `RecordSource.peak_recvCalls`: the buffer stays bounded on every link.
* `RecordSource.reassembles`: records come out as they went in, and the first error stays.
-/

open BigEndian Incremental

namespace Tradr

/-! ### Sending -/

/-- Frames outgoing records with a length prefix onto a byte sink. -/
structure RecordSink where
  inner : SendStream
  maxRecord : UInt16

/-- A record as it goes onto the byte sink: its length, then its bytes. -/
def recordWire (record : List UInt8) : List UInt8 :=
  toBE 2 record.length ++ record

/-- Send one record, unless it is empty or too long. -/
def RecordSink.sendRecord (s : RecordSink) (record : List UInt8) :
    Except TransportError Unit × RecordSink :=
  if record = [] ∨ record.length > s.maxRecord.toNat then (.error (.io .invalidInput), s)
  else ((s.inner.writeAll (recordWire record)).1,
    { s with inner := (s.inner.writeAll (recordWire record)).2 })

/-- Send records one after another until one is not accepted. -/
def RecordSink.sendAll (s : RecordSink) : List (List UInt8) →
    Except TransportError Unit × RecordSink
  | [] => (.ok (), s)
  | record :: records =>
    match s.sendRecord record with
    | (.error e, s) => (.error e, s)
    | (.ok (), s) => s.sendAll records

/-- A record that may be sent under a bound. -/
def Sendable (maxRecord : UInt16) (record : List UInt8) : Prop :=
  record ≠ [] ∧ record.length ≤ maxRecord.toNat

/-- A write that succeeds appends its bytes. -/
theorem SendStream.writeAll_eq_ok {s s' : SendStream} {bytes : List UInt8}
    (h : s.writeAll bytes = (.ok (), s')) : s'.written = s.written ++ bytes := by
  obtain ⟨written, finished, faults⟩ := s
  rcases finished with _ | _
  · rcases faults with _ | ⟨fault, faults⟩
    · exact congrArg SendStream.written (Prod.mk.inj h).2.symm
    · rcases fault with _ | e
      · exact congrArg SendStream.written (Prod.mk.inj h).2.symm
      · cases (Prod.mk.inj h).1
  · cases (Prod.mk.inj h).1

/-- A record that was accepted may be sent, and its bytes were appended. -/
theorem RecordSink.sendRecord_eq_ok {s s' : RecordSink} {record : List UInt8}
    (h : s.sendRecord record = (.ok (), s')) :
    Sendable s.maxRecord record ∧ s'.maxRecord = s.maxRecord ∧
      s'.inner.written = s.inner.written ++ recordWire record := by
  unfold RecordSink.sendRecord at h
  split_ifs at h with hbad
  · cases (Prod.mk.inj h).1
  obtain ⟨hout, rfl⟩ := Prod.mk.inj h
  obtain ⟨hne, hle⟩ := not_or.mp hbad
  refine ⟨⟨hne, not_lt.mp hle⟩, rfl, ?_⟩
  exact SendStream.writeAll_eq_ok (Prod.ext hout rfl)

/-- Records that were accepted may all be sent, and their bytes were appended. -/
theorem RecordSink.sendAll_eq_ok {s s' : RecordSink} {records : List (List UInt8)}
    (h : s.sendAll records = (.ok (), s')) :
    (∀ record ∈ records, Sendable s.maxRecord record) ∧
      s'.inner.written = s.inner.written ++ (records.map recordWire).flatten := by
  induction records generalizing s with
  | nil =>
    obtain rfl := (Prod.mk.inj h).2
    exact ⟨by simp, by simp⟩
  | cons record records ih =>
    rw [RecordSink.sendAll] at h
    rcases hsend : s.sendRecord record with ⟨_ | ⟨⟩, s₁⟩
    · rw [hsend] at h
      cases (Prod.mk.inj h).1
    · rw [hsend] at h
      obtain ⟨hok, hmax, hwritten⟩ := RecordSink.sendRecord_eq_ok hsend
      obtain ⟨hall, hrest⟩ := ih h
      rw [hmax] at hall
      refine ⟨List.forall_mem_cons.mpr ⟨hok, hall⟩, ?_⟩
      rw [hrest, hwritten, List.map_cons, List.flatten_cons, List.append_assoc]

/-! ### What stands at the front of the buffer -/

/-- Two length bytes. -/
def recordPrefixLen : ℕ := 2

/-- A length that is refused, a record, or too few bytes for one. -/
def recordVerdict (maxRecord : UInt16) (buf : List UInt8) :
    Verdict (List UInt8) TransportError :=
  if buf.length < recordPrefixLen then .more
  else
    let announced := ofBE (buf.take recordPrefixLen)
    if announced = 0 ∨ announced > maxRecord.toNat then .fail (.io .invalidData)
    else if buf.length < recordPrefixLen + announced then .more
    else
      .unit ((buf.drop recordPrefixLen).take announced) (recordPrefixLen + announced)

/-- A record at the front is as long as announced, and may be sent. -/
theorem recordVerdict_eq_unit {maxRecord : UInt16} {buf record : List UInt8} {n : ℕ}
    (h : recordVerdict maxRecord buf = .unit record n) :
    n ≤ buf.length ∧ n = recordPrefixLen + ofBE (buf.take recordPrefixLen) ∧
      record = (buf.drop recordPrefixLen).take (ofBE (buf.take recordPrefixLen)) ∧
      Sendable maxRecord record := by
  simp only [recordVerdict] at h
  split at h
  · cases h
  split at h
  · cases h
  rename_i hlen hann
  split at h
  · cases h
  injection h with hrecord hn
  subst hn
  have hsize : ((buf.drop recordPrefixLen).take (ofBE (buf.take recordPrefixLen))).length =
      ofBE (buf.take recordPrefixLen) := by
    rw [List.length_take, List.length_drop]
    omega
  refine ⟨by omega, rfl, hrecord.symm, ?_, ?_⟩
  · rintro rfl
    rw [hrecord, List.length_nil] at hsize
    omega
  · rw [← hrecord, hsize]
    omega

/-- A length that is refused: its two bytes are in hand. -/
theorem recordVerdict_eq_fail {maxRecord : UInt16} {buf : List UInt8} {e : TransportError}
    (h : recordVerdict maxRecord buf = .fail e) :
    recordPrefixLen ≤ buf.length ∧ (ofBE (buf.take recordPrefixLen) = 0 ∨
      ofBE (buf.take recordPrefixLen) > maxRecord.toNat) ∧ e = .io .invalidData := by
  simp only [recordVerdict] at h
  split at h
  · cases h
  split at h
  · injection h with he
    exact ⟨by omega, by assumption, he.symm⟩
  · split at h <;> cases h

/-- Too few bytes for a record are fewer than the longest one has. -/
theorem length_of_recordVerdict_more {maxRecord : UInt16} {buf : List UInt8}
    (h : recordVerdict maxRecord buf = .more) :
    buf.length < recordPrefixLen + maxRecord.toNat + 1 := by
  simp only [recordVerdict] at h
  split at h
  · omega
  split at h
  · cases h
  split at h
  · omega
  · cases h

/-- The **record parser**: prefix-stable, since the verdict reads only the bytes it counts. -/
def recordParser (maxRecord : UInt16) : Parser UInt8 (List UInt8) TransportError where
  next := recordVerdict maxRecord
  consumed_pos h := by
    have hpre : recordPrefixLen = 2 := rfl
    have hn := (recordVerdict_eq_unit h).2.1
    omega
  consumed_le h := (recordVerdict_eq_unit h).1
  unit_append := by
    intro buf record n h t
    obtain ⟨hle, hn, hrecord, hne, hmax⟩ := recordVerdict_eq_unit h
    have hpre : (buf ++ t).take recordPrefixLen = buf.take recordPrefixLen :=
      List.take_append_of_le_length (by omega)
    have hbody : ((buf ++ t).drop recordPrefixLen).take (ofBE (buf.take recordPrefixLen)) =
        record := by
      rw [hrecord, List.drop_append_of_le_length (by omega),
        List.take_append_of_le_length (by rw [List.length_drop]; omega)]
    have hsize : record.length = ofBE (buf.take recordPrefixLen) := by
      rw [hrecord, List.length_take, List.length_drop]
      omega
    have hpos := List.length_pos_iff.mpr hne
    simp only [recordVerdict, hpre, List.length_append]
    rw [if_neg (by omega), if_neg (by omega), if_neg (by omega), ← hn, hbody]
  fail_append := by
    intro buf e h t
    obtain ⟨hle, hbad, rfl⟩ := recordVerdict_eq_fail h
    have hpre : (buf ++ t).take recordPrefixLen = buf.take recordPrefixLen :=
      List.take_append_of_le_length hle
    simp only [recordVerdict, hpre, List.length_append]
    rw [if_neg (by omega), if_pos hbad]

@[simp] theorem recordParser_next (maxRecord : UInt16) :
    (recordParser maxRecord).next = recordVerdict maxRecord := rfl

/-- A record that was sent, in front of any bytes, is the one at the front. -/
theorem recordParser_recordWire {maxRecord : UInt16} {record : List UInt8}
    (h : Sendable maxRecord record) (rest : List UInt8) :
    (recordParser maxRecord).next (recordWire record ++ rest) =
      .unit record (recordWire record).length := by
  obtain ⟨hne, hle⟩ := h
  have hpos := List.length_pos_iff.mpr hne
  have hfits : record.length < 256 ^ 2 := lt_of_le_of_lt hle maxRecord.toNat_lt
  have hlen : (recordWire record).length = recordPrefixLen + record.length := by
    rw [recordWire, List.length_append, length_toBE]
    rfl
  have hpre : (recordWire record ++ rest).take recordPrefixLen = toBE 2 record.length := by
    rw [recordWire, List.append_assoc]
    exact List.take_left' (length_toBE 2 _)
  have hbody : (recordWire record ++ rest).drop recordPrefixLen = record ++ rest := by
    rw [recordWire, List.append_assoc]
    exact List.drop_left' (length_toBE 2 _)
  simp only [recordParser_next, recordVerdict, hpre, hbody, ofBE_toBE hfits, List.length_append,
    List.take_left' rfl, hlen]
  rw [if_neg (by omega), if_neg (by omega), if_neg (by omega)]

/-- Records that were sent parse to themselves, with nothing left over. -/
theorem parse_recordWires {maxRecord : UInt16} {records : List (List UInt8)}
    (h : ∀ record ∈ records, Sendable maxRecord record) :
    (recordParser maxRecord).parse (records.map recordWire).flatten = (records, none, []) := by
  induction records with
  | nil => exact Parser.parse_more rfl
  | cons record records ih =>
    obtain ⟨hok, hall⟩ := List.forall_mem_cons.mp h
    rw [List.map_cons, List.flatten_cons,
      Parser.parse_unit (recordParser_recordWire hok _), List.drop_left, ih hall]

/-! ### Receiving -/

/-- What a link answers when it is asked for bytes: whatever arrived, `none` once it ended, or
why it failed. -/
abbrev LinkAnswer := Except TransportError (Option (List UInt8))

/-- An answer that delivers bytes. -/
def deliver (delivery : List UInt8) : LinkAnswer :=
  .ok (some delivery)

/-- Reassembles records from a byte source; the most bytes the buffer ever held are noted. -/
structure RecordSource where
  maxRecord : UInt16
  buf : List UInt8
  latchedError : Option TransportError
  peak : ℕ

namespace RecordSource

/-- A source that has received nothing. -/
def new (maxRecord : UInt16) : RecordSource :=
  ⟨maxRecord, [], none, 0⟩

/-- Keep an error for ever and drop the buffer. -/
def latch (s : RecordSource) (err : TransportError) : RecordSource :=
  { s with latchedError := some err, buf := [] }

/-- Append a delivery to the buffer. -/
def append (s : RecordSource) (delivery : List UInt8) : RecordSource :=
  { s with
    buf := s.buf ++ delivery
    peak := max s.peak (s.buf.length + delivery.length) }

/-- The loop of a call: take the record at the front, or ask the link. There is no answer yet when
the link has not answered any more. -/
def recvLoop (s : RecordSource) (answers : List LinkAnswer) :
    Option (Except TransportError (Option (List UInt8))) × RecordSource × List LinkAnswer :=
  match recordVerdict s.maxRecord s.buf with
  | .fail err => (some (.error err), s.latch err, answers)
  | .unit record n => (some (.ok (some record)), { s with buf := s.buf.drop n }, answers)
  | .more =>
    match answers with
    | [] => (none, s, [])
    | .ok (some delivery) :: answers =>
      if delivery.length > s.maxRecord.toNat + 2 then
        (some (.error (.io .invalidData)), s.latch (.io .invalidData), answers)
      else (s.append delivery).recvLoop answers
    | .ok none :: answers =>
      if s.buf = [] then (some (.ok none), s, answers)
      else (some (.error (.io .invalidData)), s.latch (.io .invalidData), answers)
    -- a record that was cut off leaves an unknown boundary
    | .error err :: answers => (some (.error err), s.latch err, answers)

/-- Receive the next record, given what the link will answer. -/
def recvRecord (s : RecordSource) (answers : List LinkAnswer) :
    Option (Except TransportError (Option (List UInt8))) × RecordSource × List LinkAnswer :=
  match s.latchedError with
  | some err => (some (.error err), s, answers)
  | none => s.recvLoop answers

/-- Call so many times in a row. -/
def recvCalls : ℕ → RecordSource → List LinkAnswer →
    List (Option (Except TransportError (Option (List UInt8)))) × RecordSource
  | 0, s, _ => ([], s)
  | k + 1, s, answers =>
    ((s.recvRecord answers).1 ::
        (recvCalls k (s.recvRecord answers).2.1 (s.recvRecord answers).2.2).1,
      (recvCalls k (s.recvRecord answers).2.1 (s.recvRecord answers).2.2).2)

/-- The records that calls yield before the first error. -/
def yielded : List (Option (Except TransportError (Option (List UInt8)))) → List (List UInt8)
  | [] => []
  | some (.error _) :: _ => []
  | some (.ok (some record)) :: outs => record :: yielded outs
  | some (.ok none) :: outs => yielded outs
  | none :: outs => yielded outs

/-- What a link does after its last delivery under a bound: it ended and says so from then on, or
it failed or delivered too much, and then does anything. -/
inductive LinkStop (maxRecord : UInt16) : List LinkAnswer → Prop
  | ended (n : ℕ) : LinkStop maxRecord (List.replicate n (.ok none))
  | failed (e : TransportError) (later : List LinkAnswer) : LinkStop maxRecord (.error e :: later)
  | oversized (delivery : List UInt8) (later : List LinkAnswer)
      (h : maxRecord.toNat + 2 < delivery.length) : LinkStop maxRecord (deliver delivery :: later)

/-! ### One turn of the loop -/

/-- A record at the front is taken. -/
theorem recvLoop_unit {s : RecordSource} {record : List UInt8} {n : ℕ}
    (h : recordVerdict s.maxRecord s.buf = .unit record n) (answers : List LinkAnswer) :
    s.recvLoop answers = (some (.ok (some record)), { s with buf := s.buf.drop n }, answers) := by
  rw [recvLoop.eq_def, h]

/-- A length that is refused is latched. -/
theorem recvLoop_fail {s : RecordSource} {e : TransportError}
    (h : recordVerdict s.maxRecord s.buf = .fail e) (answers : List LinkAnswer) :
    s.recvLoop answers = (some (.error e), s.latch e, answers) := by
  rw [recvLoop.eq_def, h]

/-- With too few bytes for a record, the link is asked. -/
theorem recvLoop_more {s : RecordSource} (h : recordVerdict s.maxRecord s.buf = .more)
    (answers : List LinkAnswer) :
    s.recvLoop answers =
      match answers with
      | [] => (none, s, [])
      | .ok (some delivery) :: answers =>
        if delivery.length > s.maxRecord.toNat + 2 then
          (some (.error (.io .invalidData)), s.latch (.io .invalidData), answers)
        else (s.append delivery).recvLoop answers
      | .ok none :: answers =>
        if s.buf = [] then (some (.ok none), s, answers)
        else (some (.error (.io .invalidData)), s.latch (.io .invalidData), answers)
      | .error err :: answers => (some (.error err), s.latch err, answers) := by
  rw [recvLoop.eq_def, h]

/-- A delivery under the bound is appended. -/
theorem recvLoop_deliver {s : RecordSource} (h : recordVerdict s.maxRecord s.buf = .more)
    {delivery : List UInt8} (hlen : delivery.length ≤ s.maxRecord.toNat + 2)
    (answers : List LinkAnswer) :
    s.recvLoop (deliver delivery :: answers) = (s.append delivery).recvLoop answers := by
  rw [recvLoop_more h]
  exact if_neg (not_lt.mpr hlen)

/-! ### What calls yield -/

/-- **What one call yields**, by the parse of the buffer and of the deliveries under the bound that
are still to come: the first record of the parse; with no record its error; with neither whatever
the link does after them, the rest of the parse being in the buffer. -/
theorem recvLoop_parse {s : RecordSource} {ds : List (List UInt8)}
    (hds : ∀ d ∈ ds, d.length ≤ s.maxRecord.toNat + 2) (rest : List LinkAnswer) :
    (∃ record s' ds', s.recvLoop (ds.map deliver ++ rest) =
        (some (.ok (some record)), s', ds'.map deliver ++ rest) ∧
      s'.maxRecord = s.maxRecord ∧ s'.latchedError = s.latchedError ∧ ds' <:+ ds ∧
      (recordParser s.maxRecord).parse (s.buf ++ ds.flatten) =
        (record :: ((recordParser s.maxRecord).parse (s'.buf ++ ds'.flatten)).1,
          ((recordParser s.maxRecord).parse (s'.buf ++ ds'.flatten)).2)) ∨
    (∃ e s' answers, s.recvLoop (ds.map deliver ++ rest) = (some (.error e), s', answers) ∧
      s'.latchedError = some e ∧
      (recordParser s.maxRecord).parse (s.buf ++ ds.flatten) = ([], some e, [])) ∨
    ∃ s' : RecordSource, s.recvLoop (ds.map deliver ++ rest) = s'.recvLoop rest ∧
      s'.maxRecord = s.maxRecord ∧ s'.latchedError = s.latchedError ∧
      recordVerdict s'.maxRecord s'.buf = .more ∧
      (recordParser s.maxRecord).parse (s.buf ++ ds.flatten) = ([], none, s'.buf) := by
  induction ds generalizing s with
  | nil =>
    rw [List.flatten_nil, List.append_nil, List.map_nil, List.nil_append]
    rcases hv : recordVerdict s.maxRecord s.buf with _ | e | ⟨record, n⟩
    · exact .inr (.inr ⟨s, rfl, rfl, rfl, hv, Parser.parse_more hv⟩)
    · exact .inr (.inl ⟨e, s.latch e, rest, recvLoop_fail hv rest, rfl, Parser.parse_fail hv⟩)
    · refine .inl ⟨record, _, [], recvLoop_unit hv rest, rfl, rfl, List.nil_suffix, ?_⟩
      rw [Parser.parse_unit hv, List.flatten_nil, List.append_nil]
  | cons d ds ih =>
    obtain ⟨hd, hds'⟩ := List.forall_mem_cons.mp hds
    rcases hv : recordVerdict s.maxRecord s.buf with _ | e | ⟨record, n⟩
    · -- the delivery is appended, and the loop goes on with the others
      have hstep := recvLoop_deliver hv hd (ds.map deliver ++ rest)
      have hbytes : s.buf ++ (d :: ds).flatten = (s.append d).buf ++ ds.flatten := by
        rw [List.flatten_cons, ← List.append_assoc]
        rfl
      rw [List.map_cons, List.cons_append, hstep, hbytes]
      rcases ih (s := s.append d) hds' with
        ⟨record, s', ds', hrun, hmax, hlatch, hsuf, hparse⟩ | herror | hlink
      · exact .inl ⟨record, s', ds', hrun, hmax, hlatch, hsuf.trans (List.suffix_cons d ds), hparse⟩
      · exact .inr (.inl herror)
      · exact .inr (.inr hlink)
    · exact .inr (.inl ⟨e, s.latch e, _, recvLoop_fail hv _, rfl,
        Parser.parse_fail ((recordParser s.maxRecord).fail_append hv _)⟩)
    · refine .inl ⟨record, _, d :: ds, recvLoop_unit hv _, rfl, rfl, List.suffix_refl _, ?_⟩
      rw [Parser.parse_append_unit hv]

/-- A latched error is the answer of every call. -/
theorem recvCalls_latched {s : RecordSource} {e : TransportError} (h : s.latchedError = some e)
    (k : ℕ) (answers : List LinkAnswer) :
    recvCalls k s answers = (List.replicate k (some (.error e)), s) := by
  induction k generalizing answers with
  | zero => rfl
  | succ k ih =>
    have hcall : s.recvRecord answers = (some (.error e), s, answers) := by
      rw [recvRecord, h]
    rw [recvCalls, hcall, ih, List.replicate_succ]

/-- The buffer holds no more than was noted, and that is bounded. -/
def Bounded (s : RecordSource) : Prop :=
  s.buf.length ≤ s.peak ∧ s.peak ≤ 2 * (s.maxRecord.toNat + 2)

/-- What holds of one call, whatever the link answers. -/
structure CallSound (s : RecordSource)
    (r : Option (Except TransportError (Option (List UInt8))) × RecordSource × List LinkAnswer) :
    Prop where
  maxRecord : r.2.1.maxRecord = s.maxRecord
  bounded : s.Bounded → r.2.1.Bounded
  latched : ∀ e, r.1 = some (.error e) → r.2.1.latchedError = some e
  sendable : ∀ record, r.1 = some (.ok (some record)) → Sendable s.maxRecord record

/-- Latching an error empties the buffer. -/
theorem callSound_latch (s : RecordSource) (e : TransportError) (answers : List LinkAnswer) :
    CallSound s (some (.error e), s.latch e, answers) where
  maxRecord := rfl
  bounded h := ⟨Nat.zero_le _, h.2⟩
  latched e' he := by
    obtain rfl : e = e' := Except.error.inj (Option.some.inj he)
    rfl
  sendable record h := by cases Option.some.inj h

/-- An answer that is neither an error nor a record leaves the source as it is. -/
theorem callSound_idle {s : RecordSource}
    {out : Option (Except TransportError (Option (List UInt8)))}
    (herr : ∀ e, out ≠ some (.error e)) (hrecord : ∀ record, out ≠ some (.ok (some record)))
    (answers : List LinkAnswer) : CallSound s (out, s, answers) where
  maxRecord := rfl
  bounded h := h
  latched e he := absurd he (herr e)
  sendable record h := absurd h (hrecord record)

/-- A delivery that is appended when the buffer holds less than a record fits. -/
theorem bounded_append {s : RecordSource} (hmore : recordVerdict s.maxRecord s.buf = .more)
    {delivery : List UInt8} (hlen : delivery.length ≤ s.maxRecord.toNat + 2) (h : s.Bounded) :
    (s.append delivery).Bounded := by
  obtain ⟨hbuf, hpeak⟩ := h
  have hshort := length_of_recordVerdict_more hmore
  have hpre : recordPrefixLen = 2 := rfl
  have hlength : (s.append delivery).buf.length = s.buf.length + delivery.length :=
    List.length_append
  have hnoted : (s.append delivery).peak = max s.peak (s.buf.length + delivery.length) := rfl
  have hmax : (s.append delivery).maxRecord = s.maxRecord := rfl
  constructor
  · omega
  · rw [hmax]
    omega

/-- The record at the front may be sent, and taking it shortens the buffer. -/
theorem callSound_unit {s : RecordSource} {record : List UInt8} {n : ℕ}
    (h : recordVerdict s.maxRecord s.buf = .unit record n) (answers : List LinkAnswer) :
    CallSound s (some (.ok (some record)), { s with buf := s.buf.drop n }, answers) where
  maxRecord := rfl
  bounded hb := by
    refine ⟨?_, hb.2⟩
    rw [List.length_drop]
    exact (Nat.sub_le _ _).trans hb.1
  latched e he := by cases Option.some.inj he
  sendable record' hrecord := by
    obtain rfl := Option.some.inj (Except.ok.inj (Option.some.inj hrecord))
    exact (recordVerdict_eq_unit h).2.2.2

/-- The loop is sound on every link. -/
theorem callSound_recvLoop (s : RecordSource) (answers : List LinkAnswer) :
    CallSound s (s.recvLoop answers) := by
  induction answers generalizing s with
  | nil =>
    rcases hv : recordVerdict s.maxRecord s.buf with _ | e | ⟨record, n⟩
    · rw [recvLoop_more hv]
      exact callSound_idle (by simp) (by simp) _
    · rw [recvLoop_fail hv]
      exact callSound_latch s e _
    · rw [recvLoop_unit hv]
      exact callSound_unit hv _
  | cons answer answers ih =>
    rcases hv : recordVerdict s.maxRecord s.buf with _ | e | ⟨record, n⟩
    · rcases answer with e | _ | delivery
      · rw [recvLoop_more hv]
        exact callSound_latch s e _
      · rw [recvLoop_more hv]
        dsimp only
        split_ifs
        · exact callSound_idle (by simp) (by simp) _
        · exact callSound_latch s _ _
      · by_cases hlen : delivery.length ≤ s.maxRecord.toNat + 2
        · have hsound := ih (s.append delivery)
          rw [show Except.ok (some delivery) = deliver delivery from rfl, recvLoop_deliver hv hlen]
          exact { hsound with bounded := fun hb => hsound.bounded (bounded_append hv hlen hb) }
        · rw [recvLoop_more hv]
          dsimp only
          rw [if_pos (not_le.mp hlen)]
          exact callSound_latch s _ _
    · rw [recvLoop_fail hv]
      exact callSound_latch s e _
    · rw [recvLoop_unit hv]
      exact callSound_unit hv _

/-- A call is sound on every link. -/
theorem callSound_recvRecord (s : RecordSource) (answers : List LinkAnswer) :
    CallSound s (s.recvRecord answers) := by
  unfold recvRecord
  rcases hlatch : s.latchedError with _ | e
  · exact callSound_recvLoop s answers
  · refine ⟨rfl, fun hb => hb, ?_, ?_⟩
    · intro e' he
      rw [hlatch, Except.error.inj (Option.some.inj he)]
    · intro record hrecord
      cases Option.some.inj hrecord

/-- Calls keep the buffer bounded and yield records that may be sent. -/
theorem recvCalls_sound {s : RecordSource} (hb : s.Bounded) (k : ℕ) (answers : List LinkAnswer) :
    (recvCalls k s answers).2.maxRecord = s.maxRecord ∧ (recvCalls k s answers).2.Bounded ∧
      ∀ record, some (.ok (some record)) ∈ (recvCalls k s answers).1 →
        Sendable s.maxRecord record := by
  induction k generalizing s answers with
  | zero => exact ⟨rfl, hb, by simp [recvCalls]⟩
  | succ k ih =>
    have hcall := callSound_recvRecord s answers
    obtain ⟨hmax, hbound, hrecords⟩ := ih (hcall.bounded hb) (s.recvRecord answers).2.2
    rw [hcall.maxRecord] at hmax hrecords
    refine ⟨hmax, hbound, ?_⟩
    rintro record hmem
    rcases List.mem_cons.mp hmem with hfirst | hlater
    · exact hcall.sendable record hfirst.symm
    · exact hrecords record hlater

/-- Once a call failed, its error is latched at the end. -/
theorem latchedError_of_mem {s : RecordSource} {k : ℕ} {answers : List LinkAnswer}
    {e : TransportError} (h : some (.error e) ∈ (recvCalls k s answers).1) :
    (recvCalls k s answers).2.latchedError = some e := by
  induction k generalizing s answers with
  | zero => simp [recvCalls] at h
  | succ k ih =>
    rcases List.mem_cons.mp h with hfirst | hlater
    · have hlatch := (callSound_recvRecord s answers).latched e hfirst.symm
      rw [recvCalls, recvCalls_latched hlatch]
      exact hlatch
    · exact ih hlater

/-! ### Every cut of the same bytes -/

/-- What a link does after its deliveries yields no record before an error. -/
theorem recvLoop_stop {s : RecordSource} (hmore : recordVerdict s.maxRecord s.buf = .more)
    {stop : List LinkAnswer} (hstop : LinkStop s.maxRecord stop) :
    (∃ e s' later, s.recvLoop stop = (some (.error e), s', later) ∧ s'.latchedError = some e) ∨
      ∃ out n, s.recvLoop stop = (out, s, List.replicate n (.ok none)) ∧
        (out = none ∨ out = some (.ok none)) := by
  rcases hstop with n | ⟨e, later⟩ | ⟨delivery, later, hlen⟩
  · rcases n with _ | n
    · exact .inr ⟨none, 0, recvLoop_more hmore [], .inl rfl⟩
    · rw [List.replicate_succ, recvLoop_more hmore]
      dsimp only
      split_ifs with hempty
      · exact .inr ⟨some (.ok none), n, rfl, .inr rfl⟩
      · exact .inl ⟨_, _, _, rfl, rfl⟩
  · exact .inl ⟨e, s.latch e, later, recvLoop_more hmore _, rfl⟩
  · refine .inl ⟨.io .invalidData, s.latch (.io .invalidData), later, ?_, rfl⟩
    rw [recvLoop_more hmore]
    exact if_pos hlen

/-- Calls that only repeat an error yield nothing. -/
theorem yielded_replicate_error (k : ℕ) (e : TransportError) :
    yielded (List.replicate k (some (.error e))) = [] := by
  rcases k with _ | k
  · rfl
  · rfl

/-- **The records that calls yield before the first error** are the first records of the parse. -/
theorem yielded_recvCalls {s : RecordSource} (hclean : s.latchedError = none)
    {ds : List (List UInt8)} (hds : ∀ d ∈ ds, d.length ≤ s.maxRecord.toNat + 2)
    {stop : List LinkAnswer} (hstop : LinkStop s.maxRecord stop) (k : ℕ) :
    yielded (recvCalls k s (ds.map deliver ++ stop)).1 =
      ((recordParser s.maxRecord).parse (s.buf ++ ds.flatten)).1.take k := by
  induction k generalizing s ds stop with
  | zero => rw [List.take_zero]; rfl
  | succ k ih =>
    have hcall : s.recvRecord (ds.map deliver ++ stop) = s.recvLoop (ds.map deliver ++ stop) := by
      rw [recvRecord, hclean]
    rw [recvCalls, hcall]
    rcases recvLoop_parse hds stop with
      ⟨record, s', ds', hrun, hmax, hlatch, hsuf, hparse⟩ | ⟨e, s', later, hrun, hlatch, hparse⟩ |
        ⟨s', hrun, hmax, hlatch, hmore, hparse⟩
    · rw [hrun, hparse, List.take_succ_cons, yielded]
      rw [← hmax] at hds hstop ⊢
      rw [ih (hlatch.trans hclean) (fun d hd => hds d (hsuf.subset hd)) hstop]
    · rw [hrun, hparse, recvCalls_latched hlatch]
      rfl
    · rw [hrun, hparse]
      rw [← hmax] at hstop
      rcases recvLoop_stop hmore hstop with ⟨e, s₁, later, hlink, hlatched⟩ | ⟨out, n, hlink, hout⟩
      · rw [hlink, recvCalls_latched hlatched]
        rfl
      · have hrest := ih (hlatch.trans hclean) (List.forall_mem_nil _) (.ended n)
        rw [List.flatten_nil, List.append_nil, Parser.parse_more hmore, List.take_nil] at hrest
        rw [hlink, List.take_nil]
        rcases hout with rfl | rfl
        · exact hrest
        · exact hrest

/-- Records that parse with nothing left over come out in order, and then the end of the link. -/
theorem recvCalls_all {s : RecordSource} (hclean : s.latchedError = none)
    {ds : List (List UInt8)} (hds : ∀ d ∈ ds, d.length ≤ s.maxRecord.toNat + 2)
    {records : List (List UInt8)}
    (hparse : (recordParser s.maxRecord).parse (s.buf ++ ds.flatten) = (records, none, []))
    (later : List LinkAnswer) :
    (recvCalls (records.length + 1) s (ds.map deliver ++ .ok none :: later)).1 =
      records.map (fun record => some (.ok (some record))) ++ [some (.ok none)] := by
  have hcall : s.recvRecord (ds.map deliver ++ .ok none :: later) =
      s.recvLoop (ds.map deliver ++ .ok none :: later) := by
    rw [recvRecord, hclean]
  induction records generalizing s ds with
  | nil =>
    rcases recvLoop_parse hds (.ok none :: later) with
      ⟨record, s', ds', hrun, hmax, hlatch, hsuf, hnext⟩ | ⟨e, s', answers, hrun, hlatch, hnext⟩ |
        ⟨s', hrun, hmax, hlatch, hmore, hnext⟩
    · rw [hparse] at hnext
      cases (Prod.mk.inj hnext).1
    · rw [hparse] at hnext
      cases (Prod.mk.inj (Prod.mk.inj hnext).2).1
    · rw [hparse] at hnext
      have hempty : s'.buf = [] := ((Prod.mk.inj (Prod.mk.inj hnext).2).2).symm
      rw [recvCalls, hcall, hrun, recvLoop_more hmore]
      dsimp only
      rw [if_pos hempty]
      rfl
  | cons record records ih =>
    rcases recvLoop_parse hds (.ok none :: later) with
      ⟨record', s', ds', hrun, hmax, hlatch, hsuf, hnext⟩ | ⟨e, s', answers, hrun, hlatch, hnext⟩ |
        ⟨s', hrun, hmax, hlatch, hmore, hnext⟩
    · rw [hparse] at hnext
      obtain ⟨hrec, hrest⟩ := Prod.mk.inj hnext
      obtain ⟨rfl, hunits⟩ := List.cons.inj hrec
      have hclean' := hlatch.trans hclean
      rw [← hmax] at hds hunits hrest
      have hlater := ih hclean' (fun d hd => hds d (hsuf.subset hd))
        (Prod.ext hunits.symm hrest.symm) (by rw [recvRecord, hclean'])
      rw [List.length_cons, recvCalls, hcall, hrun, hlater, List.map_cons, List.cons_append]
    · rw [hparse] at hnext
      cases hnext
    · rw [hparse] at hnext
      cases (Prod.mk.inj hnext).1

/-- **Record framing loses nothing, and latches.** The records a sink accepted come out of the
source in order, however the link cuts their bytes into deliveries under the bound, and after them
the end of the link. What any bytes yield before the first error depends on the bytes alone. On
every link, no record is empty or too long, the buffer holds no more than two longest records with
their lengths, and an error is the answer of every later call, whatever arrives. -/
theorem reassembles (maxRecord : UInt16) :
    (∀ (sink sink' : RecordSink) (records : List (List UInt8)), sink.maxRecord = maxRecord →
      sink.sendAll records = (.ok (), sink') →
      ∀ deliveries : List (List UInt8), (∀ d ∈ deliveries, d.length ≤ maxRecord.toNat + 2) →
      sink'.inner.written = sink.inner.written ++ deliveries.flatten → ∀ later : List LinkAnswer,
        (recvCalls (records.length + 1) (new maxRecord)
          (deliveries.map deliver ++ .ok none :: later)).1 =
            records.map (fun record => some (.ok (some record))) ++ [some (.ok none)]) ∧
    (∀ bytes : List UInt8, ∃ records : List (List UInt8), ∀ deliveries : List (List UInt8),
      (∀ d ∈ deliveries, d.length ≤ maxRecord.toNat + 2) → deliveries.flatten = bytes →
      ∀ stop : List LinkAnswer, LinkStop maxRecord stop → ∀ k : ℕ,
        yielded (recvCalls k (new maxRecord) (deliveries.map deliver ++ stop)).1 =
          records.take k) ∧
    (∀ (answers : List LinkAnswer) (k : ℕ),
      (∀ record, some (.ok (some record)) ∈ (recvCalls k (new maxRecord) answers).1 →
        record ≠ [] ∧ record.length ≤ maxRecord.toNat) ∧
      (recvCalls k (new maxRecord) answers).2.buf.length ≤
        (recvCalls k (new maxRecord) answers).2.peak ∧
      (recvCalls k (new maxRecord) answers).2.peak ≤ 2 * (maxRecord.toNat + 2) ∧
      ∀ e, some (.error e) ∈ (recvCalls k (new maxRecord) answers).1 →
        ∀ (answers' : List LinkAnswer) (k' : ℕ),
          (recvCalls k' (recvCalls k (new maxRecord) answers).2 answers').1 =
            List.replicate k' (some (.error e))) := by
  refine ⟨?_, ?_, ?_⟩
  · rintro sink sink' records rfl hsend deliveries hsize hbytes later
    obtain ⟨hsendable, hwritten⟩ := RecordSink.sendAll_eq_ok hsend
    have hflat : deliveries.flatten = (records.map recordWire).flatten :=
      List.append_cancel_left (hbytes.symm.trans hwritten)
    refine recvCalls_all rfl hsize ?_ later
    change (recordParser sink.maxRecord).parse ([] ++ deliveries.flatten) = _
    rw [List.nil_append, hflat]
    exact parse_recordWires hsendable
  · intro bytes
    refine ⟨((recordParser maxRecord).parse bytes).1, ?_⟩
    rintro deliveries hsize rfl stop hstop k
    exact yielded_recvCalls (s := new maxRecord) rfl hsize hstop k
  · intro answers k
    have hfresh : (new maxRecord).Bounded := ⟨le_rfl, Nat.zero_le _⟩
    obtain ⟨hmax, ⟨hbuf, hpeak⟩, hrecords⟩ := recvCalls_sound hfresh k answers
    rw [hmax] at hpeak
    refine ⟨hrecords, hbuf, hpeak, ?_⟩
    intro e hmem answers' k'
    rw [recvCalls_latched (latchedError_of_mem hmem)]

/-- Two records whose lengths and bytes are cut apart come out whole; a delivery that is too long
is an error that stays. -/
theorem reassembles_split_prefix :
    (recvCalls 3 (new 4) ([[0], [], [1, 7, 0, 2, 8], [9]].map deliver ++ [.ok none])).1 =
        [some (.ok (some [7])), some (.ok (some [8, 9])), some (.ok none)] ∧
      (recvCalls 2 (recvCalls 1 (new 1) [deliver [0, 1, 7, 0]]).2 [deliver [0, 1, 7]]).1 =
        List.replicate 2 (some (.error (.io .invalidData))) := by
  have hsend : (⟨.fresh, 4⟩ : RecordSink).sendAll [[7], [8, 9]] =
      (.ok (), ⟨⟨[0, 1, 7, 0, 2, 8, 9], false, []⟩, 4⟩) := rfl
  have herror : some (.error (.io .invalidData)) ∈
      (recvCalls 1 (new 1) [deliver [0, 1, 7, 0]]).1 := by
    decide +kernel
  exact ⟨(reassembles 4).1 ⟨.fresh, 4⟩ _ [[7], [8, 9]] rfl hsend _ (by decide) rfl [],
    ((reassembles 1).2.2 [deliver [0, 1, 7, 0]] 1).2.2.2 _ herror [deliver [0, 1, 7]] 2⟩

end RecordSource

end Tradr
