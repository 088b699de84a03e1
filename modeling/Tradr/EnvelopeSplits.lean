import Tradr.Checked
import Tradr.EnvelopeRoundTrip

/-!
# Splits of an Envelope's Content

A writer takes the content of an envelope in pieces of any sizes, and cuts records of a mebibyte from
what it holds back and what arrives. The records are those of the content: which pieces it came in
makes no difference to what is sealed, under which number, and which record is marked as the final
one.

## Main definitions

* `dataRecords`: the records of a content, with their numbers.
* `sealRecords`: each of them sealed, under its own number.
* `EnvelopeWriter.written`: what the calls on a writer return, back to back.
* `EnvelopeWriter.pushChecked`, `EnvelopeWriter.finishChecked`: the calls in checked arithmetic.

## Main results

* `EnvelopeWriter.written_eq`: what is written are the sealed records of the content.
* `EnvelopeWriter.pushChecked_eq`, `EnvelopeWriter.finishChecked_eq`: no step overflows.
* `EnvelopeWriter.writes_content`: both, for every split, and what a call too many or too early ends
  in.
-/

open BigEndian Fallible

namespace Tradr

/-! ### The records of a content -/

/-- A data record: its number, whether it is the final one, and what it carries. -/
structure DataRecord where
  seq : UInt64
  isFinal : Bool
  chunk : List UInt8

/-- The pieces of a content that its records carry: full ones, and what is left over unless nothing
is; of an empty content one empty piece. -/
def recordPieces (content : List UInt8) : List (List UInt8) :=
  if (Chunks.cut chunkSize content).1 ≠ [] ∧ (Chunks.cut chunkSize content).2 = [] then
    (Chunks.cut chunkSize content).1
  else (Chunks.cut chunkSize content).1 ++ [(Chunks.cut chunkSize content).2]

/-- Number records from `n` on, the last one as the final one. -/
def numberRecords : ℕ → List (List UInt8) → List DataRecord
  | _, [] => []
  | n, chunk :: rest => ⟨UInt64.ofNat n, rest.isEmpty, chunk⟩ :: numberRecords (n + 1) rest

/-- The data records of a content. -/
def dataRecords (content : List UInt8) : List DataRecord :=
  numberRecords 1 (recordPieces content)

section
variable (p : Primitives)

/-- A record, sealed under its number. -/
def sealRecord (ctx : SenderContext) (r : DataRecord) : Except EnvelopeError (List UInt8) := do
  let (sealedBytes, _) ← hpkeOutcome
    (SenderContext.sealMessage p.suite { ctx with seq := r.seq } (makeAad r.seq r.isFinal) r.chunk)
  appendRecord sealedBytes

/-- Sealed records, back to back. -/
def sealRecords (ctx : SenderContext) : List DataRecord → Except EnvelopeError (List UInt8)
  | [] => .ok []
  | r :: rest => do
    let out ← sealRecord p ctx r
    let more ← sealRecords ctx rest
    return out ++ more

/-- What pushes and the finish return, back to back. -/
def EnvelopeWriter.written (w : EnvelopeWriter) (pieces : List (List UInt8)) :
    Except EnvelopeError (List UInt8) := do
  let (out, w) ← w.pushAll p pieces
  let last ← w.finish p
  return out ++ last

/-- The writer after pushes, of which some may have failed. -/
def EnvelopeWriter.after (w : EnvelopeWriter) (pieces : List (List UInt8)) : EnvelopeWriter :=
  pieces.foldl (fun w bytes => (w.push p bytes).2) w

/-! ### Checked arithmetic -/

/-- Sealing a record, in checked arithmetic. -/
def RecordSealer.sealDataChecked (s : RecordSealer) (chunk : List UInt8) :
    Option (Except EnvelopeError (List UInt8 × RecordSealer)) := do
  let emitted ← Checked.add UInt64.size s.emitted chunk.length
  let isFinal := decide (emitted = s.declared)
  match (do
      let (sealedBytes, ctx) ←
        hpkeOutcome (SenderContext.sealMessage p.suite s.ctx (makeAad s.seq isFinal) chunk)
      let record ← appendRecord sealedBytes
      return (record, ctx)) with
  | .error e => some (.error e)
  | .ok (record, ctx) =>
    let seq ← Checked.add UInt64.size s.seq.toNat 1
    return .ok (record, { s with ctx, emitted, seq := UInt64.ofNat seq, sealedFinal := isFinal })

/-- Filling a record that was started, in checked arithmetic. -/
def RecordSealer.fillBufferChecked (s : RecordSealer) (buf rest : List UInt8) :
    Option (Except EnvelopeError (List UInt8 × List UInt8 × List UInt8 × RecordSealer)) :=
  if buf = [] then some (.ok ([], [], rest, s))
  else do
    let room ← Checked.sub chunkSize buf.length
    let take := min room rest.length
    let filled := buf ++ rest.take take
    if filled.length = chunkSize then
      match ← s.sealDataChecked p filled with
      | .error e => some (.error e)
      | .ok (out, s) => some (.ok (out, [], rest.drop take, s))
    else some (.ok ([], filled, rest.drop take, s))

/-- Sealing full records, in checked arithmetic. -/
def RecordSealer.sealChunksChecked (s : RecordSealer) (rest : List UInt8) :
    Option (Except EnvelopeError (List UInt8 × List UInt8 × RecordSealer)) :=
  if chunkSize ≤ rest.length then do
    match ← s.sealDataChecked p (rest.take chunkSize) with
    | .error e => some (.error e)
    | .ok (out, s) =>
      match ← s.sealChunksChecked (rest.drop chunkSize) with
      | .error e => some (.error e)
      | .ok (more, rest, s) => some (.ok (out ++ more, rest, s))
  else some (.ok ([], rest, s))
termination_by rest.length
decreasing_by
  rename_i hfull
  simp only [List.length_drop, chunkSize] at hfull ⊢
  omega

/-- Taking in bytes, in checked arithmetic. -/
def EnvelopeWriter.pushInnerChecked (w : EnvelopeWriter) (bytes : List UInt8) :
    Option (Except EnvelopeError (List UInt8 × EnvelopeWriter)) :=
  match (checkedAdd w.pushed bytes.length).filter (· ≤ w.declared) with
  | none => some (.error .itemSizeMismatch)
  | some newPushed => do
    match ← w.fillBufferChecked p w.buf bytes with
    | .error e => some (.error e)
    | .ok (out, buf, rest, s) =>
      match ← s.sealChunksChecked p rest with
      | .error e => some (.error e)
      | .ok (more, rest, s) =>
        some (.ok (out ++ more,
          { w with toRecordSealer := s, buf := buf ++ rest, pushed := newPushed }))

/-- A push, in checked arithmetic. -/
def EnvelopeWriter.pushChecked (w : EnvelopeWriter) (bytes : List UInt8) :
    Option (Except EnvelopeError (List UInt8) × EnvelopeWriter) :=
  if w.failed then some (.error .alreadyFailed, w)
  else do
    match ← w.pushInnerChecked p bytes with
    | .ok (out, w) => some (.ok out, w)
    | .error e => some (.error e, { w with failed := true })

/-- The finish, in checked arithmetic. -/
def EnvelopeWriter.finishChecked (w : EnvelopeWriter) :
    Option (Except EnvelopeError (List UInt8)) :=
  if w.failed then some (.error .alreadyFailed)
  else if w.pushed ≠ w.declared then some (.error .itemSizeMismatch)
  else if w.sealedFinal then some (.ok [])
  else do
    match ← w.sealDataChecked p w.buf with
    | .error e => some (.error e)
    | .ok (out, _) => some (.ok out)

end

/-! ### Sealing in order -/

section
variable {p : Primitives}

/-- Sealing a record is sealing it under the number it takes. -/
theorem RecordSealer.sealData_eq {s : RecordSealer} {ctx : SenderContext} {n : ℕ}
    (hctx : s.ctx = { ctx with seq := UInt64.ofNat n }) (hseq : s.seq = UInt64.ofNat n)
    (chunk : List UInt8) :
    s.sealData p chunk =
      (sealRecord p ctx ⟨UInt64.ofNat n, decide (s.emitted + chunk.length = s.declared), chunk⟩).map
        fun out => (out, { s with
          ctx := { ctx with seq := UInt64.ofNat (n + 1) }
          emitted := s.emitted + chunk.length
          seq := UInt64.ofNat (n + 1)
          sealedFinal := decide (s.emitted + chunk.length = s.declared) }) := by
  rw [sealData, sealRecord, hctx, hseq]
  dsimp only
  rcases hanswer : SenderContext.sealMessage p.suite { ctx with seq := UInt64.ofNat n }
      (makeAad (UInt64.ofNat n) (decide (s.emitted + chunk.length = s.declared))) chunk with
    ⟨e | ct, ctx'⟩
  · rfl
  · obtain ⟨-, -, -, rfl⟩ := HpkeContext.message_eq_ok_iff.mp hanswer
    rw [hpkeOutcome, ok_bind, ok_bind]
    rcases appendRecord ct with e | record
    · rfl
    · rw [ok_bind, UInt64.ofNat_add]
      rfl

/-- Sealing all that is declared, piece by piece, seals the numbered records. -/
theorem RecordSealer.sealAll_eq {ctx : SenderContext} {chunks : List (List UInt8)}
    {s : RecordSealer} {n : ℕ} (hctx : s.ctx = { ctx with seq := UInt64.ofNat n })
    (hseq : s.seq = UInt64.ofNat n) (hall : s.emitted + chunks.flatten.length = s.declared)
    (hne : ∀ c ∈ chunks.tail, c ≠ []) :
    (s.sealAll p chunks).map Prod.fst = sealRecords p ctx (numberRecords n chunks) := by
  induction chunks generalizing s n with
  | nil => rfl
  | cons chunk rest ih =>
    rw [List.flatten_cons, List.length_append, ← Nat.add_assoc] at hall
    rw [List.tail_cons] at hne
    have hfinal : decide (s.emitted + chunk.length = s.declared) = rest.isEmpty := by
      cases rest with
      | nil => simpa using hall
      | cons next more =>
        have hpos := List.length_pos_iff.mpr (hne next List.mem_cons_self)
        rw [List.flatten_cons, List.length_append] at hall
        exact decide_eq_false (by omega)
    rw [sealAll, sealData_eq hctx hseq, numberRecords, sealRecords, hfinal]
    rcases sealRecord p ctx ⟨UInt64.ofNat n, rest.isEmpty, chunk⟩ with e | out
    · rfl
    · have hrest := ih (s := { s with
          ctx := { ctx with seq := UInt64.ofNat (n + 1) }
          emitted := s.emitted + chunk.length
          seq := UInt64.ofNat (n + 1)
          sealedFinal := rest.isEmpty }) rfl rfl hall fun c hc => hne c (List.mem_of_mem_tail hc)
      rw [ok_bind, ← hrest]
      change (RecordSealer.sealAll p _ rest >>= _).map _ = _
      rcases RecordSealer.sealAll p _ rest with e | ⟨more, s'⟩
      · rfl
      · rfl

/-! ### Pushing in pieces -/

/-- A writer that has sealed nothing yet. -/
structure EnvelopeWriter.Fresh (w : EnvelopeWriter) : Prop where
  buf : w.buf = []
  pushed : w.pushed = 0
  emitted : w.emitted = 0
  seq : w.seq = 1
  sealedFinal : w.sealedFinal = false
  failed : w.failed = false
  ctx_seq : w.ctx.seq = 1
  ctx_overflowed : w.ctx.overflowed = false
  declared_lt : w.declared < 2 ^ 64

/-- Pushing what was declared, or less, seals the full records of all of it. -/
theorem EnvelopeWriter.pushAll_eq {pieces : List (List UInt8)} {w : EnvelopeWriter}
    (hbuf : w.buf.length < chunkSize) (hfailed : w.failed = false)
    (hfits : w.pushed + pieces.flatten.length ≤ w.declared) (hdeclared : w.declared < 2 ^ 64) :
    w.pushAll p pieces = do
      let (out, s) ← w.sealAll p (Chunks.cut chunkSize (w.buf ++ pieces.flatten)).1
      return (out, { w with
        toRecordSealer := s
        buf := (Chunks.cut chunkSize (w.buf ++ pieces.flatten)).2
        pushed := w.pushed + pieces.flatten.length }) := by
  induction pieces generalizing w with
  | nil =>
    rw [List.flatten_nil, List.append_nil, Chunks.cut_of_lt hbuf]
    rfl
  | cons bytes pieces ih =>
    rw [List.flatten_cons, List.length_append] at hfits
    have hadd : checkedAdd w.pushed bytes.length = some (w.pushed + bytes.length) :=
      if_pos (by omega)
    have hfilter : (some (w.pushed + bytes.length)).filter (· ≤ w.declared) =
        some (w.pushed + bytes.length) := by
      rw [Option.filter_some, if_pos (decide_eq_true (by omega))]
    rw [pushAll, push, if_neg (by rw [hfailed]; exact Bool.false_ne_true), pushInner_eq hbuf, hadd,
      hfilter, List.flatten_cons, ← List.append_assoc,
      Chunks.cut_append chunkSize_pos (w.buf ++ bytes) pieces.flatten]
    dsimp only
    rw [RecordSealer.sealAll_append]
    rcases hs : w.sealAll p (Chunks.cut chunkSize (w.buf ++ bytes)).1 with e | ⟨out, s⟩
    · rfl
    · have hdecl := (RecordSealer.sealAll_eq_ok hs).1
      have hrest := ih (w := { w with
          toRecordSealer := s
          buf := (Chunks.cut chunkSize (w.buf ++ bytes)).2
          pushed := w.pushed + bytes.length }) (Chunks.length_cut_lt chunkSize_pos _) hfailed
        (by rw [hdecl, Nat.add_assoc]; exact hfits) (by rw [hdecl]; exact hdeclared)
      simp only [okOr_some, ok_bind]
      change (EnvelopeWriter.pushAll p _ pieces >>= fun r => pure (out ++ r.1, r.2)) = _
      rw [hrest]
      rcases s.sealAll p (Chunks.cut chunkSize ((Chunks.cut chunkSize (w.buf ++ bytes)).2 ++
        pieces.flatten)).1 with e | ⟨more, s'⟩
      · rfl
      · rw [List.length_append, ← Nat.add_assoc]
        rfl

/-- The pieces of a content are full ones and a last one, and join to it. -/
theorem recordPieces_spec (content : List UInt8) : ∃ full last,
    recordPieces content = full ++ [last] ∧ Chunks.IsRecords chunkSize full last ∧
      (full ++ [last]).flatten = content := by
  have hflat := Chunks.flatten_cut chunkSize_pos content
  rw [recordPieces]
  split_ifs with h
  · rw [h.2, List.append_nil] at hflat
    refine ⟨_, _, (List.dropLast_append_getLast h.1).symm,
      Chunks.isRecords_dropLast chunkSize_pos h.1, ?_⟩
    rw [List.dropLast_append_getLast, hflat]
  · refine ⟨_, _, rfl, Chunks.isRecords_cut chunkSize_pos fun hne hnil => h ⟨hne, hnil⟩, ?_⟩
    rw [List.flatten_append, List.flatten_singleton, hflat]

/-- Only the first of the pieces may be empty. -/
theorem ne_nil_of_mem_tail_recordPieces {content c : List UInt8}
    (h : c ∈ (recordPieces content).tail) : c ≠ [] := by
  obtain ⟨full, last, heq, hrec, -⟩ := recordPieces_spec content
  rw [heq] at h
  cases full with
  | nil => cases h
  | cons first rest =>
    rw [List.cons_append, List.tail_cons] at h
    rcases List.mem_append.mp h with h | h
    · rw [← List.length_pos_iff, hrec.length_full c (List.mem_cons_of_mem _ h)]
      exact chunkSize_pos
    · rw [List.mem_singleton.mp h]
      exact hrec.last_ne_nil (List.cons_ne_nil _ _)

/-- **What is written are the sealed records of the content**, whatever pieces it came in. -/
theorem EnvelopeWriter.written_eq {w : EnvelopeWriter} (hw : w.Fresh)
    {pieces : List (List UInt8)} (hall : pieces.flatten.length = w.declared) :
    w.written p pieces = sealRecords p w.ctx (dataRecords pieces.flatten) := by
  have hsealed : w.written p pieces =
      (w.sealAll p (recordPieces pieces.flatten)).map Prod.fst := by
    rw [written, pushAll_eq (by rw [hw.buf]; exact chunkSize_pos) hw.failed
      (by rw [hw.pushed, Nat.zero_add, hall]) hw.declared_lt, hw.buf, hw.pushed, List.nil_append,
      Nat.zero_add]
    rcases hs : w.sealAll p (Chunks.cut chunkSize pieces.flatten).1 with e | ⟨out, s⟩
    · rw [recordPieces]
      split_ifs
      · rw [hs]
        rfl
      · rw [RecordSealer.sealAll_append, hs]
        rfl
    · obtain ⟨hdecl, hemit, hlast⟩ := RecordSealer.sealAll_eq_ok hs
      rw [hw.emitted, Nat.zero_add] at hemit
      have hlen := congrArg List.length (Chunks.flatten_cut chunkSize_pos pieces.flatten)
      rw [List.length_append, hall] at hlen
      have hfinal : s.sealedFinal = true ↔ (Chunks.cut chunkSize pieces.flatten).1 ≠ [] ∧
          (Chunks.cut chunkSize pieces.flatten).2 = [] := by
        rcases hlast with ⟨hnil, rfl⟩ | ⟨hne, hlast⟩
        · rw [hw.sealedFinal, hnil]
          simp
        · rw [hlast, decide_eq_true_eq, ← List.length_eq_zero_iff]
          exact ⟨fun heq => ⟨hne, by omega⟩, fun hrest => by omega⟩
      have hdone : pieces.flatten.length = s.declared := hall.trans hdecl.symm
      rw [ok_bind, pure_bind]
      dsimp only
      rw [finish, require, if_pos hw.failed, ok_bind, require, if_pos hdone, ok_bind, recordPieces]
      by_cases hsealed : s.sealedFinal = true
      · rw [if_pos hsealed, if_pos (hfinal.mp hsealed), hs]
        change Except.ok (out ++ []) = Except.ok out
        rw [List.append_nil]
      · rw [if_neg hsealed, if_neg (mt hfinal.mpr hsealed), RecordSealer.sealAll_append, hs]
        rcases hlast : s.sealData p (Chunks.cut chunkSize pieces.flatten).2 with e | ⟨last, s'⟩
        · simp [RecordSealer.sealAll, hlast]
          rfl
        · simp [RecordSealer.sealAll, hlast]
          rfl
  rw [hsealed, dataRecords]
  refine RecordSealer.sealAll_eq ?_ hw.seq ?_ fun c hc => ne_nil_of_mem_tail_recordPieces hc
  · rw [show UInt64.ofNat 1 = w.ctx.seq from hw.ctx_seq.symm]
  · obtain ⟨full, last, heq, -, hflat⟩ := recordPieces_spec pieces.flatten
    rw [hw.emitted, Nat.zero_add, heq, hflat, hall]

/-! ### What the records are -/

/-- The records of a content: as many as it has mebibytes, rounded up, and one if it is empty;
numbered from one, only the last of them final; and what they carry is the content. -/
structure RecordsOf (content : List UInt8) (records : List DataRecord) : Prop where
  count : records.length = if content.length = 0 then 1 else divCeil content.length chunkSize
  numbers : records.map (fun r => r.seq.toNat) = List.range' 1 records.length
  final : records.map DataRecord.isFinal = List.replicate (records.length - 1) false ++ [true]
  carried : (records.map DataRecord.chunk).flatten = content
  small : ∀ r ∈ records, r.chunk.length ≤ chunkSize

/-- What numbered records carry. -/
theorem map_chunk_numberRecords (n : ℕ) (chunks : List (List UInt8)) :
    (numberRecords n chunks).map DataRecord.chunk = chunks := by
  induction chunks generalizing n with
  | nil => rfl
  | cons chunk rest ih => rw [numberRecords, List.map_cons, ih]

/-- As many records as pieces. -/
theorem length_numberRecords (n : ℕ) (chunks : List (List UInt8)) :
    (numberRecords n chunks).length = chunks.length := by
  rw [← List.length_map (f := DataRecord.chunk), map_chunk_numberRecords]

/-- The numbers of records, where they fit. -/
theorem map_seq_numberRecords {n : ℕ} {chunks : List (List UInt8)}
    (h : n + chunks.length ≤ UInt64.size) :
    (numberRecords n chunks).map (fun r => r.seq.toNat) = List.range' n chunks.length := by
  induction chunks generalizing n with
  | nil => rfl
  | cons chunk rest ih =>
    rw [List.length_cons] at h
    rw [numberRecords, List.map_cons, ih (by omega), List.length_cons, List.range'_succ]
    rw [UInt64.toNat_ofNat_of_lt' (by omega)]

/-- Only the last record is final. -/
theorem map_isFinal_numberRecords (n : ℕ) (full : List (List UInt8)) (last : List UInt8) :
    (numberRecords n (full ++ [last])).map DataRecord.isFinal =
      List.replicate full.length false ++ [true] := by
  induction full generalizing n with
  | nil => rfl
  | cons chunk rest ih =>
    rw [List.cons_append, numberRecords, List.map_cons, ih, List.length_cons, List.replicate_succ,
      List.cons_append, List.isEmpty_eq_false_iff.mpr (by simp)]

/-- The records of a content are these, up to the size that a header declares. -/
theorem recordsOf_dataRecords {content : List UInt8} (h : content.length < 2 ^ 64) :
    RecordsOf content (dataRecords content) := by
  obtain ⟨full, last, heq, hrec, hflat⟩ := recordPieces_spec content
  have hlength := hrec.length_flatten
  rw [hflat] at hlength
  have hmany : full.length * 1 ≤ full.length * chunkSize := Nat.mul_le_mul_left _ chunkSize_pos
  have hsize : UInt64.size = 2 ^ 64 := rfl
  have hcount : 1 + (full ++ [last]).length ≤ UInt64.size := by
    rw [List.length_append, List.length_singleton]
    have hfew : full.length * 2 ≤ full.length * chunkSize := Nat.mul_le_mul_left _ (by decide)
    omega
  exact {
    count := by
      rw [dataRecords, length_numberRecords, heq, List.length_append, List.length_singleton]
      split_ifs with hzero
      · by_contra hne
        have hfull : full ≠ [] := by
          rintro rfl
          exact hne rfl
        have := List.length_pos_iff.mpr (hrec.last_ne_nil hfull)
        omega
      · rw [hlength, divCeil_records hrec (by omega)]
    numbers := by
      rw [dataRecords, length_numberRecords, heq, map_seq_numberRecords hcount]
    final := by
      rw [dataRecords, length_numberRecords, heq, map_isFinal_numberRecords, List.length_append,
        List.length_singleton, Nat.add_sub_cancel]
    carried := by rw [dataRecords, map_chunk_numberRecords, heq, hflat]
    small := by
      intro r hr
      have hmem : r.chunk ∈ full ++ [last] := by
        rw [← heq, ← map_chunk_numberRecords 1 (recordPieces content)]
        exact List.mem_map_of_mem hr
      rcases List.mem_append.mp hmem with hmem | hmem
      · exact (hrec.length_full _ hmem).le
      · rw [List.mem_singleton.mp hmem]
        exact hrec.length_last }

/-- A sealed record takes a tag and a length more than what it carries. -/
theorem length_sealRecord (hsuite : p.suite.Lawful) {ctx : SenderContext} {r : DataRecord}
    {out : List UInt8} (h : sealRecord p ctx r = .ok out) :
    out.length = 4 + tagLen + r.chunk.length := by
  obtain ⟨⟨ct, ctx'⟩, hseal, h⟩ := bind_eq_ok.mp h
  obtain ⟨_, -, h⟩ := bind_eq_ok.mp h
  obtain rfl := Except.ok.inj h
  rw [List.length_append, length_toBE, length_sealMessage hsuite (hpkeOutcome_eq_ok.mp hseal)]
  omega

/-- The bytes of sealed records. -/
theorem length_sealRecords (hsuite : p.suite.Lawful) {ctx : SenderContext}
    {records : List DataRecord} {out : List UInt8} (h : sealRecords p ctx records = .ok out) :
    out.length = records.length * (4 + tagLen) +
      (records.map DataRecord.chunk).flatten.length := by
  induction records generalizing out with
  | nil =>
    obtain rfl := Except.ok.inj h
    simp
  | cons r rest ih =>
    obtain ⟨first, hfirst, h⟩ := bind_eq_ok.mp h
    obtain ⟨more, hmore, h⟩ := bind_eq_ok.mp h
    obtain rfl := Except.ok.inj h
    rw [List.length_append, length_sealRecord hsuite hfirst, ih hmore, List.map_cons,
      List.flatten_cons, List.length_append, List.length_cons, Nat.succ_mul]
    omega

/-- The cipher refuses a record. -/
def DataRecord.Refused (r : DataRecord) (p : Primitives) (ctx : SenderContext) : Prop :=
  p.suite.encrypt ctx.key (HpkeContext.nonceOf ctx.baseNonce r.seq) (makeAad r.seq r.isFinal)
    r.chunk = none

/-- A record of a content is sealed, unless the cipher refuses it. -/
theorem sealRecord_error (hsuite : p.suite.Lawful) {ctx : SenderContext}
    (hctx : ctx.overflowed = false) {r : DataRecord} (hsmall : r.chunk.length ≤ chunkSize)
    (hseq : r.seq.toNat < 2 ^ 64 - 1) {e : EnvelopeError} (h : sealRecord p ctx r = .error e) :
    e = .hpke .sealFailed ∧ r.Refused p ctx := by
  rw [sealRecord, SenderContext.sealMessage, HpkeContext.message,
    if_neg (by rw [hctx]; exact Bool.false_ne_true), HpkeContext.computeNonce,
    if_neg (by rw [hctx]; exact Bool.false_ne_true)] at h
  dsimp only at h
  cases hct : p.suite.encrypt ctx.key (HpkeContext.nonceOf ctx.baseNonce r.seq)
      (makeAad r.seq r.isFinal) r.chunk with
  | none =>
    rw [hct] at h
    exact ⟨(Except.error.inj h).symm, hct⟩
  | some ct =>
    rw [hct, HpkeContext.incrementSeq, if_neg (by exact hseq.ne)] at h
    have hlen : ct.length < 2 ^ 32 := by
      rw [hsuite.length_encrypt _ _ _ _ _ hct]
      simp only [tagLen, chunkSize] at hsmall ⊢
      omega
    rw [hpkeOutcome, ok_bind, appendRecord, require, if_pos hlen] at h
    cases h

/-- The records of a content are sealed, unless the cipher refuses one. -/
theorem sealRecords_error (hsuite : p.suite.Lawful) {ctx : SenderContext}
    (hctx : ctx.overflowed = false) {records : List DataRecord}
    (hsmall : ∀ r ∈ records, r.chunk.length ≤ chunkSize ∧ r.seq.toNat < 2 ^ 64 - 1)
    {e : EnvelopeError} (h : sealRecords p ctx records = .error e) :
    e = .hpke .sealFailed ∧ ∃ r ∈ records, r.Refused p ctx := by
  induction records with
  | nil => cases h
  | cons r rest ih =>
    obtain ⟨hr, hrest⟩ := List.forall_mem_cons.mp hsmall
    rcases bind_eq_error.mp h with h | ⟨out, -, h⟩
    · obtain ⟨he, hrefused⟩ := sealRecord_error hsuite hctx hr.1 hr.2 h
      exact ⟨he, r, List.mem_cons_self, hrefused⟩
    · rcases bind_eq_error.mp h with h | ⟨more, -, h⟩
      · obtain ⟨he, r', hmem, hrefused⟩ := ih hrest h
        exact ⟨he, r', List.mem_cons_of_mem _ hmem, hrefused⟩
      · cases h

/-! ### No step overflows -/

/-- A sealer has sealed a full record for each number it has taken. -/
def RecordSealer.Counts (s : RecordSealer) : Prop :=
  s.seq.toNat * chunkSize ≤ s.emitted + chunkSize

/-- The next number fits while what is sealed does. -/
theorem RecordSealer.Counts.seq_lt {s : RecordSealer} (h : s.Counts)
    (hemitted : s.emitted < UInt64.size) : s.seq.toNat + 1 < UInt64.size := by
  have hsize : UInt64.size = 2 ^ 64 := rfl
  simp only [Counts, chunkSize] at h
  omega

/-- Sealing a full record takes one number. -/
theorem RecordSealer.Counts.sealData {s s' : RecordSealer} (h : s.Counts)
    {chunk out : List UInt8} (hfull : chunk.length = chunkSize)
    (hdata : s.sealData p chunk = .ok (out, s')) : s'.Counts := by
  obtain ⟨-, -, -, -, -, hemitted, hseq, -⟩ := RecordSealer.sealData_eq_ok hdata
  have hnext : (s.seq + 1).toNat ≤ s.seq.toNat + 1 := by
    rw [UInt64.toNat_add]
    exact Nat.mod_le _ _
  have hmul := Nat.mul_le_mul_right chunkSize hnext
  rw [Counts] at h ⊢
  rw [hemitted, hseq, hfull]
  rw [Nat.add_mul, Nat.one_mul] at hmul
  omega

/-- Sealing full records takes their numbers. -/
theorem RecordSealer.Counts.sealAll {s s' : RecordSealer} (h : s.Counts)
    {chunks : List (List UInt8)} {out : List UInt8} (hfull : ∀ c ∈ chunks, c.length = chunkSize)
    (hall : s.sealAll p chunks = .ok (out, s')) : s'.Counts := by
  induction chunks generalizing s out with
  | nil =>
    obtain ⟨-, rfl⟩ := Prod.mk.inj (Except.ok.inj hall)
    exact h
  | cons chunk rest ih =>
    obtain ⟨hchunk, hrest⟩ := List.forall_mem_cons.mp hfull
    obtain ⟨⟨first, s₁⟩, hfirst, hall⟩ := bind_eq_ok.mp hall
    obtain ⟨⟨more, s₂⟩, hmore, hall⟩ := bind_eq_ok.mp hall
    obtain ⟨-, rfl⟩ := Prod.mk.inj (Except.ok.inj hall)
    exact ih (h.sealData hchunk hfirst) hrest hmore

/-- A record is sealed without overflow. -/
theorem RecordSealer.sealDataChecked_eq {s : RecordSealer} {chunk : List UInt8}
    (hemitted : s.emitted + chunk.length < UInt64.size) (hseq : s.seq.toNat + 1 < UInt64.size) :
    s.sealDataChecked p chunk = some (s.sealData p chunk) := by
  have hnext : UInt64.ofNat (s.seq.toNat + 1) = s.seq + 1 := by
    rw [UInt64.ofNat_add, UInt64.ofNat_toNat]
    rfl
  rw [sealDataChecked, sealData, Checked.add_of_lt hemitted, Option.bind_eq_bind,
    Option.bind_some]
  dsimp only
  rcases hpkeOutcome (SenderContext.sealMessage p.suite s.ctx
    (makeAad s.seq (decide (s.emitted + chunk.length = s.declared))) chunk) with e | ⟨ct, ctx⟩
  · rfl
  · rw [ok_bind, ok_bind]
    rcases appendRecord ct with e | record
    · rfl
    · dsimp only [pure, Except.pure, bind, Except.bind]
      rw [Checked.add_of_lt hseq, Option.bind_some, hnext]

/-- Full records are sealed without overflow. -/
theorem RecordSealer.sealChunksChecked_eq {s : RecordSealer} {rest : List UInt8} (h : s.Counts)
    (hemitted : s.emitted + rest.length < UInt64.size) :
    s.sealChunksChecked p rest = some (s.sealChunks p rest) := by
  fun_induction RecordSealer.sealChunks p s rest with
  | case1 s rest hle ih =>
    have htake : (rest.take chunkSize).length = chunkSize := by
      rw [List.length_take, Nat.min_eq_left hle]
    rw [sealChunksChecked, if_pos hle, sealDataChecked_eq (by rw [htake]; omega)
      (h.seq_lt (by omega))]
    rcases hdata : s.sealData p (rest.take chunkSize) with e | ⟨out, s'⟩
    · rfl
    · obtain ⟨-, -, -, -, -, hemitted', -, -⟩ := RecordSealer.sealData_eq_ok hdata
      have hrest := ih s' (h.sealData htake hdata) (by
        rw [hemitted', htake, List.length_drop]
        omega)
      rw [ok_bind, Option.bind_eq_bind, Option.bind_some]
      dsimp only
      rw [hrest, Option.bind_eq_bind, Option.bind_some]
      rcases s'.sealChunks p (rest.drop chunkSize) with e | ⟨more, rest', s''⟩
      · rfl
      · rfl
  | case2 s rest hlt => rw [sealChunksChecked, if_neg hlt]

/-- A started record is filled without overflow, and what is left can be sealed. -/
theorem RecordSealer.fillBufferChecked_eq {s : RecordSealer} {buf : List UInt8}
    (rest : List UInt8) (h : s.Counts) (hbuf : buf.length < chunkSize)
    (hemitted : s.emitted + (buf ++ rest).length < UInt64.size) :
    s.fillBufferChecked p buf rest = some (s.fillBuffer p buf rest) ∧
      ∀ out buf' rest' s', s.fillBuffer p buf rest = .ok (out, buf', rest', s') →
        s'.Counts ∧ s'.emitted + rest'.length < UInt64.size := by
  rw [List.length_append] at hemitted
  rw [fillBufferChecked, fillBuffer]
  by_cases hnil : buf = []
  · rw [if_pos hnil, if_pos hnil]
    refine ⟨rfl, fun out buf' rest' s' heq => ?_⟩
    cases heq
    exact ⟨h, by omega⟩
  · rw [if_neg hnil, if_neg hnil, Checked.sub_of_le hbuf.le, Option.bind_eq_bind, Option.bind_some]
    dsimp only
    have hdrop : (rest.drop (min (chunkSize - buf.length) rest.length)).length =
        rest.length - min (chunkSize - buf.length) rest.length := List.length_drop
    by_cases hfull : (buf ++ rest.take (min (chunkSize - buf.length) rest.length)).length = chunkSize
    · have hlength := hfull
      rw [List.length_append, List.length_take, Nat.min_assoc, Nat.min_self] at hlength
      rw [if_pos hfull, if_pos hfull, sealDataChecked_eq (by rw [hfull]; omega)
        (h.seq_lt (by omega))]
      rcases hdata : s.sealData p _ with e | ⟨out, s'⟩
      · exact ⟨rfl, fun out buf' rest' s' heq => by cases heq⟩
      · refine ⟨rfl, fun out' buf' rest' s'' heq => ?_⟩
        cases heq
        obtain ⟨-, -, -, -, -, hemitted', -, -⟩ := RecordSealer.sealData_eq_ok hdata
        refine ⟨h.sealData hfull hdata, ?_⟩
        rw [hemitted', hfull, hdrop]
        omega
    · rw [if_neg hfull, if_neg hfull]
      refine ⟨rfl, fun out buf' rest' s' heq => ?_⟩
      cases heq
      refine ⟨h, ?_⟩
      rw [hdrop]
      omega

/-! ### Writers in use -/

/-- What holds of a writer after any pushes: while none has failed, it has sealed or holds back what
was pushed, and that is no more than what was declared. -/
structure EnvelopeWriter.Steady (w : EnvelopeWriter) (declared : ℕ) : Prop where
  declared_eq : w.declared = declared
  held : w.failed = false → w.emitted + w.buf.length = w.pushed
  within : w.failed = false → w.pushed ≤ declared
  buf_lt : w.failed = false → w.buf.length < chunkSize
  counts : w.failed = false → w.Counts

/-- A new writer. -/
theorem EnvelopeWriter.Fresh.steady {w : EnvelopeWriter} (h : w.Fresh) : w.Steady w.declared where
  declared_eq := rfl
  held := fun _ => by rw [h.buf, h.emitted, h.pushed]; rfl
  within := fun _ => by rw [h.pushed]; exact Nat.zero_le _
  buf_lt := fun _ => by rw [h.buf]; exact chunkSize_pos
  counts := fun _ => by
    rw [RecordSealer.Counts, h.seq, h.emitted]
    exact Nat.le_of_eq (Nat.add_comm _ _)

/-- A push that succeeds stays within what was declared. -/
theorem EnvelopeWriter.push_within {w w' : EnvelopeWriter} {bytes out : List UInt8}
    (h : w.push p bytes = (.ok out, w')) : w.pushed + bytes.length ≤ w.declared := by
  rw [push] at h
  split_ifs at h with hfailed
  · cases h
  rcases hinner : w.pushInner p bytes with e | ⟨out', w''⟩
  · rw [hinner] at h
    cases h
  · obtain ⟨newPushed, hnew, -⟩ := bind_eq_ok.mp hinner
    obtain ⟨hadd, hle⟩ := Option.filter_eq_some_iff.mp (okOr_eq_ok.mp hnew)
    unfold checkedAdd at hadd
    split_ifs at hadd
    rw [Option.some.inj hadd]
    exact of_decide_eq_true hle

/-- A push that fails, fails for good. -/
theorem EnvelopeWriter.push_error {w w' : EnvelopeWriter} {bytes : List UInt8} {e : EnvelopeError}
    (h : w.push p bytes = (.error e, w')) : w'.failed = true ∧ w'.declared = w.declared := by
  rw [push] at h
  split_ifs at h with hfailed
  · obtain ⟨-, rfl⟩ := Prod.mk.inj h
    exact ⟨hfailed, rfl⟩
  · rcases hinner : w.pushInner p bytes with e' | ⟨out', w''⟩
    · rw [hinner] at h
      obtain ⟨-, rfl⟩ := Prod.mk.inj h
      exact ⟨rfl, rfl⟩
    · rw [hinner] at h
      cases h

/-- A push keeps a writer steady. -/
theorem EnvelopeWriter.Steady.push {w : EnvelopeWriter} {declared : ℕ} (h : w.Steady declared)
    (bytes : List UInt8) : (w.push p bytes).2.Steady declared := by
  rcases hpush : w.push p bytes with ⟨e | out, w'⟩
  · obtain ⟨hfailed, hdeclared⟩ := push_error hpush
    have hno : w'.failed ≠ false := by
      rw [hfailed]
      exact Bool.noConfusion
    exact ⟨hdeclared.trans h.declared_eq, fun hf => absurd hf hno, fun hf => absurd hf hno,
      fun hf => absurd hf hno, fun hf => absurd hf hno⟩
  · have hfailed : w.failed = false := by
      by_contra hfailed
      rw [EnvelopeWriter.push, if_pos (by simpa using hfailed)] at hpush
      cases hpush
    have hwithin := push_within hpush
    obtain ⟨hsealed, hbuf, hpushed, -⟩ := push_eq_ok (h.buf_lt hfailed) hfailed hpush
    obtain ⟨hdeclared, hemitted, -⟩ := RecordSealer.sealAll_eq_ok hsealed
    have hlength := congrArg List.length (Chunks.flatten_cut chunkSize_pos (w.buf ++ bytes))
    rw [List.length_append, List.length_append] at hlength
    have hheld := h.held hfailed
    exact {
      declared_eq := hdeclared.trans h.declared_eq
      held := fun _ => by
        dsimp only
        rw [hemitted, hbuf, hpushed]
        omega
      within := fun _ => by
        dsimp only
        rw [hpushed, ← h.declared_eq]
        exact hwithin
      buf_lt := fun _ => by
        dsimp only
        rw [hbuf]
        exact Chunks.length_cut_lt chunkSize_pos _
      counts := fun _ => (h.counts hfailed).sealAll
        (fun c hc => Chunks.length_of_mem_cut chunkSize_pos hc) hsealed }

/-- Any pushes keep a writer steady. -/
theorem EnvelopeWriter.Steady.after {w : EnvelopeWriter} {declared : ℕ} (h : w.Steady declared)
    (pieces : List (List UInt8)) : (w.after p pieces).Steady declared := by
  induction pieces generalizing w with
  | nil => exact h
  | cons bytes pieces ih => exact ih (h.push bytes)

/-- **A push overflows nowhere.** -/
theorem EnvelopeWriter.pushChecked_eq {w : EnvelopeWriter} {declared : ℕ} (h : w.Steady declared)
    (hdeclared : declared < UInt64.size) (bytes : List UInt8) :
    w.pushChecked p bytes = some (w.push p bytes) := by
  rw [pushChecked, push]
  split_ifs with hfailed
  · rfl
  rw [Bool.not_eq_true] at hfailed
  have hinner : w.pushInnerChecked p bytes = some (w.pushInner p bytes) := by
    rw [pushInnerChecked, pushInner]
    cases hnew : (checkedAdd w.pushed bytes.length).filter (· ≤ w.declared) with
    | none => rfl
    | some newPushed =>
      have hwithin : w.pushed + bytes.length ≤ w.declared := by
        obtain ⟨hadd, hle⟩ := Option.filter_eq_some_iff.mp hnew
        unfold checkedAdd at hadd
        split_ifs at hadd
        rw [Option.some.inj hadd]
        exact of_decide_eq_true hle
      have hheld := h.held hfailed
      rw [h.declared_eq] at hwithin
      obtain ⟨hfill, hleft⟩ := RecordSealer.fillBufferChecked_eq (p := p) bytes
        (h.counts hfailed) (h.buf_lt hfailed) (by rw [List.length_append]; omega)
      dsimp only
      rw [hfill, okOr_some, ok_bind, Option.bind_eq_bind, Option.bind_some]
      rcases hf : w.fillBuffer p w.buf bytes with e | ⟨out, buf, rest, s⟩
      · rfl
      · obtain ⟨hcounts, hfits⟩ := hleft out buf rest s hf
        dsimp only
        rw [RecordSealer.sealChunksChecked_eq hcounts hfits, ok_bind, Option.bind_eq_bind,
          Option.bind_some]
        rcases s.sealChunks p rest with e | ⟨more, rest', s'⟩
        · rfl
        · rfl
  rw [hinner, Option.bind_eq_bind, Option.bind_some]
  rcases w.pushInner p bytes with e | ⟨out, w'⟩
  · rfl
  · rfl

/-- **A finish overflows nowhere.** -/
theorem EnvelopeWriter.finishChecked_eq {w : EnvelopeWriter} {declared : ℕ} (h : w.Steady declared)
    (hdeclared : declared < UInt64.size) : w.finishChecked p = some (w.finish p) := by
  rw [finishChecked, finish]
  cases hfailed : w.failed with
  | true => rfl
  | false =>
    rw [if_neg Bool.false_ne_true, require, if_pos rfl, ok_bind]
    by_cases hdone : w.pushed = w.declared
    · rw [if_neg (not_not.mpr hdone), require, if_pos hdone, ok_bind]
      split_ifs with hsealed
      · rfl
      · have hheld := h.held hfailed
        have hwithin := h.within hfailed
        have hemitted : w.emitted + w.buf.length < UInt64.size := by omega
        rw [RecordSealer.sealDataChecked_eq hemitted
          ((h.counts hfailed).seq_lt (by omega)), Option.bind_eq_bind, Option.bind_some]
        rcases w.sealData p w.buf with e | ⟨out, s⟩
        · rfl
        · rfl
    · rw [if_pos hdone, require, if_neg hdone]
      rfl

/-- **A push past what was declared fails.** -/
theorem EnvelopeWriter.push_too_much {w : EnvelopeWriter} {bytes : List UInt8}
    (h : w.declared < w.pushed + bytes.length) : ∃ e, (w.push p bytes).1 = .error e := by
  rcases hpush : w.push p bytes with ⟨e | out, w'⟩
  · exact ⟨e, rfl⟩
  · exact absurd (push_within hpush) (not_le.mpr h)

/-- **After a failure every call fails.** -/
theorem EnvelopeWriter.latched {w : EnvelopeWriter} (h : w.failed = true)
    (pieces : List (List UInt8)) : w.after p pieces = w ∧ (∀ bytes, w.push p bytes = (.error .alreadyFailed, w)) ∧
      w.finish p = .error .alreadyFailed := by
  have hpush : ∀ bytes, w.push p bytes = (.error .alreadyFailed, w) := fun _ => if_pos h
  refine ⟨?_, hpush, ?_⟩
  · induction pieces with
    | nil => rfl
    | cons bytes pieces ih =>
      rw [after, List.foldl_cons, hpush bytes]
      exact ih
  · rw [finish, require, if_neg (by rw [h]; exact Bool.noConfusion)]
    rfl

/-- While no push has failed, all of it was taken in. -/
theorem EnvelopeWriter.pushed_after {w : EnvelopeWriter} {declared : ℕ} (h : w.Steady declared)
    {pieces : List (List UInt8)} (hlast : (w.after p pieces).failed = false) :
    (w.after p pieces).pushed = w.pushed + pieces.flatten.length := by
  induction pieces generalizing w with
  | nil => rfl
  | cons bytes pieces ih =>
    have hrest := ih (h.push bytes) hlast
    have hfailed : w.failed = false := by
      by_contra hfailed
      rw [(latched (p := p) (by simpa using hfailed) (bytes :: pieces)).1] at hlast
      exact hfailed hlast
    have hnext : w.after p (bytes :: pieces) = (w.push p bytes).2.after p pieces := rfl
    rcases hpush : w.push p bytes with ⟨e | out, w'⟩
    · have hfail := (push_error hpush).1
      rw [hnext, hpush, (latched hfail pieces).1, hfail] at hlast
      cases hlast
    · obtain ⟨-, -, hpushed, -⟩ := push_eq_ok (h.buf_lt hfailed) hfailed hpush
      rw [hpush] at hrest
      rw [hnext, hpush, hrest, hpushed, List.flatten_cons, List.length_append, Nat.add_assoc]

/-! ### A new writer -/

section
variable {recipient : PublicIdentity} {sender : EnvelopeSender} {keyStore : KeyStore} {rng : Draws}
  {transferId : TransferId} {createdAt : UnixTime} {items : List EnvelopeItem} {w : EnvelopeWriter}
  {head : List UInt8}

/-- A new writer has sealed the manifest only. -/
theorem EnvelopeWriter.fresh_of_new
    (h : EnvelopeWriter.new p recipient sender keyStore rng transferId createdAt items =
      .ok (w, head)) : w.Fresh := by
  obtain ⟨enc, ctx, sigMessage, manifestSig, json, ct, -, hsetup, -, -, -, hseal, -, htotal, -, hbuf,
    hpushed, hemitted, hseq, hfinal, hfailed⟩ := EnvelopeWriter.new_eq_ok h
  obtain ⟨hover, -, -, hctx⟩ := HpkeContext.message_eq_ok_iff.mp hseal
  obtain ⟨len, hdata, -⟩ := Option.bind_eq_some_iff.mp htotal
  obtain ⟨htotal, hfits⟩ := envelopeLen_eq_some htotal hdata
  have hdeclared : w.declared ≤ len := by
    unfold dataLen at hdata
    split_ifs at hdata with hzero
    · omega
    · obtain ⟨overhead, -, hdata⟩ := Option.bind_eq_some_iff.mp hdata
      unfold checkedAdd at hdata
      split_ifs at hdata
      have := Option.some.inj hdata
      omega
  exact {
    buf := hbuf
    pushed := hpushed
    emitted := hemitted
    seq := hseq
    sealedFinal := hfinal
    failed := hfailed
    ctx_seq := by
      rw [hctx]
      change ctx.seq + 1 = 1
      rw [seq_of_setupBaseSender hsetup]
      rfl
    ctx_overflowed := by rw [hctx]; exact hover
    declared_lt := by omega }

/-- The head and the records together have the length that the head promises. -/
theorem EnvelopeWriter.length_head_append (hsuite : p.suite.Lawful)
    (h : EnvelopeWriter.new p recipient sender keyStore rng transferId createdAt items =
      .ok (w, head)) {content bytes : List UInt8} (hall : content.length = w.declared)
    (hbytes : sealRecords p w.ctx (dataRecords content) = .ok bytes) :
    (head ++ bytes).length = w.totalLen := by
  obtain ⟨enc, ctx, sigMessage, manifestSig, json, ct, -, -, -, -, -, -, -, htotal, rfl, -⟩ :=
    EnvelopeWriter.new_eq_ok h
  obtain ⟨len, hdata, -⟩ := Option.bind_eq_some_iff.mp htotal
  obtain ⟨htotal, -⟩ := envelopeLen_eq_some htotal hdata
  obtain ⟨full, last, heq, hrec, hflat⟩ := recordPieces_spec content
  rw [← hall, ← hflat] at hdata
  have hlen := dataLen_records hrec hdata
  have hlength := length_sealRecords hsuite hbytes
  rw [dataRecords, map_chunk_numberRecords, length_numberRecords, heq] at hlength
  rw [List.length_append, List.length_append, List.length_append, length_outerHeader, length_toBE,
    hlength, htotal]
  omega

/-- What is asked of a writer with its head: what it writes are the records of the content, however
it is split, and with the head they have the promised length, unless the cipher refuses one of them;
a push too many and a finish too early fail, after a failed push nothing succeeds; and nothing
overflows. -/
structure EnvelopeWriter.WritesContent (p : Primitives) (w : EnvelopeWriter) (head : List UInt8) :
    Prop where
  split : ∀ pieces, pieces.flatten.length = w.declared →
    w.written p pieces = sealRecords p w.ctx (dataRecords pieces.flatten)
  records : ∀ content, content.length = w.declared → RecordsOf content (dataRecords content)
  length : ∀ pieces bytes, pieces.flatten.length = w.declared → w.written p pieces = .ok bytes →
    (head ++ bytes).length = w.totalLen
  refused : ∀ pieces e, pieces.flatten.length = w.declared → w.written p pieces = .error e →
    e = .hpke .sealFailed ∧ ∃ r ∈ dataRecords pieces.flatten, r.Refused p w.ctx
  too_much : ∀ pieces bytes, w.declared < (pieces.flatten ++ bytes).length →
    ∃ e, ((w.after p pieces).push p bytes).1 = .error e
  too_early : ∀ pieces, pieces.flatten.length ≠ w.declared →
    ∃ e, (w.after p pieces).finish p = .error e
  latches : ∀ pieces bytes e, ((w.after p pieces).push p bytes).1 = .error e → ∀ more,
    (∀ bytes', ((w.after p (pieces ++ bytes :: more)).push p bytes').1 = .error .alreadyFailed) ∧
      (w.after p (pieces ++ bytes :: more)).finish p = .error .alreadyFailed
  head_fits : head.length < UInt64.size
  exact_push : ∀ pieces bytes,
    (w.after p pieces).pushChecked p bytes = some ((w.after p pieces).push p bytes)
  exact_finish : ∀ pieces, (w.after p pieces).finishChecked p = some ((w.after p pieces).finish p)

/-- **A writer writes the records of the content**, for every list of items and every split of every
content of the declared size. -/
theorem EnvelopeWriter.writes_content (hsuite : p.suite.Lawful)
    (h : EnvelopeWriter.new p recipient sender keyStore rng transferId createdAt items =
      .ok (w, head)) : w.WritesContent p head := by
  have hw := EnvelopeWriter.fresh_of_new h
  have hdeclared : w.declared < UInt64.size := hw.declared_lt
  have hsteady : ∀ pieces, (w.after p pieces).Steady w.declared := fun pieces =>
    hw.steady.after pieces
  exact {
    split := fun pieces hall => written_eq hw hall
    records := fun content hall => recordsOf_dataRecords (hall ▸ hw.declared_lt)
    length := by
      intro pieces bytes hall hbytes
      rw [written_eq hw hall] at hbytes
      exact length_head_append hsuite h hall hbytes
    refused := by
      intro pieces e hall herror
      rw [written_eq hw hall] at herror
      have hrecords := recordsOf_dataRecords (hall ▸ hw.declared_lt)
      refine sealRecords_error hsuite hw.ctx_overflowed (fun r hr => ⟨hrecords.small r hr, ?_⟩)
        herror
      have hmem : r.seq.toNat ∈ List.range' 1 (dataRecords pieces.flatten).length := by
        rw [← hrecords.numbers]
        exact List.mem_map_of_mem (f := fun r : DataRecord => r.seq.toNat) hr
      have hcount := hrecords.count
      rw [List.mem_range'_1] at hmem
      rw [divCeil] at hcount
      have hlt := hw.declared_lt
      rw [← hall] at hlt
      have hdiv := Nat.div_le_div_right (c := chunkSize) hlt.le
      have hquot : 2 ^ 64 / chunkSize = 2 ^ 44 := by decide
      split_ifs at hcount <;> omega
    too_much := by
      intro pieces bytes hmore
      cases hfailed : (w.after p pieces).failed with
      | true => exact ⟨.alreadyFailed, by rw [(latched hfailed []).2.1 bytes]⟩
      | false =>
        refine push_too_much ?_
        rw [(hsteady pieces).declared_eq, pushed_after hw.steady hfailed, hw.pushed, Nat.zero_add,
          ← List.length_append]
        exact hmore
    too_early := by
      intro pieces hfew
      cases hfailed : (w.after p pieces).failed with
      | true => exact ⟨.alreadyFailed, (latched hfailed []).2.2⟩
      | false =>
        refine ⟨.itemSizeMismatch, ?_⟩
        rw [finish, hfailed, require, if_pos rfl, ok_bind, require, if_neg]
        · rfl
        · rw [(hsteady pieces).declared_eq, pushed_after hw.steady hfailed, hw.pushed, Nat.zero_add]
          exact hfew
    latches := by
      intro pieces bytes e herror more
      have hfailed : ((w.after p pieces).push p bytes).2.failed = true := by
        rcases hpush : (w.after p pieces).push p bytes with ⟨e' | out, w'⟩
        · exact (push_error hpush).1
        · rw [hpush] at herror
          cases herror
      have hafter : w.after p (pieces ++ bytes :: more) =
          (((w.after p pieces).push p bytes).2.after p more) := by
        rw [after, after, List.foldl_append, List.foldl_cons]
        rfl
      obtain ⟨hsame, hpush, hfinish⟩ := latched (p := p) hfailed more
      rw [hafter, hsame]
      exact ⟨fun bytes' => by rw [hpush bytes'], hfinish⟩
    head_fits := by
      obtain ⟨enc, ctx, sigMessage, manifestSig, json, ct, -, -, -, -, -, -, hmax, -, rfl, -⟩ :=
        EnvelopeWriter.new_eq_ok h
      rw [List.length_append, length_outerHeader, List.length_append, length_toBE]
      have hsize : UInt64.size = 2 ^ 64 := rfl
      simp only [outerHeaderLen, maxManifestRecord] at hmax ⊢
      omega
    exact_push := fun pieces bytes => pushChecked_eq (hsteady pieces) hdeclared bytes
    exact_finish := fun pieces => finishChecked_eq (hsteady pieces) hdeclared }

end

end

open HiTxt in
/-- A writer for one small item. -/
theorem EnvelopeWriter.writes_content_hi : ∃ w head,
    EnvelopeWriter.new primitives recipient sender keyStore (fun _ => .ok ephemeral) transferId
      createdAt (items.map Prod.fst) = .ok (w, head) ∧ w.WritesContent primitives head := by
  obtain ⟨_, -, h⟩ := bind_eq_ok.mp sealEnvelope_eq
  obtain ⟨⟨w, head⟩, hnew, -⟩ := bind_eq_ok.mp h
  exact ⟨w, head, hnew, EnvelopeWriter.writes_content lawful hnew⟩

end Tradr
