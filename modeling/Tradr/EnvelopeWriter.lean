import Tradr.Chunks
import Tradr.Envelope

/-!
# Writing Envelopes

A writer seals the manifest first and then a data record for every full mebibyte that has
arrived; what is left over waits in a buffer. The length of the whole envelope is promised
in the header, before any content.

## Main results

* `EnvelopeWriter.pushInner_eq`: a push seals the records that the buffer and the new bytes
  complete together.
* `EnvelopeWriter.records_of_finish`: a finished writer has sealed records that carry exactly
  what was pushed.
* `exists_sealing`: what is sealed has the length its header promises.
-/

open BigEndian Fallible

namespace Tradr

/-- The part of a writer that sealing a record works on. -/
structure RecordSealer where
  ctx : SenderContext
  declared : ℕ
  emitted : ℕ
  seq : UInt64
  sealedFinal : Bool
  deriving DecidableEq

/-- An envelope on its way out. -/
structure EnvelopeWriter extends RecordSealer where
  buf : List UInt8
  pushed : ℕ
  totalLen : ℕ
  failed : Bool

/-- The number and the bytes of a record. -/
def appendRecord (sealedBytes : List UInt8) : Except EnvelopeError (List UInt8) := do
  require (sealedBytes.length < 2 ^ 32) .itemSizeMismatch
  return toBE 4 sealedBytes.length ++ sealedBytes

/-- Division of 64-bit numbers, rounded up. -/
def divCeil (a b : ℕ) : ℕ :=
  if a % b = 0 then a / b else a / b + 1

/-- The bytes all data records take. -/
def dataLen (declared : ℕ) : Option ℕ :=
  if declared = 0 then some (4 + tagLen)
  else (checkedMul (divCeil declared chunkSize) (4 + tagLen)).bind (checkedAdd · declared)

/-- The bytes the whole envelope takes. -/
def envelopeLen (manifestLen declared : ℕ) : Option ℕ := do
  let data ← dataLen declared
  let t ← checkedAdd outerHeaderLen 4
  let t ← checkedAdd t manifestLen
  checkedAdd t data

variable (p : Primitives)

/-- Seal the manifest: the writer, and the bytes of the header and the manifest record. -/
def EnvelopeWriter.new (recipient : PublicIdentity) (sender : EnvelopeSender)
    (keyStore : KeyStore) (rng : Draws) (transferId : TransferId) (createdAt : UnixTime)
    (items : List EnvelopeItem) : Except EnvelopeError (EnvelopeWriter × List UInt8) := do
  let declared ← okOr (declaredSize items) .itemSizeMismatch
  let (enc, ctx) ← (setupBaseSender p.suite recipient.agreementPub rng
    (makeHpkeInfo recipient.deviceId sender.identity.deviceId)).mapError .hpke
  let sigMessage ← buildSignaturePayload enc recipient.deviceId sender.identity.deviceId
    createdAt.secs (transferIdToBytes transferId) (items.map EnvelopeItem.signed)
  let manifestSig ← (keyStore.sign .deferredDelivery sigMessage).mapError .keyStore
  let manifestJson ←
    (p.json.toVec (manifestWire sender transferId createdAt items manifestSig)).mapError .json
  let (sealedManifest, ctx) ←
    hpkeOutcome (SenderContext.sealMessage p.suite ctx (makeAad 0 false) manifestJson)
  require (sealedManifest.length ≤ maxManifestRecord)
    (.manifestMalformed (.text "manifest record too large"))
  let totalLen ← okOr (envelopeLen sealedManifest.length declared) .itemSizeMismatch
  let record ← appendRecord sealedManifest
  return ({ ctx, declared, totalLen, buf := [], pushed := 0, emitted := 0, seq := 1,
            sealedFinal := false, failed := false },
    outerHeader recipient.deviceId sender.identity.deviceId enc totalLen ++ record)

/-- Seal one data record; it is final when it completes the declared size. -/
def RecordSealer.sealData (s : RecordSealer) (chunk : List UInt8) :
    Except EnvelopeError (List UInt8 × RecordSealer) := do
  let isFinal := decide (s.emitted + chunk.length = s.declared)
  let (sealedBytes, ctx) ←
    hpkeOutcome (SenderContext.sealMessage p.suite s.ctx (makeAad s.seq isFinal) chunk)
  let record ← appendRecord sealedBytes
  return (record, { s with ctx, emitted := s.emitted + chunk.length, seq := s.seq + 1,
                           sealedFinal := isFinal })

/-- Fill a record that was started, and seal it once it is full: what was sealed, the
record as far as it is filled, and the bytes left over. -/
def RecordSealer.fillBuffer (s : RecordSealer) (buf rest : List UInt8) :
    Except EnvelopeError (List UInt8 × List UInt8 × List UInt8 × RecordSealer) :=
  if buf = [] then .ok ([], [], rest, s)
  else
    let take := min (chunkSize - buf.length) rest.length
    let filled := buf ++ rest.take take
    if filled.length = chunkSize then do
      let (out, s) ← s.sealData p filled
      return (out, [], rest.drop take, s)
    else .ok ([], filled, rest.drop take, s)

/-- Seal the full records at the front of the bytes: what was sealed, and the bytes left
over. -/
def RecordSealer.sealChunks (s : RecordSealer) (rest : List UInt8) :
    Except EnvelopeError (List UInt8 × List UInt8 × RecordSealer) :=
  if chunkSize ≤ rest.length then do
    let (out, s) ← s.sealData p (rest.take chunkSize)
    let (more, rest, s) ← s.sealChunks (rest.drop chunkSize)
    return (out ++ more, rest, s)
  else .ok ([], rest, s)
termination_by rest.length
decreasing_by
  rename_i hfull
  simp only [List.length_drop, chunkSize] at hfull ⊢
  omega

/-- Take in bytes of the items. -/
def EnvelopeWriter.pushInner (w : EnvelopeWriter) (bytes : List UInt8) :
    Except EnvelopeError (List UInt8 × EnvelopeWriter) := do
  let newPushed ← okOr ((checkedAdd w.pushed bytes.length).filter (· ≤ w.declared))
    .itemSizeMismatch
  let (out, buf, rest, s) ← w.fillBuffer p w.buf bytes
  let (more, rest, s) ← s.sealChunks p rest
  return (out ++ more, { w with toRecordSealer := s, buf := buf ++ rest, pushed := newPushed })

/-- Take in bytes of the items, back to back: the records that became complete. -/
def EnvelopeWriter.push (w : EnvelopeWriter) (bytes : List UInt8) :
    Except EnvelopeError (List UInt8) × EnvelopeWriter :=
  if w.failed then (.error .alreadyFailed, w)
  else
    match w.pushInner p bytes with
    | .ok (out, w) => (.ok out, w)
    | .error e => (.error e, { w with failed := true })

/-- The remaining records, once all bytes have arrived. -/
def EnvelopeWriter.finish (w : EnvelopeWriter) : Except EnvelopeError (List UInt8) := do
  require (w.failed = false) .alreadyFailed
  require (w.pushed = w.declared) .itemSizeMismatch
  if w.sealedFinal then return []
  else
    let (out, _) ← w.sealData p w.buf
    return out

/-- Push pieces one after the other, up to the first that fails. -/
def EnvelopeWriter.pushAll : EnvelopeWriter → List (List UInt8) →
    Except EnvelopeError (List UInt8 × EnvelopeWriter)
  | w, [] => .ok ([], w)
  | w, bytes :: pieces =>
    match w.push p bytes with
    | (.error e, _) => .error e
    | (.ok out, w) => do
      let (more, w) ← w.pushAll pieces
      return (out ++ more, w)

/-- Seal items and their contents into an envelope. -/
def sealEnvelope (recipient : PublicIdentity) (sender : EnvelopeSender) (keyStore : KeyStore)
    (rng : Draws) (transferId : TransferId) (createdAt : UnixTime)
    (items : List (EnvelopeItem × List UInt8)) : Except EnvelopeError (List UInt8) := do
  require (∀ x ∈ items, x.2.length = x.1.size.toNat) .itemSizeMismatch
  let (writer, head) ← EnvelopeWriter.new p recipient sender keyStore rng transferId createdAt
    (items.map Prod.fst)
  let (out, writer) ← writer.pushAll p (items.map Prod.snd)
  let last ← writer.finish p
  return head ++ out ++ last

/-! ### Records -/

variable {p}

theorem chunkSize_pos : 0 < chunkSize := by decide

/-- Seal pieces as records, one after the other. -/
def RecordSealer.sealAll (p : Primitives) : RecordSealer → List (List UInt8) →
    Except EnvelopeError (List UInt8 × RecordSealer)
  | s, [] => .ok ([], s)
  | s, chunk :: chunks => do
    let (out, s) ← s.sealData p chunk
    let (more, s) ← s.sealAll p chunks
    return (out ++ more, s)

/-- Sealing two lists of pieces is sealing one after the other. -/
theorem RecordSealer.sealAll_append (s : RecordSealer) (cs ds : List (List UInt8)) :
    s.sealAll p (cs ++ ds) = do
      let (out, s) ← s.sealAll p cs
      let (more, s) ← s.sealAll p ds
      return (out ++ more, s) := by
  induction cs generalizing s with
  | nil => simp [sealAll]
  | cons c cs ih =>
      simp [sealAll, ih]

/-- Sealing one more piece. -/
theorem RecordSealer.sealAll_concat {s s₁ s₂ : RecordSealer} {chunks : List (List UInt8)}
    {chunk out o : List UInt8} (h : s.sealAll p chunks = .ok (out, s₁))
    (hc : s₁.sealData p chunk = .ok (o, s₂)) :
    s.sealAll p (chunks ++ [chunk]) = .ok (out ++ o, s₂) := by
  rw [sealAll_append, h, ok_bind]
  simp [sealAll, hc]

/-- The loop over full records seals the pieces that are cut off. -/
theorem RecordSealer.sealChunks_eq (s : RecordSealer) (rest : List UInt8) :
    s.sealChunks p rest = do
      let (out, s) ← s.sealAll p (Chunks.cut chunkSize rest).1
      return (out, (Chunks.cut chunkSize rest).2, s) := by
  fun_induction RecordSealer.sealChunks p s rest with
  | case1 s rest h ih =>
      rw [Chunks.cut_of_le chunkSize_pos h]
      simp [sealAll, ih]
  | case2 s rest h =>
      rw [Chunks.cut_of_lt (Nat.lt_of_not_le h)]
      rfl

/-- A started record that the new bytes do not fill takes them all. -/
theorem RecordSealer.fillBuffer_of_lt {s : RecordSealer} {buf rest : List UInt8}
    (hne : buf ≠ []) (h : (buf ++ rest).length < chunkSize) :
    s.fillBuffer p buf rest = .ok ([], buf ++ rest, [], s) := by
  have htake : min (chunkSize - buf.length) rest.length = rest.length := by
    rw [List.length_append] at h
    omega
  simp only [fillBuffer, if_neg hne, htake, List.take_length, List.drop_length]
  rw [if_neg (by omega)]

/-- A started record that the new bytes fill is sealed. -/
theorem RecordSealer.fillBuffer_of_le {s : RecordSealer} {buf rest : List UInt8}
    (hne : buf ≠ []) (hbuf : buf.length < chunkSize) (h : chunkSize ≤ (buf ++ rest).length) :
    s.fillBuffer p buf rest = do
      let (out, s) ← s.sealData p ((buf ++ rest).take chunkSize)
      return (out, [], (buf ++ rest).drop chunkSize, s) := by
  have htake : min (chunkSize - buf.length) rest.length = chunkSize - buf.length := by
    rw [List.length_append] at h
    omega
  have hfull : buf ++ rest.take (chunkSize - buf.length) = (buf ++ rest).take chunkSize := by
    rw [List.take_append, List.take_of_length_le hbuf.le]
  have hrest : rest.drop (chunkSize - buf.length) = (buf ++ rest).drop chunkSize := by
    rw [List.drop_append, List.drop_of_length_le hbuf.le, List.nil_append]
  have hlen : ((buf ++ rest).take chunkSize).length = chunkSize := by
    rw [List.length_take, Nat.min_eq_left h]
  simp only [fillBuffer, if_neg hne, htake, hfull, hrest]
  rw [if_pos hlen]

/-- **Pushing seals the records that the buffer and the new bytes complete together**, and
keeps what is left over. -/
theorem EnvelopeWriter.pushInner_eq {w : EnvelopeWriter} (hbuf : w.buf.length < chunkSize)
    (bytes : List UInt8) :
    w.pushInner p bytes = do
      let newPushed ← okOr ((checkedAdd w.pushed bytes.length).filter (· ≤ w.declared))
        .itemSizeMismatch
      let (out, s) ← w.sealAll p (Chunks.cut chunkSize (w.buf ++ bytes)).1
      return (out, { w with
        toRecordSealer := s
        buf := (Chunks.cut chunkSize (w.buf ++ bytes)).2
        pushed := newPushed }) := by
  unfold pushInner
  congr 1
  funext newPushed
  by_cases h0 : w.buf = []
  · simp [h0, RecordSealer.fillBuffer, RecordSealer.sealChunks_eq]
  · rcases Nat.lt_or_ge (w.buf ++ bytes).length chunkSize with hlt | hge
    · have hnil : Chunks.cut chunkSize ([] : List UInt8) = ([], []) :=
        Chunks.cut_of_lt chunkSize_pos
      rw [RecordSealer.fillBuffer_of_lt h0 hlt, Chunks.cut_of_lt hlt]
      simp [RecordSealer.sealChunks_eq, RecordSealer.sealAll, hnil]
    · rw [RecordSealer.fillBuffer_of_le h0 hbuf hge, Chunks.cut_of_le chunkSize_pos hge]
      simp [RecordSealer.sealChunks_eq, RecordSealer.sealAll]

/-- What a sealed record is, and how it advances the sealer. -/
theorem RecordSealer.sealData_eq_ok {s s' : RecordSealer} {chunk out : List UInt8}
    (h : s.sealData p chunk = .ok (out, s')) :
    ∃ ct, SenderContext.sealMessage p.suite s.ctx
        (makeAad s.seq (decide (s.emitted + chunk.length = s.declared))) chunk = (.ok ct, s'.ctx) ∧
      ct.length < 2 ^ 32 ∧ out = toBE 4 ct.length ++ ct ∧ s'.declared = s.declared ∧
      s'.emitted = s.emitted + chunk.length ∧ s'.seq = s.seq + 1 ∧
      s'.sealedFinal = decide (s.emitted + chunk.length = s.declared) := by
  obtain ⟨⟨ct, ctx⟩, hseal, h⟩ := bind_eq_ok.mp h
  obtain ⟨record, hrecord, h⟩ := bind_eq_ok.mp h
  obtain ⟨_, hlen, hrecord⟩ := bind_eq_ok.mp hrecord
  obtain ⟨rfl, rfl⟩ := Prod.mk.inj (Except.ok.inj h)
  refine ⟨ct, ?_, require_eq_ok.mp hlen, (Except.ok.inj hrecord).symm, rfl, rfl, rfl, rfl⟩
  generalize SenderContext.sealMessage p.suite s.ctx _ chunk = answer at hseal
  obtain ⟨e | bytes, ctx'⟩ := answer
  · exact absurd hseal (by simp [hpkeOutcome])
  · obtain ⟨rfl, rfl⟩ := Prod.mk.inj (Except.ok.inj hseal)
    rfl

/-- Sealing pieces advances the sealer by all their bytes; whether the last record was
final is decided by the last piece. -/
theorem RecordSealer.sealAll_eq_ok {s s' : RecordSealer} {chunks : List (List UInt8)}
    {out : List UInt8} (h : s.sealAll p chunks = .ok (out, s')) :
    s'.declared = s.declared ∧ s'.emitted = s.emitted + chunks.flatten.length ∧
      (chunks = [] ∧ s' = s ∨
        chunks ≠ [] ∧ s'.sealedFinal = decide (s'.emitted = s.declared)) := by
  induction chunks generalizing s out with
  | nil =>
      obtain ⟨-, rfl⟩ := Prod.mk.inj (Except.ok.inj h)
      exact ⟨rfl, rfl, .inl ⟨rfl, rfl⟩⟩
  | cons c cs ih =>
      obtain ⟨⟨o₁, s₁⟩, h₁, h⟩ := bind_eq_ok.mp h
      obtain ⟨⟨o₂, s₂⟩, h₂, h⟩ := bind_eq_ok.mp h
      obtain ⟨-, rfl⟩ := Prod.mk.inj (Except.ok.inj h)
      obtain ⟨-, -, -, -, hdecl, hemit, -, hfinal⟩ := sealData_eq_ok h₁
      obtain ⟨hdecl', hemit', hlast⟩ := ih h₂
      refine ⟨by rw [hdecl', hdecl], ?_, .inr ⟨by simp, ?_⟩⟩
      · rw [hemit', hemit, List.flatten_cons, List.length_append, Nat.add_assoc]
      · rcases hlast with ⟨-, rfl⟩ | ⟨-, hlast⟩
        · rw [hfinal, hemit]
        · rw [hlast, hdecl]

/-- Each sealed message takes the next number of the context. -/
theorem RecordSealer.seq_of_sealAll {s s' : RecordSealer} {chunks : List (List UInt8)}
    {out : List UInt8} (h : s.sealAll p chunks = .ok (out, s')) :
    s'.ctx.seq.toNat = s.ctx.seq.toNat + chunks.length := by
  induction chunks generalizing s out with
  | nil =>
      obtain ⟨-, rfl⟩ := Prod.mk.inj (Except.ok.inj h)
      rfl
  | cons c cs ih =>
      obtain ⟨⟨o₁, s₁⟩, h₁, h⟩ := bind_eq_ok.mp h
      obtain ⟨⟨o₂, s₂⟩, h₂, h⟩ := bind_eq_ok.mp h
      obtain ⟨-, rfl⟩ := Prod.mk.inj (Except.ok.inj h)
      obtain ⟨ct, hseal, -⟩ := sealData_eq_ok h₁
      rw [ih h₂, toNat_seq_of_sealMessage hseal, List.length_cons]
      omega

/-- The bytes of a sealed record: a length, and a tag more than the plaintext. -/
theorem length_sealData (hsuite : p.suite.Lawful) {s s' : RecordSealer}
    {chunk out : List UInt8} (h : s.sealData p chunk = .ok (out, s')) :
    out.length = 4 + tagLen + chunk.length := by
  obtain ⟨ct, hseal, -, rfl, -⟩ := RecordSealer.sealData_eq_ok h
  rw [List.length_append, length_toBE, length_sealMessage hsuite hseal]
  omega

/-- The bytes of sealed records. -/
theorem length_sealAll (hsuite : p.suite.Lawful) {s s' : RecordSealer}
    {chunks : List (List UInt8)} {out : List UInt8} (h : s.sealAll p chunks = .ok (out, s')) :
    out.length = chunks.length * (4 + tagLen) + chunks.flatten.length := by
  induction chunks generalizing s out with
  | nil =>
      obtain ⟨rfl, -⟩ := Prod.mk.inj (Except.ok.inj h)
      simp
  | cons c cs ih =>
      obtain ⟨⟨o₁, s₁⟩, h₁, h⟩ := bind_eq_ok.mp h
      obtain ⟨⟨o₂, s₂⟩, h₂, h⟩ := bind_eq_ok.mp h
      obtain ⟨rfl, rfl⟩ := Prod.mk.inj (Except.ok.inj h)
      rw [List.length_append, length_sealData hsuite h₁, ih h₂, List.flatten_cons,
        List.length_append, List.length_cons, Nat.succ_mul]
      omega

/-! ### A whole envelope -/

/-- What a writer starts from: the context of its header, the manifest it has sealed under
it, and the length it has promised. -/
theorem EnvelopeWriter.new_eq_ok {recipient : PublicIdentity} {sender : EnvelopeSender}
    {keyStore : KeyStore} {rng : Draws} {transferId : TransferId} {createdAt : UnixTime}
    {items : List EnvelopeItem} {w : EnvelopeWriter} {head : List UInt8}
    (h : EnvelopeWriter.new p recipient sender keyStore rng transferId createdAt items =
      .ok (w, head)) :
    ∃ enc ctx sigMessage manifestSig json ct, declaredSize items = some w.declared ∧
      setupBaseSender p.suite recipient.agreementPub rng
        (makeHpkeInfo recipient.deviceId sender.identity.deviceId) = .ok (enc, ctx) ∧
      buildSignaturePayload enc recipient.deviceId sender.identity.deviceId createdAt.secs
        (transferIdToBytes transferId) (items.map EnvelopeItem.signed) = .ok sigMessage ∧
      keyStore.sign .deferredDelivery sigMessage = .ok manifestSig ∧
      p.json.toVec (manifestWire sender transferId createdAt items manifestSig) = .ok json ∧
      SenderContext.sealMessage p.suite ctx (makeAad 0 false) json = (.ok ct, w.ctx) ∧
      ct.length ≤ maxManifestRecord ∧ envelopeLen ct.length w.declared = some w.totalLen ∧
      head = outerHeader recipient.deviceId sender.identity.deviceId enc w.totalLen ++
        (toBE 4 ct.length ++ ct) ∧
      w.buf = [] ∧ w.pushed = 0 ∧ w.emitted = 0 ∧ w.seq = 1 ∧ w.sealedFinal = false ∧
      w.failed = false := by
  obtain ⟨declared, hdeclared, h⟩ := bind_eq_ok.mp h
  obtain ⟨⟨enc, ctx⟩, hsetup, h⟩ := bind_eq_ok.mp h
  obtain ⟨sigMessage, hpayload, h⟩ := bind_eq_ok.mp h
  obtain ⟨manifestSig, hsign, h⟩ := bind_eq_ok.mp h
  obtain ⟨json, hjson, h⟩ := bind_eq_ok.mp h
  obtain ⟨⟨ct, ctx'⟩, hseal, h⟩ := bind_eq_ok.mp h
  obtain ⟨_, hmax, h⟩ := bind_eq_ok.mp h
  obtain ⟨totalLen, htotal, h⟩ := bind_eq_ok.mp h
  obtain ⟨record, hrecord, h⟩ := bind_eq_ok.mp h
  obtain ⟨_, -, hrecord⟩ := bind_eq_ok.mp hrecord
  obtain ⟨rfl, rfl⟩ := Prod.mk.inj (Except.ok.inj h)
  obtain rfl := Except.ok.inj hrecord
  exact ⟨enc, ctx, sigMessage, manifestSig, json, ct, okOr_eq_ok.mp hdeclared,
    mapError_eq_ok.mp hsetup, hpayload, mapError_eq_ok.mp hsign, mapError_eq_ok.mp hjson,
    hpkeOutcome_eq_ok.mp hseal, require_eq_ok.mp hmax, okOr_eq_ok.mp htotal, rfl, rfl, rfl, rfl,
    rfl, rfl, rfl⟩

/-- The number of records that carry a declared size. -/
theorem divCeil_records {full : List (List UInt8)} {last : List UInt8}
    (h : Chunks.IsRecords chunkSize full last) (hpos : 0 < full.length * chunkSize + last.length) :
    divCeil (full.length * chunkSize + last.length) chunkSize = full.length + 1 := by
  have hlast : 0 < last.length := by
    by_cases hfull : full = []
    · simpa [hfull] using hpos
    · exact List.length_pos_iff.mpr (h.last_ne_nil hfull)
  have hle := h.length_last
  rw [divCeil, Nat.add_comm, Nat.add_mul_mod_self_right, Nat.add_mul_div_right _ _ chunkSize_pos]
  rcases Nat.lt_or_ge last.length chunkSize with hlt | hge
  · rw [Nat.mod_eq_of_lt hlt, Nat.div_eq_of_lt hlt, if_neg (by omega)]
    omega
  · have heq : last.length = chunkSize := Nat.le_antisymm hle hge
    rw [heq, Nat.mod_self, Nat.div_self chunkSize_pos, if_pos rfl]
    omega

/-- The promised length of the data records is the one they have. -/
theorem dataLen_records {full : List (List UInt8)} {last : List UInt8} {len : ℕ}
    (h : Chunks.IsRecords chunkSize full last)
    (hlen : dataLen (full ++ [last]).flatten.length = some len) :
    len = (full ++ [last]).length * (4 + tagLen) + (full ++ [last]).flatten.length := by
  rw [h.length_flatten] at hlen ⊢
  rw [List.length_append, List.length_singleton]
  unfold dataLen at hlen
  split_ifs at hlen with h0
  · have hfull : full = [] := by
      by_contra hne
      have := List.length_pos_iff.mpr (h.last_ne_nil hne)
      omega
    obtain rfl := Option.some.inj hlen
    rw [h0, hfull]
    simp
  · rw [divCeil_records h (Nat.pos_of_ne_zero h0)] at hlen
    obtain ⟨o, ho, hlen⟩ := Option.bind_eq_some_iff.mp hlen
    unfold checkedMul at ho
    unfold checkedAdd at hlen
    split_ifs at ho hlen
    rw [← Option.some.inj hlen, ← Option.some.inj ho]

/-- The promised length, and that it fits in 64 bits. -/
theorem envelopeLen_eq_some {manifestLen declared len total : ℕ}
    (h : envelopeLen manifestLen declared = some total) (hdata : dataLen declared = some len) :
    total = outerHeaderLen + 4 + manifestLen + len ∧ total < 2 ^ 64 := by
  obtain ⟨data, hd, h⟩ := Option.bind_eq_some_iff.mp h
  obtain rfl := Option.some.inj (hdata.symm.trans hd)
  obtain ⟨t, ht, h⟩ := Option.bind_eq_some_iff.mp h
  obtain ⟨u, hu, h⟩ := Option.bind_eq_some_iff.mp h
  unfold checkedAdd at ht hu h
  split_ifs at ht hu h
  obtain rfl := Option.some.inj ht
  obtain rfl := Option.some.inj hu
  obtain rfl := Option.some.inj h
  exact ⟨rfl, by assumption⟩

/-- A push that succeeds on a writer that has not failed. -/
theorem EnvelopeWriter.push_eq_ok {w w' : EnvelopeWriter} {bytes out : List UInt8}
    (hbuf : w.buf.length < chunkSize) (hfailed : w.failed = false)
    (h : w.push p bytes = (.ok out, w')) :
    w.sealAll p (Chunks.cut chunkSize (w.buf ++ bytes)).1 = .ok (out, w'.toRecordSealer) ∧
      w'.buf = (Chunks.cut chunkSize (w.buf ++ bytes)).2 ∧
      w'.pushed = w.pushed + bytes.length ∧ w'.failed = false := by
  rw [push, if_neg (by simp [hfailed]), pushInner_eq hbuf] at h
  rcases hp : okOr ((checkedAdd w.pushed bytes.length).filter (· ≤ w.declared))
      EnvelopeError.itemSizeMismatch with e | newPushed
  · rw [hp] at h
    exact absurd h (by simp)
  · rw [hp] at h
    rcases hs : w.sealAll p (Chunks.cut chunkSize (w.buf ++ bytes)).1 with e | ⟨out', s⟩
    · rw [hs] at h
      exact absurd h (by simp)
    · rw [hs] at h
      obtain ⟨hout, rfl⟩ := Prod.mk.inj h
      obtain rfl := Except.ok.inj hout
      obtain ⟨hadd, -⟩ := Option.filter_eq_some_iff.mp (okOr_eq_ok.mp hp)
      refine ⟨rfl, rfl, ?_, hfailed⟩
      unfold checkedAdd at hadd
      split_ifs at hadd
      exact (Option.some.inj hadd).symm

/-- **Pushes seal the records of all their bytes together**, however these are split. -/
theorem EnvelopeWriter.pushAll_eq_ok {w w' : EnvelopeWriter} {pieces : List (List UInt8)}
    {out : List UInt8} (hbuf : w.buf.length < chunkSize) (hfailed : w.failed = false)
    (h : w.pushAll p pieces = .ok (out, w')) :
    w.sealAll p (Chunks.cut chunkSize (w.buf ++ pieces.flatten)).1 =
        .ok (out, w'.toRecordSealer) ∧
      w'.buf = (Chunks.cut chunkSize (w.buf ++ pieces.flatten)).2 ∧
      w'.pushed = w.pushed + pieces.flatten.length ∧ w'.failed = false := by
  induction pieces generalizing w out with
  | nil =>
      obtain ⟨rfl, rfl⟩ := Prod.mk.inj (Except.ok.inj h)
      rw [List.flatten_nil, List.append_nil, Chunks.cut_of_lt hbuf]
      exact ⟨rfl, rfl, rfl, hfailed⟩
  | cons bytes pieces ih =>
      rw [pushAll] at h
      rcases hp : w.push p bytes with ⟨e | o₁, w₁⟩
      · rw [hp] at h
        exact absurd h (by simp)
      · rw [hp] at h
        obtain ⟨⟨o₂, w₂⟩, h₂, h⟩ := bind_eq_ok.mp h
        obtain ⟨rfl, rfl⟩ := Prod.mk.inj (Except.ok.inj h)
        obtain ⟨hs₁, hb₁, hp₁, hf₁⟩ := push_eq_ok hbuf hfailed hp
        have hlt : w₁.buf.length < chunkSize := by
          rw [hb₁]
          exact Chunks.length_cut_lt chunkSize_pos _
        obtain ⟨hs₂, hb₂, hp₂, hf₂⟩ := ih hlt hf₁ h₂
        rw [List.flatten_cons, ← List.append_assoc, Chunks.cut_append chunkSize_pos, ← hb₁]
        refine ⟨?_, hb₂, ?_, hf₂⟩
        · rw [RecordSealer.sealAll_append, hs₁]
          simp [hs₂]
        · rw [hp₂, hp₁, List.length_append, Nat.add_assoc]

/-- **A finished writer has sealed records**: full ones and a last one, which together
carry exactly what was pushed. -/
theorem EnvelopeWriter.records_of_finish {w w' : EnvelopeWriter} {pieces : List (List UInt8)}
    {out rest : List UInt8} (hbuf : w.buf = []) (hfailed : w.failed = false)
    (hfinal : w.sealedFinal = false) (hpushed : w.pushed = 0) (hemitted : w.emitted = 0)
    (h : w.pushAll p pieces = .ok (out, w')) (hfinish : w'.finish p = .ok rest) :
    ∃ full last s, Chunks.IsRecords chunkSize full last ∧
      (full ++ [last]).flatten = pieces.flatten ∧ pieces.flatten.length = w.declared ∧
      w.sealAll p (full ++ [last]) = .ok (out ++ rest, s) := by
  have hlt : w.buf.length < chunkSize := by
    rw [hbuf]
    exact chunkSize_pos
  obtain ⟨hs, hb, hp, hf⟩ := pushAll_eq_ok hlt hfailed h
  rw [hbuf, List.nil_append] at hs hb
  obtain ⟨_, -, hfinish⟩ := bind_eq_ok.mp hfinish
  obtain ⟨_, hall, hfinish⟩ := bind_eq_ok.mp hfinish
  obtain ⟨hdecl, hemit, hlast⟩ := RecordSealer.sealAll_eq_ok hs
  have hall := require_eq_ok.mp hall
  have hflat := Chunks.flatten_cut chunkSize_pos pieces.flatten
  have hlen := congrArg List.length hflat
  rw [List.length_append] at hlen
  rw [hp, hpushed, hdecl, Nat.zero_add] at hall
  rw [hemitted, Nat.zero_add] at hemit
  split_ifs at hfinish with hsealed
  · -- The last full record was the final one, so nothing is left over.
    obtain rfl := Except.ok.inj hfinish
    rcases hlast with ⟨-, heq⟩ | ⟨hne, hlast⟩
    · rw [heq, hfinal] at hsealed
      exact absurd hsealed (by simp)
    · rw [hsealed, eq_comm, decide_eq_true_eq] at hlast
      have hnil : (Chunks.cut chunkSize pieces.flatten).2 = [] :=
        List.length_eq_zero_iff.mp (by omega)
      rw [hnil, List.append_nil] at hflat
      refine ⟨_, _, w'.toRecordSealer, Chunks.isRecords_dropLast chunkSize_pos hne, ?_, hall, ?_⟩
      · rw [List.dropLast_append_getLast, hflat]
      · rw [List.dropLast_append_getLast, hs, List.append_nil]
  · obtain ⟨⟨o, s⟩, hdata, hfinish⟩ := bind_eq_ok.mp hfinish
    obtain rfl := Except.ok.inj hfinish
    refine ⟨(Chunks.cut chunkSize pieces.flatten).1, (Chunks.cut chunkSize pieces.flatten).2, s,
      Chunks.isRecords_cut chunkSize_pos ?_, ?_, hall, ?_⟩
    · intro hne hnil
      rcases hlast with ⟨heq, -⟩ | ⟨-, hlast⟩
      · exact hne heq
      · refine hsealed (hlast.trans (decide_eq_true ?_))
        rw [hnil, List.length_nil] at hlen
        omega
    · rw [List.flatten_append, List.flatten_singleton, hflat]
    · rw [RecordSealer.sealAll_append, hs, ← hb]
      simp [RecordSealer.sealAll, hdata]

/-- The bytes of an outer header. -/
theorem length_outerHeader (recipientId senderId : DeviceId) (enc : Bytes 65) (totalLen : ℕ) :
    (outerHeader recipientId senderId enc totalLen).length = outerHeaderLen := by
  have hr : recipientId.bytes.val.length = 16 := recipientId.bytes.property
  have hs : senderId.bytes.val.length = 16 := senderId.bytes.property
  simp only [outerHeader, outerHeaderLen, List.length_cons, List.length_append, hr, hs,
    enc.property, length_toBE]

/-- The making of an envelope: what was derived and sealed for it, and the facts that tie
its parts together. -/
structure Sealing (p : Primitives) (recipient : PublicIdentity) (sender : EnvelopeSender)
    (keyStore : KeyStore) (rng : Draws) (transferId : TransferId) (createdAt : UnixTime)
    (items : List (EnvelopeItem × List UInt8)) where
  enc : Bytes 65
  ctx : HpkeContext
  sigMessage : List UInt8
  manifestSig : Signature
  json : List UInt8
  ct : List UInt8
  sealer : RecordSealer
  sealer' : RecordSealer
  full : List (List UInt8)
  last : List UInt8
  out : List UInt8
  declaredSize_eq : declaredSize (items.map Prod.fst) = some sealer.declared
  setup : setupBaseSender p.suite recipient.agreementPub rng
    (makeHpkeInfo recipient.deviceId sender.identity.deviceId) = .ok (enc, ctx)
  payload : buildSignaturePayload enc recipient.deviceId sender.identity.deviceId createdAt.secs
    (transferIdToBytes transferId) ((items.map Prod.fst).map EnvelopeItem.signed) = .ok sigMessage
  sign : keyStore.sign .deferredDelivery sigMessage = .ok manifestSig
  toVec : p.json.toVec (manifestWire sender transferId createdAt (items.map Prod.fst)
    manifestSig) = .ok json
  sealManifest : SenderContext.sealMessage p.suite ctx (makeAad 0 false) json = (.ok ct, sealer.ctx)
  length_ct : ct.length ≤ maxManifestRecord
  isRecords : Chunks.IsRecords chunkSize full last
  flatten : (full ++ [last]).flatten = (items.map Prod.snd).flatten
  length_flatten : (full ++ [last]).flatten.length = sealer.declared
  emitted : sealer.emitted = 0
  seq : sealer.seq = 1
  sealAll : sealer.sealAll p (full ++ [last]) = .ok (out, sealer')
  fits : outerHeaderLen + 4 + ct.length + out.length < 2 ^ 64

section Sealing

variable {recipient : PublicIdentity} {sender : EnvelopeSender} {keyStore : KeyStore}
  {rng : Draws} {transferId : TransferId} {createdAt : UnixTime}
  {items : List (EnvelopeItem × List UInt8)}

/-- The length of the envelope. -/
def Sealing.totalLen (g : Sealing p recipient sender keyStore rng transferId createdAt items) :
    ℕ :=
  outerHeaderLen + 4 + g.ct.length + g.out.length

/-- The bytes of the envelope. -/
def Sealing.bytes (g : Sealing p recipient sender keyStore rng transferId createdAt items) :
    List UInt8 :=
  outerHeader recipient.deviceId sender.identity.deviceId g.enc g.totalLen ++
    (toBE 4 g.ct.length ++ g.ct ++ g.out)

/-- The header's length is the length of the whole. -/
theorem Sealing.length_bytes
    (g : Sealing p recipient sender keyStore rng transferId createdAt items) :
    g.bytes.length = g.totalLen := by
  rw [bytes, List.length_append, length_outerHeader, List.length_append, List.length_append,
    length_toBE, totalLen]
  omega

/-- Something follows the manifest. -/
theorem Sealing.length_out_ne_zero (hsuite : p.suite.Lawful)
    (g : Sealing p recipient sender keyStore rng transferId createdAt items) :
    g.out.length ≠ 0 := by
  rw [length_sealAll hsuite g.sealAll, List.length_append, List.length_singleton]
  simp only [tagLen]
  omega

/-- **What is sealed is an envelope of this making**, with the length its header promises. -/
theorem exists_sealing (hsuite : p.suite.Lawful) {bytes : List UInt8}
    (h : sealEnvelope p recipient sender keyStore rng transferId createdAt items = .ok bytes) :
    ∃ g : Sealing p recipient sender keyStore rng transferId createdAt items, g.bytes = bytes := by
  obtain ⟨_, -, h⟩ := bind_eq_ok.mp h
  obtain ⟨⟨w, head⟩, hnew, h⟩ := bind_eq_ok.mp h
  obtain ⟨⟨out, w'⟩, hpush, h⟩ := bind_eq_ok.mp h
  obtain ⟨rest, hfinish, h⟩ := bind_eq_ok.mp h
  obtain rfl := Except.ok.inj h
  obtain ⟨enc, ctx, sigMessage, manifestSig, json, ct, hsize, hsetup, hpayload, hsign, htoVec,
    hct, hmax, htotal, rfl, hbuf, hpushed, hemitted, hseq, hfinal, hfailed⟩ :=
    EnvelopeWriter.new_eq_ok hnew
  obtain ⟨full, last, s, hrec, hflat, hdeclared, hall⟩ :=
    EnvelopeWriter.records_of_finish hbuf hfailed hfinal hpushed hemitted hpush hfinish
  obtain ⟨len, hdata, -⟩ := Option.bind_eq_some_iff.mp htotal
  obtain ⟨htotal, hfits⟩ := envelopeLen_eq_some htotal hdata
  rw [← hdeclared, ← hflat] at hdata
  have hlen : (out ++ rest).length = len := by
    rw [length_sealAll hsuite hall, dataLen_records hrec hdata]
  refine ⟨⟨enc, ctx, sigMessage, manifestSig, json, ct, w.toRecordSealer, s, full, last,
    out ++ rest, hsize, hsetup, hpayload, hsign, htoVec, hct, hmax, hrec, hflat, ?_, hemitted,
    hseq, hall, ?_⟩, ?_⟩
  · rw [hflat, hdeclared]
  · omega
  · have htotal' : outerHeaderLen + 4 + ct.length + (out ++ rest).length = w.totalLen := by omega
    simp only [Sealing.bytes, Sealing.totalLen, htotal', List.append_assoc]

end Sealing

end Tradr
