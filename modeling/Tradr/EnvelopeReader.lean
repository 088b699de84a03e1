import Tradr.Envelope

/-!
# Reading Envelopes

A reader takes the bytes of an envelope in arbitrary slices and reports what they
complete. It collects one unit at a time, the header, the length of a record or the body of
one, and knows which comes next by its stage. The plaintext of data records is handed out
to the items in manifest order; an item is verified as soon as its last byte is there,
which for an empty item is at once.

## Main results

* `readManifest_eq_ok`, `readData_eq_ok`: what taking in a record does.
* `feedInner_of_need`, `feedInner_unit`: one round of collecting.
-/

open BigEndian Fallible

namespace Tradr

/-- What a reader reports. -/
inductive ReaderEvent
  | manifest (m : OpenedManifest)
  | itemData (index : ℕ) (bytes : List UInt8)
  | itemVerified (index : ℕ)
  deriving DecidableEq

/-- Which unit a reader collects. -/
inductive Stage
  | header
  | len (manifest : Bool)
  | body (manifest : Bool) (len : ℕ)
  | done
  deriving DecidableEq, Repr

/-- Where a reader is in the items: the item under way, the bytes it lacks, and the bytes
of it that were hashed. -/
structure ItemCursor where
  current : ℕ
  currentLeft : ℕ
  hasher : List UInt8
  deriving DecidableEq

/-- What a reader is opened with. -/
structure EnvelopeRecipient where
  recipient : PublicIdentity
  agree : PublicKeyPoint → Except KeyStoreError SharedSecret
  now : UnixTime
  verifyAttestation : AttestFn

/-- An envelope on its way in. -/
structure EnvelopeReader extends ItemCursor where
  buf : List UInt8
  stage : Stage
  header : Option OuterHeader
  ctx : Option ReceiverContext
  remaining : ℕ
  seq : UInt64
  manifest : Option OpenedManifest
  failed : Bool

/-- A reader that has read nothing. -/
def EnvelopeReader.new : EnvelopeReader where
  buf := []
  stage := .header
  header := none
  ctx := none
  remaining := 0
  seq := 1
  manifest := none
  current := 0
  currentLeft := 0
  hasher := []
  failed := false

variable (p : Primitives) (receiver : EnvelopeRecipient)

/-- The size of an item that may not be there. -/
def sizeAt (items : List EnvelopeItem) (index : ℕ) : ℕ :=
  (items[index]?).elim 0 fun item => item.size.toNat

/-- Hand out plaintext to the items, verifying those that are complete. -/
def ItemCursor.distribute (items : List EnvelopeItem) (c : ItemCursor)
    (plaintext : List UInt8) : Except EnvelopeError (List ReaderEvent × ItemCursor) :=
  match _h : items[c.current]? with
  | none => if plaintext = [] then .ok ([], c) else .error .itemSizeMismatch
  | some item =>
    if c.currentLeft = 0 then
      if (p.blake3.hash c.hasher).val ≠ item.contentHash.bytes then .error .contentHashMismatch
      else do
        let (events, c') ← ItemCursor.distribute items
          ⟨c.current + 1, sizeAt items (c.current + 1), []⟩ plaintext
        return (.itemVerified c.current :: events, c')
    else if plaintext = [] then .ok ([], c)
    else do
      let piece := plaintext.take (min c.currentLeft plaintext.length)
      let (events, c') ← ItemCursor.distribute items
        ⟨c.current, c.currentLeft - piece.length, c.hasher ++ piece⟩
        (plaintext.drop (min c.currentLeft plaintext.length))
      return (.itemData c.current piece :: events, c')
termination_by items.length - c.current + plaintext.length
decreasing_by
  · have := (List.getElem?_eq_some_iff.mp _h).1
    omega
  · rename_i hleft hne
    have := List.length_pos_iff.mpr hne
    simp only [List.length_drop]
    omega

namespace EnvelopeReader

/-- Take in the header and set up the receiving side. -/
def readHeader (r : EnvelopeReader) (unit : List UInt8) :
    Except EnvelopeError EnvelopeReader := do
  let header ← parseOuterHeader unit
  require (outerHeaderLen ≤ header.totalLen)
    (.totalLengthMismatch header.totalLen outerHeaderLen)
  require (header.recipientDeviceId = receiver.recipient.deviceId) .recipientMismatch
  let ctx ← (setupBaseReceiver p.suite header.enc receiver.recipient.agreementPub
    (makeHpkeInfo receiver.recipient.deviceId header.senderDeviceId)
    receiver.agree).mapError .hpke
  return { r with
    remaining := header.totalLen - outerHeaderLen
    ctx := some ctx
    header := some header
    stage := .len true }

/-- The lengths a record may have. -/
def lenInRange (manifest : Bool) (len : ℕ) : Bool :=
  if manifest then len ≤ maxManifestRecord else tagLen ≤ len ∧ len ≤ chunkSize + tagLen

/-- Take in the length of a record. -/
def readLen (r : EnvelopeReader) (unit : List UInt8) (manifest : Bool) :
    Except EnvelopeError EnvelopeReader := do
  require (4 ≤ r.remaining) .truncated
  require (ofBE unit ≤ r.remaining - 4) .truncated
  require (lenInRange manifest (ofBE unit))
    (.manifestMalformed (.text "record length out of range"))
  return { r with remaining := r.remaining - 4, stage := .body manifest (ofBE unit) }

/-- Take in the manifest record. -/
def readManifest (r : EnvelopeReader) (record : List UInt8) :
    Except EnvelopeError (List ReaderEvent × EnvelopeReader) := do
  let header ← okOr r.header .truncated
  let ctx ← okOr r.ctx .truncated
  let (manifestJson, ctx) ←
    hpkeOutcome (ReceiverContext.openMessage p.suite ctx (makeAad 0 false) record)
  let manifest ← checkManifest p header manifestJson receiver.now receiver.verifyAttestation
  require (r.remaining ≠ 0) .noDataRecords
  let (events, cursor) ← ItemCursor.distribute p manifest.items
    { r.toItemCursor with currentLeft := sizeAt manifest.items 0 } []
  return (.manifest manifest :: events, { r with
    toItemCursor := cursor
    ctx := some ctx
    manifest := some manifest
    stage := .len false })

/-- Take in a data record; it is the final one when no bytes remain after it. -/
def readData (r : EnvelopeReader) (record : List UInt8) :
    Except EnvelopeError (List ReaderEvent × EnvelopeReader) := do
  let isFinal := decide (r.remaining = 0)
  let ctx ← okOr r.ctx .truncated
  let (plaintext, ctx) ←
    hpkeOutcome (ReceiverContext.openMessage p.suite ctx (makeAad r.seq isFinal) record)
  require (isFinal ∨ plaintext.length = chunkSize) .itemSizeMismatch
  let manifest ← okOr r.manifest .truncated
  let (events, cursor) ← r.toItemCursor.distribute p manifest.items plaintext
  require (¬isFinal ∨ cursor.current = manifest.items.length) .itemSizeMismatch
  return (events, { r with
    toItemCursor := cursor
    ctx := some ctx
    seq := r.seq + 1
    stage := if isFinal then .done else .len false })

/-- Take in a complete unit. -/
def advance (r : EnvelopeReader) (unit : List UInt8) :
    Except EnvelopeError (List ReaderEvent × EnvelopeReader) :=
  match r.stage with
  | .header => do
    let r ← r.readHeader p receiver unit
    return ([], r)
  | .len manifest => do
    let r ← r.readLen unit manifest
    return ([], r)
  | .body manifest len =>
    let r := { r with remaining := r.remaining - len }
    if manifest then r.readManifest p receiver unit else r.readData p unit
  | .done => .error .trailingBytes

/-- The bytes of the unit that is collected; none is after the final record. -/
def need : Stage → Option ℕ
  | .header => some outerHeaderLen
  | .len _ => some 4
  | .body _ len => some len
  | .done => none

/-! ### What a unit does to a reader -/

variable {p receiver}

/-- What taking in a header does. -/
theorem readHeader_eq_ok {r r' : EnvelopeReader} {unit : List UInt8} :
    r.readHeader p receiver unit = .ok r' ↔ ∃ header, parseOuterHeader unit = .ok header ∧
      outerHeaderLen ≤ header.totalLen ∧
      header.recipientDeviceId = receiver.recipient.deviceId ∧ ∃ ctx,
      setupBaseReceiver p.suite header.enc receiver.recipient.agreementPub
        (makeHpkeInfo receiver.recipient.deviceId header.senderDeviceId) receiver.agree =
        .ok ctx ∧
      r' = { r with
        remaining := header.totalLen - outerHeaderLen
        ctx := some ctx
        header := some header
        stage := .len true } := by
  simp only [readHeader, bind_eq_ok, require_eq_ok, mapError_eq_ok, pure_eq_ok,
    exists_and_left, exists_const]

/-- What taking in the length of a record does. -/
theorem readLen_eq_ok {r r' : EnvelopeReader} {unit : List UInt8} {manifest : Bool} :
    r.readLen unit manifest = .ok r' ↔ 4 ≤ r.remaining ∧ ofBE unit ≤ r.remaining - 4 ∧
      lenInRange manifest (ofBE unit) = true ∧
      r' = { r with remaining := r.remaining - 4, stage := .body manifest (ofBE unit) } := by
  simp only [readLen, bind_eq_ok, require_eq_ok, pure_eq_ok, exists_and_left, exists_const]

/-- What taking in the manifest record does. -/
theorem readManifest_eq_ok {r r' : EnvelopeReader} {record : List UInt8}
    {events : List ReaderEvent} :
    r.readManifest p receiver record = .ok (events, r') ↔
      ∃ header, r.header = some header ∧ ∃ ctx, r.ctx = some ctx ∧ ∃ json ctx',
      ReceiverContext.openMessage p.suite ctx (makeAad 0 false) record = (.ok json, ctx') ∧
      ∃ m, checkManifest p header json receiver.now receiver.verifyAttestation = .ok m ∧
      r.remaining ≠ 0 ∧ ∃ more cursor, ItemCursor.distribute p m.items
        { r.toItemCursor with currentLeft := sizeAt m.items 0 } [] = .ok (more, cursor) ∧
      events = .manifest m :: more ∧
      r' = { r with
        toItemCursor := cursor
        ctx := some ctx'
        manifest := some m
        stage := .len false } := by
  simp only [readManifest, bind_eq_ok, okOr_eq_ok, require_eq_ok, hpkeOutcome_eq_ok, pure_eq_ok,
    exists_and_left, exists_const, Prod.exists, Prod.mk.injEq]

/-- What taking in a data record does. -/
theorem readData_eq_ok {r r' : EnvelopeReader} {record : List UInt8}
    {events : List ReaderEvent} :
    r.readData p record = .ok (events, r') ↔ ∃ ctx, r.ctx = some ctx ∧ ∃ pt ctx',
      ReceiverContext.openMessage p.suite ctx (makeAad r.seq (decide (r.remaining = 0))) record =
        (.ok pt, ctx') ∧
      (r.remaining = 0 ∨ pt.length = chunkSize) ∧ ∃ m, r.manifest = some m ∧ ∃ cursor,
      r.toItemCursor.distribute p m.items pt = .ok (events, cursor) ∧
      (r.remaining ≠ 0 ∨ cursor.current = m.items.length) ∧
      r' = { r with
        toItemCursor := cursor
        ctx := some ctx'
        seq := r.seq + 1
        stage := if r.remaining = 0 then .done else .len false } := by
  simp only [readData, bind_eq_ok, okOr_eq_ok, require_eq_ok, hpkeOutcome_eq_ok, pure_eq_ok,
    exists_and_left, exists_const, Prod.exists, Prod.mk.injEq, decide_eq_true_eq]
  constructor
  · rintro ⟨ctx, hctx, pt, ctx', hopen, hlen, m, hm, es, cursor, hd, hcur, rfl, hr⟩
    exact ⟨ctx, hctx, pt, ctx', hopen, hlen, m, hm, cursor, hd, hcur, hr⟩
  · rintro ⟨ctx, hctx, pt, ctx', hopen, hlen, m, hm, cursor, hd, hcur, hr⟩
    exact ⟨ctx, hctx, pt, ctx', hopen, hlen, m, hm, events, cursor, hd, hcur, rfl, hr⟩

/-- A record body may be empty, so the stage counts in the progress that is made. -/
def rank : Stage → ℕ
  | .body _ _ => 1
  | _ => 0

/-- A unit leaves the buffer alone, and after the body of a record comes another length,
or nothing. -/
theorem advance_progress {r r' : EnvelopeReader} {unit : List UInt8}
    {events : List ReaderEvent} (h : r.advance p receiver unit = .ok (events, r')) :
    r'.buf = r.buf ∧ r'.failed = r.failed ∧ (rank r.stage = 1 → rank r'.stage = 0) := by
  unfold advance at h
  split at h
  · obtain ⟨r₁, h₁, h⟩ := bind_eq_ok.mp h
    obtain ⟨_, _, _, _, _, _, rfl⟩ := readHeader_eq_ok.mp h₁
    obtain ⟨-, rfl⟩ := Prod.mk.inj (Except.ok.inj h)
    exact ⟨rfl, rfl, fun _ => rfl⟩
  · rename_i hstage
    obtain ⟨r₁, h₁, h⟩ := bind_eq_ok.mp h
    obtain ⟨-, -, -, rfl⟩ := readLen_eq_ok.mp h₁
    obtain ⟨-, rfl⟩ := Prod.mk.inj (Except.ok.inj h)
    rw [hstage]
    exact ⟨rfl, rfl, fun h => absurd h (by simp [rank])⟩
  · split_ifs at h
    · obtain ⟨_, _, _, _, _, _, _, _, _, _, _, _, _, _, rfl⟩ := readManifest_eq_ok.mp h
      exact ⟨rfl, rfl, fun _ => rfl⟩
    · obtain ⟨_, _, _, _, _, _, _, _, _, _, _, rfl⟩ := readData_eq_ok.mp h
      refine ⟨rfl, rfl, fun _ => ?_⟩
      simp only
      split_ifs <;> rfl
  · exact absurd h (by simp)

variable (p receiver) in
/-- Collect units from the input until it is used up. -/
def feedInner (r : EnvelopeReader) (input : List UInt8) :
    Except EnvelopeError (List ReaderEvent × EnvelopeReader) :=
  match _hneed : need r.stage with
  | none => if input = [] then .ok ([], r) else .error .trailingBytes
  | some n =>
    let take := min (n - r.buf.length) input.length
    let unit := r.buf ++ input.take take
    if unit.length < n then .ok ([], { r with buf := unit })
    else
      match _hadv : advance p receiver { r with buf := [] } unit with
      | .error e => .error e
      | .ok (events, r') => do
        let (more, r'') ← feedInner r' (input.drop take)
        return (events ++ more, r'')
termination_by 2 * (r.buf.length + input.length) + rank r.stage
decreasing_by
  rename_i hunit
  obtain ⟨hbuf, -, hrank⟩ := advance_progress _hadv
  have hzero : n = 0 → rank r.stage = 1 := by
    rintro rfl
    cases hs : r.stage <;> simp_all [need, rank, outerHeaderLen]
  have hle : rank r'.stage ≤ 1 := by
    cases r'.stage <;> simp [rank]
  have hlen : unit.length = r.buf.length + min (n - r.buf.length) input.length := by
    simp [unit, take]
  have hrank : rank r.stage = 1 → rank r'.stage = 0 := hrank
  rw [hbuf, List.length_drop, List.length_nil]
  by_cases hn : n = 0
  · have h1 := hzero hn
    have h0 := hrank h1
    omega
  · omega

/-- One round of collecting: the unit is not complete yet, or it is taken in. -/
theorem feedInner_of_need {r : EnvelopeReader} {n : ℕ} (hneed : need r.stage = some n)
    (input : List UInt8) :
    r.feedInner p receiver input =
      if (r.buf ++ input.take (n - r.buf.length)).length < n then
        .ok ([], { r with buf := r.buf ++ input.take (n - r.buf.length) })
      else do
        let (events, r') ← advance p receiver { r with buf := [] }
          (r.buf ++ input.take (n - r.buf.length))
        let (more, r'') ← r'.feedInner p receiver (input.drop (n - r.buf.length))
        return (events ++ more, r'') := by
  have htake : input.take (min (n - r.buf.length) input.length) =
      input.take (n - r.buf.length) := by
    rw [List.take_eq_take_iff]
    omega
  have hdrop : input.drop (min (n - r.buf.length) input.length) =
      input.drop (n - r.buf.length) := by
    rcases Nat.le_total (n - r.buf.length) input.length with h | h
    · rw [Nat.min_eq_left h]
    · rw [Nat.min_eq_right h, List.drop_length, List.drop_of_length_le h]
  rw [feedInner]
  split
  · rename_i h
    exact absurd (hneed.symm.trans h) (by simp)
  · rename_i m h
    obtain rfl := Option.some.inj (hneed.symm.trans h)
    simp only [htake, hdrop]
    split_ifs
    · rfl
    · split
      · rename_i e he
        rw [htake] at he
        rw [he]
        rfl
      · rename_i es r₁ he
        rw [htake] at he
        rw [he]
        rfl

/-- A complete unit at the front of the input is taken in. -/
theorem feedInner_unit {r : EnvelopeReader} {n : ℕ} {unit : List UInt8}
    (hneed : need r.stage = some n) (hbuf : r.buf = []) (hlen : unit.length = n)
    (rest : List UInt8) :
    r.feedInner p receiver (unit ++ rest) = do
      let (events, r') ← r.advance p receiver unit
      let (more, r'') ← r'.feedInner p receiver rest
      return (events ++ more, r'') := by
  have hr : { r with buf := [] } = r := by
    rw [← hbuf]
  rw [feedInner_of_need hneed, hbuf, hr, List.length_nil, Nat.sub_zero, ← hlen, List.take_left,
    List.drop_left, List.nil_append, if_neg (by omega)]

/-- After the final record there is nothing to collect. -/
theorem feedInner_done {r : EnvelopeReader} (h : r.stage = .done) :
    r.feedInner p receiver [] = .ok ([], r) := by
  rw [feedInner]
  split
  · rfl
  · rename_i n hn
    rw [h] at hn
    exact absurd hn (by simp [need])

variable (p receiver) in
/-- Take in the next bytes of an envelope: the events they complete. -/
def feed (r : EnvelopeReader) (bytes : List UInt8) :
    Except EnvelopeError (List ReaderEvent) × EnvelopeReader :=
  if r.failed then (.error .alreadyFailed, r)
  else
    match r.feedInner p receiver bytes with
    | .ok (events, r) => (.ok events, r)
    | .error e => (.error e, { r with failed := true })

/-- A feed that is taken in. -/
theorem feed_of_ok {r r' : EnvelopeReader} {bytes : List UInt8} {events : List ReaderEvent}
    (hr : r.failed = false) (h : r.feedInner p receiver bytes = .ok (events, r')) :
    r.feed p receiver bytes = (.ok events, r') := by
  rw [feed, hr, h]
  rfl

/-- A feed that is refused. -/
theorem feed_of_error {r : EnvelopeReader} {bytes : List UInt8} {e : EnvelopeError}
    (hr : r.failed = false) (h : r.feedInner p receiver bytes = .error e) :
    r.feed p receiver bytes = (.error e, { r with failed := true }) := by
  rw [feed, hr, h]
  rfl

/-- The manifest, once the final record was read and every item verified. -/
def finish (r : EnvelopeReader) : Except EnvelopeError OpenedManifest :=
  if r.failed then .error .alreadyFailed
  else
    match r.stage, r.manifest with
    | .done, some manifest => .ok manifest
    | _, _ => .error .truncated

end EnvelopeReader

/-- Put the data of events together, item by item. -/
def collectContents : List (List UInt8) → List ReaderEvent →
    Except EnvelopeError (List (List UInt8))
  | contents, [] => .ok contents
  | _, .manifest m :: events => collectContents (List.replicate m.items.length []) events
  | contents, .itemData index bytes :: events =>
    if index < contents.length then
      collectContents (contents.modify index (· ++ bytes)) events
    else .error .itemSizeMismatch
  | contents, .itemVerified _ :: events => collectContents contents events

/-- Open an envelope as a whole. -/
def openEnvelope (bytes : List UInt8) : Except EnvelopeError OpenedEnvelope := do
  let header ← parseOuterHeader bytes
  require (header.totalLen = bytes.length) (.totalLengthMismatch header.totalLen bytes.length)
  let (answer, reader) := EnvelopeReader.new.feed p receiver bytes
  let events ← answer
  let contents ← collectContents [] events
  let manifest ← reader.finish
  return ⟨manifest.transferId, manifest.sender, manifest.createdAt, manifest.tier,
    manifest.items, contents⟩

end Tradr
