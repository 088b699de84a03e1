import Tradr.EnvelopeReader
import Tradr.EnvelopeWriter

/-!
# Envelopes Open to What Was Sealed

The writer and the reader decide which record is final by different means: the writer by
the bytes it has emitted, the reader by the bytes that remain of the length in the header.
Over the records of an envelope the two agree, since only a last record completes the
declared size. The plaintext of the records is handed out to the items whatever their
sizes, with empty items verified as soon as they are reached.

One check of the manifest can still fail on an honest envelope: the bounds of the window
its time of creation has to lie in are computed in 64 bits.

## Main results

* `distribute_pending`: plaintext goes to the items in order.
* `feedInner_records`: sealed records are read back.
* `openEnvelope_sealEnvelope_iff`: an envelope opens to what was sealed exactly when the
  bounds of the window do not wrap around.
-/

open BigEndian Fallible

namespace Tradr

variable {p : Primitives} {receiver : EnvelopeRecipient}

/-! ### Handing out plaintext -/

/-- A content has the size and the hash that its item declares. -/
def Matches (p : Primitives) (x : EnvelopeItem × List UInt8) : Prop :=
  x.2.length = x.1.size.toNat ∧ (p.blake3.hash x.2).val = x.1.contentHash.bytes

/-- The items in `done` are verified, a front of the first content in `todo` was handed
out, and `left` is what is still to come. -/
def Pending (done todo : List (EnvelopeItem × List UInt8)) (c : ItemCursor)
    (left : List UInt8) : Prop :=
  c.current = done.length ∧
    match todo with
    | [] => c.hasher = [] ∧ c.currentLeft = 0 ∧ left = []
    | x :: more => ∃ t, c.hasher ++ t = x.2 ∧ c.currentLeft = t.length ∧
        left = t ++ (more.map Prod.snd).flatten

/-- What has been handed out of each content. -/
def handedOut (done todo : List (EnvelopeItem × List UInt8)) (c : ItemCursor) :
    List (List UInt8) :=
  done.map Prod.snd ++
    match todo with
    | [] => []
    | _ :: more => c.hasher :: more.map fun _ => []

/-- At the start of an item nothing of it was handed out. -/
theorem pending_start (done todo : List (EnvelopeItem × List UInt8))
    (h : ∀ x ∈ done ++ todo, Matches p x) :
    Pending done todo ⟨done.length, sizeAt ((done ++ todo).map Prod.fst) done.length, []⟩
      (todo.map Prod.snd).flatten := by
  refine ⟨rfl, ?_⟩
  cases todo with
  | nil => simp [sizeAt]
  | cons x more =>
      have hx := (h x (by simp)).1
      exact ⟨x.2, rfl, by simp [sizeAt, hx], by simp⟩

/-- Changing the element behind a front. -/
theorem modify_length_append {α : Type} (l more : List α) (a : α) (f : α → α) :
    (l ++ a :: more).modify l.length f = l ++ f a :: more := by
  induction l with
  | nil => rfl
  | cons b l ih =>
      rw [List.cons_append, List.length_cons, List.modify_succ_cons, ih, List.cons_append]

/-- The item under way is the first that is not done. -/
theorem getElem?_pending {done todo : List (EnvelopeItem × List UInt8)} {c : ItemCursor}
    {left : List UInt8} (h : Pending done todo c left) :
    ((done ++ todo).map Prod.fst)[c.current]? = todo.head?.map Prod.fst := by
  rw [h.1, List.map_append, List.getElem?_append_right (by simp), List.length_map, Nat.sub_self]
  cases todo <;> rfl

/-- **Plaintext goes to the items in order**: from a pending cursor, handing out the next
bytes succeeds, verifies every item they complete, and adds exactly these bytes to the
contents. -/
theorem distribute_pending {all : List (EnvelopeItem × List UInt8)}
    (hall : ∀ x ∈ all, Matches p x) {c : ItemCursor} {pt left : List UInt8}
    {done todo : List (EnvelopeItem × List UInt8)} (hsplit : done ++ todo = all)
    (h : Pending done todo c (pt ++ left)) :
    ∃ events c' done' todo', c.distribute p (all.map Prod.fst) pt = .ok (events, c') ∧
      done' ++ todo' = all ∧ Pending done' todo' c' left ∧
      (todo' = [] ∨ 0 < c'.currentLeft) ∧
      collectContents (handedOut done todo c) events = .ok (handedOut done' todo' c') := by
  generalize hitems : all.map Prod.fst = items
  fun_induction ItemCursor.distribute p items c pt generalizing done todo with
  | case1 c hnone =>
      have hget := getElem?_pending h
      rw [hsplit, hitems, hnone] at hget
      cases todo with
      | nil => exact ⟨[], c, done, [], rfl, hsplit, h, .inl rfl, rfl⟩
      | cons x more => exact absurd hget (by simp)
  | case2 c pt hnone hne =>
      have hget := getElem?_pending h
      rw [hsplit, hitems, hnone] at hget
      cases todo with
      | nil => exact absurd (List.append_eq_nil_iff.mp h.2.2.2).1 hne
      | cons x more => exact absurd hget (by simp)
  | case3 c pt item hsome hzero hhash =>
      have hget := getElem?_pending h
      rw [hsplit, hitems, hsome] at hget
      cases todo with
      | nil => exact absurd hget (by simp)
      | cons x more =>
          obtain rfl := Option.some.inj hget
          obtain ⟨t, hcontent, hlen, -⟩ := h.2
          obtain rfl := List.length_eq_zero_iff.mp (hlen.symm.trans hzero)
          rw [List.append_nil] at hcontent
          rw [hcontent] at hhash
          exact absurd (hall x (by simp [← hsplit])).2 hhash
  | case4 c pt item hsome hzero hhash ih =>
      have hget := getElem?_pending h
      rw [hsplit, hitems, hsome] at hget
      cases todo with
      | nil => exact absurd hget (by simp)
      | cons x more =>
          obtain ⟨t, hcontent, hlen, hleft⟩ := h.2
          obtain rfl := List.length_eq_zero_iff.mp (hlen.symm.trans hzero)
          rw [List.append_nil] at hcontent
          rw [List.nil_append] at hleft
          have hsplit' : (done ++ [x]) ++ more = all := by simpa using hsplit
          have hnext : Pending (done ++ [x]) more ⟨c.current + 1, sizeAt items (c.current + 1), []⟩
              (pt ++ left) := by
            have hstart := pending_start (done ++ [x]) more (hsplit' ▸ hall)
            rw [hsplit', hitems, List.length_append, List.length_singleton, ← h.1] at hstart
            rw [hleft]
            exact hstart
          obtain ⟨events, c', done', todo', hd, hs, hp, hsettled, hc⟩ := ih hsplit' hnext
          refine ⟨.itemVerified c.current :: events, c', done', todo', ?_, hs, hp, hsettled, ?_⟩
          · rw [hd]
            rfl
          · have hout : handedOut done (x :: more) c = handedOut (done ++ [x]) more
                ⟨c.current + 1, sizeAt items (c.current + 1), []⟩ := by
              cases more <;> simp [handedOut, hcontent]
            rw [collectContents, hout, hc]
  | case5 c item hsome hleft =>
      exact ⟨[], c, done, todo, rfl, hsplit, h, .inr (Nat.pos_of_ne_zero hleft), rfl⟩
  | case6 c pt item hsome hleft hne piece =>
      rename_i ih
      have hget := getElem?_pending h
      rw [hsplit, hitems, hsome] at hget
      cases todo with
      | nil => exact absurd hget (by simp)
      | cons x more =>
          obtain ⟨t, hcontent, hlen, hrest⟩ := h.2
          -- The piece is a front of both the plaintext and what the content lacks.
          have hpiece : pt.take (min c.currentLeft pt.length) =
              t.take (min c.currentLeft pt.length) := by
            have h₁ := congrArg (List.take (min c.currentLeft pt.length)) hrest
            rwa [List.take_append_of_le_length (by omega),
              List.take_append_of_le_length (by omega)] at h₁
          have hdrop : pt.drop (min c.currentLeft pt.length) ++ left =
              t.drop (min c.currentLeft pt.length) ++ (more.map Prod.snd).flatten := by
            have h₁ := congrArg (List.drop (min c.currentLeft pt.length)) hrest
            rwa [List.drop_append_of_le_length (by omega),
              List.drop_append_of_le_length (by omega)] at h₁
          have hnext : Pending done (x :: more)
              ⟨c.current, c.currentLeft - (pt.take (min c.currentLeft pt.length)).length,
                c.hasher ++ pt.take (min c.currentLeft pt.length)⟩
              (pt.drop (min c.currentLeft pt.length) ++ left) := by
            refine ⟨h.1, t.drop (min c.currentLeft pt.length), ?_, ?_, hdrop⟩
            · rw [hpiece, List.append_assoc, List.take_append_drop, hcontent]
            · simp only [hpiece, List.length_take, List.length_drop, ← hlen]
              omega
          obtain ⟨events, c', done', todo', hd, hs, hp, hsettled, hc⟩ := ih hsplit hnext
          refine ⟨_, c', done', todo', by rw [hd]; rfl, hs, hp, hsettled, ?_⟩
          have hindex : c.current < (handedOut done (x :: more) c).length := by
            simp [handedOut, h.1]
          have hout : (handedOut done (x :: more) c).modify c.current
              (· ++ pt.take (min c.currentLeft pt.length)) = handedOut done (x :: more)
              ⟨c.current, c.currentLeft - (pt.take (min c.currentLeft pt.length)).length,
                c.hasher ++ pt.take (min c.currentLeft pt.length)⟩ := by
            have hdone : c.current = (done.map Prod.snd).length := by rw [h.1, List.length_map]
            rw [handedOut, handedOut, hdone, modify_length_append]
          rw [collectContents, if_pos hindex, hout, hc]

/-- Events put together in two parts. -/
theorem collectContents_append (contents : List (List UInt8)) (events more : List ReaderEvent) :
    collectContents contents (events ++ more) =
      collectContents contents events >>= (collectContents · more) := by
  fun_induction collectContents contents events with
  | case1 contents => rfl
  | case2 contents m events ih =>
      rw [List.cons_append, collectContents, ih]
  | case3 contents index bytes events h ih =>
      rw [List.cons_append, collectContents, if_pos h, ih]
  | case4 contents index bytes events h =>
      rw [List.cons_append, collectContents, if_neg h]
      rfl
  | case5 contents index events ih =>
      rw [List.cons_append, collectContents, ih]

/-! ### Reading records -/

/-- A record at the front of the input is taken in: its length, and its body. -/
theorem feedInner_record {r : EnvelopeReader} {manifest : Bool} {ct : List UInt8} (left : ℕ)
    (hstage : r.stage = .len manifest) (hbuf : r.buf = []) (hlen : ct.length < 2 ^ 32)
    (hremaining : r.remaining = 4 + ct.length + left)
    (hrange : EnvelopeReader.lenInRange manifest ct.length = true) (rest : List UInt8) :
    r.feedInner p receiver (toBE 4 ct.length ++ ct ++ rest) = do
      let (events, r') ← EnvelopeReader.advance p receiver
        { r with remaining := ct.length + left, stage := .body manifest ct.length } ct
      let (more, r'') ← r'.feedInner p receiver rest
      return (events ++ more, r'') := by
  have hof : ofBE (toBE 4 ct.length) = ct.length := ofBE_toBE hlen
  have hunit : r.advance p receiver (toBE 4 ct.length) = .ok ([],
      { r with remaining := ct.length + left, stage := .body manifest ct.length }) := by
    have hread : r.readLen (toBE 4 ct.length) manifest = .ok
        { r with remaining := ct.length + left, stage := .body manifest ct.length } := by
      refine EnvelopeReader.readLen_eq_ok.mpr ⟨by omega, by omega, by rwa [hof], ?_⟩
      rw [hof, hremaining, Nat.add_assoc, Nat.add_sub_cancel_left]
    rw [EnvelopeReader.advance, hstage]
    simp only [hread, ok_bind]
    rfl
  have hneed : EnvelopeReader.need r.stage = some 4 := by
    rw [hstage]
    rfl
  rw [List.append_assoc, EnvelopeReader.feedInner_unit hneed hbuf (length_toBE 4 _), hunit, ok_bind]
  generalize hr : ({ r with
    remaining := ct.length + left
    stage := .body manifest ct.length } : EnvelopeReader) = r₁
  have hneed₁ : EnvelopeReader.need r₁.stage = some ct.length := by
    rw [← hr]
    rfl
  have hbuf₁ : r₁.buf = [] := by
    rw [← hr, hbuf]
  simp only [EnvelopeReader.feedInner_unit hneed₁ hbuf₁ rfl]
  simp

/-- A reader at a record of the sealer: in step with it, and with exactly the bytes of the
records before it. -/
structure AtRecords (s : RecordSealer) (r : EnvelopeReader) (m : OpenedManifest)
    (len : ℕ) : Prop where
  stage : r.stage = .len false
  buf : r.buf = []
  failed : r.failed = false
  ctx : r.ctx = some s.ctx
  seq : r.seq = s.seq
  manifest : r.manifest = some m
  remaining : r.remaining = len

/-- Opening a data record that was sealed as the final one exactly when nothing follows. -/
theorem advance_record (hsuite : p.suite.Lawful) {all : List (EnvelopeItem × List UInt8)}
    (hall : ∀ x ∈ all, Matches p x) {s s' : RecordSealer} {r : EnvelopeReader}
    {m : OpenedManifest} (hm : m.items = all.map Prod.fst) {chunk ct : List UInt8}
    (left : List UInt8) (rest : ℕ) (hat : AtRecords s r m (4 + ct.length + rest))
    (hseal : SenderContext.sealMessage p.suite s.ctx (makeAad s.seq (decide (rest = 0))) chunk =
      (.ok ct, s'.ctx)) (hseq : s'.seq = s.seq + 1)
    (hfull : rest = 0 ∨ chunk.length = chunkSize) {done todo : List (EnvelopeItem × List UInt8)}
    (hsplit : done ++ todo = all) (hpending : Pending done todo r.toItemCursor (chunk ++ left))
    (hleft : rest = 0 → left = []) :
    ∃ events r' done' todo', EnvelopeReader.advance p receiver
        { r with remaining := ct.length + rest, stage := .body false ct.length } ct =
        .ok (events, r') ∧
      (rest ≠ 0 → AtRecords s' r' m rest) ∧
      (rest = 0 → r'.stage = .done ∧ r'.failed = false ∧ r'.manifest = some m ∧ todo' = []) ∧
      done' ++ todo' = all ∧ Pending done' todo' r'.toItemCursor left ∧
      collectContents (handedOut done todo r.toItemCursor) events =
        .ok (handedOut done' todo' r'.toItemCursor) := by
  obtain ⟨events, c, done', todo', hd, hsplit', hp, hsettled, hc⟩ :=
    distribute_pending hall hsplit hpending
  have hopen := openMessage_of_sealMessage hsuite hseal
  have hdone : rest = 0 → todo' = [] := by
    intro h0
    rcases hsettled with h | h
    · exact h
    · rw [hleft h0] at hp
      cases todo' with
      | nil => rfl
      | cons x more =>
          obtain ⟨t, -, hlen, hnil⟩ := hp.2
          rw [(List.append_eq_nil_iff.mp hnil.symm).1, List.length_nil] at hlen
          omega
  have hcurrent : rest ≠ 0 ∨ c.current = m.items.length := by
    by_cases h0 : rest = 0
    · right
      rw [hp.1, hm, List.length_map, ← hsplit', hdone h0, List.append_nil]
    · exact .inl h0
  have hread : EnvelopeReader.readData p
      { r with remaining := rest, stage := .body false ct.length } ct = .ok (events, { r with
        toItemCursor := c
        ctx := some s'.ctx
        remaining := rest
        seq := r.seq + 1
        stage := if rest = 0 then .done else .len false }) := by
    refine EnvelopeReader.readData_eq_ok.mpr ⟨s.ctx, hat.ctx, chunk, s'.ctx, ?_, hfull, m,
      hat.manifest, c, ?_, hcurrent, rfl⟩
    · simpa only [hat.seq] using hopen
    · rw [hm]
      exact hd
  refine ⟨events, { r with
    toItemCursor := c
    ctx := some s'.ctx
    remaining := rest
    seq := r.seq + 1
    stage := if rest = 0 then .done else .len false }, done', todo', ?_, ?_, ?_, hsplit', hp, hc⟩
  · rw [EnvelopeReader.advance]
    simp only [Nat.add_sub_cancel_left, Bool.false_eq_true, if_false]
    exact hread
  · intro h0
    exact ⟨if_neg h0, hat.buf, hat.failed, rfl, by simp only [hat.seq, hseq], hat.manifest, rfl⟩
  · intro h0
    exact ⟨if_pos h0, hat.failed, hat.manifest, hdone h0⟩

/-- The length of a sealed data record is in range. -/
theorem lenInRange_sealed (hsuite : p.suite.Lawful) {ctx ctx' : HpkeContext}
    {aad chunk ct : List UInt8}
    (h : SenderContext.sealMessage p.suite ctx aad chunk = (.ok ct, ctx'))
    (hchunk : chunk.length ≤ chunkSize) : EnvelopeReader.lenInRange false ct.length = true := by
  have hlen := length_sealMessage hsuite h
  simp only [EnvelopeReader.lenInRange, Bool.false_eq_true, if_false, decide_eq_true_eq]
  omega

variable (receiver) in
/-- **Sealed records are read back**: a reader in step with the sealer takes them all in,
ends after the last one, and has handed out exactly their plaintext. -/
theorem feedInner_records (hsuite : p.suite.Lawful) {all : List (EnvelopeItem × List UInt8)}
    (hall : ∀ x ∈ all, Matches p x) {m : OpenedManifest} (hm : m.items = all.map Prod.fst)
    {full : List (List UInt8)} {last : List UInt8} (hrec : Chunks.IsRecords chunkSize full last)
    {s s' : RecordSealer} {r : EnvelopeReader} {out : List UInt8}
    (hseal : s.sealAll p (full ++ [last]) = .ok (out, s'))
    (hdeclared : s.emitted + (full ++ [last]).flatten.length = s.declared)
    (hat : AtRecords s r m out.length) {done todo : List (EnvelopeItem × List UInt8)}
    (hsplit : done ++ todo = all)
    (hpending : Pending done todo r.toItemCursor (full ++ [last]).flatten) :
    ∃ events r', r.feedInner p receiver out = .ok (events, r') ∧ r'.stage = .done ∧
      r'.failed = false ∧ r'.manifest = some m ∧
      collectContents (handedOut done todo r.toItemCursor) events =
        .ok (all.map Prod.snd) := by
  induction full generalizing s r out done todo with
  | nil =>
      obtain ⟨⟨o, s₁⟩, h₁, h⟩ := bind_eq_ok.mp hseal
      obtain ⟨rfl, rfl⟩ := Prod.mk.inj (Except.ok.inj h)
      obtain ⟨ct, hct, hlt, rfl, -, -, hseq, -⟩ := RecordSealer.sealData_eq_ok h₁
      simp only [List.nil_append, List.flatten_singleton] at hdeclared hpending
      rw [List.append_nil, List.length_append, length_toBE] at hat
      rw [decide_eq_true hdeclared] at hct
      obtain ⟨events, r', done', todo', hadv, -, hend, hsplit', -, hc⟩ :=
        advance_record hsuite hall hm [] 0 hat hct hseq (.inl rfl) hsplit
          (by rwa [List.append_nil]) fun _ => rfl
      obtain ⟨hdone, hfailed, hman, rfl⟩ := hend rfl
      refine ⟨events, r', ?_, hdone, hfailed, hman, ?_⟩
      · rw [feedInner_record 0 hat.stage hat.buf hlt hat.remaining
          (lenInRange_sealed hsuite hct hrec.length_last), hadv, ok_bind]
        simp only [EnvelopeReader.feedInner_done hdone, ok_bind, List.append_nil]
        rfl
      · rw [List.append_nil] at hsplit'
        rw [hc, handedOut, List.append_nil, hsplit']
  | cons c full ih =>
      obtain ⟨⟨o, s₁⟩, h₁, h⟩ := bind_eq_ok.mp hseal
      obtain ⟨⟨o₂, s₂⟩, h₂, h⟩ := bind_eq_ok.mp h
      obtain ⟨rfl, rfl⟩ := Prod.mk.inj (Except.ok.inj h)
      obtain ⟨ct, hct, hlt, rfl, hdecl, hemit, hseq, -⟩ := RecordSealer.sealData_eq_ok h₁
      have h₂ : s₁.sealAll p (full ++ [last]) = .ok (o₂, s₂) := h₂
      have hlast : 0 < last.length := List.length_pos_iff.mpr (hrec.last_ne_nil (by simp))
      have hc : c.length = chunkSize := hrec.length_full c List.mem_cons_self
      have hmore : 0 < o₂.length := by
        rw [length_sealAll hsuite h₂, List.length_append, List.length_singleton]
        simp only [tagLen]
        omega
      rw [List.cons_append, List.flatten_cons, List.length_append] at hdeclared
      have hflag : decide (s.emitted + c.length = s.declared) = decide (o₂.length = 0) := by
        rw [List.flatten_append, List.length_append, List.flatten_singleton] at hdeclared
        rw [decide_eq_decide]
        omega
      rw [hflag] at hct
      rw [List.length_append, List.length_append, length_toBE] at hat
      rw [List.cons_append, List.flatten_cons] at hpending
      obtain ⟨events, r₁, done', todo', hadv, hnext, -, hsplit', hpending', hcol⟩ :=
        advance_record hsuite hall hm _ _ hat hct hseq (.inr hc) hsplit hpending
          fun h => absurd h (by omega)
      have hat' := hnext (by omega)
      obtain ⟨more, r', hfeed, hdone, hfailed, hman, hcol'⟩ :=
        ih hrec.tail h₂ (by omega) hat' hsplit' hpending'
      refine ⟨events ++ more, r', ?_, hdone, hfailed, hman, ?_⟩
      · rw [feedInner_record _ hat.stage hat.buf hlt hat.remaining
          (lenInRange_sealed hsuite hct hc.le), hadv, ok_bind]
        simp only [hfeed, ok_bind]
        rfl
      · rw [collectContents_append, hcol, ok_bind, hcol']

/-! ### Opening what was sealed -/

/-- Before anything was handed out, every content is empty. -/
theorem handedOut_start (all : List (EnvelopeItem × List UInt8)) (c : ItemCursor)
    (hc : c.hasher = []) : handedOut [] all c = List.replicate all.length [] := by
  cases all with
  | nil => rfl
  | cons x more =>
      simp [handedOut, hc, List.replicate_succ]

/-- A reader that has taken in a header. -/
def headerTaken (header : OuterHeader) (ctx : HpkeContext) : EnvelopeReader :=
  { EnvelopeReader.new with
    remaining := header.totalLen - outerHeaderLen
    ctx := some ctx
    header := some header
    stage := .len true }

/-- The header of an envelope sealed to the recipient is taken in. -/
theorem feedInner_header (hsuite : p.suite.Lawful)
    (hagree : AgreesFor p.suite receiver.recipient.agreementPub receiver.agree)
    {senderId : DeviceId} {rng : Draws} {enc : Bytes 65} {ctx : HpkeContext} {totalLen : ℕ}
    (hsetup : setupBaseSender p.suite receiver.recipient.agreementPub rng
      (makeHpkeInfo receiver.recipient.deviceId senderId) = .ok (enc, ctx))
    (hmin : outerHeaderLen ≤ totalLen) (hmax : totalLen < 2 ^ 64) (rest : List UInt8) :
    EnvelopeReader.new.feedInner p receiver
        (outerHeader receiver.recipient.deviceId senderId enc totalLen ++ rest) =
      (headerTaken ⟨1, receiver.recipient.deviceId, senderId, enc, totalLen⟩ ctx).feedInner p
        receiver rest := by
  have hparse := parseOuterHeader_outerHeader receiver.recipient.deviceId senderId enc hmax []
  rw [List.append_nil] at hparse
  have hread : EnvelopeReader.new.readHeader p receiver
      (outerHeader receiver.recipient.deviceId senderId enc totalLen) =
      .ok (headerTaken ⟨1, receiver.recipient.deviceId, senderId, enc, totalLen⟩ ctx) :=
    EnvelopeReader.readHeader_eq_ok.mpr ⟨_, hparse, hmin, rfl, ctx,
      setupBaseReceiver_of_sender hsuite hagree hsetup, rfl⟩
  have hadv : EnvelopeReader.new.advance p receiver
      (outerHeader receiver.recipient.deviceId senderId enc totalLen) =
      .ok ([], headerTaken ⟨1, receiver.recipient.deviceId, senderId, enc, totalLen⟩ ctx) := by
    rw [EnvelopeReader.advance]
    change (EnvelopeReader.new.readHeader p receiver _ >>= _) = _
    rw [hread]
    rfl
  rw [EnvelopeReader.feedInner_unit rfl rfl (length_outerHeader _ _ _ _), hadv, ok_bind]
  simp

/-- A reader that has taken in a header and a manifest. -/
def manifestTaken (header : OuterHeader) (ctx : HpkeContext) (m : OpenedManifest)
    (c : ItemCursor) (remaining : ℕ) : EnvelopeReader :=
  { headerTaken header ctx with
    toItemCursor := c
    remaining
    manifest := some m
    stage := .len false }

section Sealed

variable {all : List (EnvelopeItem × List UInt8)} {header : OuterHeader}
  {ctx ctx' : HpkeContext} {json ct : List UInt8} {left : ℕ}

/-- The manifest record is taken in as the checks on the manifest decide; the empty items
at the front are verified together with it. -/
theorem feedInner_manifest (hsuite : p.suite.Lawful) (hall : ∀ x ∈ all, Matches p x)
    (hct : SenderContext.sealMessage p.suite ctx (makeAad 0 false) json = (.ok ct, ctx'))
    (hmax : ct.length ≤ maxManifestRecord) (hleft : left ≠ 0)
    (hremaining : header.totalLen - outerHeaderLen = 4 + ct.length + left) {m : OpenedManifest}
    (hm : m.items = all.map Prod.fst)
    (hcheck : checkManifest p header json receiver.now receiver.verifyAttestation = .ok m)
    (rest : List UInt8) :
    ∃ events c done todo, (headerTaken header ctx).feedInner p receiver
        (toBE 4 ct.length ++ ct ++ rest) = (do
          let (more, r) ← (manifestTaken header ctx' m c left).feedInner p receiver rest
          return (.manifest m :: events ++ more, r)) ∧
      done ++ todo = all ∧ Pending done todo c (all.map Prod.snd).flatten ∧
      collectContents (List.replicate all.length []) events = .ok (handedOut done todo c) := by
  have hstart : Pending [] all ⟨0, sizeAt (all.map Prod.fst) 0, []⟩
      ([] ++ (all.map Prod.snd).flatten) := pending_start [] all hall
  obtain ⟨es, c, done, todo, hd, hsplit, hp, -, hcol⟩ := distribute_pending hall rfl hstart
  have hread : EnvelopeReader.readManifest p receiver
      { headerTaken header ctx with remaining := left, stage := .body true ct.length } ct =
      .ok (.manifest m :: es, manifestTaken header ctx' m c left) :=
    EnvelopeReader.readManifest_eq_ok.mpr ⟨header, rfl, ctx, rfl, json, ctx',
      openMessage_of_sealMessage hsuite hct, m, hcheck, hleft, es, c, by rw [hm]; exact hd, rfl, rfl⟩
  have hadv : EnvelopeReader.advance p receiver
      { headerTaken header ctx with
        remaining := ct.length + left, stage := .body true ct.length } ct =
      .ok (.manifest m :: es, manifestTaken header ctx' m c left) := by
    rw [EnvelopeReader.advance]
    simp only [Nat.add_sub_cancel_left, if_true]
    exact hread
  refine ⟨es, c, done, todo, ?_, hsplit, hp, ?_⟩
  · rw [feedInner_record left rfl rfl ?_ hremaining ?_, hadv, ok_bind]
    · simp only [maxManifestRecord] at hmax
      omega
    · simpa [EnvelopeReader.lenInRange] using hmax
  · rw [← handedOut_start all ⟨0, sizeAt (all.map Prod.fst) 0, []⟩ rfl, hcol]

/-- A manifest that is refused fails the feed. -/
theorem feedInner_manifest_error (hsuite : p.suite.Lawful)
    (hct : SenderContext.sealMessage p.suite ctx (makeAad 0 false) json = (.ok ct, ctx'))
    (hmax : ct.length ≤ maxManifestRecord)
    (hremaining : header.totalLen - outerHeaderLen = 4 + ct.length + left) {e : EnvelopeError}
    (hcheck : checkManifest p header json receiver.now receiver.verifyAttestation = .error e)
    (rest : List UInt8) :
    (headerTaken header ctx).feedInner p receiver (toBE 4 ct.length ++ ct ++ rest) =
      .error e := by
  have hadv : EnvelopeReader.advance p receiver
      { headerTaken header ctx with
        remaining := ct.length + left, stage := .body true ct.length } ct = .error e := by
    rw [EnvelopeReader.advance]
    simp only [Nat.add_sub_cancel_left, if_true]
    simp only [EnvelopeReader.readManifest, headerTaken, okOr_some, ok_bind,
      openMessage_of_sealMessage hsuite hct, hpkeOutcome, hcheck, error_bind]
  rw [feedInner_record left rfl rfl ?_ hremaining ?_, hadv, error_bind]
  · simp only [maxManifestRecord] at hmax
    omega
  · simpa [EnvelopeReader.lenInRange] using hmax

end Sealed

section Opening

variable {sender : EnvelopeSender} {keyStore : KeyStore} {rng : Draws} {transferId : TransferId}
  {createdAt : UnixTime} {items : List (EnvelopeItem × List UInt8)} {tier : TrustTier}

/-- The manifest that an envelope opens to. -/
def sealedManifest (sender : EnvelopeSender) (transferId : TransferId) (createdAt : UnixTime)
    (items : List (EnvelopeItem × List UInt8)) (tier : TrustTier) : OpenedManifest :=
  ⟨transferId, sender.identity, createdAt, tier, items.map Prod.fst⟩

/-- The outer header of an envelope. -/
def Sealing.header
    (g : Sealing p receiver.recipient sender keyStore rng transferId createdAt items) :
    OuterHeader :=
  ⟨1, receiver.recipient.deviceId, sender.identity.deviceId, g.enc, g.totalLen⟩

/-- The checks on the manifest of an envelope leave only the window open. -/
theorem Sealing.checkManifest_eq (hjson : p.json.RoundTrips)
    (hsigns : keyStore.SignsFor p.ecdsa sender.identity.identityPub)
    (hsender : sender.Valid p createdAt) (hroot : ∀ x ∈ items, x.1.relPath ≠ .root)
    (htier : tier = .sameAccount ∨ tier = .linked)
    (hattest : receiver.verifyAttestation sender.attestationToken sender.identity createdAt =
      .ok tier)
    (g : Sealing p receiver.recipient sender keyStore rng transferId createdAt items) :
    checkManifest p g.header g.json receiver.now receiver.verifyAttestation =
      if inWindow createdAt.secs receiver.now.secs then
        .ok (sealedManifest sender transferId createdAt items tier)
      else .error (.createdAtOutOfRange createdAt receiver.now) := by
  have hroot' : ∀ item ∈ items.map Prod.fst, item.relPath ≠ .root := by
    intro item hitem
    obtain ⟨x, hx, rfl⟩ := List.mem_map.mp hitem
    exact hroot x hx
  exact checkManifest_honest hsender rfl (hjson _ _ g.toVec) g.payload (hsigns _ _ _ g.sign)
    hroot' g.declaredSize_eq htier hattest

/-- The bytes after the header of an envelope. -/
theorem Sealing.remaining
    (g : Sealing p receiver.recipient sender keyStore rng transferId createdAt items) :
    g.header.totalLen - outerHeaderLen = 4 + g.ct.length + g.out.length := by
  change outerHeaderLen + 4 + g.ct.length + g.out.length - outerHeaderLen = _
  omega

/-- **An envelope whose manifest is accepted is fed back**: the reader takes in all of it
and has handed out all contents. -/
theorem Sealing.feedInner_eq (hsuite : p.suite.Lawful)
    (hagree : AgreesFor p.suite receiver.recipient.agreementPub receiver.agree)
    (hitems : ∀ x ∈ items, Matches p x)
    (g : Sealing p receiver.recipient sender keyStore rng transferId createdAt items)
    (hcheck : checkManifest p g.header g.json receiver.now receiver.verifyAttestation =
      .ok (sealedManifest sender transferId createdAt items tier)) :
    ∃ events r, EnvelopeReader.new.feedInner p receiver g.bytes = .ok (events, r) ∧
      r.finish = .ok (sealedManifest sender transferId createdAt items tier) ∧
      collectContents [] events = .ok (items.map Prod.snd) := by
  obtain ⟨es, c, done, todo, hmanifest, hsplit, hpending, hcol⟩ :=
    feedInner_manifest hsuite hitems g.sealManifest g.length_ct (g.length_out_ne_zero hsuite)
      g.remaining rfl hcheck g.out
  rw [← g.flatten] at hpending
  have hat : AtRecords g.sealer (manifestTaken g.header g.sealer.ctx
      (sealedManifest sender transferId createdAt items tier) c g.out.length)
      (sealedManifest sender transferId createdAt items tier) g.out.length :=
    ⟨rfl, rfl, rfl, rfl, g.seq.symm, rfl, rfl⟩
  obtain ⟨more, r, hrecords, hdone, hnot, hman, hcol'⟩ := feedInner_records receiver hsuite hitems rfl
    g.isRecords g.sealAll (by rw [g.emitted, Nat.zero_add, g.length_flatten]) hat hsplit hpending
  refine ⟨.manifest (sealedManifest sender transferId createdAt items tier) :: es ++ more, r,
    ?_, ?_, ?_⟩
  · have hheader := feedInner_header hsuite hagree g.setup
      (show outerHeaderLen ≤ g.totalLen by rw [Sealing.totalLen]; omega) g.fits
      (toBE 4 g.ct.length ++ g.ct ++ g.out)
    rw [Sealing.bytes, hheader]
    refine hmanifest.trans ?_
    rw [hrecords]
    rfl
  · rw [EnvelopeReader.finish, hnot, hdone, hman]
    rfl
  · rw [List.cons_append, collectContents, sealedManifest, List.length_map,
      collectContents_append, hcol, ok_bind]
    exact hcol'

/-- An envelope whose manifest is refused is not fed back. -/
theorem Sealing.feedInner_error (hsuite : p.suite.Lawful)
    (hagree : AgreesFor p.suite receiver.recipient.agreementPub receiver.agree)
    (g : Sealing p receiver.recipient sender keyStore rng transferId createdAt items)
    {e : EnvelopeError}
    (hcheck : checkManifest p g.header g.json receiver.now receiver.verifyAttestation =
      .error e) :
    EnvelopeReader.new.feedInner p receiver g.bytes = .error e := by
  have hheader := feedInner_header hsuite hagree g.setup
    (show outerHeaderLen ≤ g.totalLen by rw [Sealing.totalLen]; omega) g.fits
    (toBE 4 g.ct.length ++ g.ct ++ g.out)
  rw [Sealing.bytes, hheader]
  exact feedInner_manifest_error hsuite g.sealManifest g.length_ct g.remaining hcheck g.out

/-- **Opening what was sealed** gives it back when the clock finds its time within the
window, and fails on that check otherwise. -/
theorem Sealing.openEnvelope_eq (hsuite : p.suite.Lawful) (hjson : p.json.RoundTrips)
    (hagree : AgreesFor p.suite receiver.recipient.agreementPub receiver.agree)
    (hsigns : keyStore.SignsFor p.ecdsa sender.identity.identityPub)
    (hsender : sender.Valid p createdAt) (hitems : ∀ x ∈ items, Matches p x)
    (hroot : ∀ x ∈ items, x.1.relPath ≠ .root) (htier : tier = .sameAccount ∨ tier = .linked)
    (hattest : receiver.verifyAttestation sender.attestationToken sender.identity createdAt =
      .ok tier)
    (g : Sealing p receiver.recipient sender keyStore rng transferId createdAt items) :
    openEnvelope p receiver g.bytes =
      if inWindow createdAt.secs receiver.now.secs then
        .ok ⟨transferId, sender.identity, createdAt, tier, items.map Prod.fst,
          items.map Prod.snd⟩
      else .error (.createdAtOutOfRange createdAt receiver.now) := by
  have hcheck := g.checkManifest_eq hjson hsigns hsender hroot htier hattest
  have hparse : parseOuterHeader g.bytes = .ok g.header :=
    parseOuterHeader_outerHeader _ _ _ g.fits _
  have hlen : g.header.totalLen = g.bytes.length := g.length_bytes.symm
  rw [openEnvelope, hparse, ok_bind, require_of hlen, ok_bind]
  by_cases hwindow : inWindow createdAt.secs receiver.now.secs = true
  · rw [if_pos hwindow] at hcheck ⊢
    obtain ⟨events, r, hfeed, hfinish, hcontents⟩ := g.feedInner_eq hsuite hagree hitems hcheck
    rw [EnvelopeReader.feed_of_ok rfl hfeed]
    simp only [ok_bind, hcontents, hfinish]
    rfl
  · rw [if_neg hwindow] at hcheck ⊢
    rw [EnvelopeReader.feed_of_error rfl (g.feedInner_error hsuite hagree hcheck)]
    rfl

/-- The envelope opened to what was sealed. -/
def OpensTo (opened : Except EnvelopeError OpenedEnvelope) (transferId : TransferId)
    (sender : PublicIdentity) (createdAt : UnixTime)
    (items : List (EnvelopeItem × List UInt8)) : Prop :=
  ∃ o, opened = .ok o ∧ o.transferId = transferId ∧ o.sender = sender ∧
    o.createdAt = createdAt ∧ o.items = items.map Prod.fst ∧ o.contents = items.map Prod.snd

/-- **An envelope opens to what was sealed exactly when the receiver's clock leaves room
for the window.** For all items with contents of their size and hash, a valid sender and a
time of creation within thirty days before and three hundred seconds after the clock:
opening gives back the identifier, the sender, the time, the items and the contents if and
only if neither bound of the window wraps around. -/
theorem openEnvelope_sealEnvelope_iff (hsuite : p.suite.Lawful) (hjson : p.json.RoundTrips)
    (hagree : AgreesFor p.suite receiver.recipient.agreementPub receiver.agree)
    (hsigns : keyStore.SignsFor p.ecdsa sender.identity.identityPub)
    (hsender : sender.Valid p createdAt) (hitems : ∀ x ∈ items, Matches p x)
    (hroot : ∀ x ∈ items, x.1.relPath ≠ .root) (htier : tier = .sameAccount ∨ tier = .linked)
    (hattest : receiver.verifyAttestation sender.attestationToken sender.identity createdAt =
      .ok tier)
    (hpast : receiver.now.secs.toInt - 30 * 24 * 3600 ≤ createdAt.secs.toInt)
    (hahead : createdAt.secs.toInt ≤ receiver.now.secs.toInt + 300) {bytes : List UInt8}
    (hseal : sealEnvelope p receiver.recipient sender keyStore rng transferId createdAt items =
      .ok bytes) :
    OpensTo (openEnvelope p receiver bytes) transferId sender.identity createdAt items ↔
      WindowFits receiver.now := by
  obtain ⟨g, rfl⟩ := exists_sealing hsuite hseal
  have hopen := g.openEnvelope_eq hsuite hjson hagree hsigns hsender hitems hroot htier hattest
  rw [← inWindow_iff hpast hahead]
  constructor
  · rintro ⟨o, ho, -⟩
    by_contra hwindow
    rw [if_neg hwindow, ho] at hopen
    exact absurd hopen (by simp)
  · intro hwindow
    rw [if_pos hwindow] at hopen
    exact ⟨_, hopen, rfl, rfl, rfl, rfl, rfl⟩

end Opening

/-! ### A two-byte delivery -/

namespace HiTxt

/-- A number in a fixed number of bytes. -/
def word (n value : ℕ) : Bytes n := ⟨toBE n value, length_toBE n value⟩

/-- Numbers of 32 bytes each. -/
def words (values : List ℕ) : List UInt8 := values.flatMap (toBE 32)

/-- An uncompressed point. -/
def point (x y : ℕ) : Bytes 65 := ⟨0x04 :: (toBE 32 x ++ toBE 32 y), length_sec1 x y⟩

/-- The sender's identity key. -/
def senderIdentityPub : Bytes 65 :=
  point 0xd3b3153d30799f92f6246f2fb1d9245f38d8e2df65472a4b8ba152be11cf5917
  0x67457c3e6cc2f0f5cac21dd91712ae76ef87659dfdf0e19fd53aca46992062c9

/-- The sender's agreement key. -/
def senderAgreementPub : Bytes 65 :=
  point 0x39ffb9fe1017e0b65d253d47b3f9dd9e10f163e8a5f7079c838095fd2c149470
  0xddfc341d4816cc3ed88cdbd6b12be123f0485689e2c02c7ecbe3ed6d2112ad8a

/-- The recipient's identity key. -/
def recipientIdentityPub : Bytes 65 :=
  point 0x820642d9db6d37eaf187c90c3730299f43b1964c916ed9ec21bdfdeebefb3b87
  0x726d87a4e1c8279fe9560d5d7599e5a959a923ca4068246769184f1262f5395a

/-- The recipient's agreement key. -/
def recipientAgreementPub : Bytes 65 :=
  point 0xea0104c3776906676d18243c64e14e53e2a65f3b7b051c9024bd8cf523a931ce
  0x8289d1e85958430fc3a10bb6d04fa75bdb47c99ed0d6aed0d2e54fb517d1eafe

/-- The BLAKE3 hash of the sender's identity key. -/
def senderDigest : Bytes 32 :=
  word 32 0x6c5e96fe2393c4b321c9ed40671ab7ae4bd4a94efc6eea1bb28bc8b5cab828c8

/-- The BLAKE3 hash of the recipient's identity key. -/
def recipientDigest : Bytes 32 :=
  word 32 0x381d779651ab7915fbfc8b00eac91da188d2f914c6562970409dc755a987a417

/-- The BLAKE3 hash of the text `hi`. -/
def contentDigest : Bytes 32 :=
  word 32 0x85052e9aab1b67b6622d94a08441b09fd5b7aca61ee360416d70de5da67d86ca

/-- The ephemeral private key. -/
def ephemeral : Bytes 32 :=
  word 32 0x8341425cafede9d24b0599aefdfdeff1c1526ed75b07217eb99bf8c0b7498b81

/-- Its public half. -/
def enc : Bytes 65 :=
  point 0x9a781ca6d055a7f30d0c9ff87936c739f6816ef5f5e72b4b946404b0a1a83b2a
  0xc19f842945ea2bf65aa1649b2b02ff79854c8d5ecfcd403862e8a97ea66c71c1

/-- The raw secret of the ephemeral key and the recipient's agreement key. -/
def dh : Bytes 32 :=
  word 32 0x34f20222aaee0eee06cdb6d1b5d2d211eec2c285fe51dd59490022677524aaa3

/-- The extract labelled `eae_prk`. -/
def eaePrk : Bytes 32 :=
  word 32 0xb897f098b6e74865cb37e762857dc61a75875776d0244cee922f3e5bad3fcebe

/-- The extract labelled `psk_id_hash`. -/
def pskIdHash : Bytes 32 :=
  word 32 0xb738cd703db7b4106e93b4621e9a19c89c838e55964240e5d3f331aaf8b0d58b

/-- The extract labelled `info_hash`. -/
def infoHash : Bytes 32 :=
  word 32 0x65f40a29c767b93e9cd6505ee79861034955f807ca68d07f31c1957a3d75f6aa

/-- The extract labelled `secret`. -/
def secret : Bytes 32 :=
  word 32 0xe4c1881ef53f2cd6a17b481ec3acb55da4b73212e5ee693f247ae7a5d7ac536c

/-- The expansion labelled `shared_secret`. -/
def sharedSecret : Bytes 32 :=
  word 32 0x36b145076452a9604106f60592e213843729c8b648fb67c433aadcf61aa44e44

/-- The expansion labelled `key`. -/
def key : Bytes 32 :=
  word 32 0x56eeed4c62d3c1b9914276659f0dd523b293f3b975693da7d17e1316c75b4f1c

/-- The expansion labelled `base_nonce`. -/
def baseNonce : Bytes 12 :=
  word 12 0xd5d8f5c0449dec8d12dfc712

/-- The expansion labelled `exp`. -/
def exporterSecret : Bytes 32 :=
  word 32 0x100a89f972127f77ef7dc0942dbeaf0d534b1839694385461437d868bd53ca69

/-- The identity key's signature over the agreement key. -/
def bindingSignature : List UInt8 :=
  words [0xc0e7d9113804af675d9141ab1d6c3b0fba10423c76a2e01e99916bca4d7e3431,
    0x291d2e7a112835f448189dea8f6bdaae4693051d4ea5385774423963e66e0ea5]

/-- The identity key's signature over the manifest. -/
def manifestSignature : List UInt8 :=
  words [0xbe9ee19f365fee9d27ac8858a18d4f7527419062e2324938af15e7d234fa23f6,
    0x45e1df2dc62654584c1b3309081304a7fe2bd594abfbf2fb535a2b298f95c89b]

/-- The sealed manifest. -/
def sealedManifestBytes : List UInt8 :=
  words [0xae2822bfcab659ffbb942ac36f086b345299551b31b1cd33affe0c429f3cb45f,
    0xb73f33ace42791c520e2e2c8965755bcc8280a80a03a0ae2c7ec8b3c55436fae,
    0x6f0842e1e30feaa0af0f4252a8d960355bb08b009d75be1e4ea1b09e2de5d0dc,
    0x34b64d23642e8eb3d65a3f0934ab9844bb1bf3733955c2f16b0fc1c947df8fc1,
    0xe6c246eff79f9d971ae1496fdc9b5652f47e7d6dc93923c508e3ceb8d4f309eb,
    0xa1e73b0d32a03df10abd3c15e7d44df5076cd734e874bcbbe80a8cc411b19923,
    0x084cc2822f97d1c1974a5d8730991171e7c4d008ff87ed6d9f8e67a368d34b6d,
    0x685bd158daacef5dbb198b0f1b78c636accb09fbbea7214644baecff1c5cd0f4,
    0x83d6e34319327b32b9c66a85f7c16e639167a93aacaa93ae96e496de62f88897,
    0x645d19b0e8ddfcdd4cdb7774cb50a0b3337c8b323ce97e0fbe5ae9691a38afa8,
    0x9fa9a63fc44a059476da6182d395b8e60cdc50513716ce47031824baa69c2d45,
    0xb3d27d4f6604b593b33b9b240b0eeb898ec1efca5065714887588f7a3238ba53,
    0x452cae2d3d49f1084c2e700621f08bf8082ee4f294cd194068c4647604e2f74b,
    0x7134de50c27dd1c6dd49dff7a54c8c643d31ceac3b67896ba2002a96a31ee731,
    0xde64e22419b9a7c52adfefacbfe99d5fca56ce0ca42c363f836a775dcf00995f,
    0xd5ca655553a0551445d40336c12c51c46dc36c217dad763eb54ea18e6dd0d2bf,
    0x2a8ad1fae1f7e09f86fbb5cf5664de424ef5b5b04fdab4faa560ddf3ccef247c,
    0x6a1784843e8503ea411276aafa46ee46c32b41ace23d805ad919c8c310dd62a6,
    0xfedd0e4524704154a654660db27916ce6727d00b4146b8c33ce813c6b7ea2e12,
    0xb4f8ccd10212187c13f66ae2483dcd5797d0e5e393ae5d588a7b288cb816747c,
    0x8a29c197846f0ab20f52ac4d5ea61a9418ec2f4c0145ae773afff4d0de30f7fd,
    0x1d7c56863e2d40bbda5846224934c61972d422ca4da3d1cf7f3f82db3404d2a4,
    0x08a349f075011240c84739e5b0b9c0a1263eb0ce40b160b32a9e8007852c2c05,
    0xc36d4c6fc224b8774a19fab4fb56445c31fece1d090e94c988ad96d815658df3,
    0x571498174a035f05b73a1c343da043438810af9841c592449429045f60597251,
    0x2946f582c9cfad879dd1a9a8a1a3aa8e8cdff8770d8bdb730259478755f1149a,
    0xef03599eadb66d6aa029b554d83eae2b6a06f7c3a174a8b4ca938ae9ce3942a0,
    0x4932ea398c4418814829134b8bc05d0314d731842abd46d904316eb42c6c07ab,
    0xba5ec031578c480f188bf34850d1fa006dcdaf7bcd4673a98f893bfccefc6d30,
    0xd1b711691dd18748c860338bcea3d487a7635c9a95cdee05597c52917ae25c02,
    0xa4947fdcf2af485bc3d6a3070810e736e66a40700e8d5b926e4e54553ce2c85e,
    0x7a3a6ac9f5c3dae90a30c75ee999698fc7ae23c16b62614c832c0f14af8dbbc5] ++
    toBE 10 0x320f465a4b9168b528a5

/-- The sealed content. -/
def sealedContentBytes : List UInt8 :=
  toBE 18 0x4b6514b70200764a1b9e5615e5bfd7fb4b4f

/-- The sender. -/
def sender : EnvelopeSender where
  identity := ⟨⟨senderIdentityPub⟩, ⟨senderAgreementPub⟩, .fromIdentityDigest senderDigest⟩
  keyBinding := ⟨⟨senderAgreementPub⟩, ⟨bindingSignature⟩, ⟨Int64.maxValue⟩⟩
  attestationToken := "token".toList

/-- The recipient. -/
def recipient : PublicIdentity :=
  ⟨⟨recipientIdentityPub⟩, ⟨recipientAgreementPub⟩, .fromIdentityDigest recipientDigest⟩

/-- The identifier of the transfer. -/
def transferId : TransferId := .sample

/-- When the envelope was created: four hundred seconds before the end of time. -/
def createdAt : UnixTime := ⟨9223372036854775407⟩

/-- The one item, `hi.txt`, and its content. -/
def items : List (EnvelopeItem × List UInt8) :=
  [(⟨.sample, 2, ⟨contentDigest.val, contentDigest.property⟩⟩, ascii "hi")]

/-- The bytes the manifest's signature covers. -/
def sigMessage : List UInt8 :=
  enc.val ++ recipient.deviceId.bytes.val ++ sender.identity.deviceId.bytes.val ++
    toBE 8 9223372036854775407 ++ transferId.bytes ++ toBE 4 6 ++ ascii "hi.txt" ++ toBE 8 2 ++
    contentDigest.val

/-- The manifest. -/
def wire : ManifestWire :=
  manifestWire sender transferId createdAt (items.map Prod.fst) ⟨manifestSignature⟩

/-- A JSON string without anything to escape. -/
def quoted (s : Text) : Text := '"' :: s ++ ['"']

/-- A field of a JSON object. -/
def field (name : String) (value : Text) : Text := quoted name.toList ++ ':' :: value

/-- A JSON object. -/
def object (fields : List Text) : Text :=
  Char.ofNat 0x7b :: [','].intercalate fields ++ [Char.ofNat 0x7d]

/-- The manifest in JSON. -/
def json : List UInt8 :=
  (object [field "transfer_id" (quoted wire.transferId),
    field "identity_pub" (quoted wire.identityPub),
    field "agreement_pub" (quoted wire.agreementPub),
    field "key_binding" (object [field "agreement_pub" (quoted wire.keyBinding.agreementPub),
      field "signature" (quoted wire.keyBinding.signature),
      field "not_after" "9223372036854775807".toList]),
    field "attestation_token" (quoted "token".toList),
    field "created_at" "9223372036854775407".toList,
    field "items" ('[' :: object [field "rel_path" (quoted "hi.txt".toList), field "size" ['2'],
      field "content_hash" (quoted (hexText contentDigest.val))] ++ [']']),
    field "signature" (quoted wire.signature)]).map fun c => UInt8.ofNat c.toNat

/-- What was sealed: the nonce, the associated data, the plaintext and the ciphertext. -/
def sealedMessages : List (Bytes 12 × List UInt8 × List UInt8 × List UInt8) :=
  [(HpkeContext.nonceOf baseNonce 0, makeAad 0 false, json, sealedManifestBytes),
    (HpkeContext.nonceOf baseNonce 1, makeAad 1 true, ascii "hi", sealedContentBytes)]

/-- The primitives, as they answer for this delivery. -/
def suite : HpkeSuite where
  isPoint bytes := bytes = enc.val ∨ bytes = recipientAgreementPub.val
  isScalar sk := sk = ephemeral
  publicKey _ := enc.val
  diffieHellman _ _ := dh
  hkdfExtract _ ikm :=
    match ikm.length with
    | 51 => eaePrk
    | 28 => pskIdHash
    | 75 => infoHash
    | _ => secret
  hkdfExpand _ info len :=
    if len = 12 then some baseNonce.val
    else if info.length = 157 then some sharedSecret.val
    else if (info.drop 19).take 3 = ascii "key" then some key.val
    else some exporterSecret.val
  encrypt k nonce aad pt :=
    if k = key then
      (sealedMessages.find? fun m => m.1 = nonce ∧ m.2.1 = aad ∧ m.2.2.1 = pt).map (·.2.2.2)
    else none
  decrypt k nonce aad ct :=
    if k = key then
      (sealedMessages.find? fun m => m.1 = nonce ∧ m.2.1 = aad ∧ m.2.2.2 = ct).map (·.2.2.1)
    else none

/-- What was signed: the payload and the signature. -/
def signedPayloads : List (List UInt8 × List UInt8) :=
  [(ascii "tradr-keybind-v1" ++ senderAgreementPub.val, bindingSignature),
    (ascii "tradr-deferred-v1" ++ sigMessage, manifestSignature)]

/-- All third-party code, as it answers for this delivery. -/
def primitives : Primitives where
  suite := suite
  blake3 :=
    { hash := fun bytes =>
        if bytes = senderIdentityPub.val then senderDigest
        else if bytes = ascii "hi" then contentDigest
        else recipientDigest }
  ecdsa :=
    { VerifyingKey := List UInt8
      EcdsaSignature := List UInt8
      fromSec1Bytes := fun bytes => if bytes = senderIdentityPub.val then some bytes else none
      fromSlice := fun bytes => if bytes.length = 64 then some bytes else none
      verify := fun _ payload sig => (payload, sig) ∈ signedPayloads }
  json :=
    { toVec := fun w => if w = wire then .ok json else .error []
      fromSlice := fun bytes => if bytes = json then .ok wire else .error [] }

/-- The sender's key store. -/
def keyStore : KeyStore where
  sign domain message :=
    if domain = .deferredDelivery ∧ message = sigMessage then .ok ⟨manifestSignature⟩
    else .error (.backend [])
  agree _ := .error (.backend [])

/-- The recipient, at a time. -/
def receiverAt (now : UnixTime) : EnvelopeRecipient where
  recipient := recipient
  agree point := if point.bytes.val = enc.val then .ok ⟨dh.val⟩ else .error (.backend [])
  now := now
  verifyAttestation _ _ _ := .ok .sameAccount

/-- The bytes of the envelope. -/
def envelope : List UInt8 :=
  outerHeader recipient.deviceId sender.identity.deviceId enc 1166 ++ toBE 4 1034 ++
    sealedManifestBytes ++ toBE 4 18 ++ sealedContentBytes

/-- Every ciphertext is a tag longer than its plaintext, and found by it. -/
theorem sealedMessages_lawful : ∀ m ∈ sealedMessages, m.2.2.2.length = m.2.2.1.length + tagLen ∧
    sealedMessages.find? (fun m' => m'.1 = m.1 ∧ m'.2.1 = m.2.1 ∧ m'.2.2.2 = m.2.2.2) =
      some m := by
  decide +kernel

/-- A message that was sealed is one of the two. -/
theorem mem_of_encrypt {k : Bytes 32} {nonce : Bytes 12} {aad pt ct : List UInt8}
    (h : suite.encrypt k nonce aad pt = some ct) :
    k = key ∧ ∃ m ∈ sealedMessages, m.1 = nonce ∧ m.2.1 = aad ∧ m.2.2.1 = pt ∧ m.2.2.2 = ct := by
  simp only [suite] at h
  split_ifs at h with hk
  obtain ⟨m, hfind, rfl⟩ := Option.map_eq_some_iff.mp h
  have hm := List.find?_some hfind
  rw [decide_eq_true_eq] at hm
  obtain ⟨h₁, h₂, h₃⟩ := hm
  exact ⟨hk, m, List.mem_of_find?_eq_some hfind, h₁, h₂, h₃, rfl⟩

/-- The primitives do here what is documented of them. -/
theorem lawful : primitives.suite.Lawful where
  isPoint_publicKey _ _ := by simp [primitives, suite]
  head_publicKey _ _ := rfl
  length_encrypt k nonce aad pt ct h := by
    obtain ⟨-, m, hm, rfl, rfl, rfl, rfl⟩ := mem_of_encrypt h
    exact (sealedMessages_lawful m hm).1
  decrypt_encrypt k nonce aad pt ct h := by
    obtain ⟨rfl, m, hm, rfl, rfl, rfl, rfl⟩ := mem_of_encrypt h
    simp only [primitives, suite, if_true, (sealedMessages_lawful m hm).2, Option.map_some]

/-- The manifest reads back. -/
theorem roundTrips : primitives.json.RoundTrips := by
  intro w bytes h
  simp only [primitives] at h ⊢
  split_ifs at h with hw
  obtain rfl := Except.ok.inj h
  rw [if_pos rfl, hw]

/-- The recipient agrees on the raw secret. -/
theorem agreesFor (now : UnixTime) : AgreesFor primitives.suite
    (receiverAt now).recipient.agreementPub (receiverAt now).agree := by
  intro skE q _ hq
  have hq : q.bytes.val = enc.val := hq
  simp only [receiverAt, primitives, suite, hq, if_true]

/-- The sender's identity key is a key. -/
theorem parseVerifyingKey_eq : parseVerifyingKey primitives.ecdsa sender.identity.identityPub =
    .ok senderIdentityPub.val := by
  simp only [parseVerifyingKey, primitives, sender, if_true]

/-- The sender signs with its identity key. -/
theorem signsFor : keyStore.SignsFor primitives.ecdsa sender.identity.identityPub := by
  intro domain message signature h
  simp only [keyStore] at h
  split_ifs at h with hd
  obtain ⟨rfl, rfl⟩ := hd
  obtain rfl := Except.ok.inj h
  exact ⟨senderIdentityPub.val, parseVerifyingKey_eq, by decide +kernel⟩

/-- The sender is one whose envelopes are accepted. -/
theorem sender_valid : sender.Valid primitives createdAt where
  deviceId := by decide +kernel
  covers := rfl
  bound := ⟨senderIdentityPub.val, parseVerifyingKey_eq, by decide +kernel⟩
  fresh := by decide

/-- The content has the size and the hash of its item. -/
theorem items_match : ∀ x ∈ items, Matches primitives x := by
  intro x hx
  obtain rfl := List.mem_singleton.mp hx
  exact ⟨by decide, by decide +kernel⟩

/-- The item is not the root. -/
theorem items_not_root : ∀ x ∈ items, x.1.relPath ≠ .root := by
  decide

/-- The envelope is sealed. -/
theorem sealEnvelope_eq : sealEnvelope primitives recipient sender keyStore
    (fun _ => .ok ephemeral) transferId createdAt items = .ok envelope := by
  decide +kernel

end HiTxt

open HiTxt in
/-- The delivery opens on a clock that shows its time of creation. -/
theorem openEnvelope_sealEnvelope_hi :
    OpensTo (openEnvelope primitives (receiverAt createdAt) envelope) transferId sender.identity
      createdAt items :=
  (openEnvelope_sealEnvelope_iff lawful roundTrips
    (agreesFor createdAt) signsFor sender_valid items_match items_not_root (.inl rfl) rfl
    (by decide) (by decide) sealEnvelope_eq).mpr (by constructor <;> decide)

open HiTxt in
/-- Two hundred seconds later it is still within the window, but no longer opens: the clock
plus three hundred seconds wraps around. -/
theorem sealed_envelope_is_refused :
    let now : UnixTime := ⟨9223372036854775607⟩
    primitives.suite.Lawful ∧ primitives.json.RoundTrips ∧
      AgreesFor primitives.suite recipient.agreementPub (receiverAt now).agree ∧
      keyStore.SignsFor primitives.ecdsa sender.identity.identityPub ∧
      sender.Valid primitives createdAt ∧ (∀ x ∈ items, Matches primitives x) ∧
      (∀ x ∈ items, x.1.relPath ≠ .root) ∧
      (receiverAt now).verifyAttestation sender.attestationToken sender.identity createdAt =
        .ok .sameAccount ∧
      now.secs.toInt - 30 * 24 * 3600 ≤ createdAt.secs.toInt ∧
      createdAt.secs.toInt ≤ now.secs.toInt + 300 ∧
      sealEnvelope primitives recipient sender keyStore (fun _ => .ok ephemeral) transferId
        createdAt items = .ok envelope ∧
      openEnvelope primitives (receiverAt now) envelope =
        .error (.createdAtOutOfRange createdAt now) := by
  refine ⟨lawful, roundTrips, agreesFor _, signsFor, sender_valid, items_match, items_not_root,
    rfl, by decide, by decide, sealEnvelope_eq, ?_⟩
  obtain ⟨g, hg⟩ := exists_sealing lawful sealEnvelope_eq
  rw [← hg]
  exact g.openEnvelope_eq lawful roundTrips (agreesFor _) signsFor sender_valid items_match
    items_not_root (.inl rfl) rfl

end Tradr
