import Mathlib.Data.Set.Function
import Tradr.EnvelopeRoundTrip

/-!
# Envelopes Cannot Be Tampered With

The length in an envelope's header is not authenticated. The reader derives from it which
record is the final one, and the writer has put that into the associated data of the
record, so a length that was changed makes a record fail to open. The number of a record
goes into its nonce and into its associated data, and the encapsulated key and the two
device identifiers go into the context. Under an ideal cipher this leaves an attacker who
has envelopes of honest senders nothing but to deliver one of them as it is.

## Main results

* `EnvelopeReader.feedInner_append`: what is read does not depend on how it is sliced.
* `parseOuterHeader_eq_ok`: a header that is accepted is the header of its fields.
* `feedInner_sent_records`: the records that are accepted are the ones that were sealed.
* `finish_eq_ok_of_ideal`: an envelope that opens is one that was sealed, byte for byte.
-/

open BigEndian Fallible

namespace Tradr

variable {p : Primitives} {receiver : EnvelopeRecipient}

/-! ### Slices -/

namespace EnvelopeReader

/-- A slice that completes a unit completes it whatever follows. -/
theorem take_append_of_complete {buf a b : List UInt8} {n : ℕ}
    (h : ¬(buf ++ a.take (min (n - buf.length) a.length)).length < n) :
    buf ++ (a ++ b).take (n - buf.length) = buf ++ a.take (min (n - buf.length) a.length) ∧
      (a ++ b).drop (n - buf.length) = a.drop (min (n - buf.length) a.length) ++ b := by
  have hle : n - buf.length ≤ a.length := by
    rw [List.length_append, List.length_take] at h
    omega
  rw [Nat.min_eq_left hle, List.take_append_of_le_length hle, List.drop_append_of_le_length hle]
  exact ⟨rfl, rfl⟩

/-- **What is read does not depend on how it is sliced**: feeding two slices is feeding
them joined. -/
theorem feedInner_append (r : EnvelopeReader) (a b : List UInt8) :
    r.feedInner p receiver (a ++ b) = do
      let (events, r') ← r.feedInner p receiver a
      let (more, r'') ← r'.feedInner p receiver b
      return (events ++ more, r'') := by
  fun_induction feedInner p receiver r a with
  | case1 r hneed => simp
  | case2 r a hneed hne =>
      rw [feedInner]
      split
      · rw [if_neg (by simp [hne])]
        rfl
      · rename_i n hn
        exact absurd (hneed.symm.trans hn) (by simp)
  | case3 r a n hneed take unit hshort =>
      -- The first slice does not complete the unit, so all of it is kept.
      have htake : take = a.length := by
        simp only [unit, take, List.length_append, List.length_take] at hshort ⊢
        omega
      have hunit : unit = r.buf ++ a := by
        simp only [unit, htake, List.take_length]
      rw [hunit, List.length_append] at hshort
      rw [hunit, ok_bind, feedInner_of_need hneed]
      dsimp only
      rw [feedInner_of_need (r := { r with buf := r.buf ++ a }) hneed]
      have hfront : r.buf ++ (a ++ b).take (n - r.buf.length) =
          r.buf ++ a ++ b.take (n - (r.buf ++ a).length) := by
        rw [List.take_append, List.take_of_length_le (by omega), List.length_append,
          List.append_assoc, Nat.sub_sub]
      have hback : (a ++ b).drop (n - r.buf.length) = b.drop (n - (r.buf ++ a).length) := by
        rw [List.drop_append, List.drop_of_length_le (by omega), List.length_append,
          List.nil_append, Nat.sub_sub]
      simp only [hfront, hback]
      split_ifs
      · rfl
      · simp
  | case4 r a n hneed take unit hfull e hadv =>
      obtain ⟨hfront, -⟩ := take_append_of_complete (b := b) hfull
      rw [feedInner_of_need hneed, hfront, if_neg hfull, hadv]
      rfl
  | case5 r a n hneed take unit hfull events r' hadv ih =>
      obtain ⟨hfront, hback⟩ := take_append_of_complete (b := b) hfull
      rw [feedInner_of_need hneed, hfront, hback, if_neg hfull, hadv, ok_bind]
      dsimp only
      rw [ih]
      simp

variable (p receiver) in
/-- Feed slices one after the other, whatever is reported. -/
def feedAll (r : EnvelopeReader) (pieces : List (List UInt8)) : EnvelopeReader :=
  pieces.foldl (fun r bytes => (r.feed p receiver bytes).2) r

/-- A reader that failed stays as it is. -/
theorem feedAll_of_failed {r : EnvelopeReader} (h : r.failed = true)
    (pieces : List (List UInt8)) : r.feedAll p receiver pieces = r := by
  induction pieces with
  | nil => rfl
  | cons bytes pieces ih =>
      have hfeed : (r.feed p receiver bytes).2 = r := by
        rw [feed, if_pos h]
      rw [feedAll, List.foldl_cons, hfeed]
      exact ih

/-- Taking in a slice does not mark the reader as failed. -/
theorem failed_of_feedInner {r r' : EnvelopeReader} {input : List UInt8}
    {events : List ReaderEvent} (h : r.feedInner p receiver input = .ok (events, r')) :
    r'.failed = r.failed := by
  fun_induction feedInner p receiver r input generalizing events with
  | case1 r hneed =>
      obtain ⟨-, rfl⟩ := Prod.mk.inj (Except.ok.inj h)
      rfl
  | case2 r input hneed hne => exact absurd h (by simp)
  | case3 r input n hneed take unit =>
      obtain ⟨-, rfl⟩ := Prod.mk.inj (Except.ok.inj h)
      rfl
  | case4 r input n hneed take unit hfull e => exact absurd h (by simp)
  | case5 r input n hneed take unit hfull events r₁ hadv =>
      rename_i ih
      obtain ⟨⟨more, r₂⟩, hmore, h⟩ := bind_eq_ok.mp h
      obtain ⟨-, rfl⟩ := Prod.mk.inj (Except.ok.inj h)
      rw [ih hmore, (advance_progress hadv).2.1]

/-- A reader finishes only after the final record. -/
theorem stage_of_finish {r : EnvelopeReader} {m : OpenedManifest} (h : r.finish = .ok m) :
    r.stage = .done := by
  unfold finish at h
  split_ifs at h
  split at h
  · assumption
  · exact absurd h (by simp)

/-- A reader that finishes has taken in all slices, as if they had come as one, and ended
with the final record. -/
theorem feedInner_of_finish {r : EnvelopeReader} {pieces : List (List UInt8)}
    {m : OpenedManifest} (hr : r.failed = false) (h : (r.feedAll p receiver pieces).finish = .ok m) :
    ∃ events r', r.feedInner p receiver pieces.flatten = .ok (events, r') ∧ r'.stage = .done := by
  induction pieces generalizing r with
  | nil =>
      refine ⟨[], r, feedInner_done ?_, ?_⟩ <;>
        exact stage_of_finish h
  | cons bytes pieces ih =>
      rw [feedAll, List.foldl_cons] at h
      rcases hfeed : r.feedInner p receiver bytes with e | ⟨events, r₁⟩
      · rw [feed_of_error hr hfeed] at h
        change (feedAll p receiver { r with failed := true } pieces).finish = .ok m at h
        rw [feedAll_of_failed rfl] at h
        exact absurd h (by simp [finish])
      · rw [feed_of_ok hr hfeed] at h
        have hr₁ : r₁.failed = false := (failed_of_feedInner hfeed).trans hr
        obtain ⟨more, r₂, hmore, hdone⟩ := ih hr₁ h
        refine ⟨events ++ more, r₂, ?_, hdone⟩
        rw [List.flatten_cons, feedInner_append, hfeed, ok_bind]
        simp [hmore]

/-- A reader that has more to collect, and collects it all, starts with a whole unit. -/
theorem feedInner_eq_ok_of_done {r r' : EnvelopeReader} {n : ℕ} {input : List UInt8}
    {events : List ReaderEvent} (hneed : need r.stage = some n) (hbuf : r.buf = [])
    (h : r.feedInner p receiver input = .ok (events, r')) (hdone : r'.stage = .done) :
    ∃ unit rest es r₁ more, input = unit ++ rest ∧ unit.length = n ∧
      r.advance p receiver unit = .ok (es, r₁) ∧ r₁.buf = [] ∧
      r₁.feedInner p receiver rest = .ok (more, r') := by
  rw [feedInner_of_need hneed, hbuf, List.length_nil, Nat.sub_zero, List.nil_append] at h
  split_ifs at h with hshort
  · obtain ⟨-, rfl⟩ := Prod.mk.inj (Except.ok.inj h)
    have hdone : r.stage = .done := hdone
    rw [hdone] at hneed
    exact absurd hneed (by simp [need])
  · obtain ⟨⟨es, r₁⟩, hadv, h⟩ := bind_eq_ok.mp h
    obtain ⟨⟨more, r₂⟩, hmore, h⟩ := bind_eq_ok.mp h
    obtain ⟨-, rfl⟩ := Prod.mk.inj (Except.ok.inj h)
    have hr : { r with buf := [] } = r := by
      rw [← hbuf]
    refine ⟨input.take n, input.drop n, es, r₁, more, (List.take_append_drop n input).symm, ?_, ?_,
      (advance_progress hadv).1, hmore⟩
    · rw [List.length_take] at hshort ⊢
      omega
    · rwa [hr] at hadv

end EnvelopeReader

/-! ### Headers -/

/-- The part of a list from a position on, cut once more. -/
theorem drop_eq_take_append_drop {α : Type} (l : List α) (i k : ℕ) :
    l.drop i = (l.drop i).take k ++ l.drop (i + k) := by
  rw [← List.drop_drop, List.take_append_drop]

/-- **A header that is accepted is the header of its fields.** -/
theorem parseOuterHeader_eq_ok {unit : List UInt8} {header : OuterHeader}
    (hlen : unit.length = outerHeaderLen) (h : parseOuterHeader unit = .ok header) :
    unit = outerHeader header.recipientDeviceId header.senderDeviceId header.enc
      header.totalLen := by
  have hnot : ¬unit.length < outerHeaderLen := by omega
  rw [parseOuterHeader, dif_neg hnot] at h
  obtain ⟨_, hversion, h⟩ := bind_eq_ok.mp h
  obtain ⟨recipientId, hrecipient, h⟩ := bind_eq_ok.mp h
  obtain ⟨senderId, hsender, h⟩ := bind_eq_ok.mp h
  obtain rfl := Except.ok.inj h
  have hversion := require_eq_ok.mp hversion
  have hrecipient := DeviceId.bytes_of_fromBytes (mapError_eq_ok.mp hrecipient)
  have hsender := DeviceId.bytes_of_fromBytes (mapError_eq_ok.mp hsender)
  have htotal : toBE 8 (ofBE ((unit.drop 98).take 8)) = (unit.drop 98).take 8 := by
    have h8 : ((unit.drop 98).take 8).length = 8 := by
      rw [List.length_take, List.length_drop, hlen]
      rfl
    have := toBE_ofBE ((unit.drop 98).take 8)
    rwa [h8] at this
  have hlast : (unit.drop 98).take 8 = unit.drop 98 := by
    rw [List.take_of_length_le]
    rw [List.length_drop, hlen]
    decide
  have hhead : unit = 1 :: unit.drop 1 := by
    cases unit with
    | nil => exact absurd hlen (by decide)
    | cons b rest =>
        have hb : b = 1 := hversion
        rw [hb]
        rfl
  have hparts : unit.drop 1 = (unit.drop 1).take 16 ++ ((unit.drop 17).take 16 ++
      ((unit.drop 33).take 65 ++ unit.drop 98)) := by
    rw [← drop_eq_take_append_drop unit 33 65, ← drop_eq_take_append_drop unit 17 16,
      ← drop_eq_take_append_drop unit 1 16]
  rw [outerHeader, hrecipient, hsender, htotal, hlast, List.append_assoc, List.append_assoc,
    ← hparts]
  exact hhead

/-- A header that is accepted has the version that is spoken here. -/
theorem version_of_parseOuterHeader {unit : List UInt8} {header : OuterHeader}
    (h : parseOuterHeader unit = .ok header) : header.version = 1 := by
  unfold parseOuterHeader at h
  split_ifs at h
  obtain ⟨_, hversion, h⟩ := bind_eq_ok.mp h
  obtain ⟨_, -, h⟩ := bind_eq_ok.mp h
  obtain ⟨_, -, h⟩ := bind_eq_ok.mp h
  obtain rfl := Except.ok.inj h
  exact require_eq_ok.mp hversion

/-- What an HPKE context is bound to tells the sender. -/
theorem makeHpkeInfo_inj {recipientId a b : DeviceId}
    (h : makeHpkeInfo recipientId a = makeHpkeInfo recipientId b) : a = b := by
  have hb := List.append_cancel_left h
  obtain ⟨a⟩ := a
  obtain ⟨b⟩ := b
  exact congrArg DeviceId.mk (Subtype.ext hb)

/-- The associated data of a record tells its number and whether it is the last. -/
theorem makeAad_inj {a b : UInt64} {x y : Bool} (h : makeAad a x = makeAad b y) :
    a = b ∧ x = y := by
  obtain ⟨hseq, hflag⟩ := List.append_inj h (by rw [length_toBE, length_toBE])
  constructor
  · have := congrArg ofBE hseq
    rw [ofBE_toBE (by exact a.toNat_lt), ofBE_toBE (by exact b.toNat_lt)] at this
    exact UInt64.toNat_inj.mp this
  · revert hflag
    cases x <;> cases y <;> decide

/-! ### Honest envelopes -/

section Sealing

variable {recipient : PublicIdentity} {sender : EnvelopeSender} {keyStore : KeyStore}
  {rng : Draws} {transferId : TransferId} {createdAt : UnixTime}
  {items : List (EnvelopeItem × List UInt8)}

/-- The ciphertext was sealed in the making of the envelope, with this number and this
associated data: as the manifest, or as the data record after the pieces in `before`. -/
def Sealing.Sent (g : Sealing p recipient sender keyStore rng transferId createdAt items)
    (seq : UInt64) (aad ct : List UInt8) : Prop :=
  (seq = g.ctx.seq ∧ aad = makeAad 0 false ∧ ct = g.ct) ∨
    ∃ before chunk after out s ctx', g.full ++ [g.last] = before ++ chunk :: after ∧
      g.sealer.sealAll p before = .ok (out, s) ∧ seq = s.ctx.seq ∧
      aad = makeAad s.seq (decide (s.emitted + chunk.length = s.declared)) ∧
      SenderContext.sealMessage p.suite s.ctx aad chunk = (.ok ct, ctx')

end Sealing

/-- An envelope that was sealed to the recipient, with its making. -/
structure HonestEnvelope (p : Primitives) (recipient : PublicIdentity) where
  sender : EnvelopeSender
  keyStore : KeyStore
  rng : Draws
  transferId : TransferId
  createdAt : UnixTime
  items : List (EnvelopeItem × List UInt8)
  sealing : Sealing p recipient sender keyStore rng transferId createdAt items
  sealEnvelope_eq : sealEnvelope p recipient sender keyStore rng transferId createdAt items =
    .ok sealing.bytes

namespace HonestEnvelope

variable {recipient : PublicIdentity}

/-- The bytes of the envelope. -/
def bytes (e : HonestEnvelope p recipient) : List UInt8 := e.sealing.bytes

/-- What the recipient derives the envelope's context from: the encapsulated key, and what
the context is bound to. -/
def context (e : HonestEnvelope p recipient) : Bytes 65 × List UInt8 :=
  (e.sealing.enc, makeHpkeInfo recipient.deviceId e.sender.identity.deviceId)

end HonestEnvelope

/-- Whatever is sealed to the recipient is an honest envelope. -/
theorem exists_honestEnvelope (hsuite : p.suite.Lawful) {recipient : PublicIdentity}
    {sender : EnvelopeSender} {keyStore : KeyStore} {rng : Draws} {transferId : TransferId}
    {createdAt : UnixTime} {items : List (EnvelopeItem × List UInt8)} {bytes : List UInt8}
    (h : sealEnvelope p recipient sender keyStore rng transferId createdAt items = .ok bytes) :
    ∃ e : HonestEnvelope p recipient, e.bytes = bytes := by
  obtain ⟨g, rfl⟩ := exists_sealing hsuite h
  exact ⟨⟨sender, keyStore, rng, transferId, createdAt, items, g, h⟩, rfl⟩

/-- An ideal AEAD, as the recipient meets it: each honest envelope has a context of its
own, and under a context that the recipient sets up, opening succeeds only on a ciphertext
that was sealed for an honest envelope with that context, with the same number and the same
associated data. -/
structure IdealAead (p : Primitives) (receiver : EnvelopeRecipient)
    (honest : Set (HonestEnvelope p receiver.recipient)) : Prop where
  context_injOn : honest.InjOn HonestEnvelope.context
  sent_of_open : ∀ enc info ctx,
    setupBaseReceiver p.suite enc receiver.recipient.agreementPub info receiver.agree = .ok ctx →
    ∀ seq aad ct pt ctx',
      ReceiverContext.openMessage p.suite { ctx with seq } aad ct = (.ok pt, ctx') →
      ∃ e ∈ honest, e.context = (enc, info) ∧ e.sealing.Sent seq aad ct

/-! ### Reading back only what was sealed -/

/-- A reader that reads a record and gets to the end has taken in a length, that many
bytes, and the rest. -/
theorem feedInner_record_eq_ok {r r' : EnvelopeReader} {manifest : Bool} {input : List UInt8}
    {events : List ReaderEvent} (hstage : r.stage = .len manifest) (hbuf : r.buf = [])
    (h : r.feedInner p receiver input = .ok (events, r')) (hdone : r'.stage = .done) :
    ∃ body rest es r₁ more, input = toBE 4 body.length ++ body ++ rest ∧
      4 + body.length ≤ r.remaining ∧
      EnvelopeReader.advance p receiver
        { r with remaining := r.remaining - 4, stage := .body manifest body.length } body =
        .ok (es, r₁) ∧
      r₁.buf = [] ∧ r₁.feedInner p receiver rest = .ok (more, r') := by
  obtain ⟨unit, input, es, r₁, more, rfl, hunit, hadv, hbuf₁, h⟩ :=
    EnvelopeReader.feedInner_eq_ok_of_done (n := 4) (by rw [hstage]; rfl) hbuf h hdone
  rw [EnvelopeReader.advance, hstage] at hadv
  obtain ⟨r₂, hlen, hadv⟩ := bind_eq_ok.mp hadv
  obtain ⟨-, rfl⟩ := Prod.mk.inj (Except.ok.inj hadv)
  obtain ⟨hfour, hle, -, rfl⟩ := EnvelopeReader.readLen_eq_ok.mp hlen
  obtain ⟨body, rest, es', r₃, more', rfl, hbody, hadv, hbuf₃, h⟩ :=
    EnvelopeReader.feedInner_eq_ok_of_done (n := ofBE unit) rfl hbuf₁ h hdone
  have hword : toBE 4 body.length = unit := by
    rw [hbody, ← hunit, toBE_ofBE]
  refine ⟨body, rest, es', r₃, more', ?_, by omega, ?_, hbuf₃, h⟩
  · rw [hword, List.append_assoc]
  · rw [hbody]
    exact hadv

/-- After the final record nothing more is taken in. -/
theorem eq_nil_of_feedInner_done {r r' : EnvelopeReader} {input : List UInt8}
    {events : List ReaderEvent} (hdone : r.stage = .done)
    (h : r.feedInner p receiver input = .ok (events, r')) : input = [] := by
  rw [EnvelopeReader.feedInner] at h
  split at h
  · split_ifs at h
    assumption
  · rename_i n hn
    rw [hdone] at hn
    exact absurd hn (by simp [EnvelopeReader.need])

section Sealing

variable {recipient : PublicIdentity} {sender : EnvelopeSender} {keyStore : KeyStore}
  {rng : Draws} {transferId : TransferId} {createdAt : UnixTime}
  {items : List (EnvelopeItem × List UInt8)}
  (g : Sealing p recipient sender keyStore rng transferId createdAt items)

/-- The manifest has the first number. -/
theorem Sealing.ctx_seq : g.ctx.seq = 0 :=
  seq_of_setupBaseSender g.setup

/-- Data records are numbered from one on. -/
theorem Sealing.toNat_seq_sealer : g.sealer.ctx.seq.toNat = 1 := by
  rw [toNat_seq_of_sealMessage g.sealManifest, g.ctx_seq]
  rfl

variable {g}

/-- The message with the first number is the manifest. -/
theorem Sealing.Sent.manifest {aad ct : List UInt8} (h : g.Sent 0 aad ct) : ct = g.ct := by
  rcases h with ⟨-, -, h⟩ | ⟨before, chunk, after, out, s, ctx', -, hs, hseq, -⟩
  · exact h
  · have hnum := RecordSealer.seq_of_sealAll hs
    rw [← hseq, g.toNat_seq_sealer] at hnum
    exact absurd hnum (by simp; omega)

/-- The message with the number of a data record is that record, and it carries whether it
is the last. -/
theorem Sealing.Sent.record {before after : List (List UInt8)} {out : List UInt8}
    {s : RecordSealer} {aad ct : List UInt8} (hsplit : g.full ++ [g.last] = before ++ after)
    (hs : g.sealer.sealAll p before = .ok (out, s)) (h : g.Sent s.ctx.seq aad ct) :
    ∃ chunk rest ctx', after = chunk :: rest ∧
      aad = makeAad s.seq (decide (s.emitted + chunk.length = s.declared)) ∧
      SenderContext.sealMessage p.suite s.ctx aad chunk = (.ok ct, ctx') := by
  have hnum := RecordSealer.seq_of_sealAll hs
  rw [g.toNat_seq_sealer] at hnum
  rcases h with ⟨h0, -, -⟩ | ⟨before', chunk, rest, out', s', ctx', hsplit', hs', hseq, haad, hct⟩
  · rw [h0, g.ctx_seq] at hnum
    exact absurd hnum (by simp; omega)
  · have hnum' := RecordSealer.seq_of_sealAll hs'
    rw [g.toNat_seq_sealer, ← hseq] at hnum'
    obtain ⟨rfl, rfl⟩ := List.append_inj (hsplit.symm.trans hsplit') (by omega)
    obtain ⟨rfl, rfl⟩ := Prod.mk.inj (Except.ok.inj (hs.symm.trans hs'))
    exact ⟨chunk, rest, ctx', rfl, haad, hct⟩

/-- A record completes the declared size exactly when no record follows it. -/
theorem Sealing.final_iff {before rest : List (List UInt8)} {chunk out : List UInt8}
    {s : RecordSealer} (hsplit : g.full ++ [g.last] = before ++ chunk :: rest)
    (hs : g.sealer.sealAll p before = .ok (out, s)) :
    s.emitted + chunk.length = s.declared ↔ rest = [] := by
  obtain ⟨hdecl, hemit, -⟩ := RecordSealer.sealAll_eq_ok hs
  have hlen := g.length_flatten
  rw [hsplit, List.flatten_append, List.length_append, List.flatten_cons, List.length_append]
    at hlen
  rw [hdecl, hemit, g.emitted]
  constructor
  · intro h
    by_contra hne
    -- The last record is not empty when it is not the only one.
    obtain ⟨more, last, rfl⟩ := List.eq_nil_or_concat rest |>.resolve_left hne
    rw [List.concat_eq_append, ← List.cons_append, ← List.append_assoc] at hsplit
    obtain ⟨hfull, hlast⟩ := List.append_inj' hsplit rfl
    have hpos := List.length_pos_iff.mpr (g.isRecords.last_ne_nil (by rw [hfull]; simp))
    rw [List.singleton_inj.mp hlast] at hpos
    rw [List.concat_eq_append, List.flatten_append, List.length_append, List.flatten_singleton]
      at hlen
    omega
  · rintro rfl
    rw [List.flatten_nil, List.length_nil] at hlen
    omega

variable {ctx₀ : HpkeContext}

/-- Under the context, at any number, only what was sealed for the envelope opens. -/
def Accepts (g : Sealing p recipient sender keyStore rng transferId createdAt items)
    (ctx₀ : HpkeContext) : Prop :=
  ∀ seq aad ct pt ctx',
    ReceiverContext.openMessage p.suite { ctx₀ with seq } aad ct = (.ok pt, ctx') →
    g.Sent seq aad ct

/-- A data record that is accepted is the one with its number, and it is taken for the
final one exactly when no record follows it. -/
theorem advance_sent_record (hsent : Accepts g ctx₀) {before after : List (List UInt8)}
    {s : RecordSealer} {out : List UInt8} (hsplit : g.full ++ [g.last] = before ++ after)
    (hs : g.sealer.sealAll p before = .ok (out, s)) {r r₁ : EnvelopeReader}
    (hctx : r.ctx = some { ctx₀ with seq := s.ctx.seq }) {body : List UInt8}
    {events : List ReaderEvent}
    (h : EnvelopeReader.advance p receiver
      { r with remaining := r.remaining - 4, stage := .body false body.length } body =
      .ok (events, r₁)) :
    ∃ chunk rest ctx', after = chunk :: rest ∧
      SenderContext.sealMessage p.suite s.ctx
        (makeAad s.seq (decide (s.emitted + chunk.length = s.declared))) chunk =
        (.ok body, ctx') ∧
      r₁.remaining = r.remaining - 4 - body.length ∧ (r₁.remaining = 0 ↔ rest = []) ∧
      r₁.stage = (if r₁.remaining = 0 then .done else .len false) ∧
      r₁.ctx = some { ctx₀ with seq := s.ctx.seq + 1 } := by
  rw [EnvelopeReader.advance] at h
  simp only [Bool.false_eq_true, if_false] at h
  obtain ⟨ctx, hctx', pt, ctx', hopen, -, m, -, cursor, -, -, rfl⟩ :=
    EnvelopeReader.readData_eq_ok.mp h
  obtain rfl := Option.some.inj (hctx.symm.trans hctx')
  obtain ⟨chunk, rest, ctx₁, rfl, haad, hct⟩ := (hsent _ _ _ _ _ hopen).record hsplit hs
  obtain ⟨-, -, -, rfl⟩ := HpkeContext.message_eq_ok_iff.mp hopen
  refine ⟨chunk, rest, ctx₁, rfl, haad ▸ hct, rfl, ?_, rfl, rfl⟩
  have hflag := (makeAad_inj haad).2
  rw [decide_eq_decide] at hflag
  exact hflag.trans (Sealing.final_iff hsplit hs)

variable (receiver) in
/-- **The records that are accepted are the ones that were sealed**: a reader at the number
of a record that gets to the end has read this record and all that follow, and nothing
else, and exactly their bytes had remained. -/
theorem feedInner_sent_records (hsent : Accepts g ctx₀) {before after : List (List UInt8)} {s s' : RecordSealer} {out₀ out : List UInt8}
    (hsplit : g.full ++ [g.last] = before ++ after)
    (hs : g.sealer.sealAll p before = .ok (out₀, s)) (hs' : s.sealAll p after = .ok (out, s'))
    {r r' : EnvelopeReader} (hstage : r.stage = .len false) (hbuf : r.buf = [])
    (hctx : r.ctx = some { ctx₀ with seq := s.ctx.seq }) {input : List UInt8}
    {events : List ReaderEvent} (h : r.feedInner p receiver input = .ok (events, r'))
    (hdone : r'.stage = .done) : input = out ∧ r.remaining = out.length := by
  induction after generalizing before s out₀ out r input events with
  | nil =>
      obtain ⟨body, rest, es, r₁, more, -, -, hadv, -, -⟩ :=
        feedInner_record_eq_ok hstage hbuf h hdone
      obtain ⟨chunk, after, ctx', hnil, -⟩ := advance_sent_record hsent hsplit hs hctx hadv
      exact absurd hnil (by simp)
  | cons chunk after ih =>
      obtain ⟨body, rest, es, r₁, more, rfl, hfits, hadv, hbuf₁, h⟩ :=
        feedInner_record_eq_ok hstage hbuf h hdone
      obtain ⟨_, _, ctx', hcons, hct, hremaining, hfinal, hstage₁, hctx₁⟩ :=
        advance_sent_record hsent hsplit hs hctx hadv
      obtain ⟨rfl, rfl⟩ := List.cons.inj hcons
      obtain ⟨⟨o₁, s₁⟩, h₁, hs'⟩ := bind_eq_ok.mp hs'
      obtain ⟨⟨o₂, s₂⟩, h₂, hs'⟩ := bind_eq_ok.mp hs'
      obtain ⟨rfl, rfl⟩ := Prod.mk.inj (Except.ok.inj hs')
      obtain ⟨ct, hct', -, rfl, -⟩ := RecordSealer.sealData_eq_ok h₁
      obtain ⟨hbody, -⟩ := Prod.mk.inj (hct.symm.trans hct')
      obtain rfl := Except.ok.inj hbody
      rw [List.length_append, List.length_append, length_toBE]
      by_cases hrest : after = []
      · have h0 := hfinal.mpr hrest
        rw [h0, if_pos rfl] at hstage₁
        obtain rfl := eq_nil_of_feedInner_done hstage₁ h
        subst hrest
        obtain ⟨rfl, -⟩ := Prod.mk.inj (Except.ok.inj h₂)
        exact ⟨rfl, by rw [List.length_nil]; omega⟩
      · rw [if_neg (mt hfinal.mp hrest)] at hstage₁
        have hnext : s₁.ctx.seq = s.ctx.seq + 1 := by
          obtain ⟨-, -, -, hs₁⟩ := HpkeContext.message_eq_ok_iff.mp hct'
          rw [hs₁]
        obtain ⟨rfl, hlen⟩ := ih (by rw [hsplit, List.append_cons])
          (RecordSealer.sealAll_concat hs h₁) h₂ hstage₁ hbuf₁ (by rw [hctx₁, hnext]) h
        exact ⟨rfl, by omega⟩

end Sealing

/-- A header that is taken in is that of an envelope to the recipient, and sets up the
context of its fields. -/
theorem feedInner_header_eq_ok {r' : EnvelopeReader} {input : List UInt8}
    {events : List ReaderEvent}
    (h : EnvelopeReader.new.feedInner p receiver input = .ok (events, r'))
    (hdone : r'.stage = .done) :
    ∃ senderId enc totalLen ctx rest more,
      input = outerHeader receiver.recipient.deviceId senderId enc totalLen ++ rest ∧
      outerHeaderLen ≤ totalLen ∧
      setupBaseReceiver p.suite enc receiver.recipient.agreementPub
        (makeHpkeInfo receiver.recipient.deviceId senderId) receiver.agree = .ok ctx ∧
      (headerTaken ⟨1, receiver.recipient.deviceId, senderId, enc, totalLen⟩ ctx).feedInner p
        receiver rest = .ok (more, r') := by
  obtain ⟨unit, rest, es, r₁, more, rfl, hunit, hadv, -, h⟩ :=
    EnvelopeReader.feedInner_eq_ok_of_done (n := outerHeaderLen) rfl rfl h hdone
  rw [EnvelopeReader.advance] at hadv
  obtain ⟨r₂, hread, hadv⟩ := bind_eq_ok.mp hadv
  obtain ⟨-, rfl⟩ := Prod.mk.inj (Except.ok.inj hadv)
  obtain ⟨header, hparse, hmin, hrecipient, ctx, hsetup, rfl⟩ :=
    EnvelopeReader.readHeader_eq_ok.mp hread
  have hversion := version_of_parseOuterHeader hparse
  have hbytes := parseOuterHeader_eq_ok hunit hparse
  obtain ⟨version, recipientId, senderId, enc, totalLen⟩ := header
  obtain rfl : version = 1 := hversion
  obtain rfl : recipientId = receiver.recipient.deviceId := hrecipient
  exact ⟨senderId, enc, totalLen, ctx, rest, more, by rw [hbytes], hmin, hsetup, h⟩

/-- **An envelope that opens is one that was sealed**, byte for byte: under an ideal AEAD,
whatever bytes are fed to a reader, in whatever slices, if it finishes then they are those
of an honest envelope. -/
theorem finish_eq_ok_of_ideal {honest : Set (HonestEnvelope p receiver.recipient)}
    (hideal : IdealAead p receiver honest) {pieces : List (List UInt8)} {m : OpenedManifest}
    (h : (EnvelopeReader.new.feedAll p receiver pieces).finish = .ok m) :
    ∃ e ∈ honest, pieces.flatten = e.bytes := by
  obtain ⟨events, r', h, hdone⟩ := EnvelopeReader.feedInner_of_finish rfl h
  obtain ⟨senderId, enc, totalLen, ctx, rest, more, hinput, hmin, hsetup, h⟩ :=
    feedInner_header_eq_ok h hdone
  obtain ⟨body, rest, es, r₁, more, rfl, hfits, hadv, hbuf, h⟩ :=
    feedInner_record_eq_ok rfl rfl h hdone
  rw [EnvelopeReader.advance] at hadv
  simp only [if_true] at hadv
  obtain ⟨header, -, ctx₁, hctx₁, json, ctx', hopen, m', -, -, es', cursor, -, -, rfl⟩ :=
    EnvelopeReader.readManifest_eq_ok.mp hadv
  obtain rfl : ctx = ctx₁ := Option.some.inj hctx₁
  have hzero : { ctx with seq := 0 } = ctx := by
    rw [← seq_of_setupBaseReceiver hsetup]
  -- The manifest picks the honest envelope; all that follows opens under the same context.
  obtain ⟨e, he, hcontext, hsent⟩ :=
    hideal.sent_of_open _ _ _ hsetup 0 _ _ _ _ (by rw [hzero]; exact hopen)
  have haccepts : Accepts e.sealing ctx := by
    intro seq aad ct pt ctx₂ hopen₂
    obtain ⟨e', he', hcontext', hsent'⟩ := hideal.sent_of_open _ _ _ hsetup _ _ _ _ _ hopen₂
    rwa [hideal.context_injOn he' he (hcontext'.trans hcontext.symm)] at hsent'
  obtain ⟨-, -, -, rfl⟩ := HpkeContext.message_eq_ok_iff.mp hopen
  have hnext : e.sealing.sealer.ctx.seq = ctx.seq + 1 := by
    rw [seq_of_setupBaseReceiver hsetup]
    exact UInt64.toNat_inj.mp e.sealing.toNat_seq_sealer
  have hnone : e.sealing.full ++ [e.sealing.last] =
      [] ++ (e.sealing.full ++ [e.sealing.last]) := rfl
  obtain ⟨rfl, hlen⟩ := feedInner_sent_records receiver haccepts hnone rfl
    e.sealing.sealAll rfl hbuf (by rw [hnext]) h hdone
  obtain rfl := hsent.manifest
  obtain ⟨rfl, hinfo⟩ := Prod.mk.inj hcontext
  obtain rfl := makeHpkeInfo_inj hinfo
  refine ⟨e, he, ?_⟩
  have htotal : totalLen = e.sealing.totalLen := by
    have hremaining : totalLen - outerHeaderLen - 4 - e.sealing.ct.length =
        e.sealing.out.length := hlen
    have hfits : 4 + e.sealing.ct.length ≤ totalLen - outerHeaderLen := hfits
    rw [Sealing.totalLen]
    omega
  rw [hinput, htotal]
  rfl

/-! ### A two-byte delivery -/

namespace HiTxt

/-- What the context of the delivery is bound to. -/
def info : List UInt8 := makeHpkeInfo recipient.deviceId sender.identity.deviceId

/-- The primitives as they answer for this delivery, with other answers where the context
is bound to something else. -/
def boundSuite : HpkeSuite :=
  { suite with
    hkdfExtract := fun salt ikm =>
      if (ikm.drop 17).take 9 = ascii "info_hash" ∧ ikm.drop 26 ≠ info then word 32 0
      else suite.hkdfExtract salt ikm
    hkdfExpand := fun prk labeled len =>
      if (labeled.drop 19).take 3 = ascii "key" ∧ labeled.drop 55 ≠ infoHash.val then
        some (word 32 0).val
      else suite.hkdfExpand prk labeled len }

/-- All third-party code, with these primitives. -/
def boundPrimitives : Primitives := { primitives with suite := boundSuite }

/-- The context of the delivery, at a number. -/
def contextAt (seq : UInt64) : HpkeContext := ⟨key, baseNonce, seq, exporterSecret, false⟩

/-- The making of the envelope. -/
def sealing : Sealing boundPrimitives recipient sender keyStore (fun _ => .ok ephemeral)
    transferId createdAt items where
  enc := enc
  ctx := contextAt 0
  sigMessage := sigMessage
  manifestSig := ⟨manifestSignature⟩
  json := json
  ct := sealedManifestBytes
  sealer := ⟨contextAt 1, 2, 0, 1, false⟩
  sealer' := ⟨contextAt 2, 2, 2, 2, true⟩
  full := []
  last := ascii "hi"
  out := toBE 4 18 ++ sealedContentBytes
  declaredSize_eq := by decide
  setup := by decide +kernel
  payload := by decide +kernel
  sign := by decide +kernel
  toVec := by decide +kernel
  sealManifest := by decide +kernel
  length_ct := by decide +kernel
  isRecords := ⟨by simp, by decide +kernel, fun h => absurd rfl h⟩
  flatten := by decide
  length_flatten := by decide
  emitted := rfl
  seq := rfl
  sealAll := by decide +kernel
  fits := by decide +kernel

/-- The honest envelope. -/
def honestEnvelope : HonestEnvelope boundPrimitives recipient where
  sender := sender
  keyStore := keyStore
  rng := fun _ => .ok ephemeral
  transferId := transferId
  createdAt := createdAt
  items := items
  sealing := sealing
  sealEnvelope_eq := by decide +kernel

/-- The primitives still do what is documented of them. -/
theorem bound_lawful : boundPrimitives.suite.Lawful :=
  ⟨lawful.isPoint_publicKey, lawful.head_publicKey, lawful.length_encrypt, lawful.decrypt_encrypt⟩

/-- What opens under the key of the delivery is one of its two messages. -/
theorem mem_of_decrypt {k : Bytes 32} {nonce : Bytes 12} {aad ct pt : List UInt8}
    (h : boundSuite.decrypt k nonce aad ct = some pt) :
    k = key ∧ ∃ m ∈ sealedMessages, m.1 = nonce ∧ m.2.1 = aad ∧ m.2.2.2 = ct := by
  simp only [boundSuite, suite] at h
  split_ifs at h with hk
  obtain ⟨m, hfind, rfl⟩ := Option.map_eq_some_iff.mp h
  have hm := List.find?_some hfind
  rw [decide_eq_true_eq] at hm
  obtain ⟨h₁, h₂, h₃⟩ := hm
  exact ⟨hk, m, List.mem_of_find?_eq_some hfind, h₁, h₂, h₃⟩

theorem boundSuite_hkdfExpand (prk : Bytes 32) (labeled : List UInt8) (len : ℕ) :
    boundSuite.hkdfExpand prk labeled len =
      if (labeled.drop 19).take 3 = ascii "key" ∧ labeled.drop 55 ≠ infoHash.val then
        some (word 32 0).val
      else suite.hkdfExpand prk labeled len := rfl

/-- A context with the key of the delivery is bound to what the delivery is bound to. -/
theorem info_of_keySchedule {sharedSecret : Bytes 32} {info' : List UInt8}
    {material : KeyScheduleMaterial}
    (h : keySchedule boundSuite sharedSecret info' = .ok material) (hkey : material.key = key) :
    info' = info ∧ material.baseNonce = baseNonce := by
  obtain ⟨k, hk, h⟩ := bind_eq_ok.mp h
  obtain ⟨nonce, hnonce, h⟩ := bind_eq_ok.mp h
  obtain ⟨exporter, -, h⟩ := bind_eq_ok.mp h
  obtain rfl := Except.ok.inj h
  obtain rfl : k = key := hkey
  have hk := labeledExpandTo_eq_ok hk
  have hnonce := labeledExpandTo_eq_ok hnonce
  constructor
  · by_contra hne
    have hhash : labeledExtract boundSuite hpkeSuiteId [] (ascii "info_hash") info' =
        word 32 0 := by
      rw [labeledExtract]
      exact if_pos ⟨rfl, hne⟩
    rw [hhash] at hk
    rw [boundSuite_hkdfExpand, if_pos ⟨rfl, by decide +kernel⟩] at hk
    exact absurd (Option.some.inj hk) (by decide +kernel)
  · have hlabel : ¬((List.drop 19 (toBE 2 12 ++ hpkeVersionLabel ++ hpkeSuiteId ++
        ascii "base_nonce" ++ (0x00 :: (labeledExtract boundSuite hpkeSuiteId []
        (ascii "psk_id_hash") []).val ++ (labeledExtract boundSuite hpkeSuiteId []
        (ascii "info_hash") info').val))).take 3 = ascii "key") :=
      show ¬ascii "bas" = ascii "key" by decide
    rw [boundSuite_hkdfExpand, if_neg fun h => hlabel h.1] at hnonce
    exact Subtype.ext (Option.some.inj hnonce).symm

/-- Under the contexts that the recipient sets up, nothing opens but the two messages. -/
theorem idealAead : IdealAead boundPrimitives (receiverAt createdAt) {honestEnvelope} where
  context_injOn := Set.injOn_singleton _ _
  sent_of_open enc' info' ctx hsetup seq aad ct pt ctx' hopen := by
    obtain ⟨dh, hdh, hctx⟩ := setupBaseReceiver_eq_ok hsetup
    have henc : enc' = enc := by
      simp only [receiverAt] at hdh
      split_ifs at hdh with he
      exact Subtype.ext he
    obtain ⟨secret, -, hctx⟩ := bind_eq_ok.mp hctx
    obtain ⟨material, hmaterial, hctx⟩ := bind_eq_ok.mp hctx
    obtain rfl := Except.ok.inj hctx
    obtain ⟨-, hdec, -, -⟩ := HpkeContext.message_eq_ok_iff.mp hopen
    obtain ⟨hkey, m, hm, hnonce, rfl, rfl⟩ := mem_of_decrypt hdec
    obtain ⟨rfl, hbase⟩ := info_of_keySchedule hmaterial hkey
    refine ⟨honestEnvelope, rfl, by rw [henc]; rfl, ?_⟩
    dsimp only at hnonce
    rw [hbase] at hnonce
    rcases List.mem_cons.mp hm with rfl | hm
    · obtain rfl := HpkeContext.nonceOf_inj hnonce
      exact .inl ⟨rfl, rfl, rfl⟩
    · obtain rfl := List.mem_singleton.mp hm
      obtain rfl := HpkeContext.nonceOf_inj hnonce
      exact .inr ⟨[], ascii "hi", [], [], sealing.sealer, contextAt 2, rfl, rfl, rfl, rfl,
        by decide +kernel⟩

/-- The delivery is taken in, in one slice. -/
theorem finish_feedAll : (EnvelopeReader.new.feedAll boundPrimitives (receiverAt createdAt)
    [envelope]).finish = .ok (sealedManifest sender transferId createdAt items .sameAccount) := by
  have hcheck : checkManifest boundPrimitives (Sealing.header (show Sealing boundPrimitives
      (receiverAt createdAt).recipient sender keyStore (fun _ => .ok ephemeral) transferId
      createdAt items from sealing)) json (receiverAt createdAt).now
      (receiverAt createdAt).verifyAttestation =
      .ok (sealedManifest sender transferId createdAt items .sameAccount) := by
    decide +kernel
  obtain ⟨events, r, hfeed, hfinish, -⟩ := Sealing.feedInner_eq bound_lawful (agreesFor createdAt)
    items_match sealing hcheck
  have hbytes : sealing.bytes = envelope := by decide +kernel
  have hfeed : EnvelopeReader.new.feedInner boundPrimitives (receiverAt createdAt) envelope =
      .ok (events, r) := hbytes ▸ hfeed
  rw [EnvelopeReader.feedAll, List.foldl_cons, EnvelopeReader.feed_of_ok rfl hfeed]
  exact hfinish

end HiTxt

open HiTxt in
/-- The delivery opens, and is the one that was sealed. -/
theorem finish_eq_ok_of_ideal_hi : ∃ e ∈ ({honestEnvelope} : Set _), [envelope].flatten = e.bytes :=
  finish_eq_ok_of_ideal idealAead finish_feedAll

end Tradr
