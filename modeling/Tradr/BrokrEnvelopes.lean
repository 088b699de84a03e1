import Tradr.BrokrLifeCycle
import Tradr.EnvelopeRoundTrip

/-!
# Envelopes on the Brokr

The client writes the outer header of an envelope and the Brokr reads it: the version, the
two devices and the length of the whole, which is promised before the content. The Brokr sees
the body in whatever chunks the network makes of it, between the stretches of other requests.

The parts of an upload are the actions on its identifier. What an upload has come to is a
matter of these parts alone: everything else leaves its record and its file as they are.

## Main definitions

* `Written`: the bytes a writer emits, whatever was pushed and however.
* `putPart`: what an action is to an upload.
* `Granted`: the recipient is eligible and there is room when the header is checked.

## Main results

* `readUploadHeader_written`: the Brokr reads the header the client wrote.
* `BrokrServer.came_of_allows`: what an upload has come to after its parts.
* `brokr_returns_what_is_sealed`: an envelope is taken and given back, and a body of another
  length than its header says leaves nothing.
-/

open BigEndian Fallible

namespace Tradr

/-! ### What the client writes -/

section Client

variable {p : Primitives} {recipient : PublicIdentity} {sender : EnvelopeSender}
  {bytes : List UInt8}

/-- The bytes an envelope writer emits: it was made for some items, any pieces were pushed and
it was finished. -/
def Written (p : Primitives) (recipient : PublicIdentity) (sender : EnvelopeSender)
    (bytes : List UInt8) : Prop :=
  ∃ keyStore rng transferId createdAt items w head pieces out w' rest,
    EnvelopeWriter.new p recipient sender keyStore rng transferId createdAt items = .ok (w, head) ∧
      w.pushAll p pieces = .ok (out, w') ∧ w'.finish p = .ok rest ∧ bytes = head ++ out ++ rest

/-- What is written is a header that promises its length, and the rest. -/
theorem Written.eq (hsuite : p.suite.Lawful) (h : Written p recipient sender bytes) :
    ∃ enc body, bytes =
        outerHeader recipient.deviceId sender.identity.deviceId enc bytes.length ++ body ∧
      bytes.length < 2 ^ 64 := by
  obtain ⟨keyStore, rng, transferId, createdAt, items, w, head, pieces, out, w', rest, hnew, hpush,
    hfinish, rfl⟩ := h
  obtain ⟨enc, ctx, sigMessage, manifestSig, json, ct, -, -, -, -, -, -, -, htotal, rfl, hbuf,
    hpushed, hemitted, -, hfinal, hfailed⟩ := EnvelopeWriter.new_eq_ok hnew
  obtain ⟨full, last, s, hrec, hflat, hdeclared, hall⟩ :=
    EnvelopeWriter.records_of_finish hbuf hfailed hfinal hpushed hemitted hpush hfinish
  obtain ⟨len, hdata, -⟩ := Option.bind_eq_some_iff.mp htotal
  obtain ⟨htotal, hfits⟩ := envelopeLen_eq_some htotal hdata
  rw [← hdeclared, ← hflat] at hdata
  have hlen : (out ++ rest).length = len := by
    rw [length_sealAll hsuite hall, dataLen_records hrec hdata]
  rw [List.length_append] at hlen
  have hwhole : (outerHeader recipient.deviceId sender.identity.deviceId enc w.totalLen ++
      (toBE 4 ct.length ++ ct) ++ out ++ rest).length = w.totalLen := by
    simp only [List.length_append, length_outerHeader, length_toBE]
    omega
  refine ⟨enc, toBE 4 ct.length ++ ct ++ out ++ rest, ?_, ?_⟩
  · rw [hwhole]
    simp only [List.append_assoc]
  · rw [hwhole]
    exact hfits

/-- An envelope that is sealed at once is written. -/
theorem written_sealEnvelope {keyStore : KeyStore} {rng : Draws} {transferId : TransferId}
    {createdAt : UnixTime} {items : List (EnvelopeItem × List UInt8)}
    (h : sealEnvelope p recipient sender keyStore rng transferId createdAt items = .ok bytes) :
    Written p recipient sender bytes := by
  unfold sealEnvelope at h
  obtain ⟨-, -, h⟩ := bind_eq_ok.mp h
  obtain ⟨⟨w, head⟩, hnew, h⟩ := bind_eq_ok.mp h
  obtain ⟨⟨out, w'⟩, hpush, h⟩ := bind_eq_ok.mp h
  obtain ⟨rest, hfinish, h⟩ := bind_eq_ok.mp h
  exact ⟨keyStore, rng, transferId, createdAt, _, w, head, _, out, w', rest, hnew, hpush, hfinish,
    (Except.ok.inj h).symm⟩

/-- **The Brokr reads the header the client wrote**: the devices, and the length of the
whole. -/
theorem readUploadHeader_written (hsuite : p.suite.Lawful) (h : Written p recipient sender bytes) :
    headerLen ≤ bytes.length ∧ readUploadHeader (bytes.take headerLen) =
      ⟨1, hexText recipient.deviceId.bytes.val, hexText sender.identity.deviceId.bytes.val,
        bytes.length⟩ := by
  obtain ⟨enc, body, hbytes, hlt⟩ := h.eq hsuite
  have hlen := length_outerHeader recipient.deviceId sender.identity.deviceId enc bytes.length
  have hr : recipient.deviceId.bytes.val.length = 16 := recipient.deviceId.bytes.property
  have hs : sender.identity.deviceId.bytes.val.length = 16 :=
    sender.identity.deviceId.bytes.property
  have he : enc.val.length = 65 := enc.property
  have htake : bytes.take headerLen =
      outerHeader recipient.deviceId sender.identity.deviceId enc bytes.length :=
    (congrArg (List.take headerLen) hbytes).trans (List.take_left' hlen)
  constructor
  · rw [hbytes, List.length_append, hlen]
    exact Nat.le_add_right _ _
  · rw [htake]
    unfold readUploadHeader outerHeader
    congr 1
    · rw [List.drop_succ_cons, List.drop_zero, List.append_assoc, List.append_assoc,
        List.take_left' hr]
    · rw [List.drop_succ_cons, List.append_assoc, List.append_assoc, List.drop_left' hr,
        List.take_left' hs]
    · rw [List.drop_succ_cons, List.drop_left' (by simp only [List.length_append]; omega),
        List.take_of_length_le (by rw [length_toBE]), ofBE_toBE (hlt.trans_eq (by norm_num))]

end Client

/-! ### The parts of an upload -/

/-- What an action is to an upload. -/
inductive PutPart
  | begun (caller contentType : Option Text)
  | chunk (bytes : List UInt8)
  | ended
  | aborted
  | closed (fileStreamError : Bool) (now : ℤ)
  deriving DecidableEq

/-- What an action is to the upload with an identifier, if it is for that one. -/
def putPart (id : Text) : BrokrAction → Option PutPart
  | .put caller contentType deliveryId =>
    if deliveryId = id then some (.begun caller contentType) else none
  | .putChunk deliveryId chunk => if deliveryId = id then some (.chunk chunk) else none
  | .putEnd deliveryId => if deliveryId = id then some .ended else none
  | .putAbort deliveryId _ => if deliveryId = id then some .aborted else none
  | .putClosed deliveryId fileStreamError now =>
    if deliveryId = id then some (.closed fileStreamError now) else none
  | _ => none

/-- The parts of an upload among the actions of a run. -/
def putParts (id : Text) (actions : List BrokrAction) : List PutPart :=
  actions.filterMap (putPart id)

theorem putParts_concat (id : Text) (actions : List BrokrAction) (a : BrokrAction) :
    putParts id (actions ++ [a]) = putParts id actions ++ (putPart id a).toList := by
  unfold putParts
  rw [List.filterMap_append]
  congr 1

namespace Upload

@[simp] theorem takeChunk_callerDeviceId (u : Upload) (cfg : BrokrConfig) (db : BrokrDb)
    (chunk : List UInt8) : (u.takeChunk cfg db chunk).callerDeviceId = u.callerDeviceId := by
  have hcheck : ∀ (v : Upload) (h : UploadHeader),
      (v.checkLength h).callerDeviceId = v.callerDeviceId := by
    intro v h
    unfold checkLength
    split_ifs <;> rfl
  unfold takeChunk
  repeat' split
  all_goals first | rfl | exact hcheck _ _

/-- A chunk that does not make an upload fail leaves it receiving. -/
theorem phase_takeChunk_of_not_failing (u : Upload) {cfg : BrokrConfig} {db : BrokrDb}
    {chunk : List UInt8} (hphase : u.phase = .receiving)
    (h : ∀ n m, (u.takeChunk cfg db chunk).phase ≠ .failing n m) :
    (u.takeChunk cfg db chunk).phase = .receiving := by
  rcases u.takeChunk_cases cfg db chunk with ⟨n, m, hfail⟩ | ⟨_, _, heq⟩ | ⟨_, _, heq⟩ |
    ⟨_, _, _, _, heq⟩
  · exact absurd hfail (h n m)
  all_goals
    rw [heq]
    exact hphase

/-- An upload without a header has received less than one. -/
theorem header_takeChunk_eq_none (u : Upload) {cfg : BrokrConfig} {db : BrokrDb}
    {chunk got : List UInt8} (hof : FileOf u got)
    (h : ∀ n m, (u.takeChunk cfg db chunk).phase ≠ .failing n m)
    (hnone : (u.takeChunk cfg db chunk).header = none) : (got ++ chunk).length < headerLen := by
  rcases u.takeChunk_cases cfg db chunk with ⟨n, m, hfail⟩ | ⟨g, hheader, heq⟩ |
    ⟨hheader, hcompletes, -⟩ | ⟨g, -, -, -, heq⟩
  · exact absurd hfail (h n m)
  · rw [heq, show ({ u with bytesReceived := u.bytesReceived + chunk.length } : Upload).header =
      some g from hheader] at hnone
    cases hnone
  · unfold completes at hcompletes
    rw [hof.headerChunks hheader] at hcompletes
    split_ifs at hcompletes with hcond
    rw [not_and, hheader] at hcond
    exact Nat.lt_of_not_le (hcond rfl)
  · rw [heq] at hnone
    cases hnone

end Upload

namespace BrokrServer

variable {cfg : BrokrConfig} {s : BrokrServer} {id caller : Text} {a : BrokrAction} {u : Upload}

/-- Changing one upload leaves the others. -/
theorem mem_setUpload_of_ne {u' : Upload} (hu : u ∈ s.uploads)
    (hne : u.deliveryId ≠ u'.deliveryId) : u ∈ (s.setUpload u').uploads :=
  Table.mem_update.mpr ⟨u, hu, (if_neg hne).symm⟩

variable (cfg) in
/-- **Everything else leaves an upload and its file as they are.** -/
theorem frame_of_other (hs : s.Sound) (hadm : s.Admissible a) (hu : s.upload id = some u)
    (hother : putPart id a = none) :
    (s.step cfg a).2.upload id = some u ∧ (s.step cfg a).2.files id = s.files id := by
  obtain ⟨hmem, rfl⟩ := mem_of_upload hu
  have hkeyed := (hs.effect (effect_step cfg hadm)).uploads.keyed
  -- The uploads keep distinct identifiers, so that it is enough that the upload is still there.
  suffices h : u ∈ (s.step cfg a).2.uploads ∧
      (s.step cfg a).2.files u.deliveryId = s.files u.deliveryId from
    ⟨(Table.get_eq_some hkeyed).mpr ⟨h.1, rfl⟩, h.2⟩
  have hne : ∀ d part, (if d = u.deliveryId then some part else none : Option PutPart) = none →
      u.deliveryId ≠ d := by
    rintro d part h rfl
    rw [if_pos rfl] at h
    cases h
  cases a with
  | register | inbox | get | outbox => exact ⟨hmem, rfl⟩
  | put caller contentType d =>
      have hd := hne d _ hother
      rcases caller with _ | caller
      · exact ⟨hmem, rfl⟩
      · unfold step beginPut
        dsimp only
        split_ifs
        · exact ⟨List.mem_append_left _ hmem, Function.update_of_ne hd _ _⟩
        · exact ⟨hmem, rfl⟩
  | putChunk d chunk =>
      have hd := hne d _ hother
      unfold step putChunk
      dsimp only
      rcases hv : s.upload d with _ | v
      · exact ⟨hmem, rfl⟩
      · obtain ⟨-, rfl⟩ := mem_of_upload hv
        dsimp only
        split_ifs
        · refine ⟨mem_setUpload_of_ne hmem ?_, Function.update_of_ne hd _ _⟩
          rw [v.takeChunk_deliveryId]
          exact hd
        · exact ⟨hmem, rfl⟩
  | putEnd d =>
      have hd := hne d _ hother
      unfold step endPut
      dsimp only
      rcases hv : s.upload d with _ | v
      · exact ⟨hmem, rfl⟩
      · obtain ⟨-, rfl⟩ := mem_of_upload hv
        dsimp only
        split_ifs
        · refine ⟨mem_setUpload_of_ne hmem ?_, rfl⟩
          rw [v.endBody_deliveryId]
          exact hd
        · exact ⟨hmem, rfl⟩
  | putAbort d err =>
      have hd := hne d _ hother
      unfold step endPut
      dsimp only
      rcases hv : s.upload d with _ | v
      · exact ⟨hmem, rfl⟩
      · obtain ⟨-, rfl⟩ := mem_of_upload hv
        dsimp only
        split_ifs
        · exact ⟨mem_setUpload_of_ne hmem hd, rfl⟩
        · exact ⟨hmem, rfl⟩
  | putClosed d fileStreamError now =>
      have hd := hne d _ hother
      have hdrop : u ∈ (s.dropUpload d).uploads ∧
          (s.dropUpload d).files u.deliveryId = s.files u.deliveryId :=
        ⟨Table.mem_delete.mpr ⟨hmem, hd⟩, Function.update_of_ne hd _ _⟩
      unfold step putClosed
      dsimp only
      rcases hv : s.upload d with _ | v
      · exact ⟨hmem, rfl⟩
      · obtain ⟨-, rfl⟩ := mem_of_upload hv
        dsimp only
        split
        · exact hdrop
        · split_ifs
          · exact hdrop
          · exact ⟨Table.mem_delete.mpr ⟨hmem, hd⟩, rfl⟩
        · exact ⟨hmem, rfl⟩
  | delete caller d now =>
      unfold step delete
      dsimp only
      rcases caller with _ | caller
      · exact ⟨hmem, rfl⟩
      · dsimp only
        rcases hd : s.db.getDelivery d with _ | r
        · exact ⟨hmem, rfl⟩
        · obtain ⟨hr, rfl⟩ := Table.mem_of_get hd
          dsimp only
          split_ifs
          · exact ⟨hmem, rfl⟩
          · exact ⟨hmem, Function.update_of_ne (hs.apart r hr u hmem) _ _⟩
  | sweep now =>
      refine ⟨hmem, ?_⟩
      exact (BrokrDb.sweepDeliveries_files hs.keyed s.files now).2 u.deliveryId
        fun r hr => (hs.apart r hr u hmem).symm

/-- An upload after some of its body, `strict` when these are bytes of `bytes` that are to be
taken: it has received them and put them in its file, or it was given up. -/
def Uploading (strict : Prop) (bytes : List UInt8) (id caller : Text) (got : List UInt8)
    (s : BrokrServer) : Prop :=
  ∃ u, s.upload id = some u ∧ u.callerDeviceId = caller ∧
    ((u.phase = .receiving ∧ s.files id = some got ∧ FileOf u got ∧
        (u.header = none → got.length < headerLen)) ∨
      (∃ n m, u.phase = .failing n m) ∧ ¬(strict ∧ got <+: bytes))

/-- An upload after its body: the body is in its file and has the length of its header, or it
was given up. -/
def Ended (strict : Prop) (bytes : List UInt8) (id : Text) (got : List UInt8) (s : BrokrServer) :
    Prop :=
  ∃ u, s.upload id = some u ∧
    ((u.phase = .ending ∧ s.files id = some got ∧ headerLen ≤ got.length ∧
        u.header = some (readUploadHeader (got.take headerLen)) ∧
        u.bytesReceived = got.length ∧ (readUploadHeader (got.take headerLen)).totalLen =
          got.length) ∨
      (∃ n m, u.phase = .failing n m) ∧ ¬(strict ∧ got = bytes))

/-- When a chunk completes the header of the upload, the header is accepted. -/
def Accepts (cfg : BrokrConfig) (id caller : Text) (header : UploadHeader) (s : BrokrServer)
    (a : BrokrAction) : Prop :=
  ∀ chunk u, a = .putChunk id chunk → s.upload id = some u → (u.completes chunk).isSome →
    validateHeader cfg s.db caller header = none

variable {strict : Prop} {bytes got : List UInt8}

/-- A chunk of the bytes that are to be taken is taken. -/
theorem phase_takeChunk {db : BrokrDb} {chunk : List UInt8} (hphase : u.phase = .receiving)
    (hfile : FileOf u got) (hpre : got ++ chunk <+: bytes)
    (htotal : (readUploadHeader (bytes.take headerLen)).totalLen = bytes.length)
    (haccepts : (u.completes chunk).isSome →
      validateHeader cfg db u.callerDeviceId (readUploadHeader (bytes.take headerLen)) = none) :
    (u.takeChunk cfg db chunk).phase = .receiving := by
  have hlen := hpre.length_le
  rw [List.length_append, hfile.length_eq] at hlen
  have hhead : ∀ {front : List UInt8}, front <+: bytes → headerLen ≤ front.length →
      readUploadHeader (front.take headerLen) = readUploadHeader (bytes.take headerLen) := by
    rintro front ⟨rest, rfl⟩ hle
    rw [List.take_append_of_le_length hle]
  have hcheck : ∀ (v : Upload) (h : UploadHeader), v.phase = .receiving →
      v.bytesReceived ≤ h.totalLen → (v.checkLength h).phase = .receiving := by
    intro v h hv hle
    unfold Upload.checkLength
    rw [if_neg (Nat.not_lt.mpr hle)]
    exact hv
  unfold Upload.takeChunk
  rcases hheader : u.header with _ | h
  · rcases hcompletes : u.completes chunk with _ | h
    · exact hphase
    · have hh : h = readUploadHeader (bytes.take headerLen) := by
        unfold Upload.completes at hcompletes
        split_ifs at hcompletes with hcond
        rw [hfile.headerChunks hheader] at hcond hcompletes
        rw [← Option.some.inj hcompletes, hhead hpre hcond.2]
      have hvalid := haccepts (by rw [hcompletes]; rfl)
      rw [← hh] at hvalid
      dsimp only
      rw [hvalid]
      refine hcheck _ h hphase ?_
      rw [hh, htotal]
      exact hlen
  · obtain ⟨hle, hh⟩ := hfile.header h hheader
    refine hcheck _ h hphase ?_
    rw [hh, hhead ((List.prefix_append got chunk).trans hpre) hle, htotal]
    exact hlen

/-- An upload begins with nothing. -/
theorem uploading_begun (hs : s.Sound) (hid : id ∉ s.drawn) {contentType : Text}
    (hct : "application/octet-stream".toList <+: toLowerCase contentType) :
    Uploading strict bytes id caller []
      (s.step cfg (.put (some caller) (some contentType) id)).2 := by
  have hnone : s.upload id = none :=
    Table.get_eq_none.mpr fun v hv heq => hid (heq ▸ hs.uploads.drawn v hv)
  have hstep : (s.step cfg (.put (some caller) (some contentType) id)).2 = { s with
      files := Function.update s.files id (some [])
      uploads := s.uploads ++ [⟨id, caller, 0, [], none, .receiving⟩]
      drawn := id :: s.drawn } := by
    unfold step beginPut
    dsimp only
    rw [if_pos (by rw [Option.any_some]; exact decide_eq_true hct)]
  rw [hstep]
  refine ⟨⟨id, caller, 0, [], none, .receiving⟩, ?_, rfl,
    .inl ⟨rfl, Function.update_self .., ?_, ?_⟩⟩
  · unfold upload Table.get at hnone ⊢
    rw [List.find?_append, hnone, Option.none_or]
    exact List.find?_cons_of_pos (decide_eq_true rfl)
  · exact ⟨rfl, fun _ => rfl, nofun⟩
  · intro _
    exact Nat.zero_lt_succ _

/-- An upload that was changed is found as it is now. -/
theorem upload_setUpload (hs : s.UploadsOk) {u' : Upload} (hu : s.upload id = some u)
    (hid : u'.deliveryId = u.deliveryId) (files : Files) :
    ({ s with files }.setUpload u').upload id = some u' := by
  obtain ⟨hmem, rfl⟩ := mem_of_upload hu
  refine (Table.get_eq_some (Table.keyed_update hs.keyed fun r _ hr => hr.symm)).mpr ⟨?_, hid⟩
  exact Table.mem_update.mpr ⟨u, hmem, (if_pos hid.symm).symm⟩

/-- A chunk of the body. -/
theorem uploading_chunk (hs : s.Sound) (h : Uploading strict bytes id caller got s)
    (chunk : List UInt8)
    (hstrict : strict →
      (readUploadHeader (bytes.take headerLen)).totalLen = bytes.length ∧
        Accepts cfg id caller (readUploadHeader (bytes.take headerLen)) s (.putChunk id chunk)) :
    Uploading strict bytes id caller (got ++ chunk) (s.step cfg (.putChunk id chunk)).2 := by
  obtain ⟨u, hu, rfl, ⟨hphase, hfile, hof, hshort⟩ | ⟨hfailed, hnot⟩⟩ := h
  · have hstep : (s.step cfg (.putChunk id chunk)).2 = { s with
        files := Function.update s.files id ((s.files id).map (· ++ chunk)) }.setUpload
          (u.takeChunk cfg s.db chunk) := by
      change s.putChunk cfg id chunk = _
      rw [putChunk, hu]
      exact if_pos hphase
    rw [hstep]
    refine ⟨_, upload_setUpload hs.uploads hu (u.takeChunk_deliveryId cfg s.db chunk) _,
      u.takeChunk_callerDeviceId cfg s.db chunk, ?_⟩
    by_cases hfails : ∃ n m, (u.takeChunk cfg s.db chunk).phase = .failing n m
    · refine .inr ⟨hfails, ?_⟩
      rintro ⟨hst, hpre⟩
      obtain ⟨htotal, haccepts⟩ := hstrict hst
      have hok := phase_takeChunk hphase hof hpre htotal (haccepts chunk u rfl hu)
      obtain ⟨n, m, hfails⟩ := hfails
      rw [hok] at hfails
      cases hfails
    · push Not at hfails
      refine .inl ⟨u.phase_takeChunk_of_not_failing hphase hfails, ?_,
        hof.takeChunk s.db chunk hfails, ?_⟩
      · exact (Function.update_self ..).trans (by rw [hfile]; rfl)
      · exact u.header_takeChunk_eq_none hof hfails
  · obtain ⟨n, m, hfailing⟩ := hfailed
    have hstep : (s.step cfg (.putChunk id chunk)).2 = s := by
      change s.putChunk cfg id chunk = _
      rw [putChunk, hu]
      exact if_neg (by rw [hfailing]; rintro ⟨⟩)
    rw [hstep]
    refine ⟨u, hu, rfl, .inr ⟨⟨n, m, hfailing⟩, ?_⟩⟩
    rintro ⟨hst, hpre⟩
    exact hnot ⟨hst, (List.prefix_append got chunk).trans hpre⟩

/-- An upload that was given up stays so when its body ends. -/
theorem endPut_of_failing (hu : s.upload id = some u) {n : ℕ} {m : String}
    (hphase : u.phase = .failing n m) (finish : Upload → Upload) : s.endPut id finish = s := by
  rw [endPut, hu]
  exact if_neg (by rw [hphase]; rintro ⟨⟩)

/-- The body ends. -/
theorem ended_of_uploading (hs : s.Sound) (h : Uploading strict bytes id caller got s)
    (hstrict : strict → headerLen ≤ bytes.length ∧
      (readUploadHeader (bytes.take headerLen)).totalLen = bytes.length) :
    Ended strict bytes id got (s.step cfg (.putEnd id)).2 := by
  change Ended strict bytes id got (s.endPut id Upload.endBody)
  obtain ⟨u, hu, rfl, ⟨hphase, hfile, hof, hshort⟩ | ⟨⟨n, m, hfailing⟩, hnot⟩⟩ := h
  · have hstep : s.endPut id Upload.endBody = s.setUpload u.endBody := by
      rw [endPut, hu]
      exact if_pos hphase
    rw [hstep]
    refine ⟨_, upload_setUpload hs.uploads hu u.endBody_deliveryId s.files, ?_⟩
    rcases hheader : u.header with _ | header
    · refine .inr ⟨⟨_, _, by rw [Upload.endBody, hheader]; rfl⟩, ?_⟩
      rintro ⟨hst, rfl⟩
      exact absurd (hshort hheader) (Nat.not_lt.mpr (hstrict hst).1)
    · obtain ⟨hle, hread⟩ := hof.header header hheader
      by_cases hlen : u.bytesReceived = header.totalLen
      · have hend : u.endBody = { u with phase := .ending } := by
          rw [Upload.endBody, hheader]
          exact if_pos hlen
        rw [hend]
        refine .inl ⟨rfl, hfile, hle, ?_, hof.length_eq.symm, ?_⟩
        · rw [← hread]
          exact hheader
        · rw [← hread, ← hlen, hof.length_eq]
      · have hend : u.endBody = u.fail 400 "Body length does not match total_len" := by
          rw [Upload.endBody, hheader]
          exact if_neg hlen
        refine .inr ⟨⟨_, _, by rw [hend]; rfl⟩, ?_⟩
        rintro ⟨hst, rfl⟩
        apply hlen
        rw [hread, (hstrict hst).2, hof.length_eq]
  · rw [endPut_of_failing hu hfailing]
    refine ⟨u, hu, .inr ⟨⟨n, m, hfailing⟩, ?_⟩⟩
    rintro ⟨hst, rfl⟩
    exact hnot ⟨hst, List.prefix_rfl⟩

/-- An upload whose body could not be read is given up. -/
theorem failing_of_uploading (hs : s.Sound) (h : Uploading strict bytes id caller got s)
    (err : String) : ∃ u n m, (s.step cfg (.putAbort id err)).2.upload id = some u ∧
      u.phase = .failing n m := by
  change ∃ u n m, (s.endPut id _).upload id = some u ∧ u.phase = .failing n m
  obtain ⟨u, hu, rfl, ⟨hphase, -⟩ | ⟨⟨n, m, hfailing⟩, -⟩⟩ := h
  · have hstep : s.endPut id (fun u => u.fail 400 ("Stream read error: " ++ err)) =
        s.setUpload (u.fail 400 ("Stream read error: " ++ err)) := by
      rw [endPut, hu]
      exact if_pos hphase
    rw [hstep]
    have hid : (u.fail 400 ("Stream read error: " ++ err)).deliveryId = u.deliveryId := rfl
    exact ⟨_, _, _, upload_setUpload hs.uploads hu hid s.files, rfl⟩
  · rw [endPut_of_failing hu hfailing]
    exact ⟨u, n, m, hu, hfailing⟩

/-! ### Whole uploads -/

/-- **What an upload has come to after its parts.** -/
structure Came (strict : Prop) (bytes : List UInt8) (id caller contentType : Text)
    (parts : List PutPart) (s : BrokrServer) : Prop where
  sound : s.Sound
  begun : ∀ chunks : List (List UInt8),
    parts = .begun (some caller) (some contentType) :: chunks.map .chunk →
    Uploading strict bytes id caller chunks.flatten s
  ended : ∀ chunks : List (List UInt8),
    parts = .begun (some caller) (some contentType) :: (chunks.map .chunk ++ [.ended]) →
      Ended strict bytes id chunks.flatten s
  aborted : ∀ chunks : List (List UInt8),
    parts = .begun (some caller) (some contentType) :: (chunks.map .chunk ++ [.aborted]) →
      ∃ u n m, s.upload id = some u ∧ u.phase = .failing n m

/-- The last part of an upload whose parts are chunks and one more. -/
theorem concat_eq_iff {parts : List PutPart} {part first last : PutPart}
    {chunks : List (List UInt8)} :
    parts ++ [part] = first :: (chunks.map .chunk ++ [last]) ↔
      parts = first :: chunks.map .chunk ∧ part = last := by
  rw [← List.cons_append]
  constructor
  · intro h
    obtain ⟨h1, h2⟩ := List.append_inj' h rfl
    exact ⟨h1, List.singleton_inj.mp h2⟩
  · rintro ⟨rfl, rfl⟩
    rfl

variable {contentType : Text}

/-- An action that is not for the upload. -/
theorem came_other {parts : List PutPart} (h : Came strict bytes id caller contentType parts s)
    (hadm : s.Admissible a) (hother : putPart id a = none) :
    Came strict bytes id caller contentType parts (s.step cfg a).2 := by
  refine ⟨h.sound.effect (effect_step cfg hadm), ?_, ?_, ?_⟩
  · intro chunks hparts
    obtain ⟨u, hu, hcaller, hstate⟩ := h.begun chunks hparts
    obtain ⟨hu', hfiles⟩ := frame_of_other cfg h.sound hadm hu hother
    refine ⟨u, hu', hcaller, ?_⟩
    rwa [hfiles]
  · intro chunks hparts
    obtain ⟨u, hu, hstate⟩ := h.ended chunks hparts
    obtain ⟨hu', hfiles⟩ := frame_of_other cfg h.sound hadm hu hother
    refine ⟨u, hu', ?_⟩
    rwa [hfiles]
  · intro chunks hparts
    obtain ⟨u, n, m, hu, hfailing⟩ := h.aborted chunks hparts
    exact ⟨u, n, m, (frame_of_other cfg h.sound hadm hu hother).1, hfailing⟩

/-- What is asked of the bytes that are to be taken and of the actions on their upload. -/
def Strictly (cfg : BrokrConfig) (strict : Prop) (bytes : List UInt8) (id caller : Text)
    (s : BrokrServer) (a : BrokrAction) : Prop :=
  s.Admissible a ∧ (strict → headerLen ≤ bytes.length ∧
    (readUploadHeader (bytes.take headerLen)).totalLen = bytes.length ∧
    Accepts cfg id caller (readUploadHeader (bytes.take headerLen)) s a)

/-- The action of a part. -/
def IsAction (id : Text) (a : BrokrAction) : PutPart → Prop
  | .begun caller contentType => a = .put caller contentType id
  | .chunk chunk => a = .putChunk id chunk
  | .ended => a = .putEnd id
  | .aborted => ∃ err, a = .putAbort id err
  | .closed fileStreamError now => a = .putClosed id fileStreamError now

theorem isAction_of_putPart {part : PutPart} (h : putPart id a = some part) :
    IsAction id a part := by
  have hif : ∀ {d : Text} {q : PutPart}, (if d = id then some q else none) = some part →
      d = id ∧ q = part := by
    intro d q hq
    split_ifs at hq with hd
    exact ⟨hd, Option.some.inj hq⟩
  cases a with
  | put | putChunk | putEnd | putClosed =>
      obtain ⟨rfl, rfl⟩ := hif h
      rfl
  | putAbort d err =>
      obtain ⟨rfl, rfl⟩ := hif h
      exact ⟨err, rfl⟩
  | _ => cases h

/-- An action that is for the upload. -/
theorem came_part {parts : List PutPart} (h : Came strict bytes id caller contentType parts s)
    (hct : "application/octet-stream".toList <+: toLowerCase contentType)
    (hok : Strictly cfg strict bytes id caller s a) {part : PutPart}
    (hpart : putPart id a = some part) :
    Came strict bytes id caller contentType (parts ++ [part]) (s.step cfg a).2 := by
  obtain ⟨hadm, hstrict⟩ := hok
  have haction := isAction_of_putPart hpart
  refine ⟨h.sound.effect (effect_step cfg hadm), ?_, ?_, ?_⟩
  · intro chunks hparts
    rcases List.eq_nil_or_concat chunks with rfl | ⟨front, chunk, rfl⟩
    · obtain ⟨-, hlast⟩ | ⟨-, hlast⟩ := List.append_eq_singleton_iff.mp hparts
      · obtain rfl := List.singleton_inj.mp hlast
        obtain rfl : a = .put (some caller) (some contentType) id := haction
        exact uploading_begun h.sound (hadm.2 id rfl) hct
      · cases hlast
    · rw [List.concat_eq_append, List.map_append, List.map_singleton, concat_eq_iff] at hparts
      obtain ⟨hfront, rfl⟩ := hparts
      obtain rfl : a = .putChunk id chunk := haction
      rw [List.concat_eq_append, List.flatten_append, List.flatten_singleton]
      exact uploading_chunk h.sound (h.begun front hfront) chunk fun hst => (hstrict hst).2
  · intro chunks hparts
    obtain ⟨hfront, rfl⟩ := concat_eq_iff.mp hparts
    obtain rfl : a = .putEnd id := haction
    exact ended_of_uploading h.sound (h.begun chunks hfront)
      fun hst => ⟨(hstrict hst).1, (hstrict hst).2.1⟩
  · intro chunks hparts
    obtain ⟨hfront, rfl⟩ := concat_eq_iff.mp hparts
    obtain ⟨err, rfl⟩ : ∃ err, a = .putAbort id err := haction
    exact failing_of_uploading h.sound (h.begun chunks hfront) err

/-- **What an upload has come to is a matter of its parts**, whatever happens in between. -/
theorem came_of_allows {now : ℤ} {actions : List BrokrAction}
    (hct : "application/octet-stream".toList <+: toLowerCase contentType)
    (h : Machine.Allows (step cfg) (Strictly cfg strict bytes id caller) (new now) actions) :
    Came strict bytes id caller contentType (putParts id actions)
      (Machine.run (step cfg) (new now) actions).2 := by
  induction actions using List.reverseRecOn with
  | nil => exact ⟨sound_new now, nofun, nofun, nofun⟩
  | append_singleton actions a ih =>
      obtain ⟨hactions, ha, -⟩ := (Machine.allows_append (step cfg) (new now) actions [a]).mp h
      rw [Machine.run_concat, putParts_concat]
      rcases hpart : putPart id a with _ | part
      · rw [Option.toList_none, List.append_nil]
        exact came_other (ih hactions) ha.1 hpart
      · exact came_part (ih hactions) hct ha hpart

variable (cfg) in
/-- An upload that was given up is refused, and leaves neither a row nor a file. -/
theorem refused_of_failing (hs : s.Sound) (hu : s.upload id = some u) {n : ℕ} {m : String}
    (hphase : u.phase = .failing n m) (fileStreamError : Bool) (now : ℤ) :
    (s.step cfg (.putClosed id fileStreamError now)).1 = some (.error n m) ∧
      (s.step cfg (.putClosed id fileStreamError now)).2.db.getDelivery id = none ∧
      (s.step cfg (.putClosed id fileStreamError now)).2.files id = none := by
  have hstep : s.step cfg (.putClosed id fileStreamError now) =
      (some (.error n m), s.dropUpload id) := by
    change s.putClosed cfg id fileStreamError now = _
    rw [putClosed, hu]
    dsimp only
    rw [hphase]
  rw [hstep]
  obtain ⟨hmem, rfl⟩ := mem_of_upload hu
  refine ⟨rfl, ?_, Function.update_self ..⟩
  exact Table.get_eq_none.mpr fun r hr => (hs.apart r hr u hmem).symm

/-- What the acknowledgement of a delivery looks like. -/
def Acknowledges (id recipient : Text) (a : BrokrAction) : Prop :=
  ∃ c n, a = .delete (some c) id n ∧ toLowerCase c = toLowerCase recipient

/-- A delivery that waits keeps its row and its body over an action. -/
theorem kept_effect {s' : BrokrServer} {r : DeliveryRow} (hs : s.Sound) (h : Effect cfg s a s')
    (hack : ¬Acknowledges r.id r.recipientDeviceId a) (hr : r ∈ s.db.deliveries)
    (hpending : r.pending) (hfile : s.files r.id = some bytes) (hlt : s'.now < r.expiresAt) :
    r ∈ s'.db.deliveries ∧ s'.files r.id = some bytes := by
  have hother : ∀ {name : Text} {content : Option (List UInt8)}, r.id ≠ name →
      Function.update s.files name content r.id = some bytes := by
    intro name content hne
    rw [Function.update_of_ne hne]
    exact hfile
  cases h with
  | quiet hrows hfiles => exact ⟨hrows ▸ hr, by rw [hfiles]; exact hfile⟩
  | began u hid hnew =>
      refine ⟨hr, hother ?_⟩
      rintro heq
      exact hid (heq ▸ hs.drawn r hr)
  | took u chunk hu hphase =>
      exact ⟨hr, hother (hs.apart r hr u (mem_of_upload hu).1).symm⟩
  | ended => exact ⟨hr, hfile⟩
  | aborted => exact ⟨hr, hfile⟩
  | dropped u hu => exact ⟨hr, hother (hs.apart r hr u hu).symm⟩
  | recorded => exact ⟨List.mem_append_left _ hr, hfile⟩
  | collected d caller now hd hrecipient hnow =>
      obtain ⟨hmem, -⟩ := Table.mem_of_get hd
      have hne : r.id ≠ d.id := by
        intro heq
        obtain rfl := hs.keyed.eq hr hmem heq
        exact hack ⟨caller, now, rfl, hrecipient.symm⟩
      refine ⟨?_, hother hne⟩
      exact BrokrDb.mem_markDeliveryCollected.mpr ⟨r, hr, (if_neg fun hc => hne hc.1).symm⟩
  | swept now hnow =>
      have hdue : ¬BrokrDb.due now r := by
        unfold BrokrDb.due
        simp only [decide_eq_true_eq, not_and, not_le]
        exact fun _ => hlt
      refine ⟨?_, ?_⟩
      · change r ∈ (s.db.sweepDeliveries s.files now).1.deliveries
        rw [BrokrDb.sweepDeliveries_deliveries hs.keyed]
        refine List.mem_filter.mpr ⟨List.mem_map.mpr ⟨r, hr, ?_⟩, ?_⟩
        · unfold BrokrDb.expire
          rw [if_neg hdue]
        · unfold DeliveryRow.pending at hpending
          simp only [Bool.and_eq_true, Option.isNone_iff_eq_none] at hpending
          simp [BrokrDb.outdated, hpending.1, hpending.2]
      · change (s.db.sweepDeliveries s.files now).2 r.id = _
        rw [(BrokrDb.sweepDeliveries_files hs.keyed s.files now).1 r hr, if_neg hdue]
        exact hfile

/-- **A delivery that waits keeps its row and its body** until it expires, while nobody
acknowledges it. -/
theorem kept_of_allows {r : DeliveryRow} {actions : List BrokrAction} (hs : s.Sound)
    (hr : r ∈ s.db.deliveries) (hpending : r.pending) (hfile : s.files r.id = some bytes)
    (h : Machine.Allows (step cfg)
      (fun s a => s.Admissible a ∧ ¬Acknowledges r.id r.recipientDeviceId a) s actions)
    (hnow : (Machine.run (step cfg) s actions).2.now < r.expiresAt) :
    (Machine.run (step cfg) s actions).2.Sound ∧
      r ∈ (Machine.run (step cfg) s actions).2.db.deliveries ∧
      (Machine.run (step cfg) s actions).2.files r.id = some bytes := by
  have hrun := Machine.run_invariant_of_allows (step cfg)
    (I := fun _ s => s.Sound ∧ (s.now < r.expiresAt → r ∈ s.db.deliveries ∧
      s.files r.id = some bytes)) ⟨hs, fun _ => ⟨hr, hfile⟩⟩ ?_ h
  · exact ⟨hrun.1, hrun.2 hnow⟩
  · rintro _ t a ⟨hadm, hack⟩ ⟨ht, hkept⟩
    have heffect := effect_step cfg hadm
    refine ⟨ht.effect heffect, ?_⟩
    intro hlt
    obtain ⟨hrt, hft⟩ := hkept ((drawn_and_now heffect).2.trans_lt hlt)
    exact kept_effect ht heffect hack hrt hpending hft hlt

/-- A download of a delivery that waits. -/
theorem get_of_kept {r : DeliveryRow} (hs : s.Sound) (hr : r ∈ s.db.deliveries)
    (hpending : r.pending) (hfile : s.files r.id = some bytes) {c : Text} {now : ℤ}
    (hc : toLowerCase c = toLowerCase r.recipientDeviceId) (hlt : now < r.expiresAt) :
    (s.step cfg (.get (some c) r.id now)).1 = some (.body r.size bytes) := by
  have hd : s.db.getDelivery r.id = some r := (Table.get_eq_some hs.keyed).mpr ⟨hr, rfl⟩
  unfold DeliveryRow.pending at hpending
  simp only [Bool.and_eq_true, Option.isNone_iff_eq_none] at hpending
  change some (s.get (some c) r.id now) = _
  unfold get
  dsimp only
  rw [hd]
  dsimp only
  rw [hfile, if_neg]
  rw [hpending.1, hpending.2]
  simp only [hc, ne_eq, not_true_eq_false, Option.isSome_none, Bool.false_eq_true, false_or]
  exact not_le.mpr hlt

/-- The recipient is eligible for a delivery of this size of the sender, and there is room. -/
structure Eligible (cfg : BrokrConfig) (db : BrokrDb) (sender recipient : Text) (size : ℕ) :
    Prop where
  exists_ : (db.areDevicesRelated sender recipient).recipientExists = true
  allowed : (db.areDevicesRelated sender recipient).allowed = true
  room : db.getWaitingDeliveriesTotalSize + size ≤ cfg.storageMaxBytes
  pending : db.getSenderPendingCount sender < cfg.maxPendingPerSender

/-- When a chunk completes the header of the upload, the recipient is eligible. -/
def Granted (cfg : BrokrConfig) (id sender recipient : Text) (size : ℕ) (s : BrokrServer)
    (a : BrokrAction) : Prop :=
  ∀ chunk u, a = .putChunk id chunk → s.upload id = some u → (u.completes chunk).isSome →
    Eligible cfg s.db sender recipient size

/-- The header of an eligible delivery is accepted. -/
theorem validateHeader_eq_none {db : BrokrDb} {sender recipient : Text} {size : ℕ}
    (h : Eligible cfg db sender recipient size) (hmin : headerLen ≤ size)
    (hmax : size ≤ cfg.deliveryMaxBytes) :
    validateHeader cfg db sender ⟨1, recipient, sender, size⟩ = none := by
  unfold validateHeader
  dsimp only
  rw [if_neg (by simp), if_neg (by simp), if_neg (by omega), if_neg, if_neg, if_neg]
  · exact Nat.not_le.mpr h.pending
  · exact Nat.not_lt.mpr h.room
  · simp [h.exists_, h.allowed]

/-- The header a client wrote is accepted when the recipient is eligible. -/
theorem strictly_of_granted {p : Primitives} {recipient : PublicIdentity} {sender : EnvelopeSender}
    (hsuite : p.suite.Lawful) (h : Written p recipient sender bytes)
    (hmax : bytes.length ≤ cfg.deliveryMaxBytes)
    (hok : s.Admissible a ∧ s.Granted cfg id (hexText sender.identity.deviceId.bytes.val)
      (hexText recipient.deviceId.bytes.val) bytes.length a) :
    Strictly cfg True bytes id (hexText sender.identity.deviceId.bytes.val) s a := by
  obtain ⟨hmin, hread⟩ := readUploadHeader_written hsuite h
  refine ⟨hok.1, fun _ => ⟨hmin, by rw [hread], ?_⟩⟩
  intro chunk u ha hu hcompletes
  rw [hread]
  exact validateHeader_eq_none (hok.2 chunk u ha hu hcompletes) hmin hmax

variable (cfg) in
/-- An upload whose body has ended is recorded. -/
theorem stored_of_ending (hs : s.Sound) (hu : s.upload id = some u) (hphase : u.phase = .ending)
    {header : UploadHeader} (hheader : u.header = some header) {t : ℤ} (ht : s.now ≤ t) :
    (s.step cfg (.putClosed id false t)).1 = some (.stored id) ∧
      (s.step cfg (.putClosed id false t)).2.Sound ∧
      (s.step cfg (.putClosed id false t)).2.files = s.files ∧
      (s.step cfg (.putClosed id false t)).2.db.getDelivery id = some
        ⟨id, toLowerCase header.senderDeviceId, toLowerCase header.recipientDeviceId,
          u.bytesReceived, t, t + cfg.deliveryTtlDays * 24 * 60 * 60 * 1000, none, none⟩ := by
  have hstep : s.step cfg (.putClosed id false t) =
      (some (.stored id), s.recordPut cfg u header t) := by
    change s.putClosed cfg id false t = _
    rw [putClosed, hu]
    dsimp only
    rw [hphase, hheader]
    rfl
  have hadm : s.Admissible (.putClosed id false t) := ⟨by rintro _ ⟨⟩; exact ht, by rintro _ ⟨⟩⟩
  have hsound := hs.effect (effect_step cfg hadm)
  obtain ⟨-, hid⟩ := mem_of_upload hu
  rw [hstep] at hsound ⊢
  refine ⟨rfl, hsound, rfl, ?_⟩
  exact (Table.get_eq_some hsound.keyed).mpr
    ⟨List.mem_append_right _ (by rw [← hid]; exact List.mem_singleton_self _), rfl⟩

end BrokrServer

open BrokrServer in
/-- **The Brokr gives back what the client seals.** The parts of an upload stand among any
other actions. The header of what was written is accepted in whatever chunks it comes, the row
has the size of the body, and until the delivery expires a download by the recipient gives the
bytes, while nobody acknowledges it. A body of another length than its header says is refused,
and leaves neither a row nor a file. -/
theorem brokr_returns_what_is_sealed {p : Primitives} (hsuite : p.suite.Lawful)
    (recipient : PublicIdentity) (sender : EnvelopeSender) (cfg : BrokrConfig) (now : ℤ)
    (id : Text) {contentType : Text}
    (hct : "application/octet-stream".toList <+: toLowerCase contentType) :
    (∀ (bytes : List UInt8) (actions : List BrokrAction) (chunks : List (List UInt8)),
      Written p recipient sender bytes → bytes.length ≤ cfg.deliveryMaxBytes →
      Machine.Allows (step cfg) (fun s a => s.Admissible a ∧
        s.Granted cfg id (hexText sender.identity.deviceId.bytes.val)
          (hexText recipient.deviceId.bytes.val) bytes.length a) (new now) actions →
      putParts id actions = .begun (some (hexText sender.identity.deviceId.bytes.val))
        (some contentType) :: (chunks.map .chunk ++ [.ended]) →
      chunks.flatten = bytes →
      let s := (Machine.run (step cfg) (new now) actions).2
      ∀ t, s.now ≤ t →
        let expiresAt := t + cfg.deliveryTtlDays * 24 * 60 * 60 * 1000
        let s' := (s.step cfg (.putClosed id false t)).2
        (s.step cfg (.putClosed id false t)).1 = some (.stored id) ∧
        s'.db.getDelivery id = some ⟨id, hexText sender.identity.deviceId.bytes.val,
          hexText recipient.deviceId.bytes.val, bytes.length, t, expiresAt, none, none⟩ ∧
        ∀ after, Machine.Allows (step cfg) (fun s a => s.Admissible a ∧
            ¬Acknowledges id (hexText recipient.deviceId.bytes.val) a) s' after →
          ∀ t', (Machine.run (step cfg) s' after).2.now ≤ t' → t' < expiresAt →
            ((Machine.run (step cfg) s' after).2.step cfg
              (.get (some (hexText recipient.deviceId.bytes.val)) id t')).1 =
                some (.body bytes.length bytes)) ∧
    ∀ (caller : Text) (actions : List BrokrAction) (chunks : List (List UInt8))
      (fin : List PutPart), Machine.Allows (step cfg) Admissible (new now) actions →
      putParts id actions =
        .begun (some caller) (some contentType) :: (chunks.map .chunk ++ fin) →
      (fin = [] ∨ fin = [.ended] ∨ fin = [.aborted]) →
      (headerLen ≤ chunks.flatten.length →
        (readUploadHeader (chunks.flatten.take headerLen)).totalLen ≠ chunks.flatten.length) →
      let s := (Machine.run (step cfg) (new now) actions).2
      ∀ fileStreamError t, s.now ≤ t →
        let r := s.step cfg (.putClosed id fileStreamError t)
        (fin ≠ [] → r.1.isSome) ∧
        (r.1.isSome → (∃ status message, r.1 = some (.error status message)) ∧
          r.2.db.getDelivery id = none ∧ r.2.files id = none) := by
  constructor
  · intro bytes actions chunks hwritten hmax hallows hparts hbytes s t ht expiresAt s'
    subst hbytes
    obtain ⟨hmin, hread⟩ := readUploadHeader_written hsuite hwritten
    have hcame := came_of_allows hct (Machine.allows_mono (step cfg)
      (fun _ _ hok => strictly_of_granted hsuite hwritten hmax hok) hallows)
    obtain ⟨u, hu, ⟨hphase, hfile, -, hheader, hreceived, -⟩ | ⟨-, hnot⟩⟩ :=
      hcame.ended chunks hparts
    · obtain ⟨hstored, hsound, hfiles, hrow⟩ := stored_of_ending cfg hcame.sound hu hphase
        hheader ht
      rw [hread, toLowerCase_hexText, toLowerCase_hexText, hreceived] at hrow
      refine ⟨hstored, hrow, ?_⟩
      intro after hafter t' ht' hlt
      obtain ⟨hr, -⟩ := Table.mem_of_get hrow
      obtain ⟨hs'', hr'', hf''⟩ := kept_of_allows hsound hr rfl ((congrFun hfiles id).trans hfile)
        hafter (ht'.trans_lt hlt)
      exact get_of_kept hs'' hr'' rfl hf'' rfl hlt
    · exact absurd ⟨trivial, rfl⟩ hnot
  · intro caller actions chunks fin hallows hparts hfin hlen s fileStreamError t ht r
    have hcame : Came False [] id caller contentType (putParts id actions) s :=
      came_of_allows hct
        (Machine.allows_mono (step cfg) (fun _ _ hadm => ⟨hadm, False.elim⟩) hallows)
    have hrefused : ∀ u n m, s.upload id = some u → u.phase = .failing n m →
        (fin ≠ [] → r.1.isSome) ∧ (r.1.isSome →
          (∃ status message, r.1 = some (.error status message)) ∧
            r.2.db.getDelivery id = none ∧ r.2.files id = none) := by
      intro u n m hu hphase
      obtain ⟨hreply, hrow, hfile⟩ :=
        refused_of_failing cfg hcame.sound hu hphase fileStreamError t
      exact ⟨fun _ => by rw [hreply]; rfl, fun _ => ⟨⟨n, m, hreply⟩, hrow, hfile⟩⟩
    rcases hfin with rfl | rfl | rfl
    · rw [List.append_nil] at hparts
      obtain ⟨u, hu, -, ⟨hphase, -⟩ | ⟨⟨n, m, hphase⟩, -⟩⟩ := hcame.begun chunks hparts
      · have hnone : r.1 = none := by
          change (s.putClosed cfg id fileStreamError t).1 = none
          rw [putClosed, hu]
          dsimp only
          rw [hphase]
        rw [hnone]
        exact ⟨fun h => absurd rfl h, by rintro ⟨⟩⟩
      · exact hrefused u n m hu hphase
    · obtain ⟨u, hu, ⟨-, -, hle, -, -, htotal⟩ | ⟨⟨n, m, hphase⟩, -⟩⟩ := hcame.ended chunks hparts
      · exact absurd htotal (hlen hle)
      · exact hrefused u n m hu hphase
    · obtain ⟨u, n, m, hu, hphase⟩ := hcame.aborted chunks hparts
      exact hrefused u n m hu hphase

namespace HiTxt

open BrokrServer

/-- The sender on the Brokr. -/
def senderText : Text := hexText sender.identity.deviceId.bytes.val

/-- The recipient on the Brokr. -/
def recipientText : Text := hexText recipient.deviceId.bytes.val

/-- A deployment with room for the envelope. -/
def roomy : BrokrConfig := ⟨1, 2000, 2000, 10⟩

/-- Two devices of one account register, and the first uploads. -/
def upload (chunks : List (List UInt8)) : List BrokrAction :=
  [.register senderText [] ['a', 'a'] [] 1, .register recipientText [] ['a', 'a'] [] 2,
    .put (some senderText) (some octetStream) ['x']] ++ chunks.map (.putChunk ['x']) ++
      [.putEnd ['x']]

/-- The header of the envelope comes in two chunks. -/
def twoChunks : List (List UInt8) := [envelope.take 50, envelope.drop 50]

theorem flatten_twoChunks : twoChunks.flatten = envelope := by
  rw [twoChunks, List.flatten_cons, List.flatten_singleton, List.take_append_drop]

/-- The recipient is eligible whenever a chunk comes. -/
theorem allows_upload : Machine.Allows (step roomy) (fun s a => s.Admissible a ∧
    s.Granted roomy ['x'] senderText recipientText envelope.length a) (new 0)
      (upload twoChunks) := by
  have heligible : ∀ n < 2, Eligible roomy
      (Machine.run (step roomy) (new 0) ((upload twoChunks).take (n + 3))).2.db senderText
        recipientText envelope.length := by
    intro n hn
    constructor
    all_goals
      revert n
      decide +kernel
  refine ⟨⟨by decide, nofun⟩, ⟨by decide, nofun⟩, ⟨by decide, nofun⟩, ⟨by decide, ?_⟩,
    ⟨by decide, ?_⟩, ⟨by decide, nofun⟩, trivial⟩
  · rintro chunk u - - -
    exact heligible 0 (by decide)
  · rintro chunk u - - -
    exact heligible 1 (by decide)

end HiTxt

open BrokrServer HiTxt in
/-- The envelope of `hi.txt` comes in two chunks and is given back a day less two milliseconds
later; without its last byte it is refused. -/
theorem brokr_returns_hiTxt :
    let s := (Machine.run (step roomy) (new 0) (upload twoChunks)).2
    let s' := (s.step roomy (.putClosed ['x'] false 3)).2
    let t := (Machine.run (step roomy) (new 0) (upload [envelope.dropLast])).2
    Written primitives recipient sender envelope ∧
      ((Machine.run (step roomy) s' [.sweep 4]).2.step roomy
        (.get (some recipientText) ['x'] 86400001)).1 = some (.body envelope.length envelope) ∧
      (t.step roomy (.putClosed ['x'] false 3)).2.files ['x'] = none := by
  have hwritten := written_sealEnvelope sealEnvelope_eq
  obtain ⟨hgives, hrefuses⟩ := brokr_returns_what_is_sealed lawful recipient sender roomy 0 ['x']
    (show "application/octet-stream".toList <+: toLowerCase octetStream by decide)
  refine ⟨hwritten, ?_, ?_⟩
  · obtain ⟨-, -, hget⟩ := hgives envelope (upload twoChunks) twoChunks hwritten (by decide +kernel)
      allows_upload rfl flatten_twoChunks 3 (by decide +kernel)
    exact hget [.sweep 4] ⟨⟨by decide +kernel, nofun⟩, trivial⟩ 86400001 (by decide +kernel)
      (by norm_num [roomy])
  · obtain ⟨hsome, hnothing⟩ := hrefuses senderText (upload [envelope.dropLast])
      [envelope.dropLast] [.ended] (by decide +kernel) rfl (.inr (.inl rfl)) (by decide +kernel)
      false 3 (by decide +kernel)
    exact (hnothing (hsome nofun)).2.2

end Tradr
