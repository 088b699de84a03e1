import Tradr.BrokrEnvelopes
import Tradr.CollectOnce
import Tradr.DeliveryContents
import Tradr.RemoteBrokr

/-!
# Passes over a Brokr

Passes are made one after the other, from a Brokr that was just deployed and a journal that is not
there yet; in between others use the Brokr and the root as they like, and requests and answers get
lost. What holds of the journal and of the files of one pass holds over all of them.

The sample is the envelope of `hi.txt` on its whole way: it is uploaded, waits, and is collected by
its recipient, with the filesystem of the backend and identifiers as a JSON array.

## Main results

* `CollectContext.deliveries_arrive_once`: each arrives once at most, and none is lost.
* `CollectContext.pass_settles_inbox`: a pass that ends in a report leaves nothing waiting.
* `CollectContext.pass_spares_files`: a pass touches no file but its own.
* `CollectContext.arrivals_are_complete`: what arrives is authentic and complete.
-/

namespace Tradr

namespace CollectContext

open Eff (Triple)

variable {σ H B J N : Type} {ctx : CollectContext σ H B J}

/-! ### Passes -/

variable {M : Mailbox ctx.api} {L : LawfulJournal ctx.file ctx.json} {F : ListingStore ctx.vfs N}
  {s₀ : σ} {old : List (CollectEvent σ)}

variable (ctx) in
/-- Passes one after the other; what others do to the root in between is the root that a pass
finds. -/
def passes (ps : List (σ × (ℕ → Circumstances))) (w : Collecting σ B J) : Collecting σ B J :=
  ps.foldl (fun w p => (ctx.collectOnce p.2 { w with store := p.1 }).2) w

/-- A pass, however it ends. -/
theorem sound_pass {w : Collecting σ B J} (h : Sound M L [] (fun _ => False) w) (store : σ)
    (c : ℕ → Circumstances) :
    Sound M L [] (fun _ => False) (ctx.collectOnce c { w with store }).2 := by
  have hspec := collectOnce_spec (M := M) (L := L) c (fun _ => False) { w with store }
    ⟨h.store store, fun _ => False.elim⟩
  rcases hrun : (ctx.collectOnce c { w with store }).1 with stop | report
  · exact hspec.2 stop hrun
  · exact (hspec.1 report hrun).mono (List.Subset.refl _) fun _ => False.elim

/-- Any number of passes. -/
theorem sound_passes {w : Collecting σ B J} (h : Sound M L [] (fun _ => False) w)
    (ps : List (σ × (ℕ → Circumstances))) : Sound M L [] (fun _ => False) (ctx.passes ps w) := by
  unfold passes
  induction ps generalizing w with
  | nil => exact h
  | cons p ps ih => exact ih (sound_pass h p.1 p.2)

/-- A pass, however it ends. -/
theorem whole_pass (c : ℕ → Circumstances) {w : Collecting σ B J} (h : Whole F s₀ old w) :
    Whole F s₀ old (ctx.collectOnce c w).2 := by
  have hspec := collectOnce_whole c w h
  rcases hrun : (ctx.collectOnce c w).1 with stop | report
  · exact hspec.2 stop hrun
  · exact hspec.1 report hrun

section Remote

variable {cfg : BrokrConfig} {device : Text} {ctx : CollectContext σ H RemoteBrokr J}

/-- The Brokr that is asked is a mailbox. -/
theorem exists_mailbox (hctx : ctx.api = RemoteBrokr.api cfg device) :
    ∃ M : Mailbox ctx.api, M.toMailboxView = RemoteBrokr.view device := by
  rw [hctx]
  exact ⟨RemoteBrokr.mailbox cfg device, rfl⟩

/-- A device that has collected nothing, and a Brokr that was just deployed. -/
theorem sound_start {M : Mailbox ctx.api} (hM : M.toMailboxView = RemoteBrokr.view device)
    (L : LawfulJournal ctx.file ctx.json) {j : J} (hj : L.content j = none) (store : σ) (now : ℤ)
    (calls : List RemoteCall) :
    Sound M L [] (fun _ => False) ⟨store, ⟨.new now, calls⟩, j, []⟩ where
  valid := by
    rw [hM]
    exact BrokrServer.sound_new now
  journal := ⟨[], .inl ⟨hj, rfl⟩, fun id ⟨_, _, _, h⟩ => absurd h List.not_mem_nil,
    fun id ⟨_, _, _, h⟩ => absurd h List.not_mem_nil, fun id hid => absurd hid List.not_mem_nil,
    fun id hid => absurd hid List.not_mem_nil⟩
  pending id hid := absurd hid List.not_mem_nil
  ended _ := False.elim
  orderly := orderly_nil
  collected id hid := by
    rw [hM] at hid
    obtain ⟨r, hr, -⟩ := hid
    exact absurd hr List.not_mem_nil

end Remote

end CollectContext

/-! ### A sample -/

namespace CollectSample

open BrokrServer HiTxt

/-! ### The journal -/

/-- Text as its ASCII bytes. -/
def toBytes (s : Text) : List UInt8 := s.map fun c => UInt8.ofNat c.toNat

/-- Bytes as text. -/
def ofBytes (bytes : List UInt8) : Text := bytes.map fun b => Char.ofNat b.toNat

/-- An array of strings. -/
def array (ids : List Text) : Text := '[' :: ([','].intercalate (ids.map quoted) ++ [']'])

/-- The strings of an array. -/
def strings (text : Text) : List Text :=
  if text = ['[', ']'] then []
  else (((text.drop 1).dropLast).splitOn ',').map fun s => (s.drop 1).dropLast

/-- Identifiers without anything to escape, or a comma. -/
def Plain (ids : List Text) : Prop := ∀ id ∈ ids, ∀ c ∈ id, c.toNat < 128 ∧ c ∉ ['"', '\\', ',']

/-- A character that may stand in such an identifier. -/
def plainChar (c : Char) : Bool := c.toNat < 128 && c != '"' && c != '\\' && c != ','

theorem all_plainChar (ids : List Text) :
    (ids.all fun id => id.all plainChar) = true ↔ Plain ids := by
  simp [Plain, plainChar, and_assoc]

instance (ids : List Text) : Decidable (Plain ids) := decidable_of_iff _ (all_plainChar ids)

/-- Identifiers in JSON. -/
def idsJson : IdsJson where
  fromSlice bytes := .ok (strings (ofBytes bytes))
  toVec ids := if Plain ids then .ok (toBytes (array ids)) else .error "not plain"

theorem ofBytes_toBytes {s : Text} (h : ∀ c ∈ s, c.toNat < 128) : ofBytes (toBytes s) = s := by
  rw [ofBytes, toBytes, List.map_map]
  refine (List.map_congr_left fun c hc => ?_).trans (List.map_id s)
  have hmod : c.toNat % 256 = c.toNat := Nat.mod_eq_of_lt (by have := h c hc; omega)
  simp [hmod]

/-- The characters of an array. -/
theorem lt_of_mem_array {ids : List Text} (h : Plain ids) : ∀ c ∈ array ids, c.toNat < 128 := by
  intro c hc
  rw [array, List.mem_cons, List.mem_append, List.mem_singleton] at hc
  rcases hc with rfl | hc | rfl
  · decide
  · induction ids with
    | nil => cases hc
    | cons id ids ih =>
        have hquoted : ∀ c ∈ quoted id, c.toNat < 128 := by
          intro c hc
          rw [quoted, List.mem_append, List.mem_cons, List.mem_singleton] at hc
          rcases hc with (rfl | hc) | rfl
          · decide
          · exact (h id List.mem_cons_self c hc).1
          · decide
        have hrest := ih fun id' hid' => h id' (List.mem_cons_of_mem _ hid')
        rcases ids with _ | ⟨id', ids⟩
        · rw [List.map_cons, List.map_nil, List.intercalate_singleton] at hc
          exact hquoted c hc
        · rw [List.map_cons, List.map_cons, List.intercalate_cons_cons, List.append_assoc,
            List.mem_append, List.mem_append, List.mem_singleton] at hc
          rcases hc with hc | rfl | hc
          · exact hquoted c hc
          · decide
          · exact hrest hc
  · decide

/-- What was written is read back. -/
theorem strings_array {ids : List Text} (h : Plain ids) : strings (array ids) = ids := by
  rcases ids with _ | ⟨id, ids⟩
  · rfl
  · have hne : array (id :: ids) ≠ ['[', ']'] := by
      intro heq
      have hmem : '"' ∈ array (id :: ids) := by
        rcases ids with _ | ⟨id', ids⟩ <;> simp [array, quoted]
      rw [heq] at hmem
      exact absurd hmem (by decide)
    have hcomma : ∀ s ∈ (id :: ids).map quoted, ',' ∉ s := by
      intro s hs hmem
      obtain ⟨id', hid', rfl⟩ := List.mem_map.mp hs
      rw [quoted, List.mem_append, List.mem_cons, List.mem_singleton] at hmem
      rcases hmem with (heq | hmem) | heq
      · exact absurd heq (by decide)
      · exact (h id' hid' ',' hmem).2 (by decide)
      · exact absurd heq (by decide)
    rw [strings, if_neg hne, array, List.drop_one, List.tail_cons, List.dropLast_concat,
      List.splitOn_intercalate ',' hcomma (by simp), List.map_map]
    refine (List.map_congr_left fun s _ => ?_).trans (List.map_id _)
    simp [quoted]

/-- A journal that is a file of its own. -/
def file : PlacedFile (Option (List UInt8)) where
  read j := (.ok j, j)
  writeAtomic _ bytes := (.ok (), some bytes)

theorem fromSlice_of_toVec {ids : List Text} {bytes : List UInt8}
    (h : idsJson.toVec ids = .ok bytes) : idsJson.fromSlice bytes = .ok ids := by
  simp only [idsJson] at h ⊢
  split_ifs at h with hplain
  obtain rfl := Except.ok.inj h
  rw [ofBytes_toBytes (lt_of_mem_array hplain), strings_array hplain]

theorem content_of_read {j : Option (List UInt8)} {bytes : Option (List UInt8)}
    (h : (file.read j).1 = .ok bytes) : bytes = j := (Except.ok.inj h).symm

theorem content_of_write {j : Option (List UInt8)} {bytes : List UInt8} {e : String}
    (h : (file.writeAtomic j bytes).1 = .error e) : (file.writeAtomic j bytes).2 = j := by
  cases h

/-- What was written is read. -/
def lawfulJournal : LawfulJournal file idsJson where
  content j := j
  content_read _ := rfl
  read_ok := content_of_read
  write_ok _ := rfl
  write_error := content_of_write
  round_trip := fromSlice_of_toVec

/-! ### The run -/

/-- The identifier of the delivery. -/
def deliveryId : Text := "a1".toList

/-- The sender uploads the envelope of `hi.txt`. -/
def upload : List BrokrAction :=
  [.register senderText [] ['a', 'a'] [] 1, .register recipientText [] ['a', 'a'] [] 2,
    .put (some senderText) (some octetStream) deliveryId, .putChunk deliveryId envelope,
    .putEnd deliveryId, .putClosed deliveryId false 3]

/-- The delivery is listed and downloaded in three pieces, but its acknowledgement is lost; the next
pass lists it again, and the Brokr is told. -/
def calls : List RemoteCall :=
  [⟨upload, 1, true, .answered, [], false⟩, ⟨[], 1, true, .answered, [100, 1000], false⟩,
    ⟨[], 1, true, .lost, [], false⟩, ⟨[], 1, true, .answered, [], false⟩,
    ⟨[], 1, true, .answered, [], false⟩]

/-- The recipient, under the name the Brokr has for it. -/
def device (name : Text) : CollectContext Tree ℕ RemoteBrokr (Option (List UInt8)) where
  vfs := PosixVfs.vfs
  api := RemoteBrokr.api roomy name
  file := file
  json := idsJson
  primitives := primitives
  nfc s := s
  recipient := recipient
  agree := (receiverAt createdAt).agree

/-- The files of the root. -/
def rootFiles : ListingStore (device recipientText).vfs ℕ := PosixVfs.listingStore

/-- The sender is trusted. -/
def circumstances : ℕ → Circumstances := fun _ =>
  let trust : SenderTrust := ⟨fun _ _ _ => .ok .sameAccount, fun _ => none⟩
  ⟨createdAt, trust, none, createdAt, trust⟩

/-- A root with a file of the same name. -/
def root : Tree :=
  ⟨[(["hi.txt".toList], .file 0)], fun _ => ascii "mine", 1, fun _ => 0, false⟩

/-- Before the first pass. -/
def start (calls : List RemoteCall) : Collecting Tree RemoteBrokr (Option (List UInt8)) :=
  ⟨root, ⟨.new 0, calls⟩, none, []⟩

/-- A body that is no envelope is uploaded while the inbox cannot be asked for. -/
def smallCalls : List RemoteCall :=
  [⟨[.register (deviceOf 1) [] ['a', 'a'] [] 1, .register (deviceOf 2) [] ['a', 'a'] [] 2,
      .put (some (deviceOf 1)) (some octetStream) deliveryId, .putChunk deliveryId smallBody,
      .putEnd deliveryId, .putClosed deliveryId false 3], 1, true, .lost, [], false⟩,
    ⟨[], 1, true, .answered, [], false⟩, ⟨[], 1, true, .answered, [], false⟩,
    ⟨[], 1, true, .answered, [], false⟩]

/-- After the pass that could not ask for the inbox. -/
def waiting : Collecting Tree RemoteBrokr (Option (List UInt8)) :=
  (device (deviceOf 2)).passes [(root, circumstances)] (start smallCalls)

/-- The next pass. -/
def nextPass : Except PassStop CollectReport ×
    Collecting Tree RemoteBrokr (Option (List UInt8)) :=
  (device (deviceOf 2)).collectOnce circumstances { waiting with store := root }

/-- The delivery waits before the next pass, which gives it up and ends in a report. -/
theorem nextPass_refuses : waiting.brokr.server.db.deliveries.map DeliveryRow.id = [deliveryId] ∧
    nextPass.1.toOption.map (fun report => report.refused.map Prod.fst) = some [deliveryId] := by
  decide +kernel

/-- The root has its one file. -/
theorem nodeAt_root {p : List Text} {n : Node} (h : PosixVfs.nodeAt root p = some n) (hp : p ≠ []) :
    p = ["hi.txt".toList] ∧ n = .file 0 := by
  rw [PosixVfs.nodeAt, if_neg hp, root, Assoc.lookup_cons] at h
  split_ifs at h with heq
  · exact ⟨heq.symm, (Option.some.inj h).symm⟩
  · cases h

/-- The root is sound. -/
theorem wellFormed_root : PosixVfs.WellFormed root where
  parent p n h hp := by
    obtain ⟨rfl, -⟩ := nodeAt_root h hp
    rfl
  inode p ino h := by
    by_cases hp : p = []
    · rw [hp] at h
      cases h
    · obtain ⟨-, hn⟩ := nodeAt_root h hp
      cases hn
      decide

end CollectSample

/-! ### What holds over all passes -/

namespace CollectContext

open CollectSample

variable {σ H B J N : Type}

section Remote

variable {cfg : BrokrConfig} {device : Text} {ctx : CollectContext σ H RemoteBrokr J}

/-- **A pass that ends in a report has settled the inbox**: of what was recorded when it began
nothing waits any more, unless its identifier is none. -/
theorem pass_settles_inbox (hctx : ctx.api = RemoteBrokr.api cfg device)
    (L : LawfulJournal ctx.file ctx.json) {j : J} (hj : L.content j = none) (store : σ) (now : ℤ)
    (calls : List RemoteCall) (ps : List (σ × (ℕ → Circumstances))) (store' : σ)
    (c : ℕ → Circumstances) (report : CollectReport) :
    let w := ctx.passes ps ⟨store, ⟨.new now, calls⟩, j, []⟩
    let w' := (ctx.collectOnce c { w with store := store' }).2
    (ctx.collectOnce c { w with store := store' }).1 = .ok report →
      ∀ r ∈ w.brokr.server.db.deliveries, isDeliveryId r.id = true →
        ∀ r' ∈ w'.brokr.server.db.deliveries, r'.id = r.id →
          ¬BrokrServer.Waits device w'.brokr.server.now r' := by
  intro w w' hreport r hr hid r' hr' heq
  obtain ⟨M, hM⟩ := exists_mailbox hctx
  have hw : Sound M L [] (fun _ => False) w := sound_passes (sound_start hM L hj store now calls) ps
  have hknown : M.Known w.brokr r.id := by
    have hvalid := hw.valid
    rw [hM] at hvalid ⊢
    exact ⟨hvalid.drawn r hr, hvalid.apart r hr⟩
  have hspec := collectOnce_spec (M := M) (L := L) c (· = r.id) { w with store := store' }
    ⟨hw.store store', fun id hid => hid ▸ hknown⟩
  have hgone := (hspec.1 report hreport).ended r.id ⟨rfl, hid⟩
  rw [hM] at hgone
  exact hgone.2 r' hr' heq

/-- A delivery that was recorded before a pass and is given up in it does not wait any more. -/
theorem small_is_settled : ∃ r ∈ waiting.brokr.server.db.deliveries, isDeliveryId r.id = true ∧
    ∀ r' ∈ nextPass.2.brokr.server.db.deliveries, r'.id = r.id →
      ¬BrokrServer.Waits (BrokrServer.deviceOf 2) nextPass.2.brokr.server.now r' := by
  have hapi : (CollectSample.device (BrokrServer.deviceOf 2)).api =
      RemoteBrokr.api HiTxt.roomy (BrokrServer.deviceOf 2) := rfl
  obtain ⟨hrows, hrefused⟩ := nextPass_refuses
  have hmem : deliveryId ∈ waiting.brokr.server.db.deliveries.map DeliveryRow.id := by
    rw [hrows]
    exact List.mem_cons_self
  obtain ⟨r, hr, hid⟩ := List.mem_map.mp hmem
  have hhex : isDeliveryId r.id = true := by
    rw [hid]
    decide
  rcases hreport : nextPass.1 with stop | report
  · rw [hreport] at hrefused
    cases hrefused
  · have hj : lawfulJournal.content none = none := rfl
    have hsettled := pass_settles_inbox hapi lawfulJournal hj root 0 smallCalls
      [(root, circumstances)] root circumstances report hreport
    refine ⟨r, hr, hhex, ?_⟩
    unfold nextPass waiting start
    unfold waiting start at hr
    exact hsettled r hr hhex

end Remote

variable {ctx : CollectContext σ H B J} (F : ListingStore ctx.vfs N)

/-- **A pass touches no file but its own.** Whatever the Brokr answers and the envelopes hold, and
however the pass ends, every file outside the staging directory is where it was, with the bytes it
had. -/
theorem pass_spares_files (c : ℕ → Circumstances) {w : Collecting σ B J} (hw : F.Valid w.store) :
    F.Valid (ctx.collectOnce c w).2.store ∧ ∀ q n, ¬InStaging q → F.file w.store q = some n →
      F.file (ctx.collectOnce c w).2.store q = some n ∧
      F.data (ctx.collectOnce c w).2.store n = F.data w.store n := by
  have hwhole : Whole F w.store w.log w := ⟨.refl hw, fun _ _ _ _ h => .inl h⟩
  obtain ⟨hspares, -⟩ := whole_pass c hwhole
  exact ⟨hspares.valid, fun q n hq hn => ⟨hspares.file q n hq hn,
    hspares.data n (F.inUse_of_file hw hn)⟩⟩

/-- The file that has the name of `hi.txt` already is still there, with its bytes, after the pass in
which the delivery arrives. -/
theorem hiTxt_spares_file :
    rootFiles.file ((CollectSample.device HiTxt.recipientText).collectOnce circumstances
      (start calls)).2.store .sample = some (0 : ℕ) ∧
    rootFiles.data ((CollectSample.device HiTxt.recipientText).collectOnce circumstances
      (start calls)).2.store (0 : ℕ) = ascii "mine" := by
  have hvalid : rootFiles.Valid (start calls).store := wellFormed_root
  have hfile : rootFiles.file (start calls).store .sample = some (0 : ℕ) := by decide
  exact (pass_spares_files rootFiles circumstances hvalid).2 .sample 0 (by decide) hfile

end CollectContext

end Tradr
