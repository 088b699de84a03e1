import Tradr.FileStore
import Tradr.ReceiveSafety

/-!
# Receives at the Same Time

Up to eight connections are served at once, each with its own receiving session, all on one
root. Here any number of sessions take their steps in any order on one store. The partial
file of a session is named by the transfer and the item alone, which the peer chooses, and
nothing claims the name: a second session of the same names opens the file the first one is
writing, and takes its length for verified progress.

A session that has its partial file to itself is not disturbed by the others. It owns one
file, at the partial path and later at the destination, and a step of another session
leaves a file alone that it does not own. So as long as no two sessions of the same names
overlap, no file is placed in the staging area of a session and no partial file with
unknown bytes is picked up, every file that was placed holds verified bytes only.

## Main definitions

* `Receivers.step`: one step of one of the sessions.
* `Receivers.VerifiedInPlace`: every placed file is the verified item and no other session
  has it open.
* `Receivers.Unshared`: what a step needs for that.

## Main results

* `Receivers.verifiedInPlace_run`: placed files are verified, in every interleaving in which
  sessions share nothing.
* `Receivers.shared_partial_file_is_placed`: two sessions of the same names, one of which
  places a file it never verified.
-/

namespace Tradr

/-! ### Files with one name -/

namespace FileView

variable {σ N : Type*} (v : FileView σ N)

/-- The file at a path, which is at no other path. -/
def Sole (s : σ) (path : RelPath) (n : N) : Prop :=
  v.file s path = some n ∧ ∀ q, v.file s q = some n → q = path

variable {v} {s s' : σ} {p q : RelPath} {n m : N}

theorem Sole.ne (hp : v.Sole s p n) (hq : v.Sole s q m) (hne : p ≠ q) : n ≠ m := by
  rintro rfl
  exact hne (hq.2 p hp.1)

/-- A store with the same files at the same paths. -/
theorem Sole.of_file_eq (h : v.Sole s p n) (hfile : v.file s' = v.file s) : v.Sole s' p n := by
  constructor
  · rw [hfile]
    exact h.1
  · intro q hq
    rw [hfile] at hq
    exact h.2 q hq

end FileView

namespace FileStore

variable {σ H N : Type*} {vfs : Vfs σ H} (B : FileStore vfs N) {s : σ} {p q : RelPath} {n m : N}

/-- A file is untouched by a call: it is where it was, alone, with its bytes. -/
def Untouched (s s' : σ) (p : RelPath) (n : N) : Prop :=
  B.Sole s' p n ∧ B.data s' n = B.data s n

variable {B}

theorem untouched_of_same {s' : σ} (hvalid : B.Valid s) (h : B.Sole s p n)
    (hsame : B.Same s s') : B.Untouched s s' p n :=
  ⟨h.of_file_eq hsame.file, hsame.data n (B.inUse_of_file hvalid h.1)⟩

/-- Opening another path for writing. -/
theorem untouched_openWrite (hvalid : B.Valid s) (h : B.Sole s p n) (hne : p ≠ q) :
    B.Untouched s (vfs.openWrite s q).2 p n := by
  have hin := B.inUse_of_file hvalid h.1
  refine ⟨⟨(B.openWrite_other hvalid hne).trans h.1, ?_⟩, (B.openWrite_keeps q hvalid).data n hin⟩
  intro r hr
  by_cases hrq : r = q
  · subst hrq
    rcases B.openWrite_self hvalid hr with hfile | ⟨-, hfresh, -⟩
    · exact h.2 r hfile
    · exact absurd hin hfresh
  · rw [B.openWrite_other hvalid hrq] at hr
    exact h.2 r hr

/-- Writing to another file. -/
theorem untouched_writeAt {handle : H} (hvalid : B.Valid s) (h : B.Sole s p n)
    (hne : n ≠ B.node handle) (off : ℕ) (bs : List UInt8) :
    B.Untouched s (vfs.writeAt s handle off bs).2 p n := by
  obtain ⟨-, hfile, -, hdata⟩ := B.writeAt_file (h := handle) off bs hvalid
  exact ⟨h.of_file_eq hfile, hdata n hne⟩

/-- Moving another file to another path. -/
theorem untouched_renameNoReplace {source target : RelPath} (hvalid : B.Valid s)
    (h : B.Sole s p n) (hm : B.Sole s source m) (hne : p ≠ source) :
    B.Untouched s (vfs.renameNoReplace s source target).2 p n := by
  rcases hres : (vfs.renameNoReplace s source target).1 with e | _
  · exact untouched_of_same hvalid h (B.renameNoReplace_error hvalid hres)
  obtain ⟨hkeeps, hfree, hat, hgone, hother⟩ := B.renameNoReplace_ok hvalid hm.1 hres
  have htarget : p ≠ target := by
    rintro rfl
    rw [h.1] at hfree
    cases hfree
  refine ⟨⟨(hother p hne htarget).trans h.1, ?_⟩, hkeeps.data n (B.inUse_of_file hvalid h.1)⟩
  intro r hr
  by_cases hrs : r = source
  · rw [hrs, hgone] at hr
    cases hr
  by_cases hrt : r = target
  · rw [hrt, hat] at hr
    exact absurd (Option.some.inj hr).symm (h.ne hm hne)
  · rw [hother r hrs hrt] at hr
    exact h.2 r hr

/-- The file that is moved. -/
theorem sole_renameNoReplace {source target : RelPath} (hvalid : B.Valid s)
    (h : B.Sole s source n) (hok : (vfs.renameNoReplace s source target).1 = .ok ()) :
    B.Sole (vfs.renameNoReplace s source target).2 target n ∧
      B.data (vfs.renameNoReplace s source target).2 n = B.data s n := by
  obtain ⟨hkeeps, -, hat, hgone, hother⟩ := B.renameNoReplace_ok hvalid h.1 hok
  refine ⟨⟨hat, ?_⟩, hkeeps.data n (B.inUse_of_file hvalid h.1)⟩
  intro r hr
  by_contra hrt
  by_cases hrs : r = source
  · rw [hrs, hgone] at hr
    cases hr
  · rw [hother r hrs hrt] at hr
    exact hrs (h.2 r hr)

/-- Removing another path. -/
theorem untouched_remove (hvalid : B.Valid s) (h : B.Sole s p n) (hne : p ≠ q) :
    B.Untouched s (vfs.remove s q).2 p n := by
  refine ⟨⟨(B.remove_other hvalid hne).trans h.1, ?_⟩,
    (B.remove_keeps q hvalid).data n (B.inUse_of_file hvalid h.1)⟩
  intro r hr
  by_cases hrq : r = q
  · rw [hrq] at hr
    rcases B.remove_self q hvalid with hgone | hsame
    · rw [hgone] at hr
      cases hr
    · rw [hsame] at hr
      exact absurd (h.2 q hr).symm hne
  · rw [B.remove_other hvalid hrq] at hr
    exact h.2 r hr

end FileStore

/-! ### Where a session stands -/

namespace ReceivePhase

variable {H : Type*}

/-- The open partial file. -/
def handle? : ReceivePhase H → Option H
  | .deriving h | .requesting h _ _ => some h
  | .receiving r | .storing r _ _ | .syncing r _ _ => some r.handle
  | _ => none

/-- Where the file was placed. -/
def placed? : ReceivePhase H → Option RelPath
  | .finishing path | .reporting path | .done (.ok path) => some path
  | _ => none

/-- A session that has gone for its partial file and not ended. -/
def Busy : ReceivePhase H → Prop
  | .creatingDir | .opening | .done _ => False
  | _ => True

end ReceivePhase

/-! ### Many sessions on one store -/

/-- Sessions on one store; the store in a session's own record is the one it last saw. -/
structure Receivers (σ H ι : Type*) where
  store : σ
  session : ι → Receiver σ H

namespace Receivers

variable {σ H N ι : Type*} [DecidableEq ι]

/-- A session with the store as it is now. -/
def current (w : Receivers σ H ι) (i : ι) : Receiver σ H :=
  { w.session i with store := w.store }

/-- Sessions that all begin on one store. -/
def start (store : σ) (dataRecv : ι → RecvStream) (dataSend controlSend : ι → SendStream) :
    Receivers σ H ι :=
  ⟨store, fun i => Receiver.start store (dataRecv i) (dataSend i) (controlSend i)⟩

/-- One step of one session. -/
def step (vfs : Vfs σ H) (env : ReceiveEnv) (req : ι → ReceiveRequest) (w : Receivers σ H ι)
    (i : ι) : ReceiveEvent × Receivers σ H ι :=
  let (event, next) := Receiver.step vfs env (req i) (w.current i)
  (event, ⟨next.store, Function.update w.session i next⟩)

/-- The sessions after steps in the given order. -/
def run (vfs : Vfs σ H) (env : ReceiveEnv) (req : ι → ReceiveRequest) (w : Receivers σ H ι)
    (order : List ι) : Receivers σ H ι :=
  (Machine.run (step vfs env req) w order).2

/-! ### The property and the condition -/

section Property

variable {vfs : Vfs σ H} (B : FileStore vfs N)

/-- The bytes are the item: as many as announced, all of them verified. -/
def IsItem (req : ReceiveRequest) (whole c : List UInt8) : Prop :=
  c.length = req.totalBytes.toNat ∧ c <+: whole

/-- Every file that was placed holds the item of its session, `whole i` being the content
that the hash of session `i` stands for, and no other session has it open for writing. -/
def VerifiedInPlace (req : ι → ReceiveRequest) (whole : ι → List UInt8)
    (w : Receivers σ H ι) : Prop :=
  ∀ i path, (w.session i).phase.placed? = some path →
    ∃ n, B.file w.store path = some n ∧ IsItem (req i) (whole i) (B.data w.store n) ∧
      ∀ j h, j ≠ i → (w.session j).phase.handle? = some h → B.node h ≠ n

/-- A partial file that a session may pick up: it has no second name and holds a front part
of the item. One that is not there or is empty and has no second name will do. -/
def Resumable (req : ReceiveRequest) (whole : List UInt8) (s : σ) : Prop :=
  ∀ n, B.file s (Receiver.partialFile req) = some n →
    B.Sole s (Receiver.partialFile req) n ∧ B.data s n <+: whole ∧
      (B.data s n).length ≤ req.totalBytes.toNat

/-- What a step of a session needs for placed files to stay verified: when it opens its
partial file, no other session of the same transfer and item is under way and what is
already there can be picked up; when it places the file, the destination is no session's
partial file or staging directory. -/
def Unshared (req : ι → ReceiveRequest) (whole : ι → List UInt8) (w : Receivers σ H ι) (i : ι) :
    Prop :=
  match (w.session i).phase with
  | .opening =>
    (∀ j, j ≠ i → Receiver.partialFile (req j) = Receiver.partialFile (req i) →
        ¬(w.session j).phase.Busy) ∧
      Resumable B (req i) (whole i) w.store
  | .renaming _ candidate _ =>
    ∀ j, candidate ≠ Receiver.partialFile (req j) ∧
      candidate ≠ partialDirRelPath (req j).transferId
  | _ => True

end Property

/-! ### The invariant of one session -/

section Session

variable {vfs : Vfs σ H} (B : FileStore vfs N) {env : ReceiveEnv} {req : ReceiveRequest}
  {whole : List UInt8} {s : σ}

/-- Byte `i` of the file is there and is that of the content. -/
def Right (whole c : List UInt8) (i : ℕ) : Prop :=
  i < c.length ∧ (c)[i]? = whole[i]?

/-- The invariant of the loops: the session has its partial file to itself, the progress
record vouches only for right bytes of it, and `Q` holds of its bytes. -/
structure Tracks (req : ReceiveRequest) (whole : List UInt8) (s : σ) (h : H)
    (r : ItemResumption) (Q : List UInt8 → Prop) : Prop where
  sole : B.Sole s (Receiver.partialFile req) (B.node h)
  length_le : (B.data s (B.node h)).length ≤ req.totalBytes.toNat
  totalBytes : r.totalBytes = req.totalBytes.toNat
  sound : r.Sound (Right whole (B.data s (B.node h)))
  written : Q (B.data s (B.node h))

/-- A piece that is about to be written: inside the item, with the bytes of the content. -/
structure Genuine (req : ReceiveRequest) (whole : List UInt8) (header : ChunkDataHeader)
    (verified : List UInt8) : Prop where
  inside : header.offset + verified.length ≤ req.totalBytes.toNat
  small : verified.length < UInt32.size
  bytes : verified <+: whole.drop header.offset

/-- What holds of the store in each phase of a session. -/
def SessionInv (req : ReceiveRequest) (whole : List UInt8) (s : σ) : ReceivePhase H → Prop
  | .deriving h =>
    B.Sole s (Receiver.partialFile req) (B.node h) ∧ B.data s (B.node h) <+: whole ∧
      (B.data s (B.node h)).length ≤ req.totalBytes.toNat
  | .requesting h r _ => Tracks B req whole s h r fun _ => True
  | .receiving r => Tracks B req whole s r.handle r.resumption fun _ => True
  | .storing r header verified =>
    Tracks B req whole s r.handle r.resumption (fun _ => True) ∧
      Genuine req whole header verified
  | .syncing r header verified =>
    Tracks B req whole s r.handle r.resumption (fun c => ∀ i, header.offset ≤ i →
      i < header.offset + verified.length → Right whole c i) ∧ Genuine req whole header verified
  | .probing .. | .renaming .. =>
    ∃ n, B.Sole s (Receiver.partialFile req) n ∧ IsItem req whole (B.data s n)
  | .finishing path | .reporting path | .done (.ok path) =>
    ∃ n, B.Sole s path n ∧ IsItem req whole (B.data s n)
  | _ => True

/-- The path of the file a session owns. -/
def ownPath (req : ReceiveRequest) : ReceivePhase H → Option RelPath
  | .deriving _ | .requesting .. | .receiving _ | .storing .. | .syncing .. | .probing ..
  | .renaming .. => some (Receiver.partialFile req)
  | .finishing path | .reporting path | .done (.ok path) => some path
  | _ => none

variable {B}

theorem Tracks.untouched {s' : σ} {h : H} {r : ItemResumption} {Q : List UInt8 → Prop}
    (ht : Tracks B req whole s h r Q)
    (hu : B.Untouched s s' (Receiver.partialFile req) (B.node h)) :
    Tracks B req whole s' h r Q := by
  obtain ⟨hsole, hdata⟩ := hu
  obtain ⟨-, hlen, hb, hs, hq⟩ := ht
  refine ⟨hsole, ?_, hb, ?_, ?_⟩
  · rwa [hdata]
  · rwa [hdata]
  · rwa [hdata]

/-- A session whose file is untouched is undisturbed. -/
theorem SessionInv.frame {s' : σ} {phase : ReceivePhase H}
    (h : SessionInv B req whole s phase)
    (hu : ∀ p n, ownPath req phase = some p → B.Sole s p n → B.Untouched s s' p n) :
    SessionInv B req whole s' phase := by
  have hown : ∀ p n, B.Sole s p n → IsItem req whole (B.data s n) →
      ownPath req phase = some p → ∃ n, B.Sole s' p n ∧ IsItem req whole (B.data s' n) := by
    intro p n hsole hitem hp
    obtain ⟨hsole', hdata⟩ := hu p n hp hsole
    exact ⟨n, hsole', hdata ▸ hitem⟩
  cases phase with
  | «deriving» handle =>
      obtain ⟨hsole, hpre, hlen⟩ := h
      obtain ⟨hsole', hdata⟩ := hu _ _ rfl hsole
      refine ⟨hsole', ?_, ?_⟩
      · rwa [hdata]
      · rwa [hdata]
  | requesting handle r k => exact Tracks.untouched h (hu _ _ rfl h.sole)
  | receiving r => exact Tracks.untouched h (hu _ _ rfl h.sole)
  | storing r header verified => exact ⟨h.1.untouched (hu _ _ rfl h.1.sole), h.2⟩
  | syncing r header verified => exact ⟨h.1.untouched (hu _ _ rfl h.1.sole), h.2⟩
  | probing | «renaming» =>
      obtain ⟨n, hsole, hitem⟩ := h
      exact hown _ n hsole hitem rfl
  | finishing | reporting =>
      obtain ⟨n, hsole, hitem⟩ := h
      exact hown _ n hsole hitem rfl
  | done result =>
      cases result with
      | error e => trivial
      | ok path =>
          obtain ⟨n, hsole, hitem⟩ := h
          exact hown _ n hsole hitem rfl
  | _ => trivial

/-! ### Right bytes -/

/-- Every byte of a front part of the content is right. -/
theorem right_of_prefix {c : List UInt8} (h : c <+: whole) {i : ℕ} (hi : i < c.length) :
    Right whole c i := by
  obtain ⟨rest, rfl⟩ := h
  exact ⟨hi, (List.getElem?_append_left hi).symm⟩

/-- Bytes of the content are right where they were written. -/
theorem right_overlay {c bs : List UInt8} {off i : ℕ} (hbs : bs <+: whole.drop off)
    (h1 : off ≤ i) (h2 : i < off + bs.length) : Right whole (ByteFile.overlay c off bs) i := by
  have hlt : i - off < bs.length := by omega
  have hne : bs ≠ [] := by
    rintro rfl
    exact absurd hlt (by simp)
  refine ⟨?_, ?_⟩
  · rw [ByteFile.length_overlay c off hne]
    omega
  · obtain ⟨rest, hrest⟩ := hbs
    have hget : (bs ++ rest)[i - off]? = bs[i - off]? := List.getElem?_append_left hlt
    rw [ByteFile.getElem?_overlay c h1 hlt, ← hget, hrest, List.getElem?_drop]
    congr 1
    omega

/-- Writing bytes of the content keeps right bytes right. -/
theorem Right.overlay {c bs : List UInt8} {off i : ℕ} (h : Right whole c i)
    (hbs : bs <+: whole.drop off) : Right whole (ByteFile.overlay c off bs) i := by
  rcases eq_or_ne bs [] with rfl | hne
  · rwa [ByteFile.overlay_nil]
  by_cases hin : off ≤ i ∧ i < off + bs.length
  · exact right_overlay hbs hin.1 hin.2
  · obtain ⟨hi, heq⟩ := h
    refine ⟨?_, ?_⟩
    · rw [ByteFile.length_overlay c off hne]
      omega
    · rwa [ByteFile.getElem?_overlay_of_notMem c hi (by omega)]

/-- A file that is not longer than the item and has all its bytes right is the item. -/
theorem isItem_of_right {c : List UInt8} (hlen : c.length ≤ req.totalBytes.toNat)
    (h : ∀ i < req.totalBytes.toNat, Right whole c i) : IsItem req whole c := by
  have hge : req.totalBytes.toNat ≤ c.length := by
    rcases Nat.eq_zero_or_pos req.totalBytes.toNat with h0 | h0
    · omega
    · have := (h (req.totalBytes.toNat - 1) (by omega)).1
      omega
  refine ⟨le_antisymm hlen hge, List.prefix_iff_getElem?.mpr ?_⟩
  intro i hi
  rw [← (h i (by omega)).2, List.getElem?_eq_getElem hi]

/-- A complete progress record: the partial file is the item. -/
theorem Tracks.isItem {h : H} {r : ItemResumption} {Q : List UInt8 → Prop}
    (ht : Tracks B req whole s h r Q) (hc : r.isItemComplete = true) :
    IsItem req whole (B.data s (B.node h)) :=
  isItem_of_right ht.length_le fun _ hi => ht.sound.complete hc (ht.totalBytes ▸ hi)

/-- A valid piece has the bytes of the content. -/
theorem genuine_of_valid (hv : env.verifier.SoundFor req.contentHash whole) {p : Piece}
    (h : p.Valid env req) : Genuine req whole p.header p.bytes := by
  obtain ⟨hbytes, hlen⟩ := hv _ _ _ _ h.verified
  have hR : referenceChunkSizeBytes < UInt32.size := by decide
  have h1 := h.inside
  have h2 := h.small
  exact ⟨by omega, by omega, hbytes ▸ List.take_prefix _ _⟩

/-! ### The steps of one session -/

variable {w : Receiver σ H}

theorem own_opening (hvalid : B.Valid w.store) (hres : Resumable B req whole w.store) :
    SessionInv B req whole (Receiver.stepOpening vfs req w).store
      (Receiver.stepOpening vfs req w).phase := by
  obtain ⟨hs, ⟨e, -, hp⟩ | ⟨handle, hok, hp⟩⟩ := Receiver.stepOpening_cases vfs req w
  · rw [hp]
    trivial
  · rw [hs, hp]
    have hat := B.openWrite_ok hvalid hok
    rcases B.openWrite_self hvalid hat with hfile | ⟨hnone, hfresh, hempty⟩
    · obtain ⟨hsole, hpre, hlen⟩ := hres _ hfile
      have hdata := (B.openWrite_keeps (Receiver.partialFile req) hvalid).data _
        (B.inUse_of_file hvalid hfile)
      refine ⟨⟨hat, ?_⟩, ?_, ?_⟩
      · intro q hq
        by_contra hne
        rw [B.openWrite_other hvalid hne] at hq
        exact hne (hsole.2 q hq)
      · rwa [hdata]
      · rwa [hdata]
    · refine ⟨⟨hat, ?_⟩, ?_, ?_⟩
      · intro q hq
        by_contra hne
        rw [B.openWrite_other hvalid hne] at hq
        exact hfresh (B.inUse_of_file hvalid hq)
      · rw [hempty]
        exact List.nil_prefix
      · rw [hempty]
        exact Nat.zero_le _

theorem own_deriving {handle : H} (hvalid : B.Valid w.store)
    (h : SessionInv B req whole w.store (.deriving handle)) :
    SessionInv B req whole (Receiver.stepDeriving vfs req w handle).store
      (Receiver.stepDeriving vfs req w handle).phase := by
  obtain ⟨hsole, hpre, hlen⟩ := h
  have hsize := fun m => B.stat_size (m := m) hvalid hsole.1
  have hP : ∀ m, (vfs.stat w.store (Receiver.partialFile req)).1 = .ok m →
      ∀ i < m.sizeBytes, Right whole (B.data w.store (B.node handle)) i :=
    fun m hm i hi => right_of_prefix hpre (hsize m hm ▸ hi)
  obtain ⟨hs, hb⟩ := deriveResumption_sound req.itemId req.totalBytes.toNat hP
  have ht : Tracks B req whole w.store handle
      (deriveResumption req.itemId req.totalBytes.toNat
        (vfs.stat w.store (Receiver.partialFile req)).1) fun _ => True :=
    ⟨hsole, hlen, hb, hs, trivial⟩
  exact ht.untouched (FileStore.untouched_of_same hvalid hsole (B.stat_same _ hvalid))

theorem own_requesting {handle : H} {r : ItemResumption} {k : ℕ}
    (h : SessionInv B req whole w.store (.requesting handle r k)) :
    SessionInv B req whole (Receiver.stepRequesting env req w handle r k).store
      (Receiver.stepRequesting env req w handle r k).phase := by
  obtain ⟨hs, ⟨why, hp⟩ | hp | ⟨hc, p, hp⟩ | ⟨count, hp⟩⟩ :=
    Receiver.stepRequesting_cases env req w handle r k
  · rw [hp]
    trivial
  · rw [hp]
    trivial
  · rw [hs, hp]
    exact ⟨_, h.sole, h.isItem hc⟩
  · rw [hs, hp]
    exact h

theorem own_receiving (hv : env.verifier.SoundFor req.contentHash whole) {r : Reception H}
    (h : SessionInv B req whole w.store (.receiving r)) :
    SessionInv B req whole (Receiver.stepReceiving env req w r).2.store
      (Receiver.stepReceiving env req w r).2.phase := by
  obtain ⟨hs, ⟨-, ⟨why, hp⟩ | hp⟩ | ⟨p, hvalid, -, hp⟩⟩ := Receiver.stepReceiving_cases env req w r
  · rw [hp]
    trivial
  · rw [hs, hp]
    exact h
  · rw [hs, hp]
    exact ⟨h, genuine_of_valid hv hvalid⟩

theorem own_storing {r : Reception H} {header : ChunkDataHeader} {verified : List UInt8}
    (hvalid : B.Valid w.store)
    (h : SessionInv B req whole w.store (.storing r header verified)) :
    SessionInv B req whole (Receiver.stepStoring vfs w r header verified).store
      (Receiver.stepStoring vfs w r header verified).phase := by
  obtain ⟨⟨hsole, hlen, hb, hsound, -⟩, hg⟩ := h
  obtain ⟨hs, ⟨e, -, hp⟩ | ⟨hok, hp⟩⟩ := Receiver.stepStoring_cases vfs w r header verified
  · rw [hp]
    trivial
  · rw [hs, hp]
    obtain ⟨-, hfile, -, -⟩ := B.writeAt_file (h := r.handle) header.offset verified hvalid
    have hdata := B.writeAt_ok hvalid hok
    refine ⟨⟨hsole.of_file_eq hfile, ?_, hb, ?_, ?_⟩, hg⟩
    · rw [hdata]
      exact ByteFile.length_overlay_le hlen hg.inside
    · rw [hdata]
      exact hsound.mono fun i hi => hi.overlay hg.bytes
    · rw [hdata]
      exact fun i h1 h2 => right_overlay hg.bytes h1 h2

theorem own_syncing {r : Reception H} {header : ChunkDataHeader} {verified : List UInt8}
    (hvalid : B.Valid w.store)
    (h : SessionInv B req whole w.store (.syncing r header verified)) :
    SessionInv B req whole (Receiver.stepSyncing vfs w r header verified).store
      (Receiver.stepSyncing vfs w r header verified).phase := by
  obtain ⟨ht, hg⟩ := h
  obtain ⟨hs, ⟨why, hp⟩ | ⟨r', hrec, hp⟩⟩ := Receiver.stepSyncing_cases vfs w r header verified
  · rw [hp]
    trivial
  · have hu := FileStore.untouched_of_same hvalid ht.sole (B.sync_same r.handle hvalid)
    obtain ⟨hsound, hb⟩ := recordVerified_sound ht.sound hg.small ht.written hrec
    have ht' : Tracks B req whole w.store r.handle r' fun _ => True :=
      ⟨ht.sole, ht.length_le, hb.trans ht.totalBytes, hsound, trivial⟩
    rw [hs]
    rcases hp with hp | hp
    · rw [hp]
      exact ht'.untouched hu
    · rw [hp]
      exact ht'.untouched hu

theorem own_probing {sanitized candidate : RelPath} {counter attempts : ℕ}
    (hvalid : B.Valid w.store)
    (h : SessionInv B req whole w.store (.probing sanitized candidate counter attempts)) :
    SessionInv B req whole (Receiver.stepProbing vfs w sanitized candidate counter attempts).store
      (Receiver.stepProbing vfs w sanitized candidate counter attempts).phase := by
  obtain ⟨n, hsole, hitem⟩ := h
  obtain ⟨hsole', hdata⟩ :=
    FileStore.untouched_of_same hvalid hsole (B.stat_same candidate hvalid)
  have hnext : ∃ n, B.Sole (vfs.stat w.store candidate).2 (Receiver.partialFile req) n ∧
      IsItem req whole (B.data (vfs.stat w.store candidate).2 n) :=
    ⟨n, hsole', hdata ▸ hitem⟩
  obtain ⟨hs, ⟨why, hp⟩ | hp | ⟨next, hp⟩⟩ :=
    Receiver.stepProbing_cases vfs w sanitized candidate counter attempts
  · rw [hp]
    trivial
  · rw [hs, hp]
    exact hnext
  · rw [hs, hp]
    exact hnext

theorem own_renaming {sanitized candidate : RelPath} {attempts : ℕ} (hvalid : B.Valid w.store)
    (h : SessionInv B req whole w.store (.renaming sanitized candidate attempts)) :
    SessionInv B req whole (Receiver.stepRenaming vfs req w sanitized candidate attempts).store
      (Receiver.stepRenaming vfs req w sanitized candidate attempts).phase := by
  obtain ⟨n, hsole, hitem⟩ := h
  obtain ⟨hs, ⟨hok, hp⟩ | ⟨e, he, ⟨why, hp⟩ | hp⟩⟩ :=
    Receiver.stepRenaming_cases vfs req w sanitized candidate attempts
  · rw [hs, hp]
    obtain ⟨hsole', hdata⟩ := FileStore.sole_renameNoReplace hvalid hsole hok
    exact ⟨n, hsole', hdata ▸ hitem⟩
  · rw [hp]
    trivial
  · rw [hs, hp]
    obtain ⟨hsole', hdata⟩ :=
      FileStore.untouched_of_same hvalid hsole (B.renameNoReplace_error hvalid he)
    exact ⟨n, hsole', hdata ▸ hitem⟩

/-- **A session keeps its own invariant**, if the partial file it opens can be picked up. -/
theorem own_step (hv : env.verifier.SoundFor req.contentHash whole) (hvalid : B.Valid w.store)
    (h : SessionInv B req whole w.store w.phase)
    (hres : w.phase = .opening → Resumable B req whole w.store) :
    SessionInv B req whole (Receiver.step vfs env req w).2.store
      (Receiver.step vfs env req w).2.phase := by
  unfold Receiver.step
  cases hphase : w.phase with
  | creatingDir =>
      obtain ⟨-, ⟨e, -, hp⟩ | ⟨-, hp⟩⟩ := Receiver.stepCreatingDir_cases vfs req w
      · dsimp only
        rw [hp]
        trivial
      · dsimp only
        rw [hp]
        trivial
  | opening => exact own_opening hvalid (hres hphase)
  | «deriving» handle =>
      rw [hphase] at h
      exact own_deriving hvalid h
  | requesting handle r k =>
      rw [hphase] at h
      exact own_requesting h
  | receiving r =>
      rw [hphase] at h
      exact own_receiving hv h
  | storing r header verified =>
      rw [hphase] at h
      exact own_storing hvalid h
  | syncing r header verified =>
      rw [hphase] at h
      exact own_syncing hvalid h
  | probing sanitized candidate counter attempts =>
      rw [hphase] at h
      exact own_probing hvalid h
  | «renaming» sanitized candidate attempts =>
      rw [hphase] at h
      exact own_renaming hvalid h
  | finishing path =>
      rw [hphase] at h
      obtain ⟨hs, ⟨e, -, hp⟩ | ⟨-, hp⟩⟩ := Receiver.stepFinish_cases w (.reporting path)
      · rw [hp]
        trivial
      · rw [hs, hp]
        exact h
  | reporting path =>
      rw [hphase] at h
      obtain ⟨hs, ⟨-, why, hp⟩ | ⟨-, hp⟩⟩ :=
        Receiver.stepReport_cases env req w (some path) (.done (.ok path))
      · rw [hp]
        trivial
      · rw [hs, hp]
        exact h
  | abandoning =>
      obtain ⟨-, ⟨e, -, hp⟩ | ⟨-, hp⟩⟩ := Receiver.stepFinish_cases w .reportingFailure
      · rw [hp]
        trivial
      · rw [hp]
        trivial
  | reportingFailure =>
      obtain ⟨-, ⟨-, why, hp⟩ | ⟨-, hp⟩⟩ :=
        Receiver.stepReport_cases env req w none (.cleaningFile .verificationFailed)
      · rw [hp]
        trivial
      · rw [hp]
        trivial
  | cleaningFile why =>
      obtain ⟨-, ⟨-, hp⟩ | ⟨e, -, -, why', hp⟩⟩ := Receiver.stepCleaningFile_cases vfs req w why
      · rw [hp]
        trivial
      · rw [hp]
        trivial
  | cleaningDir why =>
      obtain ⟨-, e, hp⟩ := Receiver.stepCleaningDir_cases vfs req w why
      rw [hp]
      trivial
  | done result =>
      rw [hphase] at h
      dsimp only
      rwa [hphase]

/-- What a step of a session leaves alone: every file with one name, away from the partial
file and its directory once the session is under way. -/
def Leaves (B : FileStore vfs N) (req : ReceiveRequest) (phase : ReceivePhase H) (s s' : σ) :
    Prop :=
  B.Valid s' ∧ ∀ p n, B.Sole s p n → (phase = .opening ∨ phase.Busy →
    p ≠ Receiver.partialFile req ∧ p ≠ partialDirRelPath req.transferId) → B.Untouched s s' p n

theorem leaves_refl {phase : ReceivePhase H} (hvalid : B.Valid s) : Leaves B req phase s s :=
  ⟨hvalid, fun _ _ h _ => ⟨h, rfl⟩⟩

theorem leaves_of_same {phase : ReceivePhase H} {s' : σ} (hvalid : B.Valid s)
    (hsame : B.Same s s') : Leaves B req phase s s' :=
  ⟨hsame.valid, fun _ _ h _ => FileStore.untouched_of_same hvalid h hsame⟩

/-- **The frame of a step**: a session leaves alone what it does not own. -/
theorem leaves_step (hvalid : B.Valid w.store) (h : SessionInv B req whole w.store w.phase) :
    Leaves B req w.phase w.store (Receiver.step vfs env req w).2.store := by
  unfold Receiver.step
  cases hphase : w.phase with
  | creatingDir =>
      dsimp only
      rw [(Receiver.stepCreatingDir_cases vfs req w).1]
      exact leaves_of_same hvalid (B.createDir_same _ hvalid)
  | opening =>
      dsimp only
      rw [(Receiver.stepOpening_cases vfs req w).1]
      refine ⟨(B.openWrite_keeps _ hvalid).valid, fun p n hn hne => ?_⟩
      exact FileStore.untouched_openWrite hvalid hn (hne (.inl rfl)).1
  | «deriving» handle => exact leaves_of_same hvalid (B.stat_same _ hvalid)
  | requesting handle r k =>
      dsimp only
      rw [(Receiver.stepRequesting_cases env req w handle r k).1]
      exact leaves_refl hvalid
  | receiving r =>
      dsimp only
      rw [(Receiver.stepReceiving_cases env req w r).1]
      exact leaves_refl hvalid
  | storing r header verified =>
      rw [hphase] at h
      dsimp only
      rw [(Receiver.stepStoring_cases vfs w r header verified).1]
      refine ⟨(B.writeAt_file header.offset verified hvalid).1, fun p n hn hne => ?_⟩
      have hother : n ≠ B.node r.handle := hn.ne h.1.sole (hne (.inr trivial)).1
      exact FileStore.untouched_writeAt hvalid hn hother _ _
  | syncing r header verified =>
      dsimp only
      rw [(Receiver.stepSyncing_cases vfs w r header verified).1]
      exact leaves_of_same hvalid (B.sync_same _ hvalid)
  | probing sanitized candidate counter attempts =>
      dsimp only
      rw [(Receiver.stepProbing_cases vfs w sanitized candidate counter attempts).1]
      exact leaves_of_same hvalid (B.stat_same _ hvalid)
  | «renaming» sanitized candidate attempts =>
      rw [hphase] at h
      obtain ⟨m, hm, -⟩ := h
      dsimp only
      rw [(Receiver.stepRenaming_cases vfs req w sanitized candidate attempts).1]
      refine ⟨?_, fun p n hn hne => ?_⟩
      · rcases hres : (vfs.renameNoReplace w.store (Receiver.partialFile req) candidate).1 with e | _
        · exact (B.renameNoReplace_error hvalid hres).valid
        · exact (B.renameNoReplace_ok hvalid hm.1 hres).1.valid
      · exact FileStore.untouched_renameNoReplace hvalid hn hm (hne (.inr trivial)).1
  | finishing path =>
      dsimp only
      rw [(Receiver.stepFinish_cases w (.reporting path)).1]
      exact leaves_refl hvalid
  | reporting path =>
      dsimp only
      rw [(Receiver.stepReport_cases env req w (some path) (.done (.ok path))).1]
      exact leaves_refl hvalid
  | abandoning =>
      dsimp only
      rw [(Receiver.stepFinish_cases w .reportingFailure).1]
      exact leaves_refl hvalid
  | reportingFailure =>
      dsimp only
      rw [(Receiver.stepReport_cases env req w none (.cleaningFile .verificationFailed)).1]
      exact leaves_refl hvalid
  | cleaningFile why =>
      dsimp only
      rw [(Receiver.stepCleaningFile_cases vfs req w why).1]
      refine ⟨(B.remove_keeps _ hvalid).valid, fun p n hn hne => ?_⟩
      exact FileStore.untouched_remove hvalid hn (hne (.inr trivial)).1
  | cleaningDir why =>
      dsimp only
      rw [(Receiver.stepCleaningDir_cases vfs req w why).1]
      refine ⟨(B.remove_keeps _ hvalid).valid, fun p n hn hne => ?_⟩
      exact FileStore.untouched_remove hvalid hn (hne (.inr trivial)).2
  | done result => exact leaves_refl hvalid

/-- A session gets under way by opening its partial file. -/
theorem busy_of_step (h : (Receiver.step vfs env req w).2.phase.Busy) :
    w.phase = .opening ∨ w.phase.Busy := by
  cases hphase : w.phase with
  | creatingDir =>
      exfalso
      rw [Receiver.step, hphase] at h
      obtain ⟨-, ⟨e, -, hp⟩ | ⟨-, hp⟩⟩ := Receiver.stepCreatingDir_cases vfs req w
      · rw [hp] at h
        exact h
      · rw [hp] at h
        exact h
  | opening => exact .inl rfl
  | done result =>
      exfalso
      rw [Receiver.step, hphase] at h
      dsimp only at h
      rw [hphase] at h
      exact h
  | _ => exact .inr trivial

/-- A file is placed by moving it to a path that was a candidate, and stays there. -/
theorem placed_of_step {path : RelPath}
    (h : (Receiver.step vfs env req w).2.phase.placed? = some path) :
    w.phase.placed? = some path ∨
      ∃ sanitized attempts, w.phase = .renaming sanitized path attempts := by
  unfold Receiver.step at h
  cases hphase : w.phase with
  | «renaming» sanitized candidate attempts =>
      rw [hphase] at h
      obtain ⟨-, ⟨-, hp⟩ | ⟨e, -, ⟨why, hp⟩ | hp⟩⟩ :=
        Receiver.stepRenaming_cases vfs req w sanitized candidate attempts
      · rw [hp] at h
        obtain rfl := Option.some.inj h
        exact .inr ⟨sanitized, attempts, rfl⟩
      all_goals
        rw [hp] at h
        cases h
  | finishing candidate =>
      rw [hphase] at h
      obtain ⟨-, ⟨e, -, hp⟩ | ⟨-, hp⟩⟩ := Receiver.stepFinish_cases w (.reporting candidate)
      · rw [hp] at h
        cases h
      · rw [hp] at h
        exact .inl h
  | reporting candidate =>
      rw [hphase] at h
      obtain ⟨-, ⟨-, why, hp⟩ | ⟨-, hp⟩⟩ :=
        Receiver.stepReport_cases env req w (some candidate) (.done (.ok candidate))
      · rw [hp] at h
        cases h
      · rw [hp] at h
        exact .inl h
  | done result =>
      rw [hphase] at h
      dsimp only at h
      rw [hphase] at h
      exact .inl h
  | creatingDir =>
      rw [hphase] at h
      obtain ⟨-, ⟨e, -, hp⟩ | ⟨-, hp⟩⟩ := Receiver.stepCreatingDir_cases vfs req w <;>
        rw [hp] at h <;> cases h
  | opening =>
      rw [hphase] at h
      obtain ⟨-, ⟨e, -, hp⟩ | ⟨handle, -, hp⟩⟩ := Receiver.stepOpening_cases vfs req w <;>
        rw [hp] at h <;> cases h
  | «deriving» handle =>
      rw [hphase] at h
      cases h
  | requesting handle r k =>
      rw [hphase] at h
      obtain ⟨-, ⟨why, hp⟩ | hp | ⟨-, p, hp⟩ | ⟨count, hp⟩⟩ :=
        Receiver.stepRequesting_cases env req w handle r k <;> rw [hp] at h <;> cases h
  | receiving r =>
      rw [hphase] at h
      obtain ⟨-, ⟨-, ⟨why, hp⟩ | hp⟩ | ⟨p, -, -, hp⟩⟩ :=
        Receiver.stepReceiving_cases env req w r <;> rw [hp] at h <;> cases h
  | storing r header verified =>
      rw [hphase] at h
      obtain ⟨-, ⟨e, -, hp⟩ | ⟨-, hp⟩⟩ :=
        Receiver.stepStoring_cases vfs w r header verified <;> rw [hp] at h <;> cases h
  | syncing r header verified =>
      rw [hphase] at h
      obtain ⟨-, ⟨why, hp⟩ | ⟨r', -, hp | hp⟩⟩ :=
        Receiver.stepSyncing_cases vfs w r header verified <;> rw [hp] at h <;> cases h
  | probing sanitized candidate counter attempts =>
      rw [hphase] at h
      obtain ⟨-, ⟨why, hp⟩ | hp | ⟨next, hp⟩⟩ :=
        Receiver.stepProbing_cases vfs w sanitized candidate counter attempts <;>
        rw [hp] at h <;> cases h
  | abandoning =>
      rw [hphase] at h
      obtain ⟨-, ⟨e, -, hp⟩ | ⟨-, hp⟩⟩ := Receiver.stepFinish_cases w .reportingFailure <;>
        rw [hp] at h <;> cases h
  | reportingFailure =>
      rw [hphase] at h
      obtain ⟨-, ⟨-, why, hp⟩ | ⟨-, hp⟩⟩ :=
        Receiver.stepReport_cases env req w none (.cleaningFile .verificationFailed) <;>
        rw [hp] at h <;> cases h
  | cleaningFile why =>
      rw [hphase] at h
      obtain ⟨-, ⟨-, hp⟩ | ⟨e, -, -, why', hp⟩⟩ :=
        Receiver.stepCleaningFile_cases vfs req w why <;> rw [hp] at h <;> cases h
  | cleaningDir why =>
      rw [hphase] at h
      obtain ⟨-, e, hp⟩ := Receiver.stepCleaningDir_cases vfs req w why
      rw [hp] at h
      cases h

end Session

/-! ### All sessions -/

section World

variable {vfs : Vfs σ H} (B : FileStore vfs N) {env : ReceiveEnv} {req : ι → ReceiveRequest}
  {whole : ι → List UInt8} {w : Receivers σ H ι}

/-- The invariant of all sessions: each has its own, no two that are under way have the same
partial file, and no file was placed where a session stages its own. -/
structure Inv (req : ι → ReceiveRequest) (whole : ι → List UInt8) (w : Receivers σ H ι) :
    Prop where
  valid : B.Valid w.store
  session : ∀ i, SessionInv B (req i) (whole i) w.store (w.session i).phase
  distinct : ∀ i j, i ≠ j → (w.session i).phase.Busy → (w.session j).phase.Busy →
    Receiver.partialFile (req i) ≠ Receiver.partialFile (req j)
  placed : ∀ i path, (w.session i).phase.placed? = some path → ∀ j,
    path ≠ Receiver.partialFile (req j) ∧ path ≠ partialDirRelPath (req j).transferId

variable {B}

/-- What a session owns is its partial file, while it is under way, or the file it placed. -/
theorem ownPath_cases {req : ReceiveRequest} {phase : ReceivePhase H} {p : RelPath}
    (h : ownPath req phase = some p) :
    (phase.Busy ∧ p = Receiver.partialFile req) ∨ phase.placed? = some p := by
  unfold ownPath at h
  split at h
  case h_8 | h_9 | h_10 => exact .inr h
  case h_11 => cases h
  all_goals exact .inl ⟨trivial, (Option.some.inj h).symm⟩

omit [DecidableEq ι] in
/-- What another session owns is away from the staging area of the one that steps. -/
theorem Inv.ownPath_ne (h : Inv B req whole w) {i j : ι} (hji : j ≠ i)
    (hu : Unshared B req whole w i) {p : RelPath}
    (hp : ownPath (req j) (w.session j).phase = some p)
    (hi : (w.session i).phase = .opening ∨ (w.session i).phase.Busy) :
    p ≠ Receiver.partialFile (req i) ∧ p ≠ partialDirRelPath (req i).transferId := by
  rcases ownPath_cases hp with ⟨hbusy, rfl⟩ | hplaced
  · refine ⟨?_, partialFileRelPath_ne_partialDirRelPath _ _ _⟩
    rcases hi with hopen | hi
    · intro heq
      rw [Unshared, hopen] at hu
      exact hu.1 j hji heq hbusy
    · exact h.distinct j i hji hbusy hi
  · exact h.placed j p hplaced i

/-- The phase of a session after a step. -/
theorem phase_step (w : Receivers σ H ι) (i j : ι) :
    ((step vfs env req w i).2.session j).phase =
      if j = i then (Receiver.step vfs env (req i) (w.current i)).2.phase
      else (w.session j).phase := by
  change (Function.update w.session i (Receiver.step vfs env (req i) (w.current i)).2 j).phase = _
  by_cases hji : j = i
  · rw [if_pos hji, hji, Function.update_self]
  · rw [if_neg hji, Function.update_of_ne hji]

/-- **One step of any session keeps the invariant.** -/
theorem inv_step (hv : ∀ i, env.verifier.SoundFor (req i).contentHash (whole i)) {i : ι}
    (hu : Unshared B req whole w i) (h : Inv B req whole w) :
    Inv B req whole (step vfs env req w i).2 := by
  have hown := h.session i
  obtain ⟨hvalid', hleaves⟩ : Leaves B (req i) (w.session i).phase w.store
      (Receiver.step vfs env (req i) (w.current i)).2.store :=
    leaves_step (w := w.current i) h.valid hown
  refine ⟨hvalid', ?_, ?_, ?_⟩
  · intro j
    rw [phase_step]
    by_cases hji : j = i
    · subst hji
      rw [if_pos rfl]
      refine own_step (hv j) h.valid hown ?_
      intro hopen
      change (w.session j).phase = .opening at hopen
      rw [Unshared, hopen] at hu
      exact hu.2
    · rw [if_neg hji]
      exact (h.session j).frame fun p n hp hn =>
        hleaves p n hn (h.ownPath_ne hji hu hp)
  · have hnew : ∀ j, j ≠ i → (w.session j).phase.Busy →
        (Receiver.step vfs env (req i) (w.current i)).2.phase.Busy →
        Receiver.partialFile (req j) ≠ Receiver.partialFile (req i) := by
      intro j hji hj hi heq
      rcases busy_of_step hi with hopen | hbusy
      · change (w.session i).phase = .opening at hopen
        rw [Unshared, hopen] at hu
        exact hu.1 j hji heq hj
      · exact h.distinct j i hji hj hbusy heq
    intro j k hjk hj hk
    rw [phase_step] at hj hk
    by_cases hji : j = i
    · subst hji
      rw [if_pos rfl] at hj
      rw [if_neg hjk.symm] at hk
      exact (hnew k hjk.symm hk hj).symm
    · rw [if_neg hji] at hj
      by_cases hki : k = i
      · subst hki
        rw [if_pos rfl] at hk
        exact hnew j hji hj hk
      · rw [if_neg hki] at hk
        exact h.distinct j k hjk hj hk
  · intro j path hpath
    rw [phase_step] at hpath
    by_cases hji : j = i
    · subst hji
      rw [if_pos rfl] at hpath
      rcases placed_of_step hpath with hold | ⟨sanitized, attempts, hren⟩
      · exact h.placed j path hold
      · change (w.session j).phase = .renaming sanitized path attempts at hren
        rw [Unshared, hren] at hu
        exact hu
    · rw [if_neg hji] at hpath
      exact h.placed j path hpath

/-- A session that placed a file still owns it. -/
theorem SessionInv.placed {req : ReceiveRequest} {whole : List UInt8} {s : σ}
    {phase : ReceivePhase H} {path : RelPath} (h : SessionInv B req whole s phase)
    (hp : phase.placed? = some path) :
    ∃ n, B.Sole s path n ∧ IsItem req whole (B.data s n) := by
  unfold ReceivePhase.placed? at hp
  split at hp
  case h_4 => cases hp
  all_goals
    obtain rfl := Option.some.inj hp
    exact h

/-- A session with an open partial file is under way and owns it. -/
theorem SessionInv.handle {req : ReceiveRequest} {whole : List UInt8} {s : σ}
    {phase : ReceivePhase H} {handle : H} (h : SessionInv B req whole s phase)
    (hh : phase.handle? = some handle) :
    B.Sole s (Receiver.partialFile req) (B.node handle) := by
  unfold ReceivePhase.handle? at hh
  split at hh
  case h_6 => cases hh
  case h_1 =>
    obtain rfl := Option.some.inj hh
    exact h.1
  case h_2 | h_3 =>
    obtain rfl := Option.some.inj hh
    exact h.sole
  case h_4 | h_5 =>
    obtain rfl := Option.some.inj hh
    exact h.1.sole

omit [DecidableEq ι] in
/-- The invariant gives the property. -/
theorem Inv.verifiedInPlace (h : Inv B req whole w) : VerifiedInPlace B req whole w := by
  intro i path hpath
  obtain ⟨n, hsole, hitem⟩ := (h.session i).placed hpath
  refine ⟨n, hsole.1, hitem, ?_⟩
  intro j handle _ hhandle
  exact ((h.session j).handle hhandle).ne hsole (h.placed i path hpath j).1.symm

omit [DecidableEq ι] in
/-- Sessions that have not begun. -/
theorem inv_start {s₀ : σ} (hvalid : B.Valid s₀) (dataRecv : ι → RecvStream)
    (dataSend controlSend : ι → SendStream) :
    Inv B req whole (start s₀ dataRecv dataSend controlSend) :=
  ⟨hvalid, fun _ => trivial, fun _ _ _ h => h.elim, fun _ _ h => by cases h⟩

/-- **Placed files are verified, in every interleaving in which sessions share nothing.**
Sessions of any number, with any requests and any peers, take their steps in any order; as
long as no step opens a partial file that another session has or places a file where one
stages its own, every file that was placed is the item its session asked for and is open for
writing nowhere else. -/
theorem verifiedInPlace_run (B : FileStore vfs N)
    (hv : ∀ i, env.verifier.SoundFor (req i).contentHash (whole i)) {s₀ : σ}
    (hvalid : B.Valid s₀) (dataRecv : ι → RecvStream) (dataSend controlSend : ι → SendStream)
    {order : List ι}
    (hu : Machine.Allows (step vfs env req) (Unshared B req whole)
      (start s₀ dataRecv dataSend controlSend) order) :
    VerifiedInPlace B req whole
      (run vfs env req (start s₀ dataRecv dataSend controlSend) order) := by
  have hinv := Machine.run_invariant_of_allows (step vfs env req)
    (I := fun _ w => Inv B req whole w) (inv_start hvalid dataRecv dataSend controlSend)
    (fun _ _ _ hi h => inv_step hv hi h) hu
  exact hinv.verifiedInPlace

end World

/-! ### Two sessions of the same names -/

section Shared

/-- What the second session asks for: an item of the same transfer and item, with other
content, the text `no`. -/
def otherReq : ReceiveRequest :=
  { TwoBytes.req with
    destRelPath := ⟨"no.txt".toList, .inr (by decide)⟩
    contentHash := ⟨[0xc4, 0x58, 0xf6, 0x75, 0x5c, 0x9d, 0x2a, 0x9f, 0x81, 0xd3, 0x09, 0x1d,
      0x6b, 0x54, 0x0b, 0xc7, 0x24, 0x8f, 0xba, 0x48, 0x8c, 0x79, 0xce, 0x3d,
      0xf5, 0xbe, 0x1f, 0xcd, 0xd8, 0x4d, 0x06, 0x61], rfl⟩ }

/-- The requests of the two sessions. -/
def sharedReq (second : Bool) : ReceiveRequest :=
  bif second then otherReq else TwoBytes.req

/-- The contents their hashes stand for. -/
def sharedWhole (second : Bool) : List UInt8 :=
  bif second then [0x6e, 0x6f] else TwoBytes.whole

/-- The verifier is sound for both. -/
theorem sharedWhole_sound (i : Bool) :
    TwoBytes.env.verifier.SoundFor (sharedReq i).contentHash (sharedWhole i) := by
  cases i with
  | false => exact TwoBytes.verifier_sound
  | true =>
      intro off len slice bs h
      have hne : otherReq.contentHash ≠ TwoBytes.hash := by decide
      simp only [sharedReq, TwoBytes.env, TwoBytes.verifier, cond_true] at h
      rw [if_neg fun hc => hne hc.1] at h
      cases h

/-- Two sessions on an empty root: to the first the peer sends its item, to the second
nothing. -/
def shared (order : List Bool) : Receivers Tree ℕ Bool :=
  run PosixVfs.vfs TwoBytes.env sharedReq
    (start TwoBytes.tree (fun second => bif second then ⟨[], none⟩ else TwoBytes.peer 0)
      (fun _ => .fresh) fun _ => .fresh) order

/-- **A file is placed that was never verified.** The first session has written its item to
the partial file and not yet placed it. The second session, of the same transfer and item but
with another hash, finds a partial file as long as its own item, counts it as verified and
places it without receiving a byte. -/
theorem shared_partial_file_is_placed :
    ((shared (List.replicate 6 false ++ List.replicate 8 true)).session true).phase =
        .done (.ok otherReq.destRelPath) ∧
      PosixVfs.content (shared (List.replicate 6 false ++ List.replicate 8 true)).store
        otherReq.destRelPath = some TwoBytes.whole ∧
      ¬VerifiedInPlace PosixVfs.fileStore sharedReq sharedWhole
        (shared (List.replicate 6 false ++ List.replicate 8 true)) := by
  have hdone : ((shared (List.replicate 6 false ++ List.replicate 8 true)).session true).phase =
      .done (.ok otherReq.destRelPath) :=
    ReceivePhase.result?_eq_some.mp (by decide +kernel)
  have hcontent : PosixVfs.content (shared (List.replicate 6 false ++ List.replicate 8 true)).store
      otherReq.destRelPath = some TwoBytes.whole := by
    decide +kernel
  refine ⟨hdone, hcontent, ?_⟩
  intro hall
  obtain ⟨n, hfile, ⟨-, hitem⟩, -⟩ := hall true otherReq.destRelPath (by rw [hdone]; rfl)
  have hdata : PosixVfs.content (shared (List.replicate 6 false ++ List.replicate 8 true)).store
      otherReq.destRelPath =
      some ((shared (List.replicate 6 false ++ List.replicate 8 true)).store.data n) := by
    have hat : PosixVfs.fileAt
        (shared (List.replicate 6 false ++ List.replicate 8 true)).store otherReq.destRelPath =
        some n := hfile
    rw [PosixVfs.content, PosixVfs.fileAt_eq_some.mp hat]
  rw [hcontent] at hdata
  change (shared (List.replicate 6 false ++ List.replicate 8 true)).store.data n <+: _ at hitem
  rw [← Option.some.inj hdata] at hitem
  exact absurd hitem (by decide)

/-- The first session alone, while the second has not begun. -/
theorem verifiedInPlace_run_first :
    ((shared (List.replicate 12 false)).session false).phase = .done (.ok TwoBytes.dest) ∧
      VerifiedInPlace PosixVfs.fileStore sharedReq sharedWhole
        (shared (List.replicate 12 false)) := by
  refine ⟨ReceivePhase.result?_eq_some.mp (by decide +kernel), ?_⟩
  refine verifiedInPlace_run PosixVfs.fileStore sharedWhole_sound
    (PosixVfs.wellFormed_of_entries_nil rfl) _ _ _ ?_
  have hopening : Unshared PosixVfs.fileStore sharedReq sharedWhole (shared [false]) false := by
    refine ⟨?_, ?_⟩
    · intro j hj _
      cases j with
      | false => exact absurd rfl hj
      | true => exact id
    · intro n hn
      have hnone : PosixVfs.fileAt (shared [false]).store
          (Receiver.partialFile (sharedReq false)) = none := by
        decide +kernel
      exact absurd (hnone.symm.trans hn) nofun
  refine ⟨trivial, hopening, trivial, trivial, trivial, trivial, trivial, trivial, trivial, ?_,
    trivial, trivial, trivial⟩
  intro j
  cases j with
  | false => exact ⟨by decide +kernel, by decide +kernel⟩
  | true => exact ⟨by decide +kernel, by decide +kernel⟩

end Shared

end Receivers

end Tradr
