import Tradr.FileStore
import Tradr.ReceiveSafety

/-!
# What a Receive Leaves Behind

A receiving session works on a partial file in the staging directory and moves it into
place at the end; when it fails, it removes what it staged. Placing comes before the data
stream is closed and before the peer is told, and both of these can still fail. The cleanup
then removes a partial file that is no longer there, and the session reports an error for a
file that stays where it was placed. A session that cannot create the directory of its
partial file does not clean up either.

These are the only ways. A session is settled step by step: as long as no failure of one of
these kinds comes up, every file outside the staging directory is where it was, and once
one does, what it left behind stays.

## Main definitions

* `Receiver.LeavesNothing`: a failed session left no new file, a successful one exactly one.
* `Receiver.Undone`: the failure a step may meet is one that the cleanup makes up for.

## Main results

* `Receiver.leavesNothing_iff`: a session leaves nothing behind exactly when every step of
  it is undone.
* `Receiver.placed_file_survives_failure`: a session that fails with its file in place.
-/

namespace Tradr

/-! ### The staging directory -/

/-- A path in the staging directory of a root. -/
def InStaging (path : RelPath) : Prop :=
  path.components.head? = some partialRootName

instance (path : RelPath) : Decidable (InStaging path) :=
  inferInstanceAs (Decidable (path.components.head? = some partialRootName))

/-- A partial file lies in the staging directory. -/
theorem inStaging_partialFile (req : ReceiveRequest) : InStaging (Receiver.partialFile req) := by
  unfold InStaging Receiver.partialFile partialFileRelPath
  rw [RelPath.components_ofPlain]
  rfl

/-- So does its directory. -/
theorem inStaging_partialDir (transferId : TransferId) :
    InStaging (partialDirRelPath transferId) := by
  unfold InStaging partialDirRelPath
  rw [RelPath.components_ofPlain]
  rfl

/-- And is not the directory. -/
theorem partialFile_ne_partialDir (req : ReceiveRequest) :
    Receiver.partialFile req ≠ partialDirRelPath req.transferId :=
  partialFileRelPath_ne_partialDirRelPath _ _ _

/-! ### What stays as it was -/

namespace FileView

variable {σ N : Type*} {v : FileView σ N} {mine : RelPath} {s₀ s s' : σ}

/-- A file that was not there before. -/
def NewFile (v : FileView σ N) (s s' : σ) (path : RelPath) : Prop :=
  v.file s path = none ∧ v.file s' path ≠ none

/-- A sound state that differs from an earlier one at the paths `changed` at most, and in
the bytes of the file that was at `mine`. -/
structure Apart (v : FileView σ N) (mine : RelPath) (changed : RelPath → Prop) (s₀ s : σ) :
    Prop where
  valid : v.Valid s
  inUse : ∀ n, v.InUse s₀ n → v.InUse s n
  file : ∀ q, ¬changed q → v.file s q = v.file s₀ q
  data : ∀ n, v.InUse s₀ n → v.file s₀ mine ≠ some n → v.data s n = v.data s₀ n

/-- Nothing has changed yet. -/
theorem Apart.refl (h : v.Valid s) (mine : RelPath) (changed : RelPath → Prop) :
    v.Apart mine changed s s :=
  ⟨h, fun _ hn => hn, fun _ _ => rfl, fun _ _ _ => rfl⟩

/-- More paths may have changed. -/
theorem Apart.mono {changed changed' : RelPath → Prop} (h : v.Apart mine changed s₀ s)
    (hle : ∀ q, changed q → changed' q) : v.Apart mine changed' s₀ s :=
  ⟨h.valid, h.inUse, fun q hq => h.file q fun hc => hq (hle q hc), h.data⟩

/-- A step that writes to no file. -/
theorem Apart.keeps {changed : RelPath → Prop} (h : v.Apart mine changed s₀ s)
    (hk : v.Keeps s s') (hfile : ∀ q, ¬changed q → v.file s' q = v.file s q) :
    v.Apart mine changed s₀ s' :=
  ⟨hk.valid, fun n hn => hk.inUse n (h.inUse n hn),
    fun q hq => (hfile q hq).trans (h.file q hq),
    fun n hn hm => (hk.data n (h.inUse n hn)).trans (h.data n hn hm)⟩

/-- A step that leaves every file alone. -/
theorem Apart.same {changed : RelPath → Prop} (h : v.Apart mine changed s₀ s)
    (hs : v.Same s s') : v.Apart mine changed s₀ s' :=
  h.keeps hs.toKeeps fun q _ => congrFun hs.file q

end FileView

namespace Receiver

variable {σ H N : Type*} {vfs : Vfs σ H}

/-! ### The property and the condition -/

/-- What a session that ended this way may have left behind: after an error no new file
outside the staging directory and, when its removal was not refused, no partial file; after
a success one new file, every other one unchanged. -/
def LeavesNothing (v : FileView σ N) (req : ReceiveRequest) (s₀ s : σ) (cleaned : Prop) :
    Except TransferSessionError RelPath → Prop
  | .error _ =>
    (∀ q, ¬InStaging q → ¬v.NewFile s₀ s q) ∧ (cleaned → v.file s (partialFile req) = none)
  | .ok path =>
    (∀ q, v.NewFile s₀ s q ↔ q = path) ∧
      ∀ q n, q ≠ partialFile req → v.file s₀ q = some n → v.file s q = some n ∧
        (v.file s₀ (partialFile req) ≠ some n → v.data s n = v.data s₀ n)

/-- The calls of the cleanup succeed, should the next step be one of them. -/
def CleanupSucceeds (vfs : Vfs σ H) (req : ReceiveRequest) (w : Receiver σ H) : Prop :=
  match w.phase with
  | .cleaningFile _ =>
    (vfs.remove w.store (partialFile req)).1 = .ok () ∨
      (vfs.remove w.store (partialFile req)).1 = .error .notFound
  | .cleaningDir _ =>
    (vfs.remove w.store (partialDirRelPath req.transferId)).1 = .ok () ∨
      (vfs.remove w.store (partialDirRelPath req.transferId)).1 = .error .notFound ∨
      (vfs.remove w.store (partialDirRelPath req.transferId)).1 = .error .wrongKind
  | _ => True

/-- A failure in the next step would be made up for: the directory is created unless there
is no partial file, and once the file is placed outside the staging directory, closing the
data stream and telling the peer work. -/
def Undone (v : FileView σ N) (vfs : Vfs σ H) (env : ReceiveEnv) (req : ReceiveRequest)
    (w : Receiver σ H) : Prop :=
  match w.phase with
  | .creatingDir =>
    (∃ e, (vfs.createDir w.store (partialDirRelPath req.transferId)).1 = .error e) →
      v.file w.store (partialFile req) = none
  | .finishing path => (∃ e, w.dataSend.finish.1 = .error e) → InStaging path
  | .reporting path => ReportFails env req w (some path) → InStaging path
  | _ => True

/-! ### While nothing is left behind -/

section Invariant

variable (B : FileStore vfs N) {env : ReceiveEnv} {req : ReceiveRequest} {s₀ : σ}
  {cleaned cleaned' : Prop} {w : Receiver σ H}

/-- Only the partial file may have changed. -/
def Staged (req : ReceiveRequest) (s₀ s : σ) : Prop :=
  B.Apart (partialFile req) (· = partialFile req) s₀ s

/-- The partial file is open at the handle, and is the one that was there before or a new
one. -/
structure Holds (req : ReceiveRequest) (s₀ s : σ) (h : H) : Prop where
  staged : Staged B req s₀ s
  at_partial : B.file s (partialFile req) = some (B.node h)
  mine : B.file s₀ (partialFile req) = some (B.node h) ∨ ¬B.InUse s₀ (B.node h)

/-- The partial file was moved to a path that was free. -/
structure Placed (req : ReceiveRequest) (s₀ s : σ) (path : RelPath) : Prop where
  apart : B.Apart (partialFile req) (fun q => q = partialFile req ∨ q = path) s₀ s
  gone : B.file s (partialFile req) = none
  new : B.NewFile s₀ s path

/-- What holds in each phase while nothing is left behind. -/
def Clean (req : ReceiveRequest) (s₀ : σ) (cleaned : Prop) (s : σ) : ReceivePhase H → Prop
  | .creatingDir => B.Apart (partialFile req) (fun _ => False) s₀ s ∧ cleaned
  | .opening => B.Apart (partialFile req) (fun _ => False) s₀ s
  | .abandoning | .reportingFailure => Staged B req s₀ s
  | .deriving h | .requesting h _ _ => Holds B req s₀ s h
  | .receiving r | .storing r _ _ | .syncing r _ _ => Holds B req s₀ s r.handle
  | .probing .. | .renaming .. =>
    Staged B req s₀ s ∧ B.file s (partialFile req) ≠ none
  | .finishing path | .reporting path | .done (.ok path) => Placed B req s₀ s path
  | .cleaningFile _ => B.Apart (partialFile req) InStaging s₀ s
  | .cleaningDir _ =>
    B.Apart (partialFile req) InStaging s₀ s ∧ B.file s (partialFile req) = none
  | .done (.error _) =>
    B.Apart (partialFile req) InStaging s₀ s ∧ (cleaned → B.file s (partialFile req) = none)

variable {B}

/-- What changed so far lies in the staging directory. -/
theorem Staged.inStaging {s : σ} (h : Staged B req s₀ s) :
    B.Apart (partialFile req) InStaging s₀ s :=
  h.mono fun _ hq => hq ▸ inStaging_partialFile req

theorem Holds.same {s s' : σ} {h : H} (hh : Holds B req s₀ s h) (hs : B.Same s s') :
    Holds B req s₀ s' h :=
  ⟨hh.staged.same hs, (congrFun hs.file _).trans hh.at_partial, hh.mine⟩

theorem Holds.file_ne_none {s : σ} {h : H} (hh : Holds B req s₀ s h) :
    B.file s (partialFile req) ≠ none := by
  rw [hh.at_partial]
  exact nofun

/-- Writing at the handle writes to no other file. -/
theorem Holds.writeAt {s : σ} {h : H} (hh : Holds B req s₀ s h) (off : ℕ) (bs : List UInt8) :
    Holds B req s₀ (vfs.writeAt s h off bs).2 h := by
  obtain ⟨hvalid, hfile, hinUse, hdata⟩ := B.writeAt_file (h := h) off bs hh.staged.valid
  refine ⟨⟨hvalid, fun n hn => hinUse n (hh.staged.inUse n hn), ?_, ?_⟩, ?_, hh.mine⟩
  · intro q hq
    rw [hfile]
    exact hh.staged.file q hq
  · intro n hn hm
    have hne : n ≠ B.node h := by
      rintro rfl
      rcases hh.mine with hmine | hmine
      · exact hm hmine
      · exact hmine hn
    rw [hdata n hne]
    exact hh.staged.data n hn hm
  · rw [hfile]
    exact hh.at_partial

theorem clean_creatingDir (h : Clean B req s₀ cleaned w.store .creatingDir)
    (hu : (∃ e, (vfs.createDir w.store (partialDirRelPath req.transferId)).1 = .error e) →
      B.file w.store (partialFile req) = none) :
    Clean B req s₀ cleaned' (stepCreatingDir vfs req w).store
      (stepCreatingDir vfs req w).phase := by
  obtain ⟨hapart, -⟩ := h
  have hsame := B.createDir_same (partialDirRelPath req.transferId) hapart.valid
  obtain ⟨hs, ⟨e, he, hp⟩ | ⟨-, hp⟩⟩ := stepCreatingDir_cases vfs req w
  · rw [hs, hp]
    refine ⟨(hapart.mono fun _ => False.elim).same hsame, fun _ => ?_⟩
    exact (congrFun hsame.file _).trans (hu ⟨e, he⟩)
  · rw [hs, hp]
    exact hapart.same hsame

theorem clean_opening (h : Clean B req s₀ cleaned w.store .opening) :
    Clean B req s₀ cleaned' (stepOpening vfs req w).store (stepOpening vfs req w).phase := by
  have hstaged : Staged B req s₀ w.store := h.mono fun _ => False.elim
  have hnext : Staged B req s₀ (vfs.openWrite w.store (partialFile req)).2 :=
    hstaged.keeps (B.openWrite_keeps _ hstaged.valid)
      fun q hq => B.openWrite_other hstaged.valid hq
  obtain ⟨hs, ⟨e, -, hp⟩ | ⟨handle, hok, hp⟩⟩ := stepOpening_cases vfs req w
  · rw [hs, hp]
    exact hnext.inStaging
  · rw [hs, hp]
    have hat := B.openWrite_ok hstaged.valid hok
    refine ⟨hnext, hat, ?_⟩
    rcases B.openWrite_self hstaged.valid hat with hmine | ⟨-, hfresh, -⟩
    · exact .inl ((h.file _ not_false).symm.trans hmine)
    · exact .inr fun hin => hfresh (h.inUse _ hin)

theorem clean_requesting {handle : H} {r : ItemResumption} {k : ℕ}
    (h : Clean B req s₀ cleaned w.store (.requesting handle r k)) :
    Clean B req s₀ cleaned' (stepRequesting env req w handle r k).store
      (stepRequesting env req w handle r k).phase := by
  have hh : Holds B req s₀ w.store handle := h
  obtain ⟨hs, ⟨why, hp⟩ | hp | ⟨-, p, hp⟩ | ⟨count, hp⟩⟩ :=
    stepRequesting_cases env req w handle r k
  · rw [hs, hp]
    exact hh.staged.inStaging
  · rw [hs, hp]
    exact hh.staged
  · rw [hs, hp]
    exact ⟨hh.staged, hh.file_ne_none⟩
  · rw [hs, hp]
    exact hh

theorem clean_receiving {r : Reception H} (h : Clean B req s₀ cleaned w.store (.receiving r)) :
    Clean B req s₀ cleaned' (stepReceiving env req w r).2.store
      (stepReceiving env req w r).2.phase := by
  have hh : Holds B req s₀ w.store r.handle := h
  obtain ⟨hs, ⟨-, ⟨why, hp⟩ | hp⟩ | ⟨p, -, -, hp⟩⟩ := stepReceiving_cases env req w r
  · rw [hs, hp]
    exact hh.staged.inStaging
  · rw [hs, hp]
    exact hh
  · rw [hs, hp]
    exact hh

theorem clean_storing {r : Reception H} {header : ChunkDataHeader} {verified : List UInt8}
    (h : Clean B req s₀ cleaned w.store (.storing r header verified)) :
    Clean B req s₀ cleaned' (stepStoring vfs w r header verified).store
      (stepStoring vfs w r header verified).phase := by
  have hh : Holds B req s₀ (vfs.writeAt w.store r.handle header.offset verified).2 r.handle :=
    Holds.writeAt h header.offset verified
  obtain ⟨hs, ⟨e, -, hp⟩ | ⟨-, hp⟩⟩ := stepStoring_cases vfs w r header verified
  · rw [hs, hp]
    exact hh.staged.inStaging
  · rw [hs, hp]
    exact hh

theorem clean_syncing {r : Reception H} {header : ChunkDataHeader} {verified : List UInt8}
    (h : Clean B req s₀ cleaned w.store (.syncing r header verified)) :
    Clean B req s₀ cleaned' (stepSyncing vfs w r header verified).store
      (stepSyncing vfs w r header verified).phase := by
  have hh : Holds B req s₀ w.store r.handle := h
  have hnext := hh.same (B.sync_same r.handle hh.staged.valid)
  obtain ⟨hs, ⟨why, hp⟩ | ⟨r', -, hp | hp⟩⟩ := stepSyncing_cases vfs w r header verified
  · rw [hs, hp]
    exact hnext.staged.inStaging
  · rw [hs, hp]
    exact hnext
  · rw [hs, hp]
    exact hnext

theorem clean_probing {sanitized candidate : RelPath} {counter attempts : ℕ}
    (h : Clean B req s₀ cleaned w.store (.probing sanitized candidate counter attempts)) :
    Clean B req s₀ cleaned' (stepProbing vfs w sanitized candidate counter attempts).store
      (stepProbing vfs w sanitized candidate counter attempts).phase := by
  obtain ⟨hstaged, hfile⟩ := h
  have hsame := B.stat_same candidate hstaged.valid
  have hnext : Staged B req s₀ (vfs.stat w.store candidate).2 := hstaged.same hsame
  have hfile' : B.file (vfs.stat w.store candidate).2 (partialFile req) ≠ none := by
    rwa [hsame.file]
  obtain ⟨hs, ⟨why, hp⟩ | hp | ⟨next, hp⟩⟩ :=
    stepProbing_cases vfs w sanitized candidate counter attempts
  · rw [hs, hp]
    exact hnext.inStaging
  · rw [hs, hp]
    exact ⟨hnext, hfile'⟩
  · rw [hs, hp]
    exact ⟨hnext, hfile'⟩

theorem clean_renaming {sanitized candidate : RelPath} {attempts : ℕ}
    (h : Clean B req s₀ cleaned w.store (.renaming sanitized candidate attempts)) :
    Clean B req s₀ cleaned' (stepRenaming vfs req w sanitized candidate attempts).store
      (stepRenaming vfs req w sanitized candidate attempts).phase := by
  obtain ⟨hstaged, hfile⟩ := h
  obtain ⟨n, hn⟩ := Option.ne_none_iff_exists'.mp hfile
  obtain ⟨hs, ⟨hok, hp⟩ | ⟨e, he, hp⟩⟩ := stepRenaming_cases vfs req w sanitized candidate attempts
  · rw [hs, hp]
    obtain ⟨hkeeps, hfree, hat, hgone, hother⟩ := B.renameNoReplace_ok hstaged.valid hn hok
    have hne : candidate ≠ partialFile req := by
      rintro rfl
      exact hfile hfree
    refine ⟨(hstaged.mono fun _ => .inl).keeps hkeeps ?_, hgone, ?_, ?_⟩
    · intro q hq
      exact hother q (fun hc => hq (.inl hc)) fun hc => hq (.inr hc)
    · exact (hstaged.file _ hne).symm.trans hfree
    · rw [hat]
      exact nofun
  · have hsame := B.renameNoReplace_error hstaged.valid he
    have hnext : Staged B req s₀ (vfs.renameNoReplace w.store (partialFile req) candidate).2 :=
      hstaged.same hsame
    rw [hs]
    rcases hp with ⟨why, hp⟩ | hp
    · rw [hp]
      exact hnext.inStaging
    · rw [hp]
      refine ⟨hnext, ?_⟩
      rwa [hsame.file]

/-- A placed file is the only change outside the staging directory, and none when it was
placed inside. -/
theorem Placed.inStaging {s : σ} {path : RelPath} (h : Placed B req s₀ s path)
    (hpath : InStaging path) : B.Apart (partialFile req) InStaging s₀ s := by
  refine h.apart.mono ?_
  rintro q (rfl | rfl)
  · exact inStaging_partialFile req
  · exact hpath

theorem clean_cleaningFile {why : TransferSessionError}
    (h : Clean B req s₀ cleaned w.store (.cleaningFile why)) :
    Clean B req s₀ (cleaned ∧ ((vfs.remove w.store (partialFile req)).1 = .ok () ∨
        (vfs.remove w.store (partialFile req)).1 = .error .notFound))
      (stepCleaningFile vfs req w why).store (stepCleaningFile vfs req w why).phase := by
  have hapart : B.Apart (partialFile req) InStaging s₀ w.store := h
  have hnext : B.Apart (partialFile req) InStaging s₀ (vfs.remove w.store (partialFile req)).2 :=
    hapart.keeps (B.remove_keeps _ hapart.valid) fun q hq =>
      B.remove_other hapart.valid fun hc => hq (hc ▸ inStaging_partialFile req)
  obtain ⟨hs, ⟨hres, hp⟩ | ⟨e, he, hne, why', hp⟩⟩ := stepCleaningFile_cases vfs req w why
  · rw [hs, hp]
    exact ⟨hnext, B.remove_gone hapart.valid hres⟩
  · rw [hs, hp]
    refine ⟨hnext, ?_⟩
    rintro ⟨-, hres | hres⟩
    · rw [he] at hres
      cases hres
    · rw [he] at hres
      exact absurd (Except.error.inj hres) hne

theorem clean_cleaningDir {why : TransferSessionError}
    (h : Clean B req s₀ cleaned w.store (.cleaningDir why)) :
    Clean B req s₀ cleaned' (stepCleaningDir vfs req w why).store
      (stepCleaningDir vfs req w why).phase := by
  obtain ⟨hapart, hgone⟩ := h
  obtain ⟨hs, e, hp⟩ := stepCleaningDir_cases vfs req w why
  rw [hs, hp]
  refine ⟨hapart.keeps (B.remove_keeps _ hapart.valid) fun q hq =>
    B.remove_other hapart.valid fun hc => hq (hc ▸ inStaging_partialDir req.transferId), ?_⟩
  intro _
  rwa [B.remove_other hapart.valid (partialFile_ne_partialDir req)]

/-- **One step**: a failure that is made up for leaves nothing behind. -/
theorem clean_step (h : Clean B req s₀ cleaned w.store w.phase)
    (hu : Undone B.toFileView vfs env req w) :
    Clean B req s₀ (cleaned ∧ CleanupSucceeds vfs req w) (step vfs env req w).2.store
      (step vfs env req w).2.phase := by
  unfold step
  unfold Undone at hu
  cases hphase : w.phase with
  | creatingDir =>
      rw [hphase] at h hu
      exact clean_creatingDir h hu
  | opening =>
      rw [hphase] at h
      exact clean_opening h
  | «deriving» handle =>
      rw [hphase] at h
      have hh : Holds B req s₀ w.store handle := h
      exact hh.same (B.stat_same (partialFile req) hh.staged.valid)
  | requesting handle r k =>
      rw [hphase] at h
      exact clean_requesting h
  | receiving r =>
      rw [hphase] at h
      exact clean_receiving h
  | storing r header verified =>
      rw [hphase] at h
      exact clean_storing h
  | syncing r header verified =>
      rw [hphase] at h
      exact clean_syncing h
  | probing sanitized candidate counter attempts =>
      rw [hphase] at h
      exact clean_probing h
  | «renaming» sanitized candidate attempts =>
      rw [hphase] at h
      exact clean_renaming h
  | finishing path =>
      rw [hphase] at h hu
      obtain ⟨hs, ⟨e, he, hp⟩ | ⟨-, hp⟩⟩ := stepFinish_cases w (.reporting path)
      · rw [hs, hp]
        exact Placed.inStaging h (hu ⟨e, he⟩)
      · rw [hs, hp]
        exact h
  | reporting path =>
      rw [hphase] at h hu
      obtain ⟨hs, ⟨hfail, why, hp⟩ | ⟨-, hp⟩⟩ :=
        stepReport_cases env req w (some path) (.done (.ok path))
      · rw [hs, hp]
        exact Placed.inStaging h (hu hfail)
      · rw [hs, hp]
        exact h
  | abandoning =>
      rw [hphase] at h
      obtain ⟨hs, ⟨e, -, hp⟩ | ⟨-, hp⟩⟩ := stepFinish_cases w .reportingFailure
      · rw [hs, hp]
        exact Staged.inStaging h
      · rw [hs, hp]
        exact h
  | reportingFailure =>
      rw [hphase] at h
      obtain ⟨hs, ⟨-, why, hp⟩ | ⟨-, hp⟩⟩ :=
        stepReport_cases env req w none (.cleaningFile .verificationFailed)
      · rw [hs, hp]
        exact Staged.inStaging h
      · rw [hs, hp]
        exact Staged.inStaging h
  | cleaningFile why =>
      rw [hphase] at h
      have hnext := clean_cleaningFile h
      rw [CleanupSucceeds, hphase]
      exact hnext
  | cleaningDir why =>
      rw [hphase] at h
      exact clean_cleaningDir h
  | done result =>
      rw [hphase] at h
      dsimp only
      rw [hphase]
      cases result with
      | ok path => exact h
      | error e => exact ⟨h.1, fun hc => h.2 hc.1⟩

/-! ### Once something is left behind -/

variable (B) in
/-- A failed session has left a new file outside the staging directory, or its partial file
without a cleanup that failed. -/
def Left (req : ReceiveRequest) (s₀ : σ) (cleaned : Prop) (s : σ) : ReceivePhase H → Prop
  | .cleaningFile _ | .cleaningDir _ =>
    B.Valid s ∧ ∃ q, ¬InStaging q ∧ B.NewFile s₀ s q
  | .done (.error _) =>
    (∃ q, ¬InStaging q ∧ B.NewFile s₀ s q) ∨ (cleaned ∧ B.file s (partialFile req) ≠ none)
  | _ => False

/-- Removing a path of the staging directory leaves a file outside it. -/
theorem newFile_remove {s : σ} {p : RelPath} (hvalid : B.Valid s) (hp : InStaging p)
    (h : ∃ q, ¬InStaging q ∧ B.NewFile s₀ s q) :
    ∃ q, ¬InStaging q ∧ B.NewFile s₀ (vfs.remove s p).2 q := by
  obtain ⟨q, hq, hnone, hsome⟩ := h
  have hne : q ≠ p := by
    rintro rfl
    exact hq hp
  refine ⟨q, hq, hnone, ?_⟩
  rwa [B.remove_other hvalid hne]

/-- What was left behind stays. -/
theorem left_step (h : Left B req s₀ cleaned w.store w.phase) :
    Left B req s₀ (cleaned ∧ CleanupSucceeds vfs req w) (step vfs env req w).2.store
      (step vfs env req w).2.phase := by
  unfold step
  cases hphase : w.phase with
  | cleaningFile why =>
      rw [hphase] at h
      obtain ⟨hvalid, hnew⟩ := h
      have hnew' := newFile_remove hvalid (inStaging_partialFile req) hnew
      obtain ⟨hs, ⟨-, hp⟩ | ⟨-, -, -, why', hp⟩⟩ := stepCleaningFile_cases vfs req w why
      · rw [hs, hp]
        exact ⟨(B.remove_keeps _ hvalid).valid, hnew'⟩
      · rw [hs, hp]
        exact .inl hnew'
  | cleaningDir why =>
      rw [hphase] at h
      obtain ⟨hvalid, hnew⟩ := h
      obtain ⟨hs, e, hp⟩ := stepCleaningDir_cases vfs req w why
      rw [hs, hp]
      exact .inl (newFile_remove hvalid (inStaging_partialDir _) hnew)
  | done result =>
      rw [hphase] at h
      dsimp only
      rw [hphase]
      cases result with
      | ok path => exact h
      | error e =>
          refine h.imp id fun hc => ⟨⟨hc.1, ?_⟩, hc.2⟩
          rw [CleanupSucceeds, hphase]
          trivial
  | _ =>
      rw [hphase] at h
      exact h.elim

/-- A placed file outside the staging directory is left behind by a failure. -/
theorem Placed.left {s : σ} {path : RelPath} (h : Placed B req s₀ s path)
    (hpath : ¬InStaging path) (why : TransferSessionError) :
    Left B req s₀ cleaned s (.cleaningFile why) :=
  ⟨h.apart.valid, path, hpath, h.new⟩

/-- A failure that is not made up for leaves something behind. -/
theorem left_of_not_undone (h : Clean B req s₀ cleaned w.store w.phase)
    (hu : ¬Undone B.toFileView vfs env req w) :
    Left B req s₀ (cleaned ∧ CleanupSucceeds vfs req w) (step vfs env req w).2.store
      (step vfs env req w).2.phase := by
  unfold step
  unfold Undone at hu
  cases hphase : w.phase with
  | creatingDir =>
      rw [hphase] at h hu
      obtain ⟨⟨e, he⟩, hfile⟩ := Classical.not_imp.mp hu
      obtain ⟨hs, ⟨e', -, hp⟩ | ⟨hok, -⟩⟩ := stepCreatingDir_cases vfs req w
      · rw [hs, hp]
        refine .inr ⟨⟨h.2, ?_⟩, ?_⟩
        · rw [CleanupSucceeds, hphase]
          trivial
        · rwa [(B.createDir_same _ h.1.valid).file]
      · rw [he] at hok
        cases hok
  | finishing path =>
      rw [hphase] at h hu
      obtain ⟨⟨e, he⟩, hpath⟩ := Classical.not_imp.mp hu
      obtain ⟨hs, ⟨e', -, hp⟩ | ⟨hok, -⟩⟩ := stepFinish_cases w (.reporting path)
      · rw [hs, hp]
        exact Placed.left h hpath _
      · rw [he] at hok
        cases hok
  | reporting path =>
      rw [hphase] at h hu
      obtain ⟨hfail, hpath⟩ := Classical.not_imp.mp hu
      obtain ⟨hs, ⟨-, why, hp⟩ | ⟨hok, -⟩⟩ :=
        stepReport_cases env req w (some path) (.done (.ok path))
      · rw [hs, hp]
        exact Placed.left h hpath _
      · exact absurd hfail hok
  | _ =>
      rw [hphase] at hu
      exact absurd trivial hu

/-! ### Whole sessions -/

/-- The two ways a session can stand after a number of steps. -/
theorem clean_or_left_run (B : FileStore vfs N) (env : ReceiveEnv) (req : ReceiveRequest)
    {w : Receiver σ H} (hvalid : B.Valid w.store) (hw : w.phase = .creatingDir) (n : ℕ) :
    ((∀ k < n, Undone B.toFileView vfs env req (run vfs env req w k).2) ∧
        Clean B req w.store (∀ k < n, CleanupSucceeds vfs req (run vfs env req w k).2)
          (run vfs env req w n).2.store (run vfs env req w n).2.phase) ∨
      ((¬∀ k < n, Undone B.toFileView vfs env req (run vfs env req w k).2) ∧
        Left B req w.store (∀ k < n, CleanupSucceeds vfs req (run vfs env req w k).2)
          (run vfs env req w n).2.store (run vfs env req w n).2.phase) := by
  induction n with
  | zero =>
      refine .inl ⟨nofun, ?_⟩
      change Clean B req w.store _ w.store w.phase
      rw [hw]
      exact ⟨.refl hvalid _ _, nofun⟩
  | succ n ih =>
      rw [run_succ]
      simp only [Nat.forall_lt_succ_right]
      rcases ih with ⟨hall, hclean⟩ | ⟨hnot, hleft⟩
      · by_cases hu : Undone B.toFileView vfs env req (run vfs env req w n).2
        · exact .inl ⟨⟨hall, hu⟩, clean_step hclean hu⟩
        · exact .inr ⟨fun hc => hu hc.2, left_of_not_undone hclean hu⟩
      · exact .inr ⟨fun hc => hnot hc.1, left_step hleft⟩

/-- A session that ended while nothing was left behind. -/
theorem leavesNothing_of_clean {s : σ} {result : Except TransferSessionError RelPath}
    (hvalid : B.Valid s₀) (h : Clean B req s₀ cleaned s (.done result : ReceivePhase H)) :
    LeavesNothing B.toFileView req s₀ s cleaned result := by
  cases result with
  | error e =>
      obtain ⟨hapart, hgone⟩ := h
      refine ⟨?_, hgone⟩
      rintro q hq ⟨hnone, hsome⟩
      exact hsome ((hapart.file q hq).trans hnone)
  | ok path =>
      obtain ⟨hapart, hgone, hnew⟩ := h
      constructor
      · intro q
        constructor
        · rintro ⟨hnone, hsome⟩
          by_contra hne
          by_cases hq : q = partialFile req
          · exact hsome (hq ▸ hgone)
          · exact hsome ((hapart.file q (not_or.mpr ⟨hq, hne⟩)).trans hnone)
        · rintro rfl
          exact hnew
      · intro q n hq hn
        have hne : q ≠ path := by
          rintro rfl
          rw [hnew.1] at hn
          cases hn
        exact ⟨(hapart.file q (not_or.mpr ⟨hq, hne⟩)).trans hn, hapart.data n (B.inUse_of_file hvalid hn)⟩

/-- A session that ended with something left behind. -/
theorem not_leavesNothing_of_left {s : σ} {result : Except TransferSessionError RelPath}
    (h : Left B req s₀ cleaned s (.done result : ReceivePhase H)) :
    ¬LeavesNothing B.toFileView req s₀ s cleaned result := by
  cases result with
  | ok path => exact h.elim
  | error e =>
      rintro ⟨hnone, hgone⟩
      rcases h with ⟨q, hq, hnew⟩ | ⟨hc, hfile⟩
      · exact hnone q hq hnew
      · exact hfile (hgone hc)

/-- **A session leaves nothing behind exactly when every step of it is undone.** The failures
that are not are those of closing the data stream or telling the peer after the file was
placed, and that of creating the directory of a partial file that is already there. -/
theorem leavesNothing_iff (B : FileStore vfs N) (env : ReceiveEnv) (req : ReceiveRequest)
    {s₀ : σ} (dataRecv : RecvStream) (dataSend controlSend : SendStream) {n : ℕ}
    {result : Except TransferSessionError RelPath} (hvalid : B.Valid s₀)
    (hdone : (run vfs env req (start s₀ dataRecv dataSend controlSend) n).2.phase =
      .done result) :
    LeavesNothing B.toFileView req s₀
        (run vfs env req (start s₀ dataRecv dataSend controlSend) n).2.store
        (∀ k < n, CleanupSucceeds vfs req
          (run vfs env req (start s₀ dataRecv dataSend controlSend) k).2) result ↔
      ∀ k < n, Undone B.toFileView vfs env req
        (run vfs env req (start s₀ dataRecv dataSend controlSend) k).2 := by
  have hstart : B.Valid (start s₀ dataRecv dataSend controlSend : Receiver σ H).store := hvalid
  have hrun := clean_or_left_run B env req hstart rfl n
  rw [hdone] at hrun
  rcases hrun with ⟨hall, hclean⟩ | ⟨hnot, hleft⟩
  · exact iff_of_true (leavesNothing_of_clean hvalid hclean) hall
  · exact iff_of_false (not_leavesNothing_of_left hleft) hnot

end Invariant

/-! ### A file that stays -/

/-- The two-byte session against a data stream that takes the request and fails to close. -/
def unclosable (n : ℕ) : List ReceiveEvent × Receiver Tree ℕ :=
  run PosixVfs.vfs TwoBytes.env TwoBytes.req
    (start TwoBytes.tree (TwoBytes.peer 0) ⟨[], false, [none, some .closed]⟩ .fresh) n

theorem leavesNothing_iff_unclosable :
    (unclosable 13).2.phase = .done (.error .streamClosed) ∧
      (LeavesNothing PosixVfs.fileStore.toFileView TwoBytes.req TwoBytes.tree
          (unclosable 13).2.store
          (∀ k < 13, CleanupSucceeds PosixVfs.vfs TwoBytes.req (unclosable k).2)
          (.error .streamClosed) ↔
        ∀ k < 13, Undone PosixVfs.fileStore.toFileView PosixVfs.vfs TwoBytes.env TwoBytes.req
          (unclosable k).2) := by
  have hdone : (unclosable 13).2.phase = .done (.error .streamClosed) :=
    ReceivePhase.result?_eq_some.mp (by decide +kernel)
  exact ⟨hdone, leavesNothing_iff PosixVfs.fileStore TwoBytes.env TwoBytes.req _ _ _
    (PosixVfs.wellFormed_of_entries_nil rfl) hdone⟩

/-- **A file stays in place after a failure.** The content arrives and verifies, the file is
moved to its destination, and closing the data stream fails: the session answers with an
error, its cleanup finds no partial file, and the file is still there. -/
theorem placed_file_survives_failure :
    (unclosable 13).2.phase = .done (.error .streamClosed) ∧
      PosixVfs.fileAt TwoBytes.tree TwoBytes.dest = none ∧
      PosixVfs.content (unclosable 13).2.store TwoBytes.dest = some TwoBytes.whole ∧
      ¬LeavesNothing PosixVfs.fileStore.toFileView TwoBytes.req TwoBytes.tree
        (unclosable 13).2.store
        (∀ k < 13, CleanupSucceeds PosixVfs.vfs TwoBytes.req (unclosable k).2)
        (.error .streamClosed) := by
  have hnone : PosixVfs.fileAt TwoBytes.tree TwoBytes.dest = none := by decide
  have hsome : PosixVfs.fileAt (unclosable 13).2.store TwoBytes.dest = some 0 := by
    decide +kernel
  refine ⟨ReceivePhase.result?_eq_some.mp (by decide +kernel), hnone, by decide +kernel, ?_⟩
  rintro ⟨hnew, -⟩
  refine hnew TwoBytes.dest (by decide) ⟨hnone, ?_⟩
  exact fun hc => absurd (hsome.symm.trans hc) nofun

end Receiver

end Tradr
