import Tradr.BrowseRules
import Tradr.Posix

/-!
# The Deny List over Runs of Browse Requests

Every operation of the POSIX backend checks the deny list on the path it is given, and a
rename moves a whole directory with everything below it. That no run of requests brings a
denied file to a path the list no longer matches is an invariant of the tree: a file that
is sealed stays at paths of a class `Sealing`, which the list refuses and moves keep.

The bytes of a sealed file can be anything: no answer, listing or content depends on them,
and no file that is read is one of them.

Two kinds of path are no such class. Below the staging directory the entry of the list for
it does not count, and a pattern of two parts is cut apart by renaming the directory that
matches its first part.

## Main results

* `serveRequests_alike`: what holds for a class that moves keep, over every run.
* `sealed_files_never_leak`: patterns of one part seal, and all patterns do in runs whose
  renames keep the first parts of the others.
-/

open Fallible

namespace Tradr

/-! ### Trees that differ in the bytes of some files -/

/-- The tree with other bytes in its files. -/
def Tree.withData (t : Tree) (d : ℕ → List UInt8) : Tree :=
  { t with data := d }

namespace PosixVfs

/-- Walking reads no file. -/
theorem resolveDir_withData (t : Tree) (d : ℕ → List UInt8) (done rest : List Text) :
    resolveDir (t.withData d) done rest = resolveDir t done rest := by
  induction rest generalizing done with
  | nil => rfl
  | cons c rest ih =>
      simp only [resolveDir, ih]
      rfl

/-- Creating directories reads no file. -/
theorem mkdirs_withData (t : Tree) (d : ℕ → List UInt8) (done rest : List Text) :
    mkdirs (t.withData d) done rest =
      ((mkdirs t done rest).1, (mkdirs t done rest).2.withData d) := by
  induction rest generalizing t done with
  | nil => rfl
  | cons c rest ih =>
      have hnode : nodeAt (t.withData d) (done ++ [c]) = nodeAt t (done ++ [c]) := rfl
      unfold mkdirs
      rw [hnode]
      rcases nodeAt t (done ++ [c]) with _ | ino | _ | _ | _
      · exact ih (addEntry t (done ++ [c]) .directory) (done ++ [c])
      · rfl
      · exact ih t (done ++ [c])
      · rfl
      · rfl

/-- Creating a directory reads no file. -/
theorem createDirSync_withData (t : Tree) (d : ℕ → List UInt8) (path : RelPath) :
    createDirSync (t.withData d) path =
      ((createDirSync t path).1, (createDirSync t path).2.withData d) := by
  unfold createDirSync
  have hro : (t.withData d).readOnly = t.readOnly := rfl
  rw [hro]
  split
  · rfl
  · split
    · rfl
    · exact mkdirs_withData t d [] path.components

/-- Removing reads no file. -/
theorem removeSync_withData (t : Tree) (d : ℕ → List UInt8) (path : RelPath) :
    removeSync (t.withData d) path =
      ((removeSync t path).1, (removeSync t path).2.withData d) := by
  have hres : resolveRemove (t.withData d) path = resolveRemove t path := by
    simp only [resolveRemove, resolveDir_withData]
    rfl
  unfold removeSync
  rw [hres]
  split
  · rfl
  · rfl

/-- Creating the parent of a destination reads no file. -/
theorem makeParent_withData (t : Tree) (d : ℕ → List UInt8) (path : RelPath) :
    makeParent (t.withData d) path =
      ((makeParent t path).1, (makeParent t path).2.withData d) := by
  unfold makeParent
  split
  · rfl
  · split
    · rfl
    · exact createDirSync_withData t d _

/-- The rename system call reads no file. -/
theorem renameat_withData (t : Tree) (d : ℕ → List UInt8) (source target : List Text) :
    renameat (t.withData d) source target =
      ((renameat t source target).1, (renameat t source target).2.withData d) := by
  have hnode : nodeAt (t.withData d) = nodeAt t := rfl
  have hempty : isEmptyDir (t.withData d) target = isEmptyDir t target := rfl
  unfold renameat
  rw [hnode, hempty]
  split
  · rfl
  · split
    · rfl
    · split
      · rfl
      · rfl
      · split
        · rfl
        · rfl
      · rfl
      · rfl
      · rfl

/-- Moving reads no file. -/
theorem renameInternal_withData (t : Tree) (d : ℕ → List UInt8) (source target : RelPath)
    (mode : RenameMode) :
    renameInternal (t.withData d) source target mode =
      ((renameInternal t source target mode).1,
        (renameInternal t source target mode).2.withData d) := by
  have hfrom : resolveFrom (t.withData d) source target = resolveFrom t source target := by
    simp only [resolveFrom, resolveDir_withData]
    rfl
  unfold renameInternal
  rw [hfrom, makeParent_withData]
  split
  · rfl
  · rcases makeParent t target with ⟨e | u, t₁⟩
    · rfl
    · dsimp only
      have hdest : checkDestination (t₁.withData d) target.components mode =
          checkDestination t₁ target.components mode := by
        cases mode <;> rfl
      rw [resolveDir_withData, hdest]
      split
      · rfl
      · split
        · rfl
        · exact renameat_withData t₁ d _ _

end PosixVfs

namespace Browse

open Eff PosixVfs

/-! ### Sealed files -/

/-- A class of paths that the deny list refuses, and that allowed moves of other paths keep. -/
structure Sealing (Sealed : List Text → Prop) (Allowed : RelPath → RelPath → Prop) : Prop where
  denied : ∀ p, Sealed p → isDeniedForWrite p = true
  moved : ∀ source target : RelPath, Allowed source target →
    isDeniedForWrite source.components = false → ∀ rest, Sealed (source.components ++ rest) →
      Sealed (target.components ++ rest)

/-- The files of a set are old and lie at sealed paths only. -/
structure Guarded (S : ℕ → Prop) (Sealed : List Text → Prop) (t : Tree) : Prop where
  path : ∀ p ino, (p, Node.file ino) ∈ t.entries → S ino → Sealed p
  old : ∀ ino, S ino → ino < t.nextIno

variable {S : ℕ → Prop} {Sealed : List Text → Prop} {Allowed : RelPath → RelPath → Prop}

/-- New directories change nothing for the files of the set. -/
theorem Guarded.grows {t t' : Tree} (h : Guarded S Sealed t) (hg : Grows t t') :
    Guarded S Sealed t' := by
  refine ⟨fun p ino hmem hS => ?_, fun ino hS => ?_⟩
  · rcases hg.entries _ hmem with hold | hdir
    · exact h.path p ino hold hS
    · exact absurd hdir (by simp)
  · rw [hg.nextIno]
    exact h.old ino hS

/-- A move of a path that is not denied keeps the files of the set at sealed paths. -/
theorem Guarded.moveEntry {t : Tree} (h : Guarded S Sealed t) (hs : Sealing Sealed Allowed)
    {source target : RelPath} (hallowed : Allowed source target)
    (hdenied : isDeniedForWrite source.components = false) :
    Guarded S Sealed (moveEntry t source.components target.components) := by
  refine ⟨fun p ino hmem hS => ?_, h.old⟩
  obtain ⟨⟨q, n⟩, hq, heq⟩ := List.mem_filterMap.mp hmem
  dsimp only at heq
  split_ifs at heq with hsource htarget
  · obtain ⟨rest, rfl⟩ := hsource
    rw [List.drop_left] at heq
    obtain ⟨rfl, rfl⟩ := Prod.mk.inj (Option.some.inj heq)
    exact hs.moved source target hallowed hdenied rest (h.path _ ino hq hS)
  · exact absurd heq (by simp)
  · obtain ⟨rfl, rfl⟩ := Prod.mk.inj (Option.some.inj heq)
    exact h.path _ ino hq hS

/-- Dropping an entry changes nothing for the others. -/
theorem Guarded.eraseEntry {t : Tree} (h : Guarded S Sealed t) (path : List Text) :
    Guarded S Sealed (eraseEntry t path) := by
  refine ⟨fun p ino hmem hS => ?_, h.old⟩
  obtain ⟨⟨q, n⟩, hq, heq⟩ := List.mem_filterMap.mp hmem
  dsimp only at heq
  split_ifs at heq
  · exact absurd heq (by simp)
  · obtain ⟨rfl, rfl⟩ := Prod.mk.inj (Option.some.inj heq)
    exact h.path _ ino hq hS

/-- A path that names an entry is one of the entries. -/
theorem mem_entries_of_nodeAt {t : Tree} {p : List Text} {ino : ℕ}
    (h : nodeAt t p = some (.file ino)) : (p, Node.file ino) ∈ t.entries := by
  unfold nodeAt at h
  split_ifs at h
  · exact absurd h (by simp)
  · obtain ⟨⟨q, n⟩, hfind, rfl⟩ := Option.map_eq_some_iff.mp h
    have hq : q = p := by simpa using List.find?_some hfind
    rw [← hq]
    exact List.mem_of_find?_eq_some hfind

/-- A file at a path that is not denied is not of the set. -/
theorem Guarded.not_mem {t : Tree} (h : Guarded S Sealed t) (hs : Sealing Sealed Allowed)
    {p : List Text} {ino : ℕ} (hmem : (p, Node.file ino) ∈ t.entries)
    (hdenied : isDeniedForWrite p = false) : ¬ S ino := by
  intro hS
  have := hs.denied p (h.path p ino hmem hS)
  rw [hdenied] at this
  exact absurd this (by simp)

/-! ### Calls that do not see the bytes of the set -/

/-- A call that answers alike whatever the files of the set hold, and keeps them guarded. -/
def Blind {A : Type} (S : ℕ → Prop) (Sealed : List Text → Prop)
    (callOn : Tree → Except VfsError A × Tree) (P : A → Prop) : Prop :=
  ∀ t d, Guarded S Sealed t → (∀ ino, ¬ S ino → d ino = t.data ino) →
    ∃ d', callOn (t.withData d) = ((callOn t).1, (callOn t).2.withData d') ∧
      (∀ ino, ¬ S ino → d' ino = (callOn t).2.data ino) ∧
      Guarded S Sealed (callOn t).2 ∧ ∀ a, (callOn t).1 = .ok a → P a

/-- A call that reads no file and keeps the files guarded is blind. -/
theorem blind_of_withData {A : Type} {callOn : Tree → Except VfsError A × Tree}
    (hcall : ∀ t d, callOn (t.withData d) = ((callOn t).1, (callOn t).2.withData d))
    (hdata : ∀ t, (callOn t).2.data = t.data)
    (hguard : ∀ t, Guarded S Sealed t → Guarded S Sealed (callOn t).2) :
    Blind S Sealed callOn fun _ => True := by
  intro t d hg hd
  refine ⟨d, hcall t d, fun ino hino => ?_, hguard t hg, fun _ _ => trivial⟩
  rw [hdata]
  exact hd ino hino

theorem blind_createDir (path : RelPath) :
    Blind S Sealed (vfs.createDir · path) fun _ => True :=
  blind_of_withData (fun t d => createDirSync_withData t d path)
    (fun t => (createDirSync_grows t path).data)
    fun t hg => hg.grows (createDirSync_grows t path)

theorem blind_remove (path : RelPath) : Blind S Sealed (vfs.remove · path) fun _ => True := by
  refine blind_of_withData (fun t d => removeSync_withData t d path) (fun t => ?_) fun t hg => ?_
  · change (removeSync t path).2.data = t.data
    unfold removeSync
    split <;> rfl
  · change Guarded S Sealed (removeSync t path).2
    unfold removeSync
    split
    · exact hg
    · exact hg.eraseEntry _

theorem blind_sync (ino : ℕ) : Blind S Sealed (vfs.sync · ino) fun _ => True :=
  blind_of_withData (fun _ _ => rfl) (fun _ => rfl) fun _ hg => hg

/-- A move keeps the files of the set guarded. -/
theorem blind_renameInternal (hs : Sealing Sealed Allowed) {source target : RelPath}
    (hallowed : Allowed source target) (mode : RenameMode) :
    Blind S Sealed (renameInternal · source target mode) fun _ => True := by
  refine blind_of_withData (fun t d => renameInternal_withData t d source target mode)
    (fun t => ?_) fun t hg => ?_
  · rcases renameInternal_cases t source target mode with
      ⟨-, -, hgrow⟩ | ⟨t₁, hgrow, -, -, -, ⟨-, heq⟩ | ⟨-, heq⟩⟩
    · exact hgrow.data
    · rw [heq]
      exact hgrow.data
    · rw [heq]
      exact hgrow.data
  · rcases renameInternal_cases t source target mode with
      ⟨-, -, hgrow⟩ | ⟨t₁, hgrow, hfrom, -, -, ⟨-, heq⟩ | ⟨-, heq⟩⟩
    · exact hg.grows hgrow
    · rw [heq]
      exact hg.grows hgrow
    · rw [heq]
      exact (hg.grows hgrow).moveEntry hs hallowed (resolveFrom_ok hfrom).1

/-- A call that leaves the tree alone and answers alike is blind. -/
theorem blind_of_eq {A : Type} {P : A → Prop} {answer : Tree → Except VfsError A}
    (hanswer : ∀ t d, Guarded S Sealed t → (∀ ino, ¬ S ino → d ino = t.data ino) →
      answer (t.withData d) = answer t)
    (hP : ∀ t, Guarded S Sealed t → ∀ a, answer t = .ok a → P a) :
    Blind S Sealed (fun t => (answer t, t)) P := by
  intro t d hg hd
  exact ⟨d, Prod.ext (hanswer t d hg hd) rfl, hd, hg, hP t hg⟩

/-- The metadata of an entry whose bytes agree. -/
theorem metadataOf_withData {t : Tree} {d : ℕ → List UInt8} {n : Node}
    (h : ∀ ino, n = .file ino → d ino = t.data ino) (p : List Text) :
    metadataOf (t.withData d) p n = metadataOf t p n := by
  cases n with
  | file ino => simp only [metadataOf, Tree.withData, h ino rfl]
  | directory => rfl
  | symlink => rfl
  | special => rfl

theorem blind_stat (hs : Sealing Sealed Allowed) (path : RelPath) :
    Blind S Sealed (vfs.stat · path) fun _ => True := by
  refine blind_of_eq (fun t d hg hd => ?_) fun _ _ _ _ => trivial
  unfold statSync checkDenyList
  by_cases hdenied : isDeniedForWrite path.components = true
  · rw [if_pos hdenied]
    rfl
  · have hnode : nodeAt (t.withData d) path.components = nodeAt t path.components := rfl
    rw [if_neg hdenied, resolveDir_withData, hnode]
    rcases hn : nodeAt t path.components with _ | n
    · rfl
    · have hmeta : metadataOf (t.withData d) path.components n =
          metadataOf t path.components n := by
        refine metadataOf_withData (fun ino hino => hd ino ?_) _
        subst hino
        exact hg.not_mem hs (mem_entries_of_nodeAt hn) (by simpa using hdenied)
      dsimp only
      rw [hmeta]

theorem blind_list (hs : Sealing Sealed Allowed) (path : RelPath) :
    Blind S Sealed (vfs.list · path) fun _ => True := by
  refine blind_of_eq (fun t d hg hd => ?_) fun _ _ _ _ => trivial
  have hentries : t.entries.filterMap (listEntry (t.withData d) path.components) =
      t.entries.filterMap (listEntry t path.components) := by
    refine List.filterMap_congr fun e he => ?_
    unfold listEntry
    split_ifs with hshown
    · have hmeta : metadataOf (t.withData d) e.1 e.2 = metadataOf t e.1 e.2 := by
        refine metadataOf_withData (fun ino hino => hd ino ?_) _
        refine hg.not_mem hs (p := e.1) ?_ (by simpa using hshown.2.2)
        rw [← hino]
        exact he
      rw [hmeta]
    · rfl
  unfold listSync
  rw [resolveDir_withData]
  change (do
    checkDenyList path
    resolveDir t [] path.components
    return t.entries.filterMap (listEntry (t.withData d) path.components)) = _
  rw [hentries]

theorem blind_openRead (hs : Sealing Sealed Allowed) (path : RelPath) :
    Blind S Sealed (vfs.openRead · path) fun ino => ¬ S ino := by
  refine blind_of_eq (fun t d _ _ => ?_) fun t hg ino hino => ?_
  · simp only [openReadSync, resolveDir_withData]
    rfl
  · unfold openReadSync at hino
    obtain ⟨_, hdenied, hino⟩ := bind_eq_ok.mp hino
    split_ifs at hino
    obtain ⟨-, -, hino⟩ := bind_eq_ok.mp hino
    split at hino
    · exact absurd hino (by simp)
    · rename_i ino' hn
      obtain rfl := Except.ok.inj hino
      exact hg.not_mem hs (mem_entries_of_nodeAt hn) (checkDenyList_ok hdenied)
    · exact absurd hino (by simp)
    · exact absurd hino (by simp)

theorem blind_readAt {ino : ℕ} (hino : ¬ S ino) (off len : ℕ) :
    Blind S Sealed (vfs.readAt · ino off len) fun _ => True := by
  refine blind_of_eq (fun t d _ hd => ?_) fun _ _ _ _ => trivial
  simp only [Tree.withData, hd ino hino]

theorem blind_writeAt (ino off : ℕ) (bytes : List UInt8) :
    Blind S Sealed (vfs.writeAt · ino off bytes) fun _ => True := by
  intro t d hg hd
  refine ⟨Function.update d ino (ByteFile.overlay (d ino) off bytes), rfl, fun i hi => ?_,
    ⟨hg.path, hg.old⟩, fun _ _ => trivial⟩
  change Function.update d ino _ i = Function.update t.data ino _ i
  by_cases heq : i = ino
  · subst heq
    rw [Function.update_self, Function.update_self, hd i hi]
  · rw [Function.update_of_ne heq, Function.update_of_ne heq, hd i hi]

theorem blind_openWrite (path : RelPath) :
    Blind S Sealed (vfs.openWrite · path) fun _ => True := by
  intro t d hg hd
  have hres : resolveWrite (t.withData d) path = resolveWrite t path := by
    simp only [resolveWrite, resolveDir_withData]
    rfl
  change ∃ d', openWriteSync (t.withData d) path =
      ((openWriteSync t path).1, (openWriteSync t path).2.withData d') ∧
    (∀ ino, ¬ S ino → d' ino = (openWriteSync t path).2.data ino) ∧
    Guarded S Sealed (openWriteSync t path).2 ∧ _
  unfold openWriteSync
  rw [hres]
  split
  · exact ⟨d, rfl, hd, hg, fun _ _ => trivial⟩
  · exact ⟨d, rfl, hd, hg, fun _ _ => trivial⟩
  · refine ⟨Function.update d t.nextIno [], rfl, fun i hi => ?_, ⟨fun p ino hmem hS => ?_,
      fun ino hS => Nat.lt_succ_of_lt (hg.old ino hS)⟩, fun _ _ => trivial⟩
    · change Function.update d t.nextIno [] i = Function.update t.data t.nextIno [] i
      by_cases heq : i = t.nextIno
      · subst heq
        rw [Function.update_self, Function.update_self]
      · rw [Function.update_of_ne heq, Function.update_of_ne heq, hd i hi]
    · rcases List.mem_append.mp hmem with hold | hnew
      · exact hg.path p ino hold hS
      · have hino : ino = t.nextIno := by
          have := (Prod.mk.inj (List.mem_singleton.mp hnew)).2
          simpa using this
        exact absurd (hg.old ino hS) (by omega)

/-! ### Runs of requests -/

/-- Two worlds that differ at most in the bytes of the files of the set, which are guarded
and were not read. -/
structure Alike (S : ℕ → Prop) (Sealed : List Text → Prop) (w t : World (Recorded Tree ℕ)) :
    Prop where
  ids : w.ids = t.ids
  send : w.send = t.send
  buffer : w.buffer = t.buffer
  recv : w.recv = t.recv
  log : w.store.log = t.store.log
  tree : ∃ d, t.store.store = w.store.store.withData d ∧
    ∀ ino, ¬ S ino → d ino = w.store.store.data ino
  guarded : Guarded S Sealed w.store.store
  unread : ∀ ino off len, VfsOp.readAt ino off len ∈ w.store.log → ¬ S ino

/-- A blind call that is not recorded as a read of the set respects the relation. -/
theorem Blind.rel {A : Type} {P : A → Prop} {callOn : Tree → Except VfsError A × Tree}
    (h : Blind S Sealed callOn P) {op : Except VfsError A → VfsOp ℕ}
    (hop : ∀ r ino off len, op r = .readAt ino off len → ¬ S ino) :
    Rel (Alike S Sealed) (Alike S Sealed) (call (record List.cons op callOn)) P := by
  rintro ⟨⟨tw, log⟩, ids, send, buffer, recv⟩ ⟨⟨tt, log'⟩, ids', send', buffer', recv'⟩
    ⟨hids, hsend, hbuffer, hrecv, hlog, ⟨d, htree, hd⟩, hg, hread⟩
  dsimp only at hids hsend hbuffer hrecv hlog htree hd hg hread
  subst hids hsend hbuffer hrecv hlog htree
  obtain ⟨d', hcall, hd', hg', hP⟩ := h tw d hg hd
  have halike : Alike S Sealed
      (call (record List.cons op callOn) ⟨⟨tw, log⟩, ids, send, buffer, recv⟩).2
      (call (record List.cons op callOn) ⟨⟨tw.withData d, log⟩, ids, send, buffer, recv⟩).2 := by
    refine ⟨rfl, rfl, rfl, rfl, ?_, ⟨d', ?_, hd'⟩, hg', ?_⟩
    · simp only [call, record, hcall]
    · simp only [call, record, hcall]
    · intro ino off len hmem
      rcases List.mem_cons.mp hmem with hnew | hold
      · exact hop _ ino off len hnew.symm
      · exact hread ino off len hold
  refine ⟨?_, fun a ha => ⟨?_, halike⟩, fun _ _ => halike⟩
  · simp only [call, record, hcall]
  · refine hP a ?_
    change (callOn tw).1.mapError VfsStop.failed = .ok a at ha
    rcases hr : (callOn tw).1 with e | b
    · rw [hr] at ha
      exact absurd ha nofun
    · rw [hr] at ha
      exact congrArg Except.ok (Except.ok.inj ha)

/-- The identifiers and the sending half of alike worlds may change alike. -/
theorem Alike.update {w t : World (Recorded Tree ℕ)} (h : Alike S Sealed w t)
    (ids : List TransferId) (send : SendStream) (buffer : List UInt8) (recv : ScheduledRecv) :
    Alike S Sealed { w with ids, send, buffer, recv } { t with ids, send, buffer, recv } :=
  ⟨rfl, rfl, rfl, rfl, h.log, h.tree, h.guarded, h.unread⟩

/-- A computation outside the store does the same in alike worlds. -/
theorem Alike.rel {E A : Type} {m : Eff (World (Recorded Tree ℕ)) E A} {P : A → Prop}
    (f : List TransferId → SendStream → List UInt8 → ScheduledRecv →
      Except E A × List TransferId × SendStream × List UInt8 × ScheduledRecv)
    (hm : ∀ w, m w = ((f w.ids w.send w.buffer w.recv).1,
      { w with
        ids := (f w.ids w.send w.buffer w.recv).2.1
        send := (f w.ids w.send w.buffer w.recv).2.2.1
        buffer := (f w.ids w.send w.buffer w.recv).2.2.2.1
        recv := (f w.ids w.send w.buffer w.recv).2.2.2.2 }))
    (hP : ∀ ids send buffer recv a, (f ids send buffer recv).1 = .ok a → P a) :
    Rel (Alike S Sealed) (Alike S Sealed) m P := by
  intro w t hwt
  have hX := hwt.update (f w.ids w.send w.buffer w.recv).2.1
    (f w.ids w.send w.buffer w.recv).2.2.1 (f w.ids w.send w.buffer w.recv).2.2.2.1
    (f w.ids w.send w.buffer w.recv).2.2.2.2
  rw [hm, hm, ← hwt.ids, ← hwt.send, ← hwt.buffer, ← hwt.recv]
  exact ⟨rfl, fun a ha => ⟨hP _ _ _ _ a ha, hX⟩, fun _ _ => hX⟩

/-- A handler on the POSIX backend. -/
def posixContext (codec : ProtoBrowseCodec) (maxFrameSize : UInt32) (fuel : ℕ) :
    BrowseContext Tree ℕ :=
  ⟨codec, PosixVfs.vfs, maxFrameSize, fuel⟩

/-- Every call of the handlers does the same in alike worlds. -/
theorem respects_alike (hs : Sealing Sealed Allowed)
    (hstaging : ∀ transferId q, Allowed (partialFileRelPath transferId uploadItemId) q)
    (codec : ProtoBrowseCodec) (maxFrameSize : UInt32) (fuel : ℕ) :
    Respects ((posixContext codec maxFrameSize fuel).recorded List.cons) (Alike S Sealed)
      (fun ino => ¬ S ino) Allowed where
  list p := (blind_list hs p).rel (fun _ _ _ _ h => absurd h (by simp))
  stat p := (blind_stat hs p).rel (fun _ _ _ _ h => absurd h (by simp))
  openRead p := (blind_openRead hs p).rel (fun _ _ _ _ h => absurd h (by simp))
  readAt h off len hh := (blind_readAt hh off len).rel fun _ ino _ _ heq => by
    obtain ⟨rfl, -⟩ := VfsOp.readAt.inj heq
    exact hh
  createDir p := (blind_createDir p).rel (fun _ _ _ _ h => absurd h (by simp))
  openWrite p := (blind_openWrite p).rel (fun _ _ _ _ h => absurd h (by simp))
  sync ino := (blind_sync ino).rel (fun _ _ _ _ h => absurd h (by simp))
  rename _ _ hallowed :=
    (blind_renameInternal hs hallowed .replace).rel (fun _ _ _ _ h => absurd h (by simp))
  renameNoReplace _ _ hallowed :=
    (blind_renameInternal hs hallowed .noReplace).rel (fun _ _ _ _ h => absurd h (by simp))
  remove p := (blind_remove p).rel (fun _ _ _ _ h => absurd h (by simp))
  staging := by
    refine Alike.rel (fun ids send buffer recv =>
      ((drawStaging ids).1, (drawStaging ids).2, send, buffer, recv)) staging_eq
      fun ids send buffer recv a ha => ?_
    rcases ids with _ | ⟨i, ids⟩
    · cases ha
    · obtain rfl := Except.ok.inj ha
      exact hstaging i
  writeAll bytes :=
    Alike.rel (fun ids send buffer recv =>
      ((send.writeAll bytes).1.mapError .stream, ids, (send.writeAll bytes).2, buffer, recv))
      (fun _ => rfl) fun _ _ _ _ _ _ => trivial
  finish :=
    Alike.rel (fun ids send buffer recv =>
      (send.finish.1.mapError .stream, ids, send.finish.2, buffer, recv))
      (fun _ => rfl) fun _ _ _ _ _ _ => trivial

/-- Serving a message does the same in alike worlds. -/
theorem handleMessage_alike (hs : Sealing Sealed Allowed)
    (hstaging : ∀ transferId q, Allowed (partialFileRelPath transferId uploadItemId) q)
    (codec : ProtoBrowseCodec) (maxFrameSize : UInt32) (fuel : ℕ) {msg : BrowseMessage}
    (hallowed : ∀ req, msg = .rename req → Allowed req.source req.target) :
    Rel (Alike S Sealed) (Alike S Sealed)
      (handleMessage ((posixContext codec maxFrameSize fuel).recorded List.cons) msg)
      fun _ => True := by
  have hr : Respects ((posixContext codec maxFrameSize fuel).recorded List.cons)
    (Alike S Sealed) (fun ino => ¬ S ino) Allowed :=
    respects_alike hs hstaging codec maxFrameSize fuel
  refine handleMessage_rel hr hr (fun _ _ h => h)
    (receiveContent_rel (fun _ _ h => h.buffer) (fun room => ?_) (fun n => ?_)
      fun writer off bytes => ?_) hallowed
  · exact Alike.rel (fun ids send buffer recv =>
      ((recv.read room).1.mapError .stream, ids, send, buffer, (recv.read room).2))
      (fun _ => rfl) fun _ _ _ _ _ _ => trivial
  · exact Alike.rel (fun ids send buffer recv => (.ok (), ids, send, buffer.drop n, recv))
      (fun _ => rfl) fun _ _ _ _ _ _ => trivial
  · exact (blind_writeAt writer off bytes).rel (fun _ _ _ _ h => absurd h (by simp))

/-- A request with the stream it arrives on. -/
structure Request where
  msg : BrowseMessage
  send : SendStream
  buffer : List UInt8
  recv : ScheduledRecv

/-- Serve requests one after the other on one root: for each its result and the bytes
written in response, and at the end the store and the identifiers that are left. -/
def serveRequests {σ H : Type} (ctx : BrowseContext σ H) :
    List Request → σ × List TransferId →
      List (Except BrowseFailure Unit × List UInt8) × σ × List TransferId
  | [], s => ([], s)
  | r :: rs, s =>
    let out := handleMessage ctx r.msg ⟨s.1, s.2, r.send, r.buffer, r.recv⟩
    let rest := serveRequests ctx rs (out.2.store, out.2.ids)
    ((out.1, out.2.send.written) :: rest.1, rest.2)

/-- Over every run of requests with allowed renames: two roots that differ in the bytes of
guarded files answer alike, and these files are not read. -/
theorem serveRequests_alike (hs : Sealing Sealed Allowed)
    (hstaging : ∀ transferId q, Allowed (partialFileRelPath transferId uploadItemId) q)
    (codec : ProtoBrowseCodec) (maxFrameSize : UInt32) (fuel : ℕ) {reqs : List Request}
    (hallowed : ∀ r ∈ reqs, ∀ req, r.msg = .rename req → Allowed req.source req.target)
    (s s' : Recorded Tree ℕ) (ids : List TransferId) (hlog : s.log = s'.log)
    (htree : ∃ d, s'.store = s.store.withData d ∧ ∀ ino, ¬ S ino → d ino = s.store.data ino)
    (hg : Guarded S Sealed s.store)
    (hread : ∀ ino off len, VfsOp.readAt ino off len ∈ s.log → ¬ S ino) :
    (serveRequests ((posixContext codec maxFrameSize fuel).recorded List.cons) reqs
        (s, ids)).1 =
        (serveRequests ((posixContext codec maxFrameSize fuel).recorded List.cons) reqs
          (s', ids)).1 ∧
      ∀ ino off len, VfsOp.readAt ino off len ∈
          (serveRequests ((posixContext codec maxFrameSize fuel).recorded List.cons) reqs
            (s, ids)).2.1.log → ¬ S ino := by
  induction reqs generalizing s s' ids with
  | nil => exact ⟨rfl, hread⟩
  | cons r reqs ih =>
      have hrel := handleMessage_alike (S := S) hs hstaging codec maxFrameSize fuel
        (hallowed r (by simp))
      have halike : Alike S Sealed ⟨s, ids, r.send, r.buffer, r.recv⟩
          ⟨s', ids, r.send, r.buffer, r.recv⟩ :=
        ⟨rfl, rfl, rfl, rfl, hlog, htree, hg, hread⟩
      obtain ⟨hfst, -⟩ := hrel _ _ halike
      obtain ⟨hids, hsend, -, -, hlog', htree', hg', hread'⟩ := hrel.after halike
      obtain ⟨h1, h2⟩ := ih (fun r' hr' => hallowed r' (by simp [hr'])) _ _ _ hlog' htree' hg'
        hread'
      refine ⟨?_, h2⟩
      simp only [serveRequests]
      rw [hfst, hsend, h1, hids]

/-! ### The patterns of the deny list -/

/-- A path that a pattern of one part matches, the staging directory's left out. -/
def MatchesOnePart (p : List Text) : Prop :=
  ∃ pattern ∈ denyPatterns, isPartialPattern pattern = false ∧ pattern.length = 1 ∧
    patternMatchesRun pattern p = true

/-- A path that a pattern matches, the staging directory's left out. -/
def MatchesPattern (p : List Text) : Prop :=
  ∃ pattern ∈ denyPatterns, isPartialPattern pattern = false ∧
    patternMatchesRun pattern p = true

/-- A path that a pattern matches is denied for every operation. -/
theorem MatchesPattern.denied {p : List Text} (h : MatchesPattern p) :
    isDeniedForWrite p = true := by
  obtain ⟨pattern, hmem, hother, hmatch⟩ := h
  by_contra hdenied
  rw [not_matches_of_isDeniedForWrite (by simpa using hdenied) hmem hother] at hmatch
  exact absurd hmatch (by simp)

/-- No move of a path that may be touched takes a component from below it, so that the
patterns of one part seal. -/
theorem sealing_matchesOnePart : Sealing MatchesOnePart fun _ _ => True where
  denied := by
    rintro p ⟨pattern, hmem, hother, -, hmatch⟩
    exact MatchesPattern.denied ⟨pattern, hmem, hother, hmatch⟩
  moved := by
    rintro source target - hdenied rest ⟨pattern, hmem, hother, hone, hmatch⟩
    exact ⟨pattern, hmem, hother, hone, patternMatchesRun_moved hmem
      (not_matches_of_isDeniedForWrite hdenied hmem hother) (.inl hone) hmatch⟩

/-- Under moves that keep the first parts of the patterns of two parts, all patterns
seal. -/
theorem sealing_matchesPattern :
    Sealing MatchesPattern fun p q => KeepsRuns p.components q.components where
  denied _ h := h.denied
  moved := by
    rintro source target hkeeps hdenied rest ⟨pattern, hmem, hother, hmatch⟩
    exact ⟨pattern, hmem, hother, patternMatchesRun_moved hmem
      (not_matches_of_isDeniedForWrite hdenied hmem hother) (.inr hkeeps) hmatch⟩

/-- A staged upload starts no pattern of two parts. -/
theorem keepsRuns_staging (transferId : TransferId) (target : List Text) :
    KeepsRuns (partialFileRelPath transferId uploadItemId).components target := by
  intro a b hmem c hc hmatch
  rw [partialFileRelPath, RelPath.components_ofPlain] at hc
  obtain rfl : c = uploadItemId.value := by simpa using hc.symm
  have hfirst : ∀ pattern ∈ denyPatterns, pattern.length = 2 →
      (pattern.head?.any fun a => partMatches a uploadItemId.value) = false := by
    decide
  have := hfirst _ hmem rfl
  simp [hmatch] at this

/-- A file of the tree all of whose paths are of the class. -/
def SealedIn (t : Tree) (Sealed : List Text → Prop) (ino : ℕ) : Prop :=
  (∃ p, (p, Node.file ino) ∈ t.entries) ∧ ∀ p, (p, Node.file ino) ∈ t.entries → Sealed p

/-- The requests, served on the tree by a handler with these parameters, never read a file
sealed in it, and their responses are the same whatever the sealed files hold. -/
def NeverLeaks (Sealed : List Text → Prop) (t : Tree) (reqs : List Request)
    (ctx : BrowseContext Tree ℕ) (ids : List TransferId) : Prop :=
  (∀ ino off len, VfsOp.readAt ino off len ∈
      (serveRequests (ctx.recorded List.cons) reqs (⟨t, []⟩, ids)).2.1.log →
        ¬ SealedIn t Sealed ino) ∧
    ∀ d, (∀ ino, ¬ SealedIn t Sealed ino → d ino = t.data ino) →
      (serveRequests (ctx.recorded List.cons) reqs (⟨t.withData d, []⟩, ids)).1 =
        (serveRequests (ctx.recorded List.cons) reqs (⟨t, []⟩, ids)).1

/-- A class that allowed moves keep never leaks. -/
theorem neverLeaks_of_sealing (hs : Sealing Sealed Allowed)
    (hstaging : ∀ transferId q, Allowed (partialFileRelPath transferId uploadItemId) q)
    {t : Tree} (hfresh : ∀ p ino, (p, Node.file ino) ∈ t.entries → ino < t.nextIno)
    {reqs : List Request}
    (hallowed : ∀ r ∈ reqs, ∀ req, r.msg = .rename req → Allowed req.source req.target)
    (codec : ProtoBrowseCodec) (maxFrameSize : UInt32) (fuel : ℕ) (ids : List TransferId) :
    NeverLeaks Sealed t reqs (posixContext codec maxFrameSize fuel) ids := by
  have hg : Guarded (SealedIn t Sealed) Sealed t := by
    refine ⟨fun p ino hmem hS => hS.2 p hmem, ?_⟩
    rintro ino ⟨⟨p, hmem⟩, -⟩
    exact hfresh p ino hmem
  have halike := fun (d : ℕ → List UInt8)
      (hd : ∀ ino, ¬ SealedIn t Sealed ino → d ino = t.data ino) =>
    serveRequests_alike hs hstaging codec maxFrameSize fuel hallowed ⟨t, []⟩
      ⟨t.withData d, []⟩ ids rfl ⟨d, rfl, hd⟩ hg (by simp)
  exact ⟨(halike t.data fun _ _ => rfl).2, fun d hd => (halike d hd).1.symm⟩

/-- **No run of requests leaks a file the deny list seals.** For every tree, every run of
requests and every handler, a file whose paths all match a pattern of one part other than
the staging directory's is never read, and no response depends on its bytes; and the same
holds for the patterns of two parts, if each rename of a path that matches a first part
gives it a name that does. -/
theorem sealed_files_never_leak {t : Tree}
    (hfresh : ∀ p ino, (p, Node.file ino) ∈ t.entries → ino < t.nextIno)
    (reqs : List Request) (codec : ProtoBrowseCodec) (maxFrameSize : UInt32) (fuel : ℕ)
    (ids : List TransferId) :
    NeverLeaks MatchesOnePart t reqs (posixContext codec maxFrameSize fuel) ids ∧
      ((∀ r ∈ reqs, ∀ req, r.msg = .rename req →
          KeepsRuns req.source.components req.target.components) →
        NeverLeaks MatchesPattern t reqs (posixContext codec maxFrameSize fuel) ids) := by
  refine ⟨?_, fun hkeeps => ?_⟩
  · exact neverLeaks_of_sealing sealing_matchesOnePart (fun _ _ => trivial) hfresh
      (fun _ _ _ _ => trivial) codec maxFrameSize fuel ids
  · exact neverLeaks_of_sealing sealing_matchesPattern
      (fun transferId q => keepsRuns_staging transferId q.components) hfresh hkeeps codec
      maxFrameSize fuel ids

/-! ### A root with denied files -/

namespace DeniedFiles

/-- A root with a denied file for each kind of pattern: by one part, by two parts, and
below the staging directory. -/
def tree : Tree where
  entries :=
    [([".ssh".toList], .directory),
      ([".ssh".toList, "id".toList], .file 0),
      ([".docker".toList], .directory),
      ([".docker".toList, "config.json".toList], .file 1),
      ([".tradr-partial".toList], .directory),
      ([".tradr-partial".toList, "t".toList], .directory),
      ([".tradr-partial".toList, "t".toList, "f".toList], .file 2)]
  data ino := [0x73, UInt8.ofNat ino]
  nextIno := 3
  modified _ := 0
  readOnly := false

/-- The share the requests name. -/
def shareId : ShareId := .sample

/-- The protobuf layer on the responses to these requests: the head of a small file's
content, a refusal, and an acknowledgement, whose one field is empty. -/
def proto : BrowseProto where
  listDir := ⟨fun _ => [], fun _ => none⟩
  dirListing := ⟨fun _ => [], fun _ => none⟩
  stat := ⟨fun _ => [], fun _ => none⟩
  statResult := ⟨fun _ => [], fun _ => none⟩
  readFile := ⟨fun _ => [], fun _ => none⟩
  readFileBegin :=
    ⟨fun m => [0x08, UInt8.ofNat m.totalSize, 0x12, 32] ++ m.contentHash ++
      [0x18, 0x80, 0x80, 0x04], fun _ => none⟩
  writeFile := ⟨fun _ => [], fun _ => none⟩
  mkdir := ⟨fun _ => [], fun _ => none⟩
  delete := ⟨fun _ => [], fun _ => none⟩
  rename := ⟨fun _ => [], fun _ => none⟩
  ack := ⟨fun _ => [], fun _ => none⟩
  refused := ⟨fun m => [0x10, UInt8.ofNat m.reason.toNat], fun _ => none⟩

/-- A handler of the root. -/
def context : BrowseContext Tree ℕ :=
  posixContext ⟨proto, 512⟩ 512 4

/-- A request on a stream of its own. -/
def request (msg : BrowseMessage) : Request :=
  ⟨msg, .fresh, [], ⟨⟨[], none⟩, []⟩⟩

/-- Read a whole file. -/
def readWhole (path : RelPath) : Request :=
  request (.readFile ⟨shareId, path, 0, 0⟩)

/-- Rename the directory that starts the pattern of two parts, and read the file below it
and the one below the staging directory; and try the file that one part denies. -/
def requests : List Request :=
  [request (.rename ⟨shareId, ⟨".docker".toList, .inr (by decide)⟩, ⟨"d".toList, .inr (by decide)⟩⟩),
    readWhole ⟨"d/config.json".toList, .inr (by decide)⟩,
    readWhole ⟨".tradr-partial/t/f".toList, .inr (by decide)⟩,
    readWhole ⟨".ssh/id".toList, .inr (by decide)⟩]

/-- The responses and the calls made. -/
def served : List (Except BrowseFailure Unit × List UInt8) × Recorded Tree ℕ × List TransferId :=
  serveRequests (context.recorded List.cons) requests (⟨tree, []⟩, [])

end DeniedFiles

/-- The file that one part denies is not read, whatever else is. -/
theorem sealed_files_never_leak_ssh :
    (∀ off len, VfsOp.readAt 0 off len ∉ DeniedFiles.served.2.1.log) ∧
      DeniedFiles.served.1.getLast? = some (.error (.refused .notAllowed), []) := by
  have hfresh : ∀ p ino, (p, Node.file ino) ∈ DeniedFiles.tree.entries →
      ino < DeniedFiles.tree.nextIno := by
    intro p ino h
    simp [DeniedFiles.tree] at h ⊢
    omega
  have hsealed : SealedIn DeniedFiles.tree MatchesOnePart 0 := by
    refine ⟨⟨[".ssh".toList, "id".toList], by simp [DeniedFiles.tree]⟩, fun p hmem => ?_⟩
    obtain rfl : p = [".ssh".toList, "id".toList] := by simpa [DeniedFiles.tree] using hmem
    exact ⟨[.exact ".ssh".toList], by decide, by decide, by decide, by decide⟩
  obtain ⟨⟨hread, -⟩, -⟩ := sealed_files_never_leak hfresh DeniedFiles.requests
    ⟨DeniedFiles.proto, 512⟩ 512 4 []
  exact ⟨fun off len hmem => hread 0 off len hmem hsealed, by decide +kernel⟩

/-- The deny list matches the paths of both files in the first tree, and the responses
carry their bytes. -/
theorem denied_bytes_are_sent :
    isDenied [".docker".toList, "config.json".toList] = true ∧
      isDenied [".tradr-partial".toList, "t".toList, "f".toList] = true ∧
      (∃ response, DeniedFiles.served.1[1]? = some (.ok (), response) ∧
        [0x73, 1] <:+ response) ∧
      ∃ response, DeniedFiles.served.1[2]? = some (.ok (), response) ∧
        [0x73, 2] <:+ response := by
  refine ⟨by decide, by decide, ?_, ?_⟩
  · exact ⟨(DeniedFiles.served.1.map Prod.snd).getD 1 [], by decide +kernel, by decide +kernel⟩
  · exact ⟨(DeniedFiles.served.1.map Prod.snd).getD 2 [], by decide +kernel, by decide +kernel⟩

end Browse

end Tradr
