import Tradr.Posix

/-!
# Files behind Paths

`FileStore` says what a filesystem does to the files of a root, as files rather than as
the bytes at a path: which file is at a path, what it holds, and which file an open handle
refers to. A handle stays with its file when the file is moved. A failed call leaves the
files alone, except that an open that failed may have created its file and a write that
failed may have written a front part.

The POSIX backend is a `FileStore` on trees whose entries all lie in directories.

## Main results

* `PosixVfs.fileStore`: the backend handles files as a `FileStore` does.
-/

namespace Tradr

/-- What a state of a store shows of its files: whether the state is sound, which files
were ever created, which one is at a path, and what it holds. -/
structure FileView (σ N : Type*) where
  Valid : σ → Prop
  InUse : σ → N → Prop
  file : σ → RelPath → Option N
  data : σ → N → List UInt8
  inUse_of_file : ∀ {s p n}, Valid s → file s p = some n → InUse s n

namespace FileView

variable {σ N : Type*} (v : FileView σ N)

/-- A sound state in which every file that was there is still in use and holds what it
held. -/
structure Keeps (s s' : σ) : Prop where
  valid : v.Valid s'
  inUse : ∀ n, v.InUse s n → v.InUse s' n
  data : ∀ n, v.InUse s n → v.data s' n = v.data s n

/-- The same, with every file where it was. -/
structure Same (s s' : σ) : Prop extends v.Keeps s s' where
  file : v.file s' = v.file s

variable {v} {s s' s'' : σ}

theorem Keeps.trans (h : v.Keeps s s') (h' : v.Keeps s' s'') : v.Keeps s s'' where
  valid := h'.valid
  inUse n hn := h'.inUse n (h.inUse n hn)
  data n hn := (h'.data n (h.inUse n hn)).trans (h.data n hn)

theorem Same.refl (h : v.Valid s) : v.Same s s where
  valid := h
  inUse _ hn := hn
  data _ _ := rfl
  file := rfl

theorem Same.trans (h : v.Same s s') (h' : v.Same s' s'') : v.Same s s'' where
  toKeeps := h.toKeeps.trans h'.toKeeps
  file := h'.file.trans h.file

end FileView

/-- A store of files that are reached by paths and by handles. -/
structure FileStore {σ H : Type*} (vfs : Vfs σ H) (N : Type*) extends FileView σ N where
  node : H → N
  stat_same : ∀ {s} p, Valid s → toFileView.Same s (vfs.stat s p).2
  stat_size : ∀ {s p n m}, Valid s → file s p = some n → (vfs.stat s p).1 = .ok m →
    m.sizeBytes = (data s n).length
  createDir_same : ∀ {s} p, Valid s → toFileView.Same s (vfs.createDir s p).2
  openWrite_keeps : ∀ {s} p, Valid s → toFileView.Keeps s (vfs.openWrite s p).2
  openWrite_other : ∀ {s p q}, Valid s → q ≠ p → file (vfs.openWrite s p).2 q = file s q
  openWrite_self : ∀ {s p n}, Valid s → file (vfs.openWrite s p).2 p = some n →
    file s p = some n ∨
      file s p = none ∧ ¬InUse s n ∧ data (vfs.openWrite s p).2 n = []
  openWrite_ok : ∀ {s p h}, Valid s → (vfs.openWrite s p).1 = .ok h →
    file (vfs.openWrite s p).2 p = some (node h)
  writeAt_file : ∀ {s h} off bs, Valid s → Valid (vfs.writeAt s h off bs).2 ∧
    file (vfs.writeAt s h off bs).2 = file s ∧
    (∀ n, InUse s n → InUse (vfs.writeAt s h off bs).2 n) ∧
    ∀ n, n ≠ node h → data (vfs.writeAt s h off bs).2 n = data s n
  writeAt_ok : ∀ {s h off bs}, Valid s → (vfs.writeAt s h off bs).1 = .ok () →
    data (vfs.writeAt s h off bs).2 (node h) = ByteFile.overlay (data s (node h)) off bs
  sync_same : ∀ {s} h, Valid s → toFileView.Same s (vfs.sync s h).2
  renameNoReplace_ok : ∀ {s p q n}, Valid s → file s p = some n →
    (vfs.renameNoReplace s p q).1 = .ok () →
    toFileView.Keeps s (vfs.renameNoReplace s p q).2 ∧ file s q = none ∧
      file (vfs.renameNoReplace s p q).2 q = some n ∧
      file (vfs.renameNoReplace s p q).2 p = none ∧
      ∀ r, r ≠ p → r ≠ q → file (vfs.renameNoReplace s p q).2 r = file s r
  renameNoReplace_error : ∀ {s p q e}, Valid s → (vfs.renameNoReplace s p q).1 = .error e →
    toFileView.Same s (vfs.renameNoReplace s p q).2
  remove_keeps : ∀ {s} p, Valid s → toFileView.Keeps s (vfs.remove s p).2
  remove_other : ∀ {s p q}, Valid s → q ≠ p → file (vfs.remove s p).2 q = file s q
  remove_self : ∀ {s} p, Valid s →
    file (vfs.remove s p).2 p = none ∨ file (vfs.remove s p).2 p = file s p
  remove_gone : ∀ {s p}, Valid s →
    (vfs.remove s p).1 = .ok () ∨ (vfs.remove s p).1 = .error .notFound →
    file (vfs.remove s p).2 p = none

namespace PosixVfs

/-- A tree whose entries all lie in directories, and whose files have numbers that were
given out. -/
structure WellFormed (t : Tree) : Prop where
  parent : ∀ p n, nodeAt t p = some n → p ≠ [] → nodeAt t p.dropLast = some .directory
  inode : ∀ p ino, nodeAt t p = some (.file ino) → ino < t.nextIno

/-- An empty root is well formed. -/
theorem wellFormed_of_entries_nil {t : Tree} (h : t.entries = []) : WellFormed t := by
  have hnode : ∀ p, p ≠ [] → nodeAt t p = none := by
    intro p hp
    rw [nodeAt, if_neg hp, h]
    rfl
  constructor
  · intro p n hp hne
    rw [hnode p hne] at hp
    cases hp
  · intro p ino hp
    by_cases hne : p = []
    · rw [hne, nodeAt, if_pos rfl] at hp
      cases hp
    · rw [hnode p hne] at hp
      cases hp

/-- The file at a path. -/
def fileAt (t : Tree) (path : RelPath) : Option ℕ :=
  match nodeAt t path.components with
  | some (.file ino) => some ino
  | _ => none

theorem fileAt_eq_some {t : Tree} {path : RelPath} {ino : ℕ} :
    fileAt t path = some ino ↔ nodeAt t path.components = some (.file ino) := by
  unfold fileAt
  split
  · rename_i h
    rw [h, Option.some_inj, Option.some_inj, Node.file.injEq]
  · rename_i h
    constructor
    · exact nofun
    · exact fun hn => absurd hn (h ino)

/-- Equal entries at a path are equal files. -/
theorem fileAt_congr {t t' : Tree} {path : RelPath}
    (h : nodeAt t' path.components = nodeAt t path.components) :
    fileAt t' path = fileAt t path := by
  unfold fileAt
  rw [h]

/-- An entry below a path is one of a directory. -/
theorem WellFormed.directory_of_prefix {t : Tree} (h : WellFormed t) {p q : List Text} {n : Node}
    (hq : nodeAt t q = some n) (hpre : p <+: q) (hne : p ≠ q) :
    nodeAt t p = some .directory := by
  induction q using List.reverseRecOn generalizing n with
  | nil => exact absurd (List.prefix_nil.mp hpre) hne
  | append_singleton q c ih =>
      have hparent := h.parent _ n hq (by simp)
      rw [List.dropLast_concat] at hparent
      rcases List.prefix_concat_iff.mp hpre with heq | hpre'
      · exact absurd heq (by simpa using hne)
      · by_cases hpq : p = q
        · rw [hpq, hparent]
        · exact ih hparent hpre' hpq

/-- A new entry in a directory. -/
theorem WellFormed.addEntry {t : Tree} (h : WellFormed t) {p : List Text} {n : Node}
    (hparent : nodeAt t p.dropLast = some .directory) (hnode : ∀ ino, n = .file ino → False) :
    WellFormed (addEntry t p n) := by
  constructor
  · intro q m hq hne
    rw [nodeAt_addEntry, Option.or_eq_some_iff] at hq
    rw [nodeAt_addEntry, Option.or_eq_some_iff]
    rcases hq with hq | ⟨-, hq⟩
    · exact .inl (h.parent q m hq hne)
    · split_ifs at hq with hpq
      exact .inl (hpq ▸ hparent)
  · intro q ino hq
    rw [nodeAt_addEntry, Option.or_eq_some_iff] at hq
    rcases hq with hq | ⟨-, hq⟩
    · exact h.inode q ino hq
    · split_ifs at hq
      exact (hnode ino (Option.some.inj hq)).elim

/-- Creating missing directories below a directory. -/
theorem WellFormed.mkdirs {t : Tree} (h : WellFormed t) {done : List Text} (rest : List Text)
    (hdone : nodeAt t done = some .directory) : WellFormed (mkdirs t done rest).2 := by
  induction rest generalizing t done with
  | nil => exact h
  | cons c rest ih =>
      unfold PosixVfs.mkdirs
      split
      · rename_i hnone
        refine ih (h.addEntry (by rwa [List.dropLast_concat]) (by simp)) ?_
        rw [nodeAt_addEntry, hnone]
        simp
      · rename_i hdir
        exact ih h hdir
      · exact h
      · exact h

theorem nodeAt_nil (t : Tree) : nodeAt t [] = some .directory := rfl

theorem WellFormed.createDirSync {t : Tree} (h : WellFormed t) (path : RelPath) :
    WellFormed (createDirSync t path).2 := by
  unfold PosixVfs.createDirSync
  split_ifs
  · exact h
  · split
    · exact h
    · exact h.mkdirs _ (nodeAt_nil t)

theorem WellFormed.makeParent {t : Tree} (h : WellFormed t) (path : RelPath) :
    WellFormed (makeParent t path).2 := by
  unfold PosixVfs.makeParent
  split_ifs
  · exact h
  · split
    · exact h
    · exact h.createDirSync _

/-- A walk that succeeds ends in a directory. -/
theorem nodeAt_of_resolveDir {t : Tree} {p : List Text} (h : resolveDir t [] p = .ok ()) :
    nodeAt t p = some .directory := by
  by_cases hp : p = []
  · rw [hp]
    exact nodeAt_nil t
  · simpa using resolveDir_directory h List.prefix_rfl hp

/-- A file that is created for writing lies in a directory. -/
theorem resolveWrite_none {t : Tree} {path : RelPath} (h : resolveWrite t path = .ok none) :
    nodeAt t path.components = none ∧
      nodeAt t path.components.dropLast = some .directory := by
  unfold resolveWrite at h
  by_cases h0 : t.readOnly = true
  · rw [if_pos h0] at h
    cases h
  rw [if_neg h0] at h
  obtain ⟨-, -, h⟩ := Fallible.bind_eq_ok.mp h
  by_cases h1 : path.value = []
  · rw [if_pos h1] at h
    cases h
  rw [if_neg h1] at h
  obtain ⟨_, hdir, h⟩ := Fallible.bind_eq_ok.mp h
  refine ⟨?_, nodeAt_of_resolveDir hdir⟩
  split at h
  · assumption
  · cases Except.ok.inj h
  · cases h
  · cases h

theorem WellFormed.openWriteSync {t : Tree} (h : WellFormed t) (path : RelPath) :
    WellFormed (openWriteSync t path).2 := by
  unfold PosixVfs.openWriteSync
  split
  · exact h
  · exact h
  · rename_i hnone
    obtain ⟨hfree, hparent⟩ := resolveWrite_none hnone
    constructor
    · intro q m hq hne
      change nodeAt (PosixVfs.addEntry t path.components (.file t.nextIno)) q = some m at hq
      change nodeAt (PosixVfs.addEntry t path.components (.file t.nextIno)) q.dropLast = _
      rw [nodeAt_addEntry, Option.or_eq_some_iff] at hq ⊢
      rcases hq with hq | ⟨-, hq⟩
      · exact .inl (h.parent q m hq hne)
      · split_ifs at hq with hpq
        exact .inl (hpq ▸ hparent)
    · intro q ino hq
      change nodeAt (PosixVfs.addEntry t path.components (.file t.nextIno)) q = _ at hq
      rw [nodeAt_addEntry, Option.or_eq_some_iff] at hq
      rcases hq with hq | ⟨-, hq⟩
      · exact Nat.lt_succ_of_lt (h.inode q ino hq)
      · split_ifs at hq
        obtain rfl := Node.file.inj (Option.some.inj hq)
        exact Nat.lt_succ_self _

/-- What is removed is a file, or a directory without entries. -/
theorem resolveRemove_ok {t : Tree} {path : RelPath} (h : resolveRemove t path = .ok ()) :
    path.components ≠ [] ∧ ((∃ ino, nodeAt t path.components = some (.file ino)) ∨
      isEmptyDir t path.components = true) := by
  unfold resolveRemove at h
  by_cases h0 : t.readOnly = true
  · rw [if_pos h0] at h
    cases h
  rw [if_neg h0] at h
  obtain ⟨-, -, h⟩ := Fallible.bind_eq_ok.mp h
  by_cases h1 : path.value = []
  · rw [if_pos h1] at h
    cases h
  rw [if_neg h1] at h
  obtain ⟨-, -, h⟩ := Fallible.bind_eq_ok.mp h
  refine ⟨fun hc => h1 (RelPath.components_eq_nil_iff.mp hc), ?_⟩
  split at h
  · cases h
  · exact .inl ⟨_, ‹_›⟩
  · split_ifs at h with he
    exact .inr he
  · cases h

/-- Nothing lies in a directory without entries. -/
theorem not_parent_of_isEmptyDir {t : Tree} {p q : List Text} {n : Node}
    (h : isEmptyDir t p = true) (hq : nodeAt t q = some n) (hne : q ≠ []) : q.dropLast ≠ p := by
  rw [nodeAt, if_neg hne] at hq
  have hmem := Assoc.mem_of_lookup hq
  intro heq
  unfold isEmptyDir at h
  simp only [Bool.not_eq_eq_eq_not, Bool.not_true, List.any_eq_false] at h
  exact h _ hmem (by simp [hne, heq])

theorem WellFormed.removeSync {t : Tree} (h : WellFormed t) (path : RelPath) :
    WellFormed (removeSync t path).2 := by
  unfold PosixVfs.removeSync
  split
  · exact h
  · rename_i hres
    obtain ⟨hroot, hkind⟩ := resolveRemove_ok hres
    -- No entry that stays has the removed one for its parent.
    have hparent : ∀ q n, nodeAt t q = some n → q ≠ [] → q.dropLast ≠ path.components := by
      intro q n hq hne
      rcases hkind with ⟨ino, hfile⟩ | hempty
      · intro heq
        have hdir := h.parent q n hq hne
        rw [heq, hfile] at hdir
        cases hdir
      · exact not_parent_of_isEmptyDir hempty hq hne
    constructor
    · intro q m hq hne
      rw [nodeAt_eraseEntry t hne] at hq
      split_ifs at hq with hqp
      have hdir := h.parent q m hq hne
      by_cases hlast : q.dropLast = []
      · rw [hlast]
        exact nodeAt_nil _
      · rw [nodeAt_eraseEntry t hlast, if_neg (hparent q m hq hne), hdir]
    · intro q ino hq
      by_cases hne : q = []
      · rw [hne] at hq
        cases hq
      · rw [nodeAt_eraseEntry t hne] at hq
        split_ifs at hq
        exact h.inode q ino hq

/-- Moving a file to a path with no entry, when it works: the directories above the
destination are made, and the entry goes there. -/
theorem renameInternal_file {t : Tree} {source target : RelPath} {ino : ℕ}
    (hfile : nodeAt t source.components = some (.file ino))
    (h : (renameInternal t source target .noReplace).1 = .ok ()) :
    source.components ≠ [] ∧ target.components ≠ [] ∧
      nodeAt (makeParent t target).2 target.components = none ∧
      nodeAt (makeParent t target).2 target.components.dropLast = some .directory ∧
      (renameInternal t source target .noReplace).2 =
        moveEntry (makeParent t target).2 source.components target.components := by
  have hgrow := makeParent_grows t target
  have hsource := hgrow.nodeAt_eq hfile
  unfold renameInternal at h ⊢
  rcases hfrom : resolveFrom t source target with e | _
  · rw [hfrom] at h
    cases h
  obtain ⟨-, -, hs, ht, -⟩ := resolveFrom_ok hfrom
  rw [hfrom] at h
  dsimp only at h ⊢
  rcases hmk : makeParent t target with ⟨e | _, t₁⟩
  · rw [hmk] at h
    cases h
  rw [hmk] at h hsource
  dsimp only at h hsource ⊢
  rcases hdir : resolveDir t₁ [] target.components.dropLast with e | _
  · rw [hdir] at h
    cases h
  rw [hdir] at h
  dsimp only at h ⊢
  rcases hdest : checkDestination t₁ target.components .noReplace with e | _
  · rw [hdest] at h
    cases h
  rw [hdest] at h
  dsimp only at h ⊢
  have hfree : nodeAt t₁ target.components = none := by
    unfold checkDestination at hdest
    split_ifs at hdest with hsome
    simpa using hsome
  refine ⟨hs, ht, hfree, nodeAt_of_resolveDir hdir, ?_⟩
  unfold renameat at h ⊢
  by_cases heq : source.components = target.components
  · rw [heq, hfree] at hsource
    cases hsource
  rw [if_neg heq] at h ⊢
  by_cases hpre : source.components <+: target.components
  · rw [if_pos hpre] at h
    cases h
  rw [if_neg hpre, hsource, hfree]

/-- The tree after a file was moved to a path with no entry. -/
theorem nodeAt_moveEntry_file {t : Tree} (h : WellFormed t) {source target : List Text} {ino : ℕ}
    (hs : source ≠ []) (ht : target ≠ []) (hfile : nodeAt t source = some (.file ino))
    (hfree : nodeAt t target = none) (q : List Text) :
    nodeAt (moveEntry t source target) q =
      if q = target then some (.file ino) else if q = source then none else nodeAt t q := by
  -- Below a file or a path with no entry there is nothing.
  have hbelow : ∀ p q, (∀ n, nodeAt t p = some n → ∃ ino, n = .file ino) → p <+: q → p ≠ q →
      nodeAt t q = none := by
    intro p q hp hpre hne
    rcases hq : nodeAt t q with _ | n
    · rfl
    · have hdir := h.directory_of_prefix hq hpre hne
      obtain ⟨_, hn⟩ := hp _ hdir
      cases hn
  have hsource : ∀ n, nodeAt t source = some n → ∃ ino, n = .file ino := by
    intro n hn
    rw [hfile] at hn
    exact ⟨ino, (Option.some.inj hn).symm⟩
  by_cases hunder : target <+: q
  · obtain ⟨rest, rfl⟩ := hunder
    rw [nodeAt_moveEntry_under t hs ht rest]
    rcases eq_or_ne rest [] with rfl | hrest
    · rw [List.append_nil, List.append_nil, hfile, if_pos rfl]
    · rw [hbelow source (source ++ rest) hsource (List.prefix_append ..) (by simpa using hrest),
        if_neg (by simpa using hrest)]
      split_ifs
      · rfl
      · exact (hbelow target _ (by simp [hfree]) (List.prefix_append ..)
          (by simpa using hrest)).symm
  · have hne : q ≠ target := by
      rintro rfl
      exact hunder List.prefix_rfl
    rw [nodeAt_moveEntry_outside t hs hunder, if_neg hne]
    by_cases hsq : source <+: q
    · rw [if_pos hsq]
      split_ifs with heq
      · rfl
      · exact (hbelow source q hsource hsq (Ne.symm heq)).symm
    · rw [if_neg hsq, if_neg]
      rintro rfl
      exact hsq List.prefix_rfl

theorem WellFormed.moveEntry_file {t : Tree} (h : WellFormed t) {source target : List Text}
    {ino : ℕ} (hs : source ≠ []) (ht : target ≠ [])
    (hfile : nodeAt t source = some (.file ino)) (hfree : nodeAt t target = none)
    (hparent : nodeAt t target.dropLast = some .directory) :
    WellFormed (moveEntry t source target) := by
  have hnode := nodeAt_moveEntry_file h hs ht hfile hfree
  -- Directories stay where they are.
  have hdir : ∀ q, nodeAt t q = some .directory →
      nodeAt (moveEntry t source target) q = some .directory := by
    intro q hq
    rw [hnode, if_neg, if_neg, hq]
    · rintro rfl
      rw [hfile] at hq
      cases hq
    · rintro rfl
      rw [hfree] at hq
      cases hq
  constructor
  · intro q n hq hne
    rw [hnode] at hq
    split_ifs at hq with hqt hqs
    · exact hdir _ (hqt ▸ hparent)
    · exact hdir _ (h.parent q n hq hne)
  · intro q i hq
    rw [hnode] at hq
    split_ifs at hq with hqt hqs
    · obtain rfl := Node.file.inj (Option.some.inj hq)
      exact h.inode _ _ hfile
    · exact h.inode q i hq

/-- What the backend shows of its files. -/
def fileView : FileView Tree ℕ where
  Valid := WellFormed
  InUse t ino := ino < t.nextIno
  file := fileAt
  data t ino := t.data ino
  inUse_of_file h hf := h.inode _ _ (fileAt_eq_some.mp hf)

/-- A tree that grew by directories shows the same files. -/
theorem Grows.same {t t' : Tree} (h : Grows t t') (hwf : WellFormed t') :
    fileView.Same t t' where
  valid := hwf
  inUse n hn := by
    change n < t'.nextIno
    rw [h.nextIno]
    exact hn
  data n _ := congrFun h.data n
  file := by
    funext p
    ext ino
    exact fileAt_eq_some.trans (h.nodeAt_file.trans fileAt_eq_some.symm)

/-- Opening for writing finds the file, or creates it. -/
theorem openWriteSync_cases (t : Tree) (path : RelPath) :
    (openWriteSync t path).2 = t ∨
      (openWriteSync t path).1 = .ok t.nextIno ∧ nodeAt t path.components = none ∧
        (openWriteSync t path).2 =
          { addEntry t path.components (.file t.nextIno) with
            data := Function.update t.data t.nextIno []
            nextIno := t.nextIno + 1 } := by
  unfold openWriteSync
  split
  · exact .inl rfl
  · exact .inl rfl
  · rename_i h
    exact .inr ⟨rfl, (resolveWrite_none h).1, rfl⟩

theorem openWriteSync_keeps {t : Tree} (h : WellFormed t) (path : RelPath) :
    fileView.Keeps t (openWriteSync t path).2 := by
  refine ⟨h.openWriteSync path, ?_, ?_⟩
  · intro n hn
    rcases openWriteSync_cases t path with heq | ⟨-, -, heq⟩
    · rw [heq]
      exact hn
    · rw [heq]
      exact Nat.lt_succ_of_lt hn
  · intro n hn
    rcases openWriteSync_cases t path with heq | ⟨-, -, heq⟩
    · rw [heq]
    · rw [heq]
      exact Function.update_of_ne (Nat.ne_of_lt hn) ..

theorem fileAt_openWriteSync {t : Tree} {path q : RelPath} (hq : q ≠ path) :
    fileAt (openWriteSync t path).2 q = fileAt t q := by
  rcases openWriteSync_cases t path with heq | ⟨-, -, heq⟩
  · rw [heq]
  · rw [heq]
    refine fileAt_congr ?_
    change nodeAt (addEntry t path.components (.file t.nextIno)) q.components = _
    rw [nodeAt_addEntry, if_neg fun hc => hq (RelPath.components_injective hc).symm]
    simp

theorem renameInternal_keeps {t : Tree} (h : WellFormed t) {source target : RelPath} {ino : ℕ}
    (hfile : fileAt t source = some ino)
    (hok : (renameInternal t source target .noReplace).1 = .ok ()) :
    fileView.Keeps t (renameInternal t source target .noReplace).2 ∧ fileAt t target = none ∧
      fileAt (renameInternal t source target .noReplace).2 target = some ino ∧
      fileAt (renameInternal t source target .noReplace).2 source = none ∧
      ∀ r, r ≠ source → r ≠ target →
        fileAt (renameInternal t source target .noReplace).2 r = fileAt t r := by
  obtain ⟨hs, ht, hfree, hparent, hmove⟩ := renameInternal_file (fileAt_eq_some.mp hfile) hok
  have hgrow := makeParent_grows t target
  have hwf := h.makeParent target
  have hsame := hgrow.same hwf
  have hsource := hgrow.nodeAt_eq (fileAt_eq_some.mp hfile)
  have hnode := nodeAt_moveEntry_file hwf hs ht hsource hfree
  have hne : source.components ≠ target.components := by
    intro heq
    rw [heq, hfree] at hsource
    cases hsource
  rw [hmove]
  refine ⟨⟨hwf.moveEntry_file hs ht hsource hfree hparent, fun n hn => hsame.inUse n hn,
    fun n hn => hsame.data n hn⟩, ?_, ?_, ?_, ?_⟩
  · have hnone : fileAt (makeParent t target).2 target = none := by
      unfold fileAt
      rw [hfree]
    exact (congrFun hsame.file target).symm.trans hnone
  · exact fileAt_eq_some.mpr (by rw [hnode, if_pos rfl])
  · unfold fileAt
    rw [hnode, if_neg hne, if_pos rfl]
  · intro r hrs hrt
    have hkeep : nodeAt (moveEntry (makeParent t target).2 source.components target.components)
        r.components = nodeAt (makeParent t target).2 r.components := by
      rw [hnode, if_neg fun hc => hrt (RelPath.components_injective hc),
        if_neg fun hc => hrs (RelPath.components_injective hc)]
    exact (fileAt_congr hkeep).trans (congrFun hsame.file r)

/-- A rename of entries that fails leaves the tree as it is. -/
theorem renameat_error {t : Tree} {source target : List Text} {e : VfsError}
    (h : (renameat t source target).1 = .error e) : (renameat t source target).2 = t := by
  revert h
  unfold renameat
  split
  · exact fun _ => rfl
  split
  · exact fun _ => rfl
  split
  case h_3 =>
    split
    · exact nofun
    · exact fun _ => rfl
  all_goals first
    | exact fun _ => rfl
    | exact nofun

/-- A rename that fails has made no more than the directories above its destination. -/
theorem renameInternal_error {t : Tree} {source target : RelPath} {mode : RenameMode}
    {e : VfsError} (h : (renameInternal t source target mode).1 = .error e) :
    (renameInternal t source target mode).2 = t ∨
      (renameInternal t source target mode).2 = (makeParent t target).2 := by
  revert h
  unfold renameInternal
  split
  · exact fun _ => .inl rfl
  rcases makeParent t target with ⟨e | _, t₁⟩
  · exact fun _ => .inr rfl
  dsimp only
  split
  · exact fun _ => .inr rfl
  split
  · exact fun _ => .inr rfl
  exact fun h => .inr (renameat_error h)

/-- The path of an entry can be walked. -/
theorem WellFormed.resolveDir {t : Tree} (h : WellFormed t) {p : List Text} {n : Node}
    (hp : nodeAt t p = some n) : resolveDir t [] p.dropLast = .ok () := by
  have hwalk : ∀ rest done : List Text,
      (∀ x, x <+: rest → x ≠ [] → nodeAt t (done ++ x) = some .directory) →
      PosixVfs.resolveDir t done rest = .ok () := by
    intro rest
    induction rest with
    | nil => exact fun _ _ => rfl
    | cons c rest ih =>
        intro done hdir
        have hc := hdir [c] (List.prefix_append [c] rest) (by simp)
        rw [PosixVfs.resolveDir, hc]
        refine ih (done ++ [c]) fun x hx hne => ?_
        rw [List.append_assoc]
        exact hdir ([c] ++ x) (List.cons_prefix_cons.mpr ⟨rfl, hx⟩) (by simp)
  refine hwalk _ [] fun x hx hne => ?_
  rw [List.nil_append]
  refine h.directory_of_prefix hp (hx.trans (List.dropLast_prefix p)) ?_
  rintro rfl
  have hlen := hx.length_le
  rw [List.length_dropLast] at hlen
  have := List.length_pos_iff.mpr hne
  omega

/-- The files after a removal. -/
theorem removeSync_cases (t : Tree) (path : RelPath) :
    (∃ e, (removeSync t path).1 = .error e ∧ resolveRemove t path = .error e ∧
      (removeSync t path).2 = t) ∨
      (removeSync t path).1 = .ok () ∧ path.components ≠ [] ∧
        (removeSync t path).2 = eraseEntry t path.components := by
  unfold removeSync
  rcases hres : resolveRemove t path with e | _
  · exact .inl ⟨e, rfl, rfl, rfl⟩
  · exact .inr ⟨rfl, (resolveRemove_ok hres).1, rfl⟩

theorem removeSync_keeps {t : Tree} (h : WellFormed t) (path : RelPath) :
    fileView.Keeps t (removeSync t path).2 := by
  refine ⟨h.removeSync path, ?_, ?_⟩
  · intro n hn
    rcases removeSync_cases t path with ⟨-, -, -, heq⟩ | ⟨-, -, heq⟩
    · rw [heq]
      exact hn
    · rw [heq]
      exact hn
  · intro n hn
    rcases removeSync_cases t path with ⟨-, -, -, heq⟩ | ⟨-, -, heq⟩
    · rw [heq]
    · rw [heq]
      rfl

/-- The root is no file. -/
theorem fileAt_root (t : Tree) {path : RelPath} (h : path.components = []) :
    fileAt t path = none := by
  unfold fileAt
  rw [h, nodeAt_nil]

theorem fileAt_removeSync {t : Tree} {path q : RelPath} (hq : q ≠ path) :
    fileAt (removeSync t path).2 q = fileAt t q := by
  rcases removeSync_cases t path with ⟨-, -, -, heq⟩ | ⟨-, -, heq⟩
  · rw [heq]
  · rw [heq]
    by_cases hroot : q.components = []
    · rw [fileAt_root _ hroot, fileAt_root _ hroot]
    · refine fileAt_congr ?_
      rw [nodeAt_eraseEntry t hroot, if_neg fun hc => hq (RelPath.components_injective hc)]

/-- A file that is there is not reported missing. -/
theorem resolveRemove_of_file {t : Tree} (h : WellFormed t) {path : RelPath} {ino : ℕ}
    (hfile : fileAt t path = some ino) : resolveRemove t path ≠ .error .notFound := by
  have hnode := fileAt_eq_some.mp hfile
  intro hres
  unfold resolveRemove at hres
  by_cases h0 : t.readOnly = true
  · rw [if_pos h0] at hres
    cases hres
  rw [if_neg h0] at hres
  by_cases hden : isDeniedForWrite path.components = true
  · rw [checkDenyList, if_pos hden] at hres
    cases hres
  rw [checkDenyList, if_neg hden, Fallible.ok_bind] at hres
  by_cases h1 : path.value = []
  · rw [if_pos h1] at hres
    cases hres
  rw [if_neg h1, h.resolveDir hnode, Fallible.ok_bind, hnode] at hres
  cases hres

theorem fileAt_removeSync_self {t : Tree} (h : WellFormed t) {path : RelPath}
    (hres : (removeSync t path).1 = .ok () ∨ (removeSync t path).1 = .error .notFound) :
    fileAt (removeSync t path).2 path = none := by
  rcases removeSync_cases t path with ⟨e, he, hcheck, heq⟩ | ⟨-, hroot, heq⟩
  · rcases hres with hres | hres
    · rw [he] at hres
      cases hres
    · rw [he] at hres
      obtain rfl := Except.error.inj hres
      rw [heq]
      rcases hfile : fileAt t path with _ | ino
      · rfl
      · exact absurd hcheck (resolveRemove_of_file h hfile)
  · rw [heq]
    unfold fileAt
    rw [nodeAt_eraseEntry t hroot, if_pos rfl]

theorem fileAt_removeSync_self_or {t : Tree} (h : WellFormed t) (path : RelPath) :
    fileAt (removeSync t path).2 path = none ∨ fileAt (removeSync t path).2 path = fileAt t path := by
  rcases removeSync_cases t path with ⟨-, -, -, heq⟩ | ⟨hok, -, -⟩
  · exact .inr (by rw [heq])
  · exact .inl (fileAt_removeSync_self h (.inl hok))

/-- The backend handles files as a store of files does. -/
def fileStore : FileStore vfs ℕ where
  toFileView := fileView
  node ino := ino
  stat_same _ h := (Grows.refl _).same h
  stat_size := by
    intro t p ino m _ hfile hm
    change statSync t p = .ok m at hm
    unfold statSync at hm
    obtain ⟨-, -, hm⟩ := Fallible.bind_eq_ok.mp hm
    obtain ⟨-, -, hm⟩ := Fallible.bind_eq_ok.mp hm
    rw [fileAt_eq_some.mp hfile] at hm
    obtain rfl := Except.ok.inj hm
    rfl
  createDir_same p h := (createDirSync_grows _ p).same (h.createDirSync p)
  openWrite_keeps p h := openWriteSync_keeps h p
  openWrite_other _ hq := fileAt_openWriteSync hq
  openWrite_self := by
    intro t p ino _ hfile
    change fileAt (openWriteSync t p).2 p = some ino at hfile
    rcases openWriteSync_cases t p with heq | ⟨hok, hfree, heq⟩
    · rw [heq] at hfile
      exact .inl hfile
    · have hopened := fileAt_eq_some.mpr (openWriteSync_ok hok).1
      rw [hfile] at hopened
      obtain rfl := Option.some.inj hopened
      refine .inr ⟨?_, Nat.lt_irrefl _, ?_⟩
      · change fileAt t p = none
        unfold fileAt
        rw [hfree]
      · change (openWriteSync t p).2.data t.nextIno = []
        rw [heq]
        exact Function.update_self ..
  openWrite_ok _ hok := fileAt_eq_some.mpr (openWriteSync_ok hok).1
  writeAt_file := by
    intro t ino off bs h
    exact ⟨⟨h.parent, h.inode⟩, rfl, fun _ hn => hn, fun n hn => Function.update_of_ne hn ..⟩
  writeAt_ok := by
    intro t ino off bs _ _
    exact Function.update_self ..
  sync_same _ h := (Grows.refl _).same h
  renameNoReplace_ok h hfile hok := renameInternal_keeps h hfile hok
  renameNoReplace_error := by
    intro t p q e h he
    change fileView.Same t (renameInternal t p q .noReplace).2
    rcases renameInternal_error he with heq | heq
    · rw [heq]
      exact (Grows.refl t).same h
    · rw [heq]
      exact (makeParent_grows t q).same (h.makeParent q)
  remove_keeps p h := removeSync_keeps h p
  remove_other _ hq := fileAt_removeSync hq
  remove_self p h := fileAt_removeSync_self_or h p
  remove_gone h hres := fileAt_removeSync_self h hres

end PosixVfs

end Tradr
