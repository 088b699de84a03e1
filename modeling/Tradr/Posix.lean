import Mathlib.Logic.Function.Basic
import Tradr.Assoc
import Tradr.Sanitization
import Tradr.Vfs

/-!
# The POSIX Backend

A writable or read-only root as a tree of entries: each path below the root names a
directory, a regular file by its inode, or something the boundary refuses. The operations
follow the backend call by call: the read-only flag, the deny list, the walk through the
parent directories that follows no symbolic link, and the system call at the end, with
the error each of them is mapped to.

## Main results

* `PosixVfs.mkdirs_lookup`: creating directories changes no entry that exists.
* `PosixVfs.renameat_cases`: what a rename can do to the tree.
* `PosixVfs.byteStore`: the backend is a store of byte-addressed files.
-/

open Fallible

namespace Tradr

/-- What an entry of the tree is. -/
inductive Node
  | file (ino : ℕ)
  | directory
  | symlink
  | special
  deriving DecidableEq, Repr

/-- The tree below a root: its entries by path, and the bytes of the files by inode. -/
structure Tree where
  entries : List (List Text × Node)
  data : ℕ → List UInt8
  nextIno : ℕ
  modified : List Text → ℤ
  readOnly : Bool

namespace PosixVfs

/-- The entry at a path; the root itself is a directory. -/
def nodeAt (t : Tree) (p : List Text) : Option Node :=
  if p = [] then some .directory else Assoc.lookup t.entries p

/-- Refuse what is neither a file nor a directory. -/
def checkStatKind : Node → Except VfsError EntryKind
  | .file _ => .ok .file
  | .directory => .ok .directory
  | .symlink | .special => .error .unsupportedEntry

/-- Refuse a path that the deny list matches. -/
def checkDenyList (path : RelPath) : Except VfsError Unit :=
  if isDeniedForWrite path.components then .error .denyListed else .ok ()

/-- Walk from `done` through the directories named by the rest, following no link. -/
def resolveDir (t : Tree) : List Text → List Text → Except VfsError Unit
  | _, [] => .ok ()
  | done, c :: rest =>
    match nodeAt t (done ++ [c]) with
    | none => .error .notFound
    | some .directory => resolveDir t (done ++ [c]) rest
    | some .symlink => .error .unsupportedEntry
    | some _ => .error .wrongKind

/-- Add an entry at the end of the directory order. -/
def addEntry (t : Tree) (p : List Text) (n : Node) : Tree :=
  { t with entries := t.entries ++ [(p, n)] }

/-- Drop the entry at a path. -/
def eraseEntry (t : Tree) (p : List Text) : Tree :=
  { t with entries := Assoc.rekey (fun q => if q = p then none else some q) t.entries }

/-- Move what lies at or below one path to another, dropping what was there. -/
def moveEntry (t : Tree) (source target : List Text) : Tree :=
  { t with
    entries := Assoc.rekey
      (fun q =>
        if source <+: q then some (target ++ q.drop source.length)
        else if target <+: q then none
        else some q)
      t.entries }

/-- A directory without entries. -/
def isEmptyDir (t : Tree) (p : List Text) : Bool :=
  !t.entries.any fun e => e.1 ≠ [] ∧ e.1.dropLast = p

/-- The metadata of an entry. -/
def metadataOf (t : Tree) (p : List Text) (n : Node) : Except VfsError Metadata :=
  match n with
  | .file ino => .ok ⟨.file, (t.data ino).length, t.modified p⟩
  | .directory => .ok ⟨.directory, 0, t.modified p⟩
  | .symlink | .special => .error .unsupportedEntry

/-- Open a file for reading. -/
def openReadSync (t : Tree) (path : RelPath) : Except VfsError ℕ := do
  checkDenyList path
  if path.value = [] then .error .wrongKind
  else
    resolveDir t [] path.components.dropLast
    match nodeAt t path.components with
    | none => .error .notFound
    | some (.file ino) => .ok ino
    | some .directory => .error .wrongKind
    | some _ => .error .unsupportedEntry

/-- The checks before a file is opened for writing: its inode, or `none` to create it. -/
def resolveWrite (t : Tree) (path : RelPath) : Except VfsError (Option ℕ) := do
  if t.readOnly then .error .readOnly
  else
    checkDenyList path
    if path.value = [] then .error .wrongKind
    else
      resolveDir t [] path.components.dropLast
      match nodeAt t path.components with
      | none => .ok none
      | some (.file ino) => .ok (some ino)
      | some .directory => .error .wrongKind
      | some _ => .error .unsupportedEntry

/-- Open a file for writing, creating it if absent and never truncating it. -/
def openWriteSync (t : Tree) (path : RelPath) : Except VfsError ℕ × Tree :=
  match resolveWrite t path with
  | .error e => (.error e, t)
  | .ok (some ino) => (.ok ino, t)
  | .ok none =>
    (.ok t.nextIno,
      { addEntry t path.components (.file t.nextIno) with
        data := Function.update t.data t.nextIno []
        nextIno := t.nextIno + 1 })

/-- Report what an entry is. -/
def statSync (t : Tree) (path : RelPath) : Except VfsError Metadata := do
  checkDenyList path
  resolveDir t [] path.components.dropLast
  match nodeAt t path.components with
  | none => .error .notFound
  | some n => metadataOf t path.components n

/-- Create the directories of a path that are missing. -/
def mkdirs : Tree → List Text → List Text → Except VfsError Unit × Tree
  | t, _, [] => (.ok (), t)
  | t, done, c :: rest =>
    match nodeAt t (done ++ [c]) with
    | none => mkdirs (addEntry t (done ++ [c]) .directory) (done ++ [c]) rest
    | some .directory => mkdirs t (done ++ [c]) rest
    | some (.file _) => (.error .wrongKind, t)
    | some _ => (.error .unsupportedEntry, t)

/-- Create a directory and its missing parents. -/
def createDirSync (t : Tree) (path : RelPath) : Except VfsError Unit × Tree :=
  if t.readOnly then (.error .readOnly, t)
  else
    match checkDenyList path with
    | .error e => (.error e, t)
    | .ok () => mkdirs t [] path.components

/-- The checks before an entry is removed. -/
def resolveRemove (t : Tree) (path : RelPath) : Except VfsError Unit := do
  if t.readOnly then .error .readOnly
  else
    checkDenyList path
    if path.value = [] then .error .wrongKind
    else
      resolveDir t [] path.components.dropLast
      match nodeAt t path.components with
      | none => .error .notFound
      | some (.file _) => .ok ()
      | some .directory => if isEmptyDir t path.components then .ok () else .error .wrongKind
      | some _ => .error .unsupportedEntry

/-- Remove a file, or a directory that is already empty. -/
def removeSync (t : Tree) (path : RelPath) : Except VfsError Unit × Tree :=
  match resolveRemove t path with
  | .error e => (.error e, t)
  | .ok () => (.ok (), eraseEntry t path.components)

/-- The rename system call: nothing for the same path, refused into its own subtree, onto
the other kind and onto a directory that is not empty. -/
def renameat (t : Tree) (source target : List Text) : Except VfsError Unit × Tree :=
  if source = target then (.ok (), t)
  else if source <+: target then (.error (.io .invalidInput), t)
  else
    match nodeAt t source, nodeAt t target with
    | none, _ => (.error .notFound, t)
    | some _, none => (.ok (), moveEntry t source target)
    | some .directory, some .directory =>
      if isEmptyDir t target then (.ok (), moveEntry t source target) else (.error .wrongKind, t)
    | some .directory, some _ => (.error .wrongKind, t)
    | some _, some .directory => (.error .wrongKind, t)
    | some _, some _ => (.ok (), moveEntry t source target)

/-- Whether a rename may replace what is at its destination. -/
inductive RenameMode
  | replace
  | noReplace
  deriving DecidableEq, Repr

/-- The checks on the two paths of a rename, before anything is created. -/
def resolveFrom (t : Tree) (source target : RelPath) : Except VfsError Unit := do
  if t.readOnly then .error .readOnly
  else
    checkDenyList source
    checkDenyList target
    if source.value = [] ∨ target.value = [] then .error .wrongKind
    else
      resolveDir t [] source.components.dropLast
      match nodeAt t source.components with
      | none => .error .notFound
      | some n =>
        let _ ← checkStatKind n
        return ()

/-- Create the parent directory of a rename's destination. -/
def makeParent (t : Tree) (target : RelPath) : Except VfsError Unit × Tree :=
  if target.components.dropLast = [] then (.ok (), t)
  else
    match RelPath.new (['/'].intercalate target.components.dropLast) with
    | .error _ => (.ok (), t)
    | .ok rel => createDirSync t rel

/-- The check on the destination of a rename. -/
def checkDestination (t : Tree) (target : List Text) : RenameMode → Except VfsError Unit
  | .replace =>
    match nodeAt t target with
    | none => .ok ()
    | some n => (checkStatKind n).map fun _ => ()
  | .noReplace => if (nodeAt t target).isSome then .error .alreadyExists else .ok ()

/-- Move an entry, creating the directories above its destination. -/
def renameInternal (t : Tree) (source target : RelPath) (mode : RenameMode) :
    Except VfsError Unit × Tree :=
  match resolveFrom t source target with
  | .error e => (.error e, t)
  | .ok () =>
    match makeParent t target with
    | (.error e, t) => (.error e, t)
    | (.ok (), t) =>
      match resolveDir t [] target.components.dropLast with
      | .error e => (.error e, t)
      | .ok () =>
        match checkDestination t target.components mode with
        | .error e => (.error e, t)
        | .ok () => renameat t source.components target.components

/-- A directory entry that a listing shows: not denied, and a file or a directory. -/
def listEntry (t : Tree) (dir : List Text) (e : List Text × Node) : Option DirEntry :=
  if e.1 ≠ [] ∧ e.1.dropLast = dir ∧ !isDeniedForWrite e.1 then
    match metadataOf t e.1 e.2 with
    | .error _ => none
    | .ok m => some ⟨e.1.getLast?.getD [], m.kind, m.sizeBytes, m.modified⟩
  else none

/-- List a directory. -/
def listSync (t : Tree) (path : RelPath) : Except VfsError (List DirEntry) := do
  checkDenyList path
  resolveDir t [] path.components
  return t.entries.filterMap (listEntry t path.components)

/-- The backend: handles are inodes. -/
def vfs : Vfs Tree ℕ where
  list t p := (listSync t p, t)
  stat t p := (statSync t p, t)
  openRead t p := (openReadSync t p, t)
  readAt t ino off len := (.ok (((t.data ino).drop off).take len), t)
  createDir := createDirSync
  openWrite := openWriteSync
  writeAt t ino off bs :=
    (.ok (), { t with data := Function.update t.data ino (ByteFile.overlay (t.data ino) off bs) })
  sync t _ := (.ok (), t)
  rename t p q := renameInternal t p q .replace
  renameNoReplace t p q := renameInternal t p q .noReplace
  remove := removeSync

/-! ### What the operations do to the tree -/

/-- The entry at a path after an entry was added. -/
theorem nodeAt_addEntry (t : Tree) (p : List Text) (n : Node) (q : List Text) :
    nodeAt (addEntry t p n) q = (nodeAt t q).or (if p = q then some n else none) := by
  unfold nodeAt addEntry
  by_cases hq : q = []
  · rw [if_pos hq, if_pos hq]
    rfl
  · rw [if_neg hq, if_neg hq]
    exact Assoc.lookup_append _ _ _ _

/-- The entry at a path after an entry was dropped. -/
theorem nodeAt_eraseEntry (t : Tree) {p q : List Text} (hq : q ≠ []) :
    nodeAt (eraseEntry t p) q = if q = p then none else nodeAt t q := by
  unfold nodeAt eraseEntry
  rw [if_neg hq, if_neg hq]
  dsimp only
  split_ifs with h
  · refine Assoc.lookup_rekey_of_ne (fun x => ?_) t.entries
    split_ifs with hx
    · simp
    · intro hxq
      exact hx ((Option.some.inj hxq).trans h)
  · refine Assoc.lookup_rekey (fun x => ?_) t.entries
    split_ifs with hx
    · constructor
      · intro hn
        exact absurd hn (by simp)
      · rintro rfl
        exact absurd hx h
    · rw [Option.some_inj]

/-- The entry at a path below the destination of a move is the one below its source. -/
theorem nodeAt_moveEntry_under (t : Tree) {source target : List Text} (hs : source ≠ [])
    (ht : target ≠ []) (rest : List Text) :
    nodeAt (moveEntry t source target) (target ++ rest) = nodeAt t (source ++ rest) := by
  unfold nodeAt moveEntry
  rw [if_neg (by simp [ht]), if_neg (by simp [hs])]
  dsimp only
  refine Assoc.lookup_rekey (fun x => ?_) t.entries
  split_ifs with h1 h2
  · obtain ⟨r, rfl⟩ := h1
    rw [List.drop_left, Option.some_inj, List.append_cancel_left_eq,
      List.append_cancel_left_eq]
  · constructor
    · intro hn
      exact absurd hn (by simp)
    · rintro rfl
      exact absurd (List.prefix_append source rest) h1
  · rw [Option.some_inj]
    constructor
    · rintro rfl
      exact absurd (List.prefix_append target rest) h2
    · rintro rfl
      exact absurd (List.prefix_append source rest) h1

/-- The entry at a path outside the destination of a move: gone if it was below the
source, and else as before. -/
theorem nodeAt_moveEntry_outside (t : Tree) {source target q : List Text} (hs : source ≠ [])
    (hq : ¬ target <+: q) :
    nodeAt (moveEntry t source target) q = if source <+: q then none else nodeAt t q := by
  unfold nodeAt moveEntry
  rcases eq_or_ne q [] with rfl | hne
  · rw [if_pos rfl, if_neg (by simpa using hs)]
    simp
  · rw [if_neg hne, if_neg hne]
    dsimp only
    split_ifs with hsq
    · refine Assoc.lookup_rekey_of_ne (fun x => ?_) t.entries
      split_ifs with h1 h2
      · intro hx
        exact hq (Option.some.inj hx ▸ List.prefix_append _ _)
      · simp
      · intro hx
        exact h1 (Option.some.inj hx ▸ hsq)
    · refine Assoc.lookup_rekey (fun x => ?_) t.entries
      split_ifs with h1 h2
      · rw [Option.some_inj]
        constructor
        · intro hx
          exact absurd (hx ▸ List.prefix_append _ _) hq
        · rintro rfl
          exact absurd h1 hsq
      · constructor
        · intro hx
          exact absurd hx (by simp)
        · rintro rfl
          exact absurd h2 hq
      · rw [Option.some_inj]

/-- A tree that differs from another only by directories at paths that had no entry. -/
structure Grows (t t' : Tree) : Prop where
  data : t'.data = t.data
  nextIno : t'.nextIno = t.nextIno
  readOnly : t'.readOnly = t.readOnly
  node : ∀ q, nodeAt t' q = nodeAt t q ∨ (nodeAt t q = none ∧ nodeAt t' q = some .directory)
  entries : ∀ e ∈ t'.entries, e ∈ t.entries ∨ e.2 = .directory

/-- Nothing grew. -/
theorem Grows.refl (t : Tree) : Grows t t :=
  ⟨rfl, rfl, rfl, fun _ => .inl rfl, fun _ h => .inl h⟩

/-- Growing twice is growing. -/
theorem Grows.trans {t t' t'' : Tree} (h : Grows t t') (h' : Grows t' t'') : Grows t t'' := by
  refine ⟨h'.data.trans h.data, h'.nextIno.trans h.nextIno, h'.readOnly.trans h.readOnly,
    fun q => ?_, fun e he => ?_⟩
  · rcases h'.node q with h1 | ⟨h1, h2⟩
    · rw [h1]
      exact h.node q
    · rcases h.node q with h3 | ⟨h3, h4⟩
      · exact .inr ⟨h3 ▸ h1, h2⟩
      · rw [h4] at h1
        exact absurd h1 (by simp)
  · rcases h'.entries e he with h1 | h1
    · exact h.entries e h1
    · exact .inr h1

/-- An entry that exists stays what it is. -/
theorem Grows.nodeAt_eq {t t' : Tree} (h : Grows t t') {q : List Text} {n : Node}
    (hq : nodeAt t q = some n) : nodeAt t' q = some n := by
  rcases h.node q with h1 | ⟨h1, -⟩
  · rw [h1, hq]
  · rw [hq] at h1
    exact absurd h1 (by simp)

/-- No file appears. -/
theorem Grows.nodeAt_file {t t' : Tree} (h : Grows t t') {q : List Text} {ino : ℕ} :
    nodeAt t' q = some (.file ino) ↔ nodeAt t q = some (.file ino) := by
  constructor
  · intro hq
    rcases h.node q with h1 | ⟨-, h2⟩
    · rw [← h1, hq]
    · rw [h2] at hq
      exact absurd hq (by simp)
  · exact h.nodeAt_eq

/-- Creating missing directories only adds directories. -/
theorem mkdirs_grows (t : Tree) (done rest : List Text) : Grows t (mkdirs t done rest).2 := by
  induction rest generalizing t done with
  | nil => exact Grows.refl t
  | cons c rest ih =>
      unfold mkdirs
      split
      · rename_i hnone
        have hadd : Grows t (addEntry t (done ++ [c]) .directory) := by
          refine ⟨rfl, rfl, rfl, fun q => ?_, fun e he => ?_⟩
          · rw [nodeAt_addEntry]
            by_cases hq : done ++ [c] = q
            · subst hq
              exact .inr ⟨hnone, by simp [hnone]⟩
            · exact .inl (by simp [hq])
          · rcases List.mem_append.mp he with h | h
            · exact .inl h
            · exact .inr (by rw [List.mem_singleton.mp h])
        exact hadd.trans (ih _ _)
      · exact ih _ _
      · exact Grows.refl t
      · exact Grows.refl t

/-- Creating a directory only adds directories. -/
theorem createDirSync_grows (t : Tree) (path : RelPath) :
    Grows t (createDirSync t path).2 := by
  unfold createDirSync
  split_ifs
  · exact Grows.refl t
  · split
    · exact Grows.refl t
    · exact mkdirs_grows t [] path.components

/-- Creating the parent of a destination only adds directories. -/
theorem makeParent_grows (t : Tree) (path : RelPath) : Grows t (makeParent t path).2 := by
  unfold makeParent
  split_ifs
  · exact Grows.refl t
  · split
    · exact Grows.refl t
    · exact createDirSync_grows t _

/-- A walk that succeeds went through directories. -/
theorem resolveDir_directory {t : Tree} {done rest : List Text}
    (h : resolveDir t done rest = .ok ()) {x : List Text} (hx : x <+: rest) (hne : x ≠ []) :
    nodeAt t (done ++ x) = some .directory := by
  induction rest generalizing done x with
  | nil => exact absurd (List.prefix_nil.mp hx) hne
  | cons c rest ih =>
      unfold resolveDir at h
      split at h
      · exact absurd h (by simp)
      · rename_i hdir
        obtain ⟨d, x, rfl⟩ := List.exists_cons_of_ne_nil hne
        obtain ⟨rfl, hx'⟩ := List.cons_prefix_cons.mp hx
        rcases eq_or_ne x [] with rfl | hx0
        · exact hdir
        · have := ih h hx' hx0
          rwa [List.append_assoc, List.singleton_append] at this
      · exact absurd h (by simp)
      · exact absurd h (by simp)

/-- What a rename can do: leave the files alone, or move an existing entry that the deny
list does not match to a path it does not match. -/
theorem renameInternal_cases (t : Tree) (source target : RelPath) (mode : RenameMode) :
    (∃ e, (renameInternal t source target mode).1 = .error e ∧
        Grows t (renameInternal t source target mode).2) ∨
      ∃ t₁, Grows t t₁ ∧ resolveFrom t source target = .ok () ∧
        checkDestination t₁ target.components mode = .ok () ∧
        (renameInternal t source target mode).1 = .ok () ∧
        ((source.components = target.components ∧
            (renameInternal t source target mode).2 = t₁) ∨
          (¬ source.components <+: target.components ∧
            (renameInternal t source target mode).2 =
              moveEntry t₁ source.components target.components)) := by
  have hgrow := makeParent_grows t target
  unfold renameInternal
  split
  · exact .inl ⟨_, rfl, Grows.refl t⟩
  · rename_i hfrom
    split
    · rename_i e t₁ hmk
      rw [hmk] at hgrow
      exact .inl ⟨e, rfl, hgrow⟩
    · rename_i t₁ hmk
      rw [hmk] at hgrow
      split
      · exact .inl ⟨_, rfl, hgrow⟩
      · split
        · exact .inl ⟨_, rfl, hgrow⟩
        · rename_i hdest
          unfold renameat
          split_ifs with h1 h2
          · exact .inr ⟨t₁, hgrow, hfrom, hdest, rfl, .inl ⟨h1, rfl⟩⟩
          · exact .inl ⟨_, rfl, hgrow⟩
          all_goals
            split
            · exact .inl ⟨_, rfl, hgrow⟩
            · exact .inr ⟨t₁, hgrow, hfrom, hdest, rfl, .inr ⟨h2, rfl⟩⟩
            · first
              | exact .inl ⟨_, rfl, hgrow⟩
              | exact .inr ⟨t₁, hgrow, hfrom, hdest, rfl, .inr ⟨h2, rfl⟩⟩
            · exact .inl ⟨_, rfl, hgrow⟩
            · exact .inl ⟨_, rfl, hgrow⟩
            · exact .inr ⟨t₁, hgrow, hfrom, hdest, rfl, .inr ⟨h2, rfl⟩⟩

/-- A path that passes the deny list is not denied. -/
theorem checkDenyList_ok {path : RelPath} {u : Unit} (h : checkDenyList path = .ok u) :
    isDeniedForWrite path.components = false := by
  unfold checkDenyList at h
  split_ifs at h with hd
  simpa using hd

/-- The checks on the source of a rename: neither path is denied or the root, and the
source exists below directories. -/
theorem resolveFrom_ok {t : Tree} {source target : RelPath}
    (h : resolveFrom t source target = .ok ()) :
    isDeniedForWrite source.components = false ∧ isDeniedForWrite target.components = false ∧
      source.components ≠ [] ∧ target.components ≠ [] ∧
      resolveDir t [] source.components.dropLast = .ok () ∧
      (nodeAt t source.components).isSome := by
  unfold resolveFrom at h
  by_cases h0 : t.readOnly = true
  · rw [if_pos h0] at h
    exact absurd h (by simp)
  · rw [if_neg h0] at h
    obtain ⟨_, h1, h⟩ := bind_eq_ok.mp h
    obtain ⟨_, h2, h⟩ := bind_eq_ok.mp h
    by_cases h3 : source.value = [] ∨ target.value = []
    · rw [if_pos h3] at h
      exact absurd h (by simp)
    · rw [if_neg h3] at h
      obtain ⟨_, hdir, h⟩ := bind_eq_ok.mp h
      obtain ⟨hs, ht⟩ := not_or.mp h3
      refine ⟨checkDenyList_ok h1, checkDenyList_ok h2,
        fun hc => hs (RelPath.components_eq_nil_iff.mp hc),
        fun hc => ht (RelPath.components_eq_nil_iff.mp hc), hdir, ?_⟩
      split at h
      · exact absurd h (by simp)
      · rename_i n hn
        rw [hn]
        rfl

/-! ### The backend stores bytes -/

/-- The bytes of the file at a path. -/
def content (t : Tree) (path : RelPath) : Option (List UInt8) :=
  match nodeAt t path.components with
  | some (.file ino) => some (t.data ino)
  | _ => none

/-- The bytes of a file are those of its inode. -/
theorem content_eq_some {t : Tree} {path : RelPath} {c : List UInt8} :
    content t path = some c ↔
      ∃ ino, nodeAt t path.components = some (.file ino) ∧ t.data ino = c := by
  unfold content
  split
  · rename_i ino h
    constructor
    · intro hc
      exact ⟨ino, h, Option.some.inj hc⟩
    · rintro ⟨ino', h', rfl⟩
      rw [h] at h'
      obtain rfl : ino = ino' := by simpa using h'
      rfl
  · rename_i h
    constructor
    · intro hc
      exact absurd hc (by simp)
    · rintro ⟨ino, h', -⟩
      exact absurd h' (h ino)

/-- New directories change the bytes of no file. -/
theorem Grows.content {t t' : Tree} (h : Grows t t') (path : RelPath) :
    content t' path = content t path := by
  ext c
  rw [content_eq_some, content_eq_some]
  simp only [h.nodeAt_file, h.data]

/-- Opening for writing: the file that is there, or a new empty one. -/
theorem openWriteSync_ok {t : Tree} {path : RelPath} {ino : ℕ}
    (h : (openWriteSync t path).1 = .ok ino) :
    nodeAt (openWriteSync t path).2 path.components = some (.file ino) ∧
      PosixVfs.content (openWriteSync t path).2 path =
        some ((PosixVfs.content t path).getD []) := by
  have hres : ∀ o, resolveWrite t path = .ok o →
      (o = none ∧ nodeAt t path.components = none) ∨
        ∃ i, o = some i ∧ nodeAt t path.components = some (.file i) := by
    intro o ho
    unfold resolveWrite at ho
    by_cases h0 : t.readOnly = true
    · rw [if_pos h0] at ho
      exact absurd ho (by simp)
    · rw [if_neg h0] at ho
      obtain ⟨-, -, ho⟩ := bind_eq_ok.mp ho
      by_cases h1 : path.value = []
      · rw [if_pos h1] at ho
        exact absurd ho (by simp)
      · rw [if_neg h1] at ho
        obtain ⟨-, -, ho⟩ := bind_eq_ok.mp ho
        split at ho
        · exact .inl ⟨(Except.ok.inj ho).symm, ‹_›⟩
        · exact .inr ⟨_, (Except.ok.inj ho).symm, ‹_›⟩
        · exact absurd ho (by simp)
        · exact absurd ho (by simp)
  unfold openWriteSync at h ⊢
  split at h
  · exact absurd h (by simp)
  · rename_i i hi
    obtain rfl := Except.ok.inj h
    rcases hres _ hi with ⟨h0, -⟩ | ⟨i', h0, hn⟩
    · exact absurd h0 (by simp)
    · obtain rfl := Option.some.inj h0
      refine ⟨hn, ?_⟩
      rw [content_eq_some.mpr ⟨_, hn, rfl⟩]
      rfl
  · rename_i hi
    obtain rfl := Except.ok.inj h
    rcases hres _ hi with ⟨-, hn⟩ | ⟨i', h0, -⟩
    · have hnode : nodeAt (addEntry t path.components (.file t.nextIno)) path.components =
          some (.file t.nextIno) := by
        rw [nodeAt_addEntry, hn]
        simp
      refine ⟨hnode, content_eq_some.mpr ⟨t.nextIno, hnode, ?_⟩⟩
      have hc : PosixVfs.content t path = none := by
        unfold PosixVfs.content
        rw [hn]
      simp [hc]
    · exact absurd h0 (by simp)

/-- Moving a file to a free path carries its bytes there. -/
theorem renameInternal_noReplace_ok {t : Tree} {source target : RelPath} {c : List UInt8}
    (hc : PosixVfs.content t source = some c)
    (h : (renameInternal t source target .noReplace).1 = .ok ()) :
    PosixVfs.content (renameInternal t source target .noReplace).2 target = some c ∧
      PosixVfs.content (renameInternal t source target .noReplace).2 source = none := by
  obtain ⟨ino, hnode, hdata⟩ := content_eq_some.mp hc
  rcases renameInternal_cases t source target .noReplace with
    ⟨e, he, -⟩ | ⟨t₁, hgrow, hfrom, hdest, -, hmove⟩
  · rw [he] at h
    exact absurd h (by simp)
  · obtain ⟨-, -, hs, ht, hdir, -⟩ := resolveFrom_ok hfrom
    have hfree : nodeAt t₁ target.components = none := by
      unfold checkDestination at hdest
      split_ifs at hdest with hsome
      simpa using hsome
    have hnode₁ := hgrow.nodeAt_eq hnode
    rcases hmove with ⟨heq, -⟩ | ⟨hpre, hmove⟩
    · rw [heq, hfree] at hnode₁
      exact absurd hnode₁ (by simp)
    · have hout : ¬ target.components <+: source.components := by
        intro hpre'
        rcases eq_or_ne target.components source.components with heq | hne
        · exact hpre (heq ▸ List.prefix_rfl)
        · have hlast : target.components <+: source.components.dropLast := by
            obtain ⟨rest, hrest⟩ := hpre'
            rcases List.eq_nil_or_concat rest with rfl | ⟨init, z, rfl⟩
            · exact absurd (by simpa using hrest) hne
            · rw [← hrest, List.concat_eq_append, ← List.append_assoc, List.dropLast_concat]
              exact List.prefix_append _ _
          have := hgrow.nodeAt_eq (resolveDir_directory hdir hlast ht)
          rw [List.nil_append, hfree] at this
          exact absurd this (by simp)
      rw [hmove]
      constructor
      · refine content_eq_some.mpr ⟨ino, ?_, ?_⟩
        · have := nodeAt_moveEntry_under t₁ hs ht []
          rw [List.append_nil, List.append_nil] at this
          rw [this, hnode₁]
        · exact (congrFun hgrow.data ino).trans hdata
      · unfold PosixVfs.content
        rw [nodeAt_moveEntry_outside t₁ hs hout, if_pos List.prefix_rfl]

/-- Removing changes the bytes of no other file. -/
theorem content_removeSync (t : Tree) (path q : RelPath) :
    PosixVfs.content (removeSync t path).2 q = PosixVfs.content t q ∨
      (q = path ∧ PosixVfs.content (removeSync t path).2 q = none) := by
  unfold removeSync
  split
  · exact .inl rfl
  · by_cases hq : q.components = []
    · have hroot : ∀ t', PosixVfs.content t' q = none := by
        intro t'
        simp [PosixVfs.content, nodeAt, hq]
      exact .inl (by rw [hroot, hroot])
    · unfold PosixVfs.content
      rw [nodeAt_eraseEntry t hq]
      split_ifs with heq
      · exact .inr ⟨RelPath.components_injective heq, rfl⟩
      · exact .inl rfl

/-- The backend is a store of byte-addressed files. -/
def byteStore : ByteStore vfs where
  content := PosixVfs.content
  At t ino p := nodeAt t p.components = some (.file ino)
  content_stat _ _ _ := rfl
  at_stat _ _ _ _ h := h
  stat_size := by
    intro t p c m hc hm
    obtain ⟨ino, hnode, hdata⟩ := content_eq_some.mp hc
    change statSync t p = .ok m at hm
    unfold statSync at hm
    obtain ⟨-, -, hm⟩ := bind_eq_ok.mp hm
    obtain ⟨-, -, hm⟩ := bind_eq_ok.mp hm
    rw [hnode] at hm
    obtain rfl := Except.ok.inj hm
    rw [hdata]
  content_createDir t p q := (createDirSync_grows t p).content q
  openWrite_ok _ _ _ h := openWriteSync_ok h
  openWrite_error := by
    intro t p e h
    change (openWriteSync t p).1 = .error e at h
    change (PosixVfs.content (openWriteSync t p).2 p).getD [] = _
    unfold openWriteSync at h ⊢
    split at h
    · rfl
    · exact absurd h (by simp)
    · exact absurd h (by simp)
  at_writeAt _ _ _ _ _ h := h
  writeAt_ok := by
    intro t ino off bs p c hat hc _
    refine content_eq_some.mpr ⟨ino, hat, ?_⟩
    obtain ⟨ino', hnode, rfl⟩ := content_eq_some.mp hc
    rw [hat] at hnode
    obtain rfl : ino = ino' := by simpa using hnode
    simp [vfs]
  writeAt_error := by
    intro t ino off bs p c e _ _ h
    exact absurd h (by simp [vfs])
  content_sync _ _ _ := rfl
  at_sync _ _ _ _ h := h
  renameNoReplace_ok _ _ _ _ hc h := renameInternal_noReplace_ok hc h
  renameNoReplace_error := by
    intro t p q e r h
    rcases renameInternal_cases t p q .noReplace with ⟨-, -, hgrow⟩ | ⟨t₁, -, -, -, hok, -⟩
    · exact hgrow.content r
    · change (renameInternal t p q .noReplace).1 = .error e at h
      rw [h] at hok
      exact absurd hok (by simp)
  remove_self t p := (content_removeSync t p p).symm.imp And.right id
  remove_other := by
    intro t p q hne
    rcases content_removeSync t p q with h | ⟨h, -⟩
    · exact h
    · exact absurd h hne

end PosixVfs

end Tradr
