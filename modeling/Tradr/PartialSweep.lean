import Mathlib.Data.List.Nodup
import Tradr.Eff
import Tradr.SentDeliveries
import Tradr.StagingNames

/-!
# Sweeping Partial Transfers

Before it accepts a connection a receiver removes the staging directories that an interrupted
transfer left more than seven days ago. It judges a directory by its own time and by a listing of
it, and then removes the files it was shown one call after another, and the directory last. A
listing hides what the deny list matches and what is neither a file nor a directory, and each call
may fail.

## Main definitions

* `sweepStalePartials`: the sweep, over any filesystem.
* `Attempt`, `faulty`: the POSIX backend under faults, one for each call that is made.
* `SweptWell`: what a sweep may do to a tree, and what it answers.
* `GoesWhole`: once the first file of a directory is removed, all of the directory can be.

## Main results

* `sweepEntry_cases`, `sweepEntry_torn`: one directory is kept, swept, or left with a part of its
  files.
* `sweepStalePartials_whole_iff`: a sweep does well exactly when every directory it begins to
  remove goes whole.
-/

namespace Tradr

open Fallible PosixVfs

/-! ### The sweep -/

/-- How long partial transfers are kept, in seconds. -/
def partialRetentionSecs : ℤ := 604800

/-- Whether a time is longer ago than that. A time to come is not. -/
def isStale (now modified : ℤ) : Bool :=
  if now < modified then false
  else partialRetentionSecs < SentDeliveries.saturatingSub now modified

/-- The items in a transfer's directory, when the listing shows nothing that keeps it: only stale
files named by an item's identifier. -/
def staleItems (now : ℤ) : List DirEntry → Option (List ItemId)
  | [] => some []
  | child :: rest =>
    if child.kind ≠ .file then none
    else
      match ItemId.new child.name with
      | .error _ => none
      | .ok itemId =>
        if itemId.value ≠ child.name then none
        else if !isStale now child.modified then none
        else (staleItems now rest).map (itemId :: ·)

/-- The transfer whose directory an entry of the staging root is, when it is stale. -/
def staleTransfer (now : ℤ) (entry : DirEntry) : Option TransferId :=
  if entry.kind ≠ .directory then none
  else
    match TransferId.parse entry.name with
    | .error _ => none
    | .ok transferId =>
      if transferId.display ≠ entry.name then none
      else if !isStale now entry.modified then none
      else some transferId

section
variable {σ H : Type} (vfs : Vfs σ H) (now : ℤ)

/-- Remove the partial files of items. -/
def removeItems (transferId : TransferId) : List ItemId → Eff σ VfsError Unit
  | [] => pure ()
  | itemId :: rest => do
    let _ ← (vfs.remove · (partialFileRelPath transferId itemId) : Eff σ VfsError Unit)
    removeItems transferId rest

/-- Remove the directory of a transfer, unless the listing shows something that keeps it. -/
def sweepTransfer (transferId : TransferId) : Eff σ VfsError (Option TransferId) := do
  let children ← (vfs.list · (partialDirRelPath transferId) : Eff σ VfsError (List DirEntry))
  match staleItems now children with
  | none => pure none
  | some items =>
    removeItems vfs transferId items
    let _ ← (vfs.remove · (partialDirRelPath transferId) : Eff σ VfsError Unit)
    pure (some transferId)

/-- What the sweep does with one entry of the staging root. -/
def sweepEntry (entry : DirEntry) : Eff σ VfsError (Option TransferId) :=
  match staleTransfer now entry with
  | none => pure none
  | some transferId => sweepTransfer vfs now transferId

/-- Remove the stale directories of a listing of the staging root. -/
def sweepStalePartials : List DirEntry → Eff σ VfsError (List TransferId)
  | [] => pure []
  | entry :: rest => do
    let swept ← sweepEntry vfs now entry
    let more ← sweepStalePartials rest
    pure (swept.toList ++ more)

end

/-! ### Faults -/

/-- A tree, and the number of calls made on it. -/
structure Attempt where
  tree : Tree
  calls : ℕ

/-- Make a call, unless it is one that fails; then the tree stays as it is. -/
def Attempt.call {A : Type} (faults : ℕ → Option VfsError) (op : Tree → Except VfsError A × Tree)
    (s : Attempt) : Except VfsError A × Attempt :=
  match faults s.calls with
  | some e => (.error e, ⟨s.tree, s.calls + 1⟩)
  | none => ((op s.tree).1, ⟨(op s.tree).2, s.calls + 1⟩)

/-- The backend under faults: which of the calls made on it fail, and how. -/
def faulty (faults : ℕ → Option VfsError) : Vfs Attempt ℕ where
  list s p := s.call faults (vfs.list · p)
  stat s p := s.call faults (vfs.stat · p)
  openRead s p := s.call faults (vfs.openRead · p)
  readAt s h off len := s.call faults (vfs.readAt · h off len)
  createDir s p := s.call faults (vfs.createDir · p)
  openWrite s p := s.call faults (vfs.openWrite · p)
  writeAt s h off bytes := s.call faults (vfs.writeAt · h off bytes)
  sync s h := s.call faults (vfs.sync · h)
  rename s p q := s.call faults (vfs.rename · p q)
  renameNoReplace s p q := s.call faults (vfs.renameNoReplace · p q)
  remove s p := s.call faults (vfs.remove · p)

/-! ### What is asked of a sweep -/

/-- The place of a transfer's directory. -/
def dirOf (t : TransferId) : List Text := [partialRootName, t.display]

/-- The place of an item's partial file. -/
def fileOf (t : TransferId) (i : ItemId) : List Text := [partialRootName, t.display, i.value]

/-- Longer ago than partial transfers are kept. -/
def Older (now modified : ℤ) : Prop := partialRetentionSecs < now - modified

/-- No two entries of the tree have one path. -/
def Tree.Distinct (t : Tree) : Prop := (t.entries.map Prod.fst).Nodup

/-- A directory may be swept: a transfer's, listed with an old time, with old entries only, whether
a listing shows them or not. -/
structure MaySweep (now : ℤ) (listing : List DirEntry) (t : Tree) (transferId : TransferId) :
    Prop where
  listed : ∃ entry ∈ listing, entry.kind = .directory ∧ entry.name = transferId.display ∧
    Older now entry.modified
  entries : ∀ q n, nodeAt t q = some n → q ≠ [] → q.dropLast = dirOf transferId →
    Older now (t.modified q)

/-- What a sweep may do to a tree, and what it answers: a file is gone only with the directory it was
in, which might be swept; the answer names the directories that are gone; every directory that is
left has all its files, and none has lost a part of them. -/
structure SweptWell (now : ℤ) (listing : List DirEntry) (t : Tree)
    (answer : Except VfsError (List TransferId)) (t' : Tree) : Prop where
  conservative : ∀ p ino, nodeAt t p = some (.file ino) → nodeAt t' p ≠ some (.file ino) →
    ∃ transferId, p.dropLast = dirOf transferId ∧ MaySweep now listing t transferId
  answered : ∀ ids, answer = .ok ids → ids.Nodup ∧ ∀ transferId, transferId ∈ ids ↔
    nodeAt t (dirOf transferId) = some .directory ∧ nodeAt t' (dirOf transferId) = none
  others : ∀ d, nodeAt t' d = some .directory → ∀ p ino, nodeAt t p = some (.file ino) →
    p.dropLast = d → nodeAt t' p = some (.file ino)
  whole : ∀ d, (∀ p ino, nodeAt t p = some (.file ino) → p.dropLast = d →
      nodeAt t' p = some (.file ino)) ∨
    ∀ p ino, nodeAt t p = some (.file ino) → p.dropLast = d → nodeAt t' p = none

/-- A directory has an entry that a listing hides. -/
def Hides (t : Tree) (d : List Text) : Prop :=
  ∃ e ∈ t.entries, e.1 ≠ [] ∧ e.1.dropLast = d ∧ listEntry t d e = none

/-- When the first file of a stale directory is removed, all of it can be: the listing hid nothing,
and no later call on it fails. -/
def GoesWhole (faults : ℕ → Option VfsError) (now : ℤ) (s : Attempt) (entry : DirEntry) : Prop :=
  ∀ transferId children items, staleTransfer now entry = some transferId →
    faults s.calls = none → listSync s.tree (partialDirRelPath transferId) = .ok children →
    staleItems now children = some items → items ≠ [] →
    s.tree.readOnly = false → faults (s.calls + 1) = none →
    ¬Hides s.tree (dirOf transferId) ∧
      ∀ k, 1 < k → k ≤ items.length + 1 → faults (s.calls + k) = none

/-! ### Times and names -/

/-- A stale time is an older one, at every reading of the clock. -/
theorem isStale_iff {now modified : ℤ} : isStale now modified = true ↔ Older now modified := by
  rw [isStale, Older, SentDeliveries.saturatingSub, partialRetentionSecs]
  split_ifs with h
  · simp only [false_iff, not_lt]
    omega
  · rw [decide_eq_true_eq]
    omega

/-- One name is of one transfer. -/
theorem dirOf_inj {t t' : TransferId} (h : dirOf t = dirOf t') : t = t' := by
  have hname : t.display = t'.display := by simpa [dirOf] using h
  have hparse := congrArg TransferId.parse hname
  rw [TransferId.parse_display, TransferId.parse_display] at hparse
  exact Except.ok.inj hparse

/-- One name is of one item. -/
theorem fileOf_inj {t : TransferId} {i j : ItemId} (h : fileOf t i = fileOf t j) : i = j := by
  obtain ⟨value, _⟩ := i
  obtain ⟨value', _⟩ := j
  obtain rfl : value = value' := by simpa [fileOf] using h
  rfl

/-- A partial file is in its transfer's directory. -/
@[simp] theorem dropLast_fileOf (t : TransferId) (i : ItemId) : (fileOf t i).dropLast = dirOf t := rfl

/-- What is in a transfer's directory is not a transfer's directory. -/
theorem dirOf_ne {p : List Text} {t t' : TransferId} (h : p.dropLast = dirOf t) : p ≠ dirOf t' := by
  rintro rfl
  have hlength := congrArg List.length h
  simp [dirOf] at hlength

/-- A stale directory of the staging root is a transfer's by its name. -/
theorem staleTransfer_eq_some {now : ℤ} {entry : DirEntry} {t : TransferId}
    (h : staleTransfer now entry = some t) :
    entry.kind = .directory ∧ entry.name = t.display ∧ Older now entry.modified := by
  rw [staleTransfer] at h
  by_cases hkind : entry.kind ≠ .directory
  · rw [if_pos hkind] at h
    cases h
  rw [if_neg hkind] at h
  cases hparse : TransferId.parse entry.name with
  | error e => rw [hparse] at h; cases h
  | ok t' =>
    rw [hparse] at h
    dsimp only at h
    split_ifs at h with hname hstale
    obtain rfl := Option.some.inj h
    refine ⟨not_not.mp hkind, (not_not.mp hname).symm, isStale_iff.mp ?_⟩
    simpa using hstale

/-- Items to be removed are the entries of the listing, and each is an old file. -/
theorem staleItems_eq_some {now : ℤ} {children : List DirEntry} {items : List ItemId}
    (h : staleItems now children = some items) :
    items.map ItemId.value = children.map DirEntry.name ∧
      ∀ child ∈ children, child.kind = .file ∧ Older now child.modified := by
  induction children generalizing items with
  | nil =>
    obtain rfl := Option.some.inj h
    simp
  | cons child rest ih =>
    rw [staleItems] at h
    by_cases hkind : child.kind ≠ .file
    · rw [if_pos hkind] at h
      cases h
    rw [if_neg hkind] at h
    cases hnew : ItemId.new child.name with
    | error e => rw [hnew] at h; cases h
    | ok itemId =>
      rw [hnew] at h
      dsimp only at h
      split_ifs at h with hname hstale
      obtain ⟨more, hmore, rfl⟩ := Option.map_eq_some_iff.mp h
      obtain ⟨hnames, hall⟩ := ih hmore
      refine ⟨by rw [List.map_cons, List.map_cons, hnames, not_not.mp hname], ?_⟩
      intro c hc
      rcases List.mem_cons.mp hc with rfl | hc
      · exact ⟨not_not.mp hkind, isStale_iff.mp (by simpa using hstale)⟩
      · exact hall c hc

/-! ### Trees that lost entries -/

namespace Tree

/-- The tree without some of its entries. -/
def dropping (t : Tree) (gone : List (List Text)) : Tree :=
  { t with entries := t.entries.filter fun e => e.1 ∉ gone }

@[simp] theorem dropping_nil (t : Tree) : t.dropping [] = t := by
  simp [dropping]

@[simp] theorem dropping_readOnly (t : Tree) (gone : List (List Text)) :
    (t.dropping gone).readOnly = t.readOnly := rfl

@[simp] theorem dropping_modified (t : Tree) (gone : List (List Text)) :
    (t.dropping gone).modified = t.modified := rfl

/-- Losing entries twice. -/
theorem dropping_dropping (t : Tree) (gone gone' : List (List Text)) :
    (t.dropping gone).dropping gone' = t.dropping (gone ++ gone') := by
  simp only [dropping, List.filter_filter, List.mem_append, not_or]
  congr 2
  funext e
  rw [Bool.and_comm, Bool.decide_and]

/-- The entries that are left. -/
theorem mem_dropping {t : Tree} {gone : List (List Text)} {e : List Text × Node} :
    e ∈ (t.dropping gone).entries ↔ e ∈ t.entries ∧ e.1 ∉ gone := by
  simp [dropping, List.mem_filter]

/-- What is left has distinct paths. -/
theorem Distinct.dropping {t : Tree} (h : t.Distinct) (gone : List (List Text)) :
    (t.dropping gone).Distinct :=
  h.sublist (List.filter_sublist.map _)

end Tree

/-- Erasing an entry. -/
theorem eraseEntry_eq (t : Tree) (p : List Text) : eraseEntry t p = t.dropping [p] := by
  have hfilter : ∀ l : List (List Text × Node),
      Assoc.rekey (fun q => if q = p then none else some q) l =
        l.filter fun e => e.1 ∉ [p] := by
    intro l
    induction l with
    | nil => rfl
    | cons e l ih =>
      rw [Assoc.rekey] at ih ⊢
      by_cases hp : e.1 = p
      · simp [hp, ih]
      · simp [hp, ih]
  rw [eraseEntry, hfilter, Tree.dropping]

/-- What is at a path, in a tree that lost entries. -/
theorem nodeAt_dropping (t : Tree) (gone : List (List Text)) {p : List Text} (hp : p ≠ []) :
    nodeAt (t.dropping gone) p = if p ∈ gone then none else nodeAt t p := by
  rw [nodeAt, nodeAt, if_neg hp, if_neg hp, Tree.dropping]
  dsimp only
  induction t.entries with
  | nil => simp
  | cons e l ih =>
    rw [Assoc.lookup_cons]
    by_cases hgone : e.1 ∈ gone
    · rw [List.filter_cons_of_neg (by simpa using hgone), ih]
      split_ifs with hmem heq
      · rfl
      · exact absurd (heq ▸ hgone) hmem
      · rfl
    · rw [List.filter_cons_of_pos (by simpa using hgone), Assoc.lookup_cons, ih]
      split_ifs with heq hmem
      · exact absurd (heq ▸ hmem) hgone
      · rfl
      · rfl
      · rfl

/-- What did not go is still there. -/
theorem nodeAt_kept {t : Tree} (gone : List (List Text)) {p : List Text} (hp : p ≠ [])
    (hgone : p ∉ gone) : nodeAt (t.dropping gone) p = nodeAt t p := by
  rw [nodeAt_dropping t gone hp, if_neg hgone]

/-- With distinct paths, what is at a path is the entry with it. -/
theorem nodeAt_eq_some {t : Tree} (h : t.Distinct) {p : List Text} (hp : p ≠ []) {n : Node} :
    nodeAt t p = some n ↔ (p, n) ∈ t.entries := by
  rw [nodeAt, if_neg hp]
  refine ⟨Assoc.mem_of_lookup, fun hmem => ?_⟩
  rw [Tree.Distinct] at h
  generalize t.entries = l at h hmem ⊢
  induction l with
  | nil => cases hmem
  | cons e l ih =>
    rw [List.map_cons, List.nodup_cons] at h
    rw [Assoc.lookup_cons]
    rcases List.mem_cons.mp hmem with rfl | hmem
    · rw [if_pos rfl]
    · rw [if_neg, ih h.2 hmem]
      rintro rfl
      exact h.1 (List.mem_map.mpr ⟨_, hmem, rfl⟩)

/-! ### What a listing shows -/

/-- A transfer's directory, open for removal, with the items that the listing shows in it. -/
structure Shown (now : ℤ) (u : Tree) (t : TransferId) (items : List ItemId) : Prop where
  root : nodeAt u [partialRootName] = some .directory
  dir : nodeAt u (dirOf t) = some .directory
  files : ∀ i ∈ items, (∃ ino, nodeAt u (fileOf t i) = some (.file ino)) ∧
    isDeniedForWrite (fileOf t i) = false
  nodup : items.Nodup
  shown : ∀ e ∈ u.entries, e.1 ≠ [] → e.1.dropLast = dirOf t → listEntry u (dirOf t) e ≠ none →
    (∃ i ∈ items, e.1 = fileOf t i) ∧ Older now (u.modified e.1)

/-- Walking to a transfer's directory. -/
theorem resolveDir_dirOf {u : Tree} {t : TransferId} :
    resolveDir u [] (dirOf t) = .ok () ↔
      nodeAt u [partialRootName] = some .directory ∧ nodeAt u (dirOf t) = some .directory := by
  constructor
  · intro h
    exact ⟨resolveDir_directory h ⟨[t.display], rfl⟩ (by simp),
      resolveDir_directory h List.prefix_rfl (by simp)⟩
  · rintro ⟨hroot, hdir⟩
    have hdir' : nodeAt u ([partialRootName] ++ [t.display]) = some .directory := hdir
    rw [dirOf, resolveDir, List.nil_append, hroot]
    dsimp only
    rw [resolveDir, hdir']
    rfl

/-- An entry that a listing shows, as it is listed. -/
theorem listEntry_eq_some {u : Tree} {d : List Text} {e : List Text × Node} {child : DirEntry}
    (h : listEntry u d e = some child) :
    e.1 = d ++ [child.name] ∧ isDeniedForWrite e.1 = false ∧ child.modified = u.modified e.1 ∧
      (child.kind = .file → ∃ ino, e.2 = .file ino) := by
  rw [listEntry] at h
  split_ifs at h with hcond
  obtain ⟨hne, hdir, hdenied⟩ := hcond
  have hlast : e.1 = d ++ [e.1.getLast?.getD []] := by
    rw [List.getLast?_eq_getLast_of_ne_nil hne, Option.getD_some, ← hdir,
      List.dropLast_append_getLast]
  cases hmeta : metadataOf u e.1 e.2 with
  | error err => rw [hmeta] at h; cases h
  | ok m =>
    rw [hmeta] at h
    obtain rfl := Option.some.inj h
    refine ⟨hlast, by simpa using hdenied, ?_, ?_⟩
    · cases hnode : e.2 <;> rw [hnode] at hmeta <;> cases hmeta <;> rfl
    · intro hkind
      cases hnode : e.2 with
      | file ino => exact ⟨ino, rfl⟩
      | directory =>
        rw [hnode] at hmeta
        cases hmeta
        cases hkind
      | symlink => rw [hnode] at hmeta; cases hmeta
      | special => rw [hnode] at hmeta; cases hmeta

/-- The paths of what a listing shows are paths of the tree, each once. -/
theorem listEntry_sublist (u : Tree) (d : List Text) (l : List (List Text × Node)) :
    ((l.filterMap (listEntry u d)).map fun child => d ++ [child.name]).Sublist
      (l.map Prod.fst) := by
  induction l with
  | nil => exact List.Sublist.slnil
  | cons e l ih =>
    cases hentry : listEntry u d e with
    | none =>
      rw [List.filterMap_cons_none hentry]
      exact ih.cons _
    | some child =>
      rw [List.filterMap_cons_some hentry, List.map_cons, List.map_cons,
        ← (listEntry_eq_some hentry).1]
      exact ih.cons_cons _

/-- A listing that shows only stale files opens the directory for removal. -/
theorem shown_of_staleItems {now : ℤ} {u : Tree} (hu : u.Distinct) {t : TransferId}
    {children : List DirEntry} {items : List ItemId}
    (hlist : listSync u (partialDirRelPath t) = .ok children)
    (hitems : staleItems now children = some items) : Shown now u t items := by
  have hcomps := components_partialDirRelPath t
  change (partialDirRelPath t).components = dirOf t at hcomps
  obtain ⟨-, -, hlist⟩ := bind_eq_ok.mp hlist
  obtain ⟨⟨⟩, hresolve, hlist⟩ := bind_eq_ok.mp hlist
  rw [hcomps] at hresolve hlist
  obtain rfl := Except.ok.inj hlist
  obtain ⟨hroot, hdir⟩ := resolveDir_dirOf.mp hresolve
  obtain ⟨hnames, hall⟩ := staleItems_eq_some hitems
  have hpaths : items.map (fileOf t) =
      (u.entries.filterMap (listEntry u (dirOf t))).map fun child => dirOf t ++ [child.name] := by
    have happ := congrArg (List.map fun name => dirOf t ++ [name]) hnames
    rwa [List.map_map, List.map_map] at happ
  exact {
    root := hroot
    dir := hdir
    files := by
      intro i hi
      have hmem : fileOf t i ∈ items.map (fileOf t) := List.mem_map_of_mem hi
      rw [hpaths] at hmem
      obtain ⟨child, hchild, hpath⟩ := List.mem_map.mp hmem
      obtain ⟨e, he, hentry⟩ := List.mem_filterMap.mp hchild
      obtain ⟨heq, hdenied, -, hfile⟩ := listEntry_eq_some hentry
      obtain ⟨ino, hino⟩ := hfile (hall child hchild).1
      rw [← hpath, ← heq]
      refine ⟨⟨ino, ?_⟩, hdenied⟩
      rw [nodeAt_eq_some hu (by rw [heq]; simp), ← hino]
      exact he
    nodup := by
      have hnodup := hu.sublist (listEntry_sublist u (dirOf t) u.entries)
      rw [← hpaths] at hnodup
      exact hnodup.of_map _
    shown := by
      intro e he hne hd hshown
      obtain ⟨child, hentry⟩ := Option.ne_none_iff_exists'.mp hshown
      have hchild : child ∈ u.entries.filterMap (listEntry u (dirOf t)) :=
        List.mem_filterMap.mpr ⟨e, he, hentry⟩
      obtain ⟨heq, -, htime, -⟩ := listEntry_eq_some hentry
      have hmem : e.1 ∈ items.map (fileOf t) := by
        rw [hpaths, heq]
        exact List.mem_map_of_mem (f := fun child : DirEntry => dirOf t ++ [child.name]) hchild
      obtain ⟨i, hi, hpath⟩ := List.mem_map.mp hmem
      exact ⟨⟨i, hi, hpath.symm⟩, htime ▸ (hall child hchild).2⟩ }

/-! ### Removing -/

/-- After other entries are gone, the directory is still open for removal. -/
theorem Shown.dropping {now : ℤ} {u : Tree} {t : TransferId} {items : List ItemId}
    (h : Shown now u t items) {i : ItemId} {rest : List ItemId} (hitems : items = i :: rest) :
    Shown now (u.dropping [fileOf t i]) t rest := by
  obtain ⟨hroot, hdir, hfiles, hnodup, hshown⟩ := h
  subst hitems
  rw [List.nodup_cons] at hnodup
  exact {
    root := by rw [nodeAt_dropping _ _ (by simp), if_neg (by simp [fileOf]), hroot]
    dir := by rw [nodeAt_dropping _ _ (by simp [dirOf]), if_neg (by simp [dirOf, fileOf]), hdir]
    files := by
      intro j hj
      obtain ⟨⟨ino, hino⟩, hdenied⟩ := hfiles j (List.mem_cons_of_mem _ hj)
      refine ⟨⟨ino, ?_⟩, hdenied⟩
      rw [nodeAt_dropping _ _ (by simp [fileOf]), if_neg, hino]
      intro hmem
      exact hnodup.1 (fileOf_inj (List.mem_singleton.mp hmem) ▸ hj)
    nodup := hnodup.2
    shown := by
      intro e he hne hd hentry
      obtain ⟨he, hgone⟩ := Tree.mem_dropping.mp he
      obtain ⟨⟨j, hj, hpath⟩, holder⟩ := hshown e he hne hd hentry
      refine ⟨⟨j, ?_, hpath⟩, holder⟩
      rcases List.mem_cons.mp hj with rfl | hj
      · exact absurd (List.mem_singleton.mpr hpath) hgone
      · exact hj }

/-- A file is removed. -/
theorem removeSync_fileOf {u : Tree} (hwrite : u.readOnly = false) {t : TransferId} {i : ItemId}
    (hroot : nodeAt u [partialRootName] = some .directory)
    (hdir : nodeAt u (dirOf t) = some .directory)
    (hfile : (∃ ino, nodeAt u (fileOf t i) = some (.file ino)) ∧
      isDeniedForWrite (fileOf t i) = false) :
    removeSync u (partialFileRelPath t i) = (.ok (), u.dropping [fileOf t i]) := by
  have hcomps := components_partialFileRelPath t i
  change (partialFileRelPath t i).components = fileOf t i at hcomps
  obtain ⟨⟨ino, hino⟩, hdenied⟩ := hfile
  have hvalue : (partialFileRelPath t i).value ≠ [] := by
    rw [value_partialFileRelPath]
    simp
  have hcheck : checkDenyList (partialFileRelPath t i) = .ok () := by
    rw [checkDenyList, hcomps, hdenied, if_neg Bool.false_ne_true]
  have hresolve : resolveRemove u (partialFileRelPath t i) = .ok () := by
    rw [resolveRemove, hwrite, if_neg Bool.false_ne_true, hcheck, ok_bind, if_neg hvalue, hcomps,
      dropLast_fileOf, resolveDir_dirOf.mpr ⟨hroot, hdir⟩, ok_bind, hino]
  rw [removeSync, hresolve, hcomps, eraseEntry_eq]

/-- A transfer's directory is removed when it is empty. -/
theorem removeSync_dirOf {u : Tree} (hwrite : u.readOnly = false) {t : TransferId}
    (hroot : nodeAt u [partialRootName] = some .directory)
    (hdir : nodeAt u (dirOf t) = some .directory) :
    removeSync u (partialDirRelPath t) =
      if isEmptyDir u (dirOf t) then (.ok (), u.dropping [dirOf t]) else (.error .wrongKind, u) := by
  have hcomps := components_partialDirRelPath t
  change (partialDirRelPath t).components = dirOf t at hcomps
  have hvalue : (partialDirRelPath t).value ≠ [] := by
    rw [value_partialDirRelPath]
    simp
  have hparent : resolveDir u [] (dirOf t).dropLast = .ok () := by
    change resolveDir u [] [partialRootName] = .ok ()
    rw [resolveDir, List.nil_append, hroot]
    rfl
  have hcheck : checkDenyList (partialDirRelPath t) = .ok () := by
    rw [checkDenyList, isDeniedForWrite_partialDirRelPath, if_neg Bool.false_ne_true]
  have hresolve : resolveRemove u (partialDirRelPath t) =
      if isEmptyDir u (dirOf t) then .ok () else .error .wrongKind := by
    rw [resolveRemove, hwrite, if_neg Bool.false_ne_true, hcheck, ok_bind, if_neg hvalue, hcomps,
      hparent, ok_bind, hdir]
  rw [removeSync, hresolve]
  split_ifs
  · rw [hcomps, eraseEntry_eq]
  · rfl

/-- Nothing is removed from a read-only root. -/
theorem removeSync_readOnly {u : Tree} (h : u.readOnly = true) (p : RelPath) :
    removeSync u p = (.error .readOnly, u) := by
  rw [removeSync, resolveRemove, if_pos h]

section
variable {faults : ℕ → Option VfsError} {now : ℤ} {t : TransferId}

/-- A removal that fails. -/
theorem remove_fault {s : Attempt} {e : VfsError} (h : faults s.calls = some e) (p : RelPath) :
    (faulty faults).remove s p = (.error e, ⟨s.tree, s.calls + 1⟩) := by
  change s.call faults (removeSync · p) = _
  rw [Attempt.call, h]

/-- A removal that is made. -/
theorem remove_made {s : Attempt} (h : faults s.calls = none) (p : RelPath) :
    (faulty faults).remove s p =
      ((removeSync s.tree p).1, ⟨(removeSync s.tree p).2, s.calls + 1⟩) := by
  change s.call faults (removeSync · p) = _
  rw [Attempt.call, h]

variable (faults) in
/-- Removing the files of a directory: all of them, or those before the first call that fails. -/
theorem removeItems_cases {items : List ItemId} {s : Attempt} (hwrite : s.tree.readOnly = false)
    (h : Shown now s.tree t items) :
    ((∀ k < items.length, faults (s.calls + k) = none) ∧
      removeItems (faulty faults) t items s =
        (.ok (), ⟨s.tree.dropping (items.map (fileOf t)), s.calls + items.length⟩)) ∨
    ∃ j < items.length, faults (s.calls + j) ≠ none ∧ (∀ k < j, faults (s.calls + k) = none) ∧
      ∃ e n, removeItems (faulty faults) t items s =
        (.error e, ⟨s.tree.dropping ((items.take j).map (fileOf t)), n⟩) := by
  induction items generalizing s with
  | nil =>
    refine .inl ⟨fun k hk => absurd hk (Nat.not_lt_zero k), ?_⟩
    rw [List.map_nil, Tree.dropping_nil]
    rfl
  | cons i rest ih =>
    cases hfault : faults s.calls with
    | some e =>
      refine .inr ⟨0, Nat.succ_pos _, by rw [Nat.add_zero, hfault]; exact Option.some_ne_none _,
        fun k hk => absurd hk (Nat.not_lt_zero k), e, s.calls + 1, ?_⟩
      rw [List.take_zero, List.map_nil, Tree.dropping_nil]
      exact Eff.bind_of_error (remove_fault hfault _)
    | none =>
      have hstep : (faulty faults).remove s (partialFileRelPath t i) =
          (.ok (), ⟨s.tree.dropping [fileOf t i], s.calls + 1⟩) := by
        rw [remove_made hfault,
          removeSync_fileOf hwrite h.root h.dir (h.files i List.mem_cons_self)]
      have hrun : removeItems (faulty faults) t (i :: rest) s =
          removeItems (faulty faults) t rest ⟨s.tree.dropping [fileOf t i], s.calls + 1⟩ :=
        Eff.bind_of_ok hstep
      have hlater {n : ℕ} (hnone : ∀ k < n, faults (s.calls + 1 + k) = none) :
          ∀ k < n + 1, faults (s.calls + k) = none := by
        intro k hk
        cases k with
        | zero => exact hfault
        | succ k =>
          rw [← Nat.add_assoc, Nat.add_right_comm]
          exact hnone k (by omega)
      rcases ih (s := ⟨s.tree.dropping [fileOf t i], s.calls + 1⟩) hwrite (h.dropping rfl) with
        ⟨hnone, hok⟩ | ⟨j, hj, hfails, hnone, e, n, herror⟩
      · refine .inl ⟨hlater hnone, ?_⟩
        rw [hrun, hok, Tree.dropping_dropping, List.length_cons, Nat.add_assoc,
          Nat.add_comm 1 rest.length]
        rfl
      · refine .inr ⟨j + 1, Nat.succ_lt_succ hj, ?_, hlater hnone, e, n, ?_⟩
        · rwa [← Nat.add_assoc, Nat.add_right_comm]
        · rw [hrun, herror, Tree.dropping_dropping]
          rfl

/-- After the items that a listing showed are gone, the directory is empty unless the listing hid
an entry. -/
theorem Shown.isEmptyDir_iff {u : Tree} (hu : u.Distinct) {items : List ItemId}
    (h : Shown now u t items) :
    isEmptyDir (u.dropping (items.map (fileOf t))) (dirOf t) = true ↔ ¬Hides u (dirOf t) := by
  rw [isEmptyDir, Bool.not_eq_true', List.any_eq_false]
  constructor
  · rintro hempty ⟨e, he, hne, hd, hhidden⟩
    refine hempty e (Tree.mem_dropping.mpr ⟨he, fun hgone => ?_⟩) (decide_eq_true ⟨hne, hd⟩)
    obtain ⟨i, hi, hpath⟩ := List.mem_map.mp hgone
    obtain ⟨⟨ino, hino⟩, hdenied⟩ := h.files i hi
    rw [hpath] at hino hdenied
    have hnode : e.2 = .file ino :=
      Option.some.inj (((nodeAt_eq_some hu hne).mpr he).symm.trans hino)
    rw [listEntry, if_pos ⟨hne, hd, by rw [hdenied]; rfl⟩, hnode] at hhidden
    cases hhidden
  · intro hhides e he hentry
    obtain ⟨he, hkept⟩ := Tree.mem_dropping.mp he
    obtain ⟨hne, hd⟩ := of_decide_eq_true hentry
    obtain ⟨⟨i, hi, hpath⟩, -⟩ :=
      h.shown e he hne hd fun hhidden => hhides ⟨e, he, hne, hd, hhidden⟩
    exact hkept (hpath ▸ List.mem_map_of_mem hi)

/-- Sweeping a directory whose listing shows only stale files: removals go on until one fails, and
the directory's own fails when the listing hid an entry. -/
theorem sweepTransfer_shown {s : Attempt} (hs : s.tree.Distinct) (hwrite : s.tree.readOnly = false)
    {children : List DirEntry} {items : List ItemId} (hlisted : faults s.calls = none)
    (hlist : listSync s.tree (partialDirRelPath t) = .ok children)
    (hitems : staleItems now children = some items) :
    (¬Hides s.tree (dirOf t) ∧ (∀ k ≤ items.length, faults (s.calls + 1 + k) = none) ∧
      ∃ n, sweepTransfer (faulty faults) now t s =
        (.ok (some t), ⟨s.tree.dropping (items.map (fileOf t) ++ [dirOf t]), n⟩)) ∨
    ∃ j ≤ items.length, (∀ k < j, faults (s.calls + 1 + k) = none) ∧
      (faults (s.calls + 1 + j) ≠ none ∨ j = items.length ∧ Hides s.tree (dirOf t)) ∧
      ∃ e n, sweepTransfer (faulty faults) now t s =
        (.error e, ⟨s.tree.dropping ((items.take j).map (fileOf t)), n⟩) := by
  have hshown := shown_of_staleItems hs hlist hitems
  have hfirst : (faulty faults).list s (partialDirRelPath t) =
      (.ok children, ⟨s.tree, s.calls + 1⟩) := by
    change s.call faults (fun u => (listSync u (partialDirRelPath t), u)) = _
    rw [Attempt.call, hlisted, hlist]
  have hrun : sweepTransfer (faulty faults) now t s = (do
      removeItems (faulty faults) t items
      let _ ← ((faulty faults).remove · (partialDirRelPath t) : Eff Attempt VfsError Unit)
      pure (some t) : Eff Attempt VfsError _) ⟨s.tree, s.calls + 1⟩ := by
    refine (Eff.bind_of_ok hfirst).trans ?_
    rw [hitems]
  rcases removeItems_cases faults (s := ⟨s.tree, s.calls + 1⟩) hwrite hshown with
    ⟨hnone, hok⟩ | ⟨j, hj, hfails, hnone, e, n, herror⟩
  · have hroot := hshown.root
    have hdir := hshown.dir
    have htake : (items.take items.length).map (fileOf t) = items.map (fileOf t) := by
      rw [List.take_length]
    rw [hrun, Eff.bind_of_ok hok]
    cases hfault : faults (s.calls + 1 + items.length) with
    | some e =>
      refine .inr ⟨items.length, le_rfl, hnone, .inl (by rw [hfault]; exact Option.some_ne_none e),
        e, s.calls + 1 + items.length + 1, ?_⟩
      rw [htake]
      exact Eff.bind_of_error (remove_fault hfault _)
    | none =>
      rw [← nodeAt_kept (items.map (fileOf t)) (by simp) (by simp [fileOf])] at hroot
      rw [← nodeAt_kept (items.map (fileOf t)) (by simp [dirOf])
        (by simp [dirOf, fileOf])] at hdir
      have hlast := removeSync_dirOf (u := s.tree.dropping (items.map (fileOf t))) hwrite hroot hdir
      by_cases hhides : Hides s.tree (dirOf t)
      · refine .inr ⟨items.length, le_rfl, hnone, .inr ⟨rfl, hhides⟩, .wrongKind,
          s.calls + 1 + items.length + 1, ?_⟩
        rw [if_neg (mt (hshown.isEmptyDir_iff hs).mp (not_not.mpr hhides))] at hlast
        rw [htake]
        refine Eff.bind_of_error ?_
        rw [remove_made hfault, hlast]
      · refine .inl ⟨hhides, fun k hk => ?_, s.calls + 1 + items.length + 1, ?_⟩
        · rcases hk.lt_or_eq with hk | rfl
          · exact hnone k hk
          · exact hfault
        · rw [if_pos ((hshown.isEmptyDir_iff hs).mpr hhides), Tree.dropping_dropping] at hlast
          refine Eff.bind_of_ok (a := ()) ?_
          rw [remove_made hfault, hlast]
  · exact .inr ⟨j, hj.le, hnone, .inl hfails, e, n, hrun.trans (Eff.bind_of_error herror)⟩

/-- A listing that fails ends the sweep, one that shows something else keeps the directory, and in a
read-only root the first removal fails. -/
theorem sweepTransfer_kept {s : Attempt}
    (h : ∀ children items, faults s.calls = none →
      listSync s.tree (partialDirRelPath t) = .ok children →
      staleItems now children = some items → s.tree.readOnly = true) :
    (sweepTransfer (faulty faults) now t s).2.tree = s.tree ∧
      ∀ t', (sweepTransfer (faulty faults) now t s).1 ≠ .ok (some t') := by
  have hfirst : (faulty faults).list s (partialDirRelPath t) =
      s.call faults (fun u => (listSync u (partialDirRelPath t), u)) := rfl
  rw [Attempt.call] at hfirst
  cases hfault : faults s.calls with
  | some e =>
    rw [hfault] at hfirst
    have hrun : sweepTransfer (faulty faults) now t s = _ := Eff.bind_of_error hfirst
    rw [hrun]
    exact ⟨rfl, fun t' ht' => by cases ht'⟩
  | none =>
    rw [hfault] at hfirst
    cases hlist : listSync s.tree (partialDirRelPath t) with
    | error e =>
      rw [hlist] at hfirst
      have hrun : sweepTransfer (faulty faults) now t s = _ := Eff.bind_of_error hfirst
      rw [hrun]
      exact ⟨rfl, fun t' ht' => by cases ht'⟩
    | ok children =>
      rw [hlist] at hfirst
      have hrun : sweepTransfer (faulty faults) now t s = _ := Eff.bind_of_ok hfirst
      rw [hrun]
      cases hitems : staleItems now children with
      | none => exact ⟨rfl, fun t' ht' => by cases ht'⟩
      | some items =>
        have hreadOnly := h children items hfault hlist hitems
        suffices hfails : ∃ e n, (removeItems (faulty faults) t items >>= fun _ => do
            let _ ← ((faulty faults).remove · (partialDirRelPath t) : Eff Attempt VfsError Unit)
            pure (some t)) (⟨s.tree, s.calls + 1⟩ : Attempt) = (.error e, ⟨s.tree, n⟩) by
          obtain ⟨e, n, he⟩ := hfails
          dsimp only
          rw [he]
          exact ⟨rfl, fun t' ht' => by cases ht'⟩
        have hremove (n : ℕ) (p : RelPath) : ∃ e,
            (faulty faults).remove ⟨s.tree, n⟩ p = (.error e, ⟨s.tree, n + 1⟩) := by
          cases hfault : faults n with
          | some e => exact ⟨e, remove_fault hfault p⟩
          | none =>
            refine ⟨.readOnly, (remove_made hfault p).trans ?_⟩
            rw [removeSync_readOnly hreadOnly]
        cases items with
        | nil =>
          obtain ⟨e, he⟩ := hremove (s.calls + 1) (partialDirRelPath t)
          exact ⟨e, s.calls + 1 + 1,
            (Eff.bind_of_ok (m := pure ()) (a := ()) rfl).trans (Eff.bind_of_error he)⟩
        | cons i rest =>
          obtain ⟨e, he⟩ := hremove (s.calls + 1) (partialFileRelPath t i)
          exact ⟨e, _, Eff.bind_of_error (Eff.bind_of_error he)⟩

/-! ### One entry of the staging root -/

/-- Where all of a directory can be removed once a file of it was, it is kept or swept. -/
theorem sweepEntry_cases {s : Attempt} (hs : s.tree.Distinct) {entry : DirEntry}
    (h : GoesWhole faults now s entry) :
    ((sweepEntry (faulty faults) now entry s).2.tree = s.tree ∧
      ∀ t, (sweepEntry (faulty faults) now entry s).1 ≠ .ok (some t)) ∨
    ∃ t items n, staleTransfer now entry = some t ∧ Shown now s.tree t items ∧
      ¬Hides s.tree (dirOf t) ∧ sweepEntry (faulty faults) now entry s =
        (.ok (some t), ⟨s.tree.dropping (items.map (fileOf t) ++ [dirOf t]), n⟩) := by
  rw [sweepEntry]
  cases htransfer : staleTransfer now entry with
  | none => exact .inl ⟨rfl, fun t ht => by cases ht⟩
  | some t =>
    dsimp only
    by_cases hopen : ∃ children items, faults s.calls = none ∧
        listSync s.tree (partialDirRelPath t) = .ok children ∧
        staleItems now children = some items ∧ s.tree.readOnly = false
    · obtain ⟨children, items, hlisted, hlist, hitems, hwrite⟩ := hopen
      rcases sweepTransfer_shown hs hwrite hlisted hlist hitems with
        ⟨hhides, -, n, hrun⟩ | ⟨j, hj, hnone, hfails, e, n, hrun⟩
      · exact .inr ⟨t, items, n, rfl, shown_of_staleItems hs hlist hitems, hhides, hrun⟩
      · refine .inl ?_
        obtain rfl : j = 0 := by
          by_contra hpos
          have hne : items ≠ [] := by
            rintro rfl
            exact hpos (Nat.le_zero.mp hj)
          obtain ⟨hhides, hlater⟩ := h t children items htransfer hlisted hlist hitems hne hwrite
            (hnone 0 (Nat.pos_of_ne_zero hpos))
          rcases hfails with hfails | ⟨-, hhidden⟩
          · refine hfails ?_
            rw [Nat.add_assoc]
            exact hlater (1 + j) (by omega) (by omega)
          · exact hhides hhidden
        rw [List.take_zero, List.map_nil, Tree.dropping_nil] at hrun
        rw [hrun]
        exact ⟨rfl, fun t' ht' => by cases ht'⟩
    · refine .inl (sweepTransfer_kept fun children items hlisted hlist hitems => ?_)
      rw [← Bool.not_eq_false]
      exact fun hwrite => hopen ⟨children, items, hlisted, hlist, hitems, hwrite⟩

/-- Otherwise the directory is left without a file that was in it, and the sweep ends. -/
theorem sweepEntry_torn {s : Attempt} (hs : s.tree.Distinct) {entry : DirEntry}
    (h : ¬GoesWhole faults now s entry) :
    ∃ t i ino gone e n, nodeAt s.tree (dirOf t) = some .directory ∧
      nodeAt s.tree (fileOf t i) = some (.file ino) ∧ fileOf t i ∈ gone ∧ dirOf t ∉ gone ∧
      sweepEntry (faulty faults) now entry s = (.error e, ⟨s.tree.dropping gone, n⟩) := by
  rw [GoesWhole] at h
  push Not at h
  obtain ⟨t, children, items, htransfer, hlisted, hlist, hitems, hne, hwrite, hfirst, hlater⟩ := h
  have hshown := shown_of_staleItems hs hlist hitems
  obtain ⟨i, rest, rfl⟩ := List.exists_cons_of_ne_nil hne
  obtain ⟨⟨ino, hino⟩, -⟩ := hshown.files i List.mem_cons_self
  rw [sweepEntry, htransfer]
  rcases sweepTransfer_shown hs hwrite hlisted hlist hitems with
    ⟨hhides, hnone, -⟩ | ⟨j, hj, hnone, hfails, e, n, hrun⟩
  · exfalso
    obtain ⟨k, hk, hle, hfault⟩ := hlater hhides
    refine hfault ?_
    have hk' := hnone (k - 1) (by omega)
    rwa [Nat.add_assoc, Nat.add_sub_cancel' hk.le] at hk'
  · have hpos : j ≠ 0 := by
      rintro rfl
      rcases hfails with hfails | ⟨hzero, -⟩
      · exact hfails hfirst
      · cases hzero
    refine ⟨t, i, ino, _, e, n, hshown.dir, hino, ?_, ?_, hrun⟩
    · obtain ⟨j, rfl⟩ := Nat.exists_eq_succ_of_ne_zero hpos
      exact List.mem_map_of_mem List.mem_cons_self
    · intro hmem
      obtain ⟨i', -, heq⟩ := List.mem_map.mp hmem
      simp [fileOf, dirOf] at heq

/-! ### The run -/

/-- What went so far: directories of transfers that might be swept, each with all that was in it. -/
structure Progress (now : ℤ) (seen : List DirEntry) (t : Tree) (ids : List TransferId)
    (gone : List (List Text)) : Prop where
  nodup : ids.Nodup
  of_gone : ∀ p ∈ gone, ∃ x ∈ ids, p = dirOf x ∨ p.dropLast = dirOf x
  swept : ∀ x ∈ ids, nodeAt t (dirOf x) = some .directory ∧ dirOf x ∈ gone ∧
    MaySweep now seen t x ∧
    ∀ p n, nodeAt t p = some n → p ≠ [] → p.dropLast = dirOf x → p ∈ gone

/-- A directory that went is one of those that were swept. -/
theorem Progress.mem_ids {seen : List DirEntry} {u : Tree} {ids : List TransferId}
    {gone : List (List Text)} (h : Progress now seen u ids gone) (hgone : dirOf t ∈ gone) :
    t ∈ ids := by
  obtain ⟨x, hx, heq | hin⟩ := h.of_gone _ hgone
  · exact dirOf_inj heq ▸ hx
  · exact absurd rfl (dirOf_ne hin)

/-- More entries of the staging root are looked at. -/
theorem Progress.mono {seen seen' : List DirEntry} {u : Tree} {ids : List TransferId}
    {gone : List (List Text)} (h : Progress now seen u ids gone) (hsub : seen ⊆ seen') :
    Progress now seen' u ids gone := by
  refine ⟨h.nodup, h.of_gone, fun x hx => ?_⟩
  obtain ⟨hdir, hgone, ⟨⟨entry, hentry, hlisted⟩, hentries⟩, hall⟩ := h.swept x hx
  exact ⟨hdir, hgone, ⟨⟨entry, hsub hentry, hlisted⟩, hentries⟩, hall⟩

/-- One more directory is swept. -/
theorem Progress.sweep {seen : List DirEntry} {u : Tree} (hu : u.Distinct) {ids : List TransferId}
    {gone : List (List Text)} (h : Progress now seen u ids gone) {entry : DirEntry}
    (hentry : staleTransfer now entry = some t) {items : List ItemId}
    (hshown : Shown now (u.dropping gone) t items)
    (hhides : ¬Hides (u.dropping gone) (dirOf t)) :
    Progress now (seen ++ [entry]) u (ids ++ [t])
      (gone ++ (items.map (fileOf t) ++ [dirOf t])) := by
  have hne : dirOf t ≠ [] := by simp [dirOf]
  have hdir := hshown.dir
  rw [nodeAt_dropping u gone hne] at hdir
  have hfresh : dirOf t ∉ gone := by
    intro hmem
    rw [if_pos hmem] at hdir
    cases hdir
  rw [if_neg hfresh] at hdir
  have hnew : t ∉ ids := fun hmem => hfresh (h.swept t hmem).2.1
  -- what is in the directory did not go before, was listed, and goes now
  have hentries : ∀ q n, nodeAt u q = some n → q ≠ [] → q.dropLast = dirOf t →
      q ∈ items.map (fileOf t) ∧ Older now (u.modified q) := by
    intro q n hq hq0 hqd
    have hkept : q ∉ gone := by
      intro hmem
      obtain ⟨x, hx, rfl | hin⟩ := h.of_gone q hmem
      · exact dirOf_ne hqd rfl
      · exact hnew (dirOf_inj (hqd.symm.trans hin) ▸ hx)
    have hmem : (q, n) ∈ (u.dropping gone).entries :=
      Tree.mem_dropping.mpr ⟨(nodeAt_eq_some hu hq0).mp hq, hkept⟩
    obtain ⟨⟨i, hi, hpath⟩, holder⟩ := hshown.shown (q, n) hmem hq0 hqd fun hhidden =>
      hhides ⟨(q, n), hmem, hq0, hqd, hhidden⟩
    exact ⟨List.mem_map.mpr ⟨i, hi, hpath.symm⟩, holder⟩
  have hmore := h.mono (List.subset_append_left seen [entry])
  exact {
    nodup := by
      rw [List.nodup_append]
      refine ⟨h.nodup, List.nodup_singleton t, fun x hx y hy => ?_⟩
      rintro rfl
      exact hnew (List.mem_singleton.mp hy ▸ hx)
    of_gone := by
      intro p hp
      rcases List.mem_append.mp hp with hp | hp
      · obtain ⟨x, hx, hcase⟩ := h.of_gone p hp
        exact ⟨x, List.mem_append_left _ hx, hcase⟩
      · refine ⟨t, List.mem_append_right _ List.mem_cons_self, ?_⟩
        rcases List.mem_append.mp hp with hp | hp
        · obtain ⟨i, -, rfl⟩ := List.mem_map.mp hp
          exact .inr (dropLast_fileOf t i)
        · exact .inl (List.mem_singleton.mp hp)
    swept := by
      intro x hx
      rcases List.mem_append.mp hx with hx | hx
      · obtain ⟨hxdir, hxgone, hmay, hall⟩ := hmore.swept x hx
        exact ⟨hxdir, List.mem_append_left _ hxgone, hmay, fun p n hp hp0 hpd =>
          List.mem_append_left _ (hall p n hp hp0 hpd)⟩
      · obtain rfl := List.mem_singleton.mp hx
        refine ⟨hdir, by simp, ⟨⟨entry, by simp, staleTransfer_eq_some hentry⟩,
          fun q n hq hq0 hqd => (hentries q n hq hq0 hqd).2⟩, fun p n hp hp0 hpd => ?_⟩
        exact List.mem_append_right _ (List.mem_append_left _ (hentries p n hp hp0 hpd).1) }

variable (faults) in
/-- A sweep goes on to the end, or up to an entry at which a call fails. -/
theorem sweepStalePartials_cases {u : Tree} (hu : u.Distinct) (listing : List DirEntry)
    {seen : List DirEntry} {ids : List TransferId} {gone : List (List Text)} {s : Attempt} (hs : s.tree = u.dropping gone)
    (h : Progress now seen u ids gone) :
    (∃ ids' gone' s', sweepStalePartials (faulty faults) now listing s = (.ok ids', s') ∧
      s'.tree = u.dropping gone' ∧ Progress now (seen ++ listing) u (ids ++ ids') gone') ∨
    ∃ before entry after ids' gone' s' e s'', listing = before ++ entry :: after ∧
      sweepStalePartials (faulty faults) now before s = (.ok ids', s') ∧
      s'.tree = u.dropping gone' ∧ Progress now (seen ++ before) u (ids ++ ids') gone' ∧
      sweepEntry (faulty faults) now entry s' = (.error e, s'') ∧
      sweepStalePartials (faulty faults) now listing s = (.error e, s'') := by
  induction listing generalizing seen ids gone s with
  | nil =>
    refine .inl ⟨[], gone, s, rfl, hs, ?_⟩
    rwa [List.append_nil, List.append_nil]
  | cons entry rest ih =>
    rcases hentry : sweepEntry (faulty faults) now entry s with ⟨e | swept, s₁⟩
    · refine .inr ⟨[], entry, rest, [], gone, s, e, s₁, rfl, rfl, hs, ?_, hentry,
        Eff.bind_of_error hentry⟩
      rwa [List.append_nil, List.append_nil]
    · have hdistinct : s.tree.Distinct := hs ▸ hu.dropping gone
      have hstep : ∃ gone₁, s₁.tree = u.dropping gone₁ ∧
          Progress now (seen ++ [entry]) u (ids ++ swept.toList) gone₁ := by
        have hgoes : GoesWhole faults now s entry := by
          by_contra htorn
          obtain ⟨t, i, ino, gone', e, n, -, -, -, -, hrun⟩ := sweepEntry_torn hdistinct htorn
          rw [hentry] at hrun
          cases hrun
        rcases sweepEntry_cases hdistinct hgoes with
          ⟨htree, hnone⟩ | ⟨t, items, n, htransfer, hshown, hhides, hrun⟩
        · rw [hentry] at htree hnone
          cases swept with
          | some t => exact absurd rfl (hnone t)
          | none =>
            refine ⟨gone, htree.trans hs, ?_⟩
            rw [Option.toList_none, List.append_nil]
            exact h.mono (List.subset_append_left seen [entry])
        · rw [hentry] at hrun
          obtain ⟨hswept, rfl⟩ := Prod.mk.inj hrun
          obtain rfl := Except.ok.inj hswept
          rw [hs] at hshown hhides
          refine ⟨_, ?_, h.sweep hu htransfer hshown hhides⟩
          rw [hs, Tree.dropping_dropping]
      obtain ⟨gone₁, hs₁, hprogress⟩ := hstep
      rcases ih hs₁ hprogress with ⟨ids', gone', s', hrun, hs', hp⟩ |
        ⟨before, next, after, ids', gone', s', e, s'', hrest, hbefore, hs', hp, hnext, hrun⟩
      · refine .inl ⟨swept.toList ++ ids', gone', s', ?_, hs', ?_⟩
        · exact (Eff.bind_of_ok hentry).trans (Eff.bind_of_ok hrun)
        · rwa [List.append_assoc, List.append_assoc] at hp
      · refine .inr ⟨entry :: before, next, after, swept.toList ++ ids', gone', s', e, s'',
          by rw [hrest, List.cons_append], ?_, hs', ?_, hnext, ?_⟩
        · exact (Eff.bind_of_ok hentry).trans (Eff.bind_of_ok hbefore)
        · rwa [List.append_assoc, List.append_assoc] at hp
        · exact (Eff.bind_of_ok hentry).trans (Eff.bind_of_error hrun)

/-- A sweep ends at the first entry at which a call fails. -/
theorem sweepStalePartials_error {before after : List DirEntry} {entry : DirEntry}
    {ids : List TransferId} {s s' s'' : Attempt} {e : VfsError}
    (hbefore : sweepStalePartials (faulty faults) now before s = (.ok ids, s'))
    (hentry : sweepEntry (faulty faults) now entry s' = (.error e, s'')) :
    sweepStalePartials (faulty faults) now (before ++ entry :: after) s = (.error e, s'') := by
  induction before generalizing ids s with
  | nil =>
    obtain ⟨-, rfl⟩ := Prod.mk.inj hbefore
    exact Eff.bind_of_error hentry
  | cons first rest ih =>
    obtain ⟨swept, s₁, hfirst, hrest⟩ := Eff.bind_eq_ok.mp hbefore
    obtain ⟨more, s₂, hmore, hlast⟩ := Eff.bind_eq_ok.mp hrest
    obtain ⟨-, rfl⟩ := Prod.mk.inj hlast
    exact (Eff.bind_of_ok hfirst).trans (Eff.bind_of_error (ih hmore))

/-- What went so far went well. -/
theorem Progress.sweptWell {listing : List DirEntry} {u : Tree} {ids : List TransferId}
    {gone : List (List Text)} (h : Progress now listing u ids gone)
    {answer : Except VfsError (List TransferId)} (hanswer : ∀ ids', answer = .ok ids' → ids' = ids) :
    SweptWell now listing u answer (u.dropping gone) := by
  -- a file that went was in a directory that went with all that was in it
  have hfile : ∀ p ino, nodeAt u p = some (.file ino) →
      nodeAt (u.dropping gone) p = some (.file ino) ∨ ∃ x ∈ ids, p.dropLast = dirOf x := by
    intro p ino hp
    have hp0 : p ≠ [] := by
      rintro rfl
      cases hp
    rw [nodeAt_dropping u gone hp0]
    split_ifs with hgone
    · obtain ⟨x, hx, rfl | hin⟩ := h.of_gone p hgone
      · rw [(h.swept x hx).1] at hp
        cases hp
      · exact .inr ⟨x, hx, hin⟩
    · exact .inl hp
  have hdir : ∀ x ∈ ids, nodeAt (u.dropping gone) (dirOf x) = none := by
    intro x hx
    rw [nodeAt_dropping u gone (by simp [dirOf]), if_pos (h.swept x hx).2.1]
  exact {
    conservative := by
      intro p ino hp hlost
      obtain ⟨x, hx, hin⟩ := (hfile p ino hp).resolve_left hlost
      exact ⟨x, hin, (h.swept x hx).2.2.1⟩
    answered := by
      intro ids' hids'
      obtain rfl := hanswer ids' hids'
      refine ⟨h.nodup, fun x => ⟨fun hx => ⟨(h.swept x hx).1, hdir x hx⟩, ?_⟩⟩
      rintro ⟨hthere, hlost⟩
      rw [nodeAt_dropping u gone (by simp [dirOf]), hthere] at hlost
      split_ifs at hlost with hgone
      exact h.mem_ids hgone
    others := by
      intro d hd p ino hp hpd
      rcases hfile p ino hp with hkept | ⟨x, hx, hin⟩
      · exact hkept
      · rw [← hpd, hin, hdir x hx] at hd
        cases hd
    whole := by
      intro d
      by_cases hd : ∃ x ∈ ids, d = dirOf x
      · obtain ⟨x, hx, rfl⟩ := hd
        refine .inr fun p ino hp hpd => ?_
        have hp0 : p ≠ [] := by
          rintro rfl
          cases hp
        rw [nodeAt_dropping u gone hp0, if_pos ((h.swept x hx).2.2.2 p _ hp hp0 hpd)]
      · refine .inl fun p ino hp hpd => (hfile p ino hp).resolve_right ?_
        rintro ⟨x, hx, hin⟩
        exact hd ⟨x, hx, hpd.symm.trans hin⟩ }

end

/-- **A sweep does well exactly when every directory goes whole of which it removes a file**: for
every listing of the staging root, every tree, every reading of the clock and every sequence of
faults. -/
theorem sweepStalePartials_whole_iff (faults : ℕ → Option VfsError) (now : ℤ)
    (listing : List DirEntry) (s : Attempt) (hs : s.tree.Distinct) :
    SweptWell now listing s.tree (sweepStalePartials (faulty faults) now listing s).1
        (sweepStalePartials (faulty faults) now listing s).2.tree ↔
      ∀ before entry after ids s', listing = before ++ entry :: after →
        sweepStalePartials (faulty faults) now before s = (.ok ids, s') →
        GoesWhole faults now s' entry := by
  have hstart : Progress now [] s.tree [] [] :=
    ⟨List.nodup_nil, fun p hp => absurd hp List.not_mem_nil, fun x hx => absurd hx List.not_mem_nil⟩
  have hs₀ : s.tree = s.tree.dropping [] := (Tree.dropping_nil _).symm
  constructor
  · intro h before entry after ids s' hlisting hbefore
    by_contra htorn
    rcases sweepStalePartials_cases faults hs before hs₀ hstart with
      ⟨ids', gone, s₁, hrun, hs₁, hp⟩ | ⟨_, _, _, _, _, _, e, s₁, -, -, -, -, -, hrun⟩
    · rw [hbefore] at hrun
      obtain ⟨-, rfl⟩ := Prod.mk.inj hrun
      have hdistinct : s'.tree.Distinct := hs₁ ▸ hs.dropping gone
      obtain ⟨t, i, ino, lost, e, n, hdir, hfile, hlost, hkept, hentry⟩ :=
        sweepEntry_torn hdistinct htorn
      rw [hlisting, sweepStalePartials_error hbefore hentry] at h
      -- the file was there before the sweep, and its directory is there after it
      have hthere : nodeAt s.tree (fileOf t i) = some (.file ino) := by
        rw [hs₁, nodeAt_dropping _ _ (by simp [fileOf])] at hfile
        split_ifs at hfile
        exact hfile
      have hgone := h.others (dirOf t)
        (by rw [nodeAt_kept _ (by simp [dirOf]) hkept]; exact hdir) _ ino hthere (dropLast_fileOf t i)
      rw [nodeAt_dropping _ _ (by simp [fileOf]), if_pos hlost] at hgone
      cases hgone
    · rw [hbefore] at hrun
      cases hrun
  · intro h
    rcases sweepStalePartials_cases faults hs listing hs₀ hstart with
      ⟨ids', gone, s', hrun, hs', hp⟩ |
      ⟨before, entry, after, ids', gone, s', e, s'', hlisting, hbefore, hs', hp, hentry, hrun⟩
    · rw [hrun]
      dsimp only
      rw [hs']
      exact hp.sweptWell fun ids hids => (Except.ok.inj hids).symm
    · have hgoes := h before entry after ids' s' hlisting hbefore
      rcases sweepEntry_cases (hs' ▸ hs.dropping gone) hgoes with
        ⟨htree, -⟩ | ⟨t, items, n, -, -, -, hswept⟩
      · rw [hentry] at htree
        rw [hrun]
        dsimp only at htree ⊢
        rw [htree, hs']
        refine (hp.mono ?_).sweptWell fun ids hids => by cases hids
        rw [List.nil_append, hlisting]
        exact List.subset_append_left before _
      · rw [hentry] at hswept
        cases hswept

/-! ### A directory with two entries -/

/-- A transfer that was left. -/
def leftTransfer : TransferId :=
  ⟨[1, 2, 3, 4, 5, 6, 0x70, 8, 0x80, 10, 11, 12, 13, 14, 15, 16], rfl, by decide, by decide⟩

/-- What it left: a partial file, and another entry with another time. -/
def leftTree (other : Text) (time : ℤ) : Tree where
  entries := [([partialRootName], .directory), (dirOf leftTransfer, .directory),
    (dirOf leftTransfer ++ ["a".toList], .file 0), (dirOf leftTransfer ++ [other], .file 1)]
  data := fun _ => []
  nextIno := 2
  modified := fun p => if p = dirOf leftTransfer ++ [other] then time else 0
  readOnly := false

/-- How its directory is listed. -/
def leftListing : List DirEntry := [⟨leftTransfer.display, .directory, 0, 0⟩]

/-- The sweep of it. -/
def sweepLeft (faults : ℕ → Option VfsError) (other : Text) (time : ℤ) :
    Except VfsError (List TransferId) × Attempt :=
  sweepStalePartials (faulty faults) 604801 leftListing ⟨leftTree other time, 0⟩

/-- Two files that are old enough. -/
theorem sweepStalePartials_whole_iff_left :
    (leftTree "b".toList 0).Distinct ∧
      (SweptWell 604801 leftListing (leftTree "b".toList 0) (sweepLeft (fun _ => none) "b".toList 0).1
          (sweepLeft (fun _ => none) "b".toList 0).2.tree ↔
        ∀ before entry after ids s', leftListing = before ++ entry :: after →
          sweepStalePartials (faulty fun _ => none) 604801 before ⟨leftTree "b".toList 0, 0⟩ =
            (.ok ids, s') →
          GoesWhole (fun _ => none) 604801 s' entry) := by
  have hdistinct : (leftTree "b".toList 0).Distinct := by
    rw [Tree.Distinct]
    decide +kernel
  exact ⟨hdistinct, sweepStalePartials_whole_iff (fun _ => none) 604801 leftListing
    ⟨leftTree "b".toList 0, 0⟩ hdistinct⟩

/-- An entry named like a private key is not listed, however new it is, and the other file is gone
before the directory's removal is refused; and where the second of two removals fails, the first file
is gone. -/
theorem sweepStalePartials_left :
    ¬SweptWell 604801 leftListing (leftTree "id_rsa".toList 604801)
        (sweepLeft (fun _ => none) "id_rsa".toList 604801).1
        (sweepLeft (fun _ => none) "id_rsa".toList 604801).2.tree ∧
      ¬SweptWell 604801 leftListing (leftTree "b".toList 0)
        (sweepLeft (fun n => if n = 2 then some (.io .other) else none) "b".toList 0).1
        (sweepLeft (fun n => if n = 2 then some (.io .other) else none) "b".toList 0).2.tree := by
  constructor
  · intro h
    have hkept := h.others (dirOf leftTransfer) (by decide +kernel)
      (dirOf leftTransfer ++ ["a".toList]) 0 (by decide +kernel) rfl
    exact absurd hkept (by decide +kernel)
  · intro h
    have hkept := h.others (dirOf leftTransfer) (by decide +kernel)
      (dirOf leftTransfer ++ ["a".toList]) 0 (by decide +kernel) rfl
    exact absurd hkept (by decide +kernel)

end Tradr
