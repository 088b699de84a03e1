import Tradr.FileStore

/-!
# Files and Listings

`ListingStore` adds to a `FileStore` what a listing of a directory shows: every file that lies right
in it and is not denied. Only what is not denied is opened for writing.

## Main results

* `PosixVfs.listingStore`: the backend lists what it holds.
-/

namespace Tradr

/-- A store of files whose listings show what is there. -/
structure ListingStore {σ H : Type*} (vfs : Vfs σ H) (N : Type*) extends FileStore vfs N where
  list_same : ∀ {s} p, Valid s → toFileView.Same s (vfs.list s p).2
  list_shows : ∀ {s dir p n name entries}, Valid s → file s p = some n →
    isDeniedForWrite p.components = false → p.components = dir.components ++ [name] →
    (vfs.list s dir).1 = .ok entries → ∃ e ∈ entries, e.name = name
  list_notFound : ∀ {s dir p name}, Valid s → p.components = dir.components ++ [name] →
    (vfs.list s dir).1 = .error .notFound → file s p = none
  openWrite_allowed : ∀ {s p h}, (vfs.openWrite s p).1 = .ok h →
    isDeniedForWrite p.components = false

namespace PosixVfs

variable {t : Tree} {dir p : RelPath} {name : Text} {ino : ℕ}

/-- What is found at a path is among the entries. -/
theorem mem_entries_of_nodeAt {q : List Text} {n : Node} (hq : q ≠ []) (h : nodeAt t q = some n) :
    (q, n) ∈ t.entries := by
  rw [nodeAt, if_neg hq] at h
  generalize t.entries = l at h
  induction l with
  | nil => cases h
  | cons e l ih =>
      rw [Assoc.lookup_cons] at h
      split_ifs at h with he
      · obtain rfl := Option.some.inj h
        obtain rfl := he
        exact List.mem_cons_self
      · exact List.mem_cons_of_mem _ (ih h)

/-- A listing shows a file that is not denied. -/
theorem listSync_shows {entries : List DirEntry} (hfile : fileAt t p = some ino)
    (hallowed : isDeniedForWrite p.components = false)
    (hp : p.components = dir.components ++ [name]) (hlist : listSync t dir = .ok entries) :
    ∃ e ∈ entries, e.name = name := by
  obtain ⟨-, -, hlist⟩ := Fallible.bind_eq_ok.mp hlist
  obtain ⟨-, -, hlist⟩ := Fallible.bind_eq_ok.mp hlist
  obtain rfl := Except.ok.inj hlist
  have hne : dir.components ++ [name] ≠ [] := by simp
  have hmem := mem_entries_of_nodeAt hne (hp ▸ fileAt_eq_some.mp hfile)
  refine ⟨⟨name, .file, (t.data ino).length, t.modified (dir.components ++ [name])⟩,
    List.mem_filterMap.mpr ⟨_, hmem, ?_⟩, rfl⟩
  rw [hp] at hallowed
  simp [listEntry, hallowed, metadataOf]

/-- A directory that is not there has no files in it. -/
theorem listSync_notFound (h : WellFormed t) (hp : p.components = dir.components ++ [name])
    (hlist : listSync t dir = .error .notFound) : fileAt t p = none := by
  rcases hfile : fileAt t p with _ | ino
  · rfl
  have hwalk : resolveDir t [] dir.components = .ok () := by
    have hdir := h.resolveDir (fileAt_eq_some.mp hfile)
    rwa [hp, List.dropLast_concat] at hdir
  unfold listSync at hlist
  rw [hwalk] at hlist
  rcases hdeny : checkDenyList dir with e | u
  · rw [hdeny] at hlist
    obtain rfl : e = .notFound := Except.error.inj hlist
    unfold checkDenyList at hdeny
    split_ifs at hdeny
    cases hdeny
  · rw [hdeny] at hlist
    cases hlist

/-- What is opened for writing is not denied. -/
theorem openWriteSync_allowed (h : (openWriteSync t p).1 = .ok ino) :
    isDeniedForWrite p.components = false := by
  unfold openWriteSync at h
  rcases hres : resolveWrite t p with e | o
  · rw [hres] at h
    cases h
  · unfold resolveWrite at hres
    split at hres
    · cases hres
    · obtain ⟨u, hdeny, -⟩ := Fallible.bind_eq_ok.mp hres
      exact checkDenyList_ok hdeny

/-- **The backend lists what it holds.** -/
def listingStore : ListingStore vfs ℕ where
  toFileStore := fileStore
  list_same _ h := (Grows.refl _).same h
  list_shows _ hfile hallowed hp hlist := listSync_shows hfile hallowed hp hlist
  list_notFound h hp hlist := listSync_notFound h hp hlist
  openWrite_allowed h := openWriteSync_allowed h

end PosixVfs

end Tradr
