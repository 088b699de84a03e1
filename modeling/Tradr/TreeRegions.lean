import Tradr.DestinationNames
import Tradr.FileStore

/-!
# Regions of a Tree

Which entries an operation of the POSIX backend can change: creating directories touches the
path itself and what is on the way to it, opening a file and removing an entry touch the one
path, and a rename touches what is at or below its two ends and on the way to the destination.
So what is at or below a directory stays as it is while operations name other places.

## Main results

* `PosixVfs.renameInternal_spec`: the steps of a rename.
* `PosixVfs.WellFormed.renameInternal`: a rename leaves every entry in a directory.
* `PosixVfs.nodeAt_renameInternal_outside`: a rename leaves a region alone that neither of its ends
  touches.
-/

namespace Tradr

namespace PosixVfs

variable {t : Tree}

/-! ### Directories on the way to a path -/

/-- Creating the missing directories of a path changes entries on the way to it only. -/
theorem nodeAt_mkdirs (t : Tree) (done rest : List Text) {q : List Text}
    (hq : ¬q <+: done ++ rest) : nodeAt (mkdirs t done rest).2 q = nodeAt t q := by
  induction rest generalizing t done with
  | nil => rfl
  | cons c rest ih =>
      have hassoc : done ++ c :: rest = done ++ [c] ++ rest := by simp
      rw [hassoc] at hq
      unfold mkdirs
      split
      · rw [ih _ _ hq, nodeAt_addEntry, if_neg, Option.or_none]
        rintro rfl
        exact hq (List.prefix_append _ _)
      · exact ih _ _ hq
      · rfl
      · rfl

theorem nodeAt_createDirSync (t : Tree) (path : RelPath) {q : List Text}
    (hq : ¬q <+: path.components) : nodeAt (createDirSync t path).2 q = nodeAt t q := by
  unfold createDirSync
  split_ifs
  · rfl
  · split
    · rfl
    · exact nodeAt_mkdirs t [] path.components (by simpa using hq)

/-- A path that is created without an error is a directory. -/
theorem nodeAt_of_mkdirs_ok {t : Tree} {done rest : List Text}
    (hdone : nodeAt t done = some .directory) (h : (mkdirs t done rest).1 = .ok ()) :
    nodeAt (mkdirs t done rest).2 (done ++ rest) = some .directory := by
  induction rest generalizing t done with
  | nil =>
      rw [List.append_nil]
      exact hdone
  | cons c rest ih =>
      have hassoc : done ++ c :: rest = done ++ [c] ++ rest := by simp
      rw [hassoc]
      unfold mkdirs at h ⊢
      rcases hnode : nodeAt t (done ++ [c]) with _ | n
      · rw [hnode] at h
        refine ih ?_ h
        rw [nodeAt_addEntry, hnode, if_pos rfl]
        rfl
      · rw [hnode] at h
        cases n with
        | directory => exact ih hnode h
        | file ino => cases h
        | symlink => cases h
        | special => cases h

theorem nodeAt_of_createDirSync_ok {path : RelPath} (h : (createDirSync t path).1 = .ok ()) :
    nodeAt (createDirSync t path).2 path.components = some .directory := by
  unfold createDirSync at h ⊢
  split_ifs at h ⊢
  rcases hcheck : checkDenyList path with e | _
  · rw [hcheck] at h
    cases h
  · rw [hcheck] at h
    exact nodeAt_of_mkdirs_ok (nodeAt_nil t) h

/-- The text of some components of a path, joined, has these components again. -/
theorem components_of_new_dropLast {path rel : RelPath} (hne : path.components.dropLast ≠ [])
    (h : RelPath.new (['/'].intercalate path.components.dropLast) = .ok rel) :
    rel.components = path.components.dropLast := by
  have hvalue : path.value ≠ [] := by
    intro hnil
    rw [RelPath.components_eq_nil_iff.mpr hnil] at hne
    exact hne rfl
  have hslash : ∀ c ∈ path.components.dropLast, '/' ∉ c := by
    intro c hc
    have hmem := List.mem_of_mem_dropLast hc
    rw [RelPath.components_eq_splitOn hvalue] at hmem
    exact slash_not_mem_piece hmem
  have hrel := RelPath.new_value h
  have hrelne : rel.value ≠ [] := by
    intro hnil
    rw [hnil] at hrel
    obtain ⟨c, rest, hcons⟩ := List.exists_cons_of_ne_nil hne
    have hc := RelPath.component_accepted
      (List.mem_of_mem_dropLast (hcons ▸ List.mem_cons_self : c ∈ path.components.dropLast))
    rw [hcons] at hrel
    rcases rest with _ | ⟨d, rest⟩
    · rw [List.intercalate_singleton] at hrel
      exact ne_nil_of_componentRefusal hc hrel.symm
    · rw [List.intercalate_cons_cons] at hrel
      simp at hrel
  rw [RelPath.components_eq_splitOn hrelne, hrel, List.splitOn_intercalate '/' hslash hne]

theorem nodeAt_makeParent (t : Tree) (target : RelPath) {q : List Text}
    (hq : ¬q <+: target.components) : nodeAt (makeParent t target).2 q = nodeAt t q := by
  unfold makeParent
  split_ifs with hnil
  · rfl
  · split
    · rfl
    · rename_i rel hrel
      refine nodeAt_createDirSync t rel fun hpre => hq ?_
      rw [components_of_new_dropLast hnil hrel] at hpre
      exact hpre.trans (List.dropLast_prefix _)

/-! ### Single entries -/

theorem nodeAt_openWriteSync (t : Tree) (path : RelPath) {q : List Text}
    (hq : q ≠ path.components) : nodeAt (openWriteSync t path).2 q = nodeAt t q := by
  rcases openWriteSync_cases t path with heq | ⟨-, -, heq⟩
  · rw [heq]
  · rw [heq]
    change nodeAt (addEntry t path.components (.file t.nextIno)) q = _
    rw [nodeAt_addEntry, if_neg (Ne.symm hq), Option.or_none]

theorem nodeAt_removeSync (t : Tree) (path : RelPath) {q : List Text}
    (hq : q ≠ path.components) : nodeAt (removeSync t path).2 q = nodeAt t q := by
  rcases removeSync_cases t path with ⟨-, -, -, heq⟩ | ⟨-, -, heq⟩
  · rw [heq]
  · rw [heq]
    rcases eq_or_ne q [] with rfl | hne
    · rfl
    · rw [nodeAt_eraseEntry t hne, if_neg hq]

/-- What is removed without an error is gone. -/
theorem nodeAt_of_removeSync_ok {path : RelPath} (h : (removeSync t path).1 = .ok ()) :
    nodeAt (removeSync t path).2 path.components = none := by
  rcases removeSync_cases t path with ⟨e, he, -⟩ | ⟨-, hne, heq⟩
  · rw [he] at h
    cases h
  · rw [heq, nodeAt_eraseEntry t hne, if_pos rfl]

/-! ### Renames -/

/-- The system call moves an existing entry, and no file onto a directory. -/
theorem renameat_ok {source target : List Text} (h : (renameat t source target).1 = .ok ()) :
    source = target ∧ (renameat t source target).2 = t ∨
      ¬source <+: target ∧ (renameat t source target).2 = moveEntry t source target ∧
        ((∃ ino, nodeAt t source = some (.file ino)) → nodeAt t target ≠ some .directory) := by
  unfold renameat at h ⊢
  by_cases heq : source = target
  · rw [if_pos heq]
    exact .inl ⟨heq, rfl⟩
  by_cases hpre : source <+: target
  · rw [if_neg heq, if_pos hpre] at h
    cases h
  rw [if_neg heq, if_neg hpre] at h ⊢
  refine .inr ⟨hpre, ?_⟩
  generalize nodeAt t source = before, nodeAt t target = there at h ⊢
  rcases before with _ | n
  · cases h
  rcases there with _ | m
  · exact ⟨rfl, fun _ => nofun⟩
  by_cases hdir : n = .directory ∧ m = .directory
  · obtain ⟨rfl, rfl⟩ := hdir
    dsimp only at h ⊢
    by_cases hempty : isEmptyDir t target = true
    · rw [if_pos hempty]
      exact ⟨rfl, fun ⟨_, hfile⟩ => by cases hfile⟩
    · rw [if_neg hempty] at h
      cases h
  · cases n <;> cases m <;> first
      | exact ⟨rfl, fun _ => nofun⟩
      | exact absurd ⟨rfl, rfl⟩ hdir
      | cases h

/-- The steps of a rename: it fails, with no more done than the directories above the
destination, or it passes every check and moves the entry. -/
theorem renameInternal_spec (t : Tree) (source target : RelPath) (mode : RenameMode) :
    (∃ e, (renameInternal t source target mode).1 = .error e ∧
        ((renameInternal t source target mode).2 = t ∨
          (renameInternal t source target mode).2 = (makeParent t target).2)) ∨
      resolveFrom t source target = .ok () ∧
        nodeAt (makeParent t target).2 target.components.dropLast = some .directory ∧
        checkDestination (makeParent t target).2 target.components mode = .ok () ∧
        (renameInternal t source target mode).1 = .ok () ∧
        (renameat (makeParent t target).2 source.components target.components).1 = .ok () ∧
        (renameInternal t source target mode).2 =
          (renameat (makeParent t target).2 source.components target.components).2 := by
  rcases hres : (renameInternal t source target mode).1 with e | _
  · exact .inl ⟨e, rfl, renameInternal_error hres⟩
  refine .inr ?_
  unfold renameInternal at hres ⊢
  rcases hfrom : resolveFrom t source target with e | _
  · rw [hfrom] at hres
    cases hres
  rw [hfrom] at hres
  dsimp only at hres ⊢
  rcases hmk : makeParent t target with ⟨e | _, t₁⟩
  · rw [hmk] at hres
    cases hres
  rw [hmk] at hres
  dsimp only at hres ⊢
  rcases hdir : resolveDir t₁ [] target.components.dropLast with e | _
  · rw [hdir] at hres
    cases hres
  rw [hdir] at hres
  dsimp only at hres ⊢
  rcases hdest : checkDestination t₁ target.components mode with e | _
  · rw [hdest] at hres
    cases hres
  rw [hdest] at hres
  exact ⟨rfl, nodeAt_of_resolveDir hdir, rfl, rfl, hres, rfl⟩

/-- Moving an entry to a place in a directory, outside what is moved. -/
theorem WellFormed.moveEntry (h : WellFormed t) {source target : List Text} (hs : source ≠ [])
    (ht : target ≠ []) (hpre : ¬source <+: target)
    (hparent : nodeAt t target.dropLast = some .directory) :
    WellFormed (moveEntry t source target) := by
  -- What is not below either end stays where it is.
  have hkeep : ∀ q, ¬target <+: q → ¬source <+: q →
      nodeAt (PosixVfs.moveEntry t source target) q = nodeAt t q := by
    intro q htq hsq
    rw [nodeAt_moveEntry_outside t hs htq, if_neg hsq]
  constructor
  · intro q n hq hne
    by_cases hunder : target <+: q
    · obtain ⟨rest, rfl⟩ := hunder
      rw [nodeAt_moveEntry_under t hs ht] at hq
      rcases List.eq_nil_or_concat rest with rfl | ⟨init, c, rfl⟩
      · rw [List.append_nil, hkeep _ _ fun hsq => hpre (hsq.trans (List.dropLast_prefix _))]
        · exact hparent
        · intro htd
          have hlen := htd.length_le
          rw [List.length_dropLast] at hlen
          have := List.length_pos_iff.mpr ht
          omega
      · rw [List.concat_eq_append, ← List.append_assoc] at hq ⊢
        rw [List.dropLast_concat, nodeAt_moveEntry_under t hs ht]
        have hdir := h.parent _ n hq (by simp)
        rwa [List.dropLast_concat] at hdir
    · have hq' := hq
      rw [nodeAt_moveEntry_outside t hs hunder] at hq'
      split_ifs at hq' with hsq
      rw [hkeep _ (fun htd => hunder (htd.trans (List.dropLast_prefix q)))
        fun hsd => hsq (hsd.trans (List.dropLast_prefix q))]
      exact h.parent q n hq' hne
  · intro q ino hq
    by_cases hunder : target <+: q
    · obtain ⟨rest, rfl⟩ := hunder
      rw [nodeAt_moveEntry_under t hs ht] at hq
      exact h.inode _ ino hq
    · rw [nodeAt_moveEntry_outside t hs hunder] at hq
      split_ifs at hq
      exact h.inode q ino hq

theorem WellFormed.renameInternal (h : WellFormed t) (source target : RelPath)
    (mode : RenameMode) : WellFormed (renameInternal t source target mode).2 := by
  have hmade := h.makeParent target
  rcases renameInternal_spec t source target mode with
    ⟨e, -, heq | heq⟩ | ⟨hfrom, hparent, -, -, hok, heq⟩
  · rw [heq]
    exact h
  · rw [heq]
    exact hmade
  · rw [heq]
    obtain ⟨-, -, hs, ht, -⟩ := resolveFrom_ok hfrom
    rcases renameat_ok hok with ⟨-, hsame⟩ | ⟨hpre, hmove, -⟩
    · rw [hsame]
      exact hmade
    · rw [hmove]
      exact hmade.moveEntry hs ht hpre hparent

/-- A rename hands out no inode. -/
theorem nextIno_renameInternal (t : Tree) (source target : RelPath) (mode : RenameMode) :
    (renameInternal t source target mode).2.nextIno = t.nextIno ∧
      (renameInternal t source target mode).2.data = t.data := by
  have hgrow := makeParent_grows t target
  rcases renameInternal_spec t source target mode with
    ⟨e, -, heq | heq⟩ | ⟨-, -, -, -, hok, heq⟩
  · rw [heq]
    exact ⟨rfl, rfl⟩
  · rw [heq]
    exact ⟨hgrow.nextIno, hgrow.data⟩
  · rw [heq]
    rcases renameat_ok hok with ⟨-, hsame⟩ | ⟨-, hmove, -⟩
    · rw [hsame]
      exact ⟨hgrow.nextIno, hgrow.data⟩
    · rw [hmove]
      exact ⟨hgrow.nextIno, hgrow.data⟩

/-- A rename leaves alone what is below neither of its ends and not on the way to the
destination. -/
theorem nodeAt_renameInternal_outside (t : Tree) {source target : RelPath} (mode : RenameMode)
    {q : List Text} (hway : ¬q <+: target.components)
    (hends : resolveFrom t source target = .ok () →
      ¬source.components <+: q ∧ ¬target.components <+: q) :
    nodeAt (renameInternal t source target mode).2 q = nodeAt t q := by
  have hmade := nodeAt_makeParent t target hway
  rcases renameInternal_spec t source target mode with
    ⟨e, -, heq | heq⟩ | ⟨hfrom, -, -, -, hok, heq⟩
  · rw [heq]
  · rw [heq, hmade]
  · rw [heq]
    obtain ⟨-, -, hne, -⟩ := resolveFrom_ok hfrom
    obtain ⟨hs, ht⟩ := hends hfrom
    rcases renameat_ok hok with ⟨-, hsame⟩ | ⟨-, hmove, -⟩
    · rw [hsame, hmade]
    · rw [hmove, nodeAt_moveEntry_outside _ hne ht, if_neg hs, hmade]

/-- Where a rename put a file it was before, at the same place or below the source. -/
theorem file_renameInternal {source target : RelPath} {mode : RenameMode} {q : List Text} {ino : ℕ}
    (hq : nodeAt (renameInternal t source target mode).2 q = some (.file ino)) :
    nodeAt t q = some (.file ino) ∨
      resolveFrom t source target = .ok () ∧ ∃ rest, q = target.components ++ rest ∧
        nodeAt t (source.components ++ rest) = some (.file ino) := by
  have hgrow := makeParent_grows t target
  rcases renameInternal_spec t source target mode with
    ⟨e, -, heq | heq⟩ | ⟨hfrom, -, -, -, hok, heq⟩
  · rw [heq] at hq
    exact .inl hq
  · rw [heq] at hq
    exact .inl (hgrow.nodeAt_file.mp hq)
  · rw [heq] at hq
    obtain ⟨-, -, hs, ht, -⟩ := resolveFrom_ok hfrom
    rcases renameat_ok hok with ⟨-, hsame⟩ | ⟨-, hmove, -⟩
    · rw [hsame] at hq
      exact .inl (hgrow.nodeAt_file.mp hq)
    · rw [hmove] at hq
      by_cases hunder : target.components <+: q
      · obtain ⟨rest, rfl⟩ := hunder
        rw [nodeAt_moveEntry_under _ hs ht] at hq
        exact .inr ⟨hfrom, rest, rfl, hgrow.nodeAt_file.mp hq⟩
      · rw [nodeAt_moveEntry_outside _ hs hunder] at hq
        split_ifs at hq
        exact .inl (hgrow.nodeAt_file.mp hq)

/-- Moving a file: it is at the destination and nowhere else, and every other file is where it
was, unless it was the one at the destination. -/
theorem renameInternal_of_file (h : WellFormed t) {source target : RelPath} {mode : RenameMode}
    {ino : ℕ} (hfile : nodeAt t source.components = some (.file ino))
    (hne : source.components ≠ target.components)
    (hok : (renameInternal t source target mode).1 = .ok ()) :
    nodeAt (renameInternal t source target mode).2 target.components = some (.file ino) ∧
      ∀ q, q ≠ target.components →
        nodeAt (renameInternal t source target mode).2 q =
          if q = source.components then none else nodeAt (makeParent t target).2 q := by
  have hgrow := makeParent_grows t target
  have hmade := h.makeParent target
  rcases renameInternal_spec t source target mode with
    ⟨e, he, -⟩ | ⟨hfrom, -, -, -, hren, heq⟩
  · rw [he] at hok
    cases hok
  obtain ⟨-, -, hs, ht, -⟩ := resolveFrom_ok hfrom
  have hsource := hgrow.nodeAt_eq hfile
  rcases renameat_ok hren with ⟨hsame, -⟩ | ⟨-, hmove, hkind⟩
  · exact absurd hsame hne
  have htarget := hkind ⟨ino, hsource⟩
  -- Below a file and below what is no directory there is nothing.
  have hbelow : ∀ p q, nodeAt (makeParent t target).2 p ≠ some .directory → p <+: q → p ≠ q →
      nodeAt (makeParent t target).2 q = none := by
    intro p q hp hpre hpq
    rcases hq : nodeAt (makeParent t target).2 q with _ | n
    · rfl
    · exact absurd (hmade.directory_of_prefix hq hpre hpq) hp
  have hnotdir : nodeAt (makeParent t target).2 source.components ≠ some .directory := by
    rw [hsource]
    exact nofun
  rw [heq, hmove]
  constructor
  · have hat := nodeAt_moveEntry_under (makeParent t target).2 hs ht []
    rwa [List.append_nil, List.append_nil, hsource] at hat
  · intro q hqt
    by_cases hunder : target.components <+: q
    · have hnone := hbelow _ q htarget hunder (Ne.symm hqt)
      obtain ⟨rest, rfl⟩ := hunder
      have hrest : rest ≠ [] := by
        rintro rfl
        exact hqt (List.append_nil _)
      rw [nodeAt_moveEntry_under _ hs ht, hnone,
        hbelow _ _ hnotdir (List.prefix_append source.components rest) (by simpa using hrest)]
      split_ifs
      · rfl
      · rfl
    · rw [nodeAt_moveEntry_outside _ hs hunder]
      by_cases hqs : q = source.components
      · rw [if_pos (hqs ▸ List.prefix_rfl), if_pos hqs]
      · rw [if_neg hqs]
        split_ifs with hpre
        · exact (hbelow _ q hnotdir hpre (Ne.symm hqs)).symm
        · rfl

/-- An entry that is there after a removal was there before. -/
theorem nodeAt_of_nodeAt_removeSync {path : RelPath} {q : List Text} {n : Node}
    (h : nodeAt (removeSync t path).2 q = some n) : nodeAt t q = some n := by
  rcases removeSync_cases t path with ⟨-, -, -, heq⟩ | ⟨-, hne, heq⟩
  · rwa [heq] at h
  · by_cases hq : q = path.components
    · rw [heq, hq, nodeAt_eraseEntry t hne, if_pos rfl] at h
      cases h
    · rwa [nodeAt_removeSync t path hq] at h

end PosixVfs

end Tradr
