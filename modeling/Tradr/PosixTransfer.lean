import Mathlib
import Tradr.CollisionNames
import Tradr.HonestTransfer
import Tradr.TreeRegions

/-!
# A Transfer between POSIX Backends

The POSIX backend takes a file that is staged in one place and moved to another that is free, and
serves a file that is there: where nobody else changes its tree, none of the calls of a transfer
fails. So two such backends are filesystems for honest sides.

## Main definitions

* `PosixVfs.Awaits`, `PosixVfs.Stages`: the destination is free, and the staged file holds some
  bytes.
* `PosixVfs.takesFile`, `PosixVfs.servesFile`: the two sides of a transfer on the backend.

## Main results

* `PosixVfs.createDir_of_awaits`, `PosixVfs.openWrite_of_awaits`, `PosixVfs.renameInternal_ok`: the
  calls of the receiving side succeed.
-/

open Fallible

namespace Tradr

/-! ### The parent of a path -/

/-- The components above the last one of a path are those of a path. -/
theorem RelPath.exists_parent {p : RelPath} (h : p.components.dropLast ≠ []) :
    ∃ rel, RelPath.new (['/'].intercalate p.components.dropLast) = .ok rel ∧
      rel.components = p.components.dropLast := by
  have hroot : p ≠ RelPath.root := by
    rintro rfl
    exact h (by rw [RelPath.components_root]; rfl)
  obtain ⟨dirs, name, hp⟩ := exists_located hroot
  rw [hp.components, List.dropLast_concat] at h ⊢
  have hchars := pathChars_of_accepted (p.accepted.resolve_left hp.value_ne_nil)
  obtain ⟨first, rest, hcons⟩ := List.exists_cons_of_ne_nil h
  have hne : ['/'].intercalate dirs ≠ [] := by
    have hfirst : componentRefusal first = none :=
      RelPath.component_accepted (p := p) (by rw [hp.components, hcons]; simp)
    rw [hcons]
    rcases rest with _ | ⟨second, rest⟩
    · rw [List.intercalate_singleton]
      exact ne_nil_of_componentRefusal hfirst
    · rw [List.intercalate_cons_cons]
      simp
  have hvalue : p.value = ['/'].intercalate dirs ++ '/' :: name := by
    rw [hp.value, joinDirs_eq h, List.append_assoc]
    rfl
  rw [hvalue] at hchars
  have hparent : PathChars (['/'].intercalate dirs) := by
    refine ⟨?_, fun hc => hchars.no_backslash (List.mem_append_left _ hc), ?_,
      fun c hc => hchars.no_control c (List.mem_append_left _ hc),
      fun c hc => hchars.no_bidi c (List.mem_append_left _ hc)⟩
    · have hhead := hchars.no_slash_head
      rwa [List.head?_append_of_ne_nil _ hne] at hhead
    · have hdrive := hchars.no_drive
      generalize ['/'].intercalate dirs = s at hne hdrive
      rcases s with _ | ⟨c, _ | ⟨d, s⟩⟩
      · exact absurd rfl hne
      · rfl
      · rw [List.cons_append, List.cons_append, hasDriveLetterPrefix_cons_cons] at hdrive
        rwa [hasDriveLetterPrefix_cons_cons]
  have hsplit : (['/'].intercalate dirs).splitOn '/' = dirs :=
    List.splitOn_intercalate '/' (fun c hc => hp.no_slash c (List.mem_append_left _ hc)) h
  have hnone : relPathRefusal (['/'].intercalate dirs) = none := by
    rw [hparent.relPathRefusal_eq hne, hsplit, List.findSome?_eq_none_iff]
    intro c hc
    exact RelPath.component_accepted (p := p)
      (by rw [hp.components]; exact List.mem_append_left _ hc)
  refine ⟨_, RelPath.new_eq_ok hnone, ?_⟩
  rw [RelPath.components_eq_splitOn hne]
  exact hsplit

namespace PosixVfs

variable {t t' : Tree} {dir : List Text}

/-! ### Paths that can be created -/

/-- Whatever is on the way down a path is a directory. -/
def Passable (t : Tree) (dir : List Text) : Prop :=
  ∀ p, p <+: dir → ∀ n, nodeAt t p = some n → n = .directory

theorem Passable.grows (h : Passable t dir) (hgrow : Grows t t') : Passable t' dir := by
  intro p hp n hn
  rcases hgrow.node p with hsame | ⟨-, hdir⟩
  · rw [hsame] at hn
    exact h p hp n hn
  · rw [hdir] at hn
    exact (Option.some.inj hn).symm

/-- The missing directories of a passable path can be created. -/
theorem mkdirs_ok {t : Tree} {done rest : List Text} (h : Passable t (done ++ rest)) :
    (mkdirs t done rest).1 = .ok () := by
  induction rest generalizing t done with
  | nil => rfl
  | cons c rest ih =>
    have hassoc : done ++ c :: rest = done ++ [c] ++ rest := by simp
    rw [hassoc] at h
    unfold mkdirs
    rcases hnode : nodeAt t (done ++ [c]) with _ | n
    · refine ih (h.grows ⟨rfl, rfl, rfl, fun q => ?_, fun e he => ?_⟩)
      · rw [nodeAt_addEntry]
        split_ifs with hq
        · exact .inr ⟨hq ▸ hnode, by rw [← hq, hnode]; rfl⟩
        · exact .inl (Option.or_none)
      · rcases List.mem_append.mp he with he | he
        · exact .inl he
        · exact .inr (by rw [List.mem_singleton.mp he])
    · obtain rfl := h _ (List.prefix_append _ _) n hnode
      exact ih h

theorem createDirSync_ok {path : RelPath} (hwrite : t.readOnly = false)
    (hallowed : isDeniedForWrite path.components = false) (h : Passable t path.components) :
    (createDirSync t path).1 = .ok () := by
  rw [createDirSync, hwrite, if_neg Bool.false_ne_true, checkDenyList, hallowed,
    if_neg Bool.false_ne_true]
  exact mkdirs_ok h

/-- The parent of a passable path can be created. -/
theorem makeParent_ok {path : RelPath} (hwrite : t.readOnly = false)
    (hallowed : isDeniedForWrite path.components.dropLast = false)
    (h : Passable t path.components.dropLast) :
    (makeParent t path).1 = .ok () ∧
      nodeAt (makeParent t path).2 path.components.dropLast = some .directory := by
  by_cases hnil : path.components.dropLast = []
  · rw [makeParent, if_pos hnil, hnil]
    exact ⟨rfl, nodeAt_nil t⟩
  · obtain ⟨rel, hrel, hcomponents⟩ := RelPath.exists_parent hnil
    rw [← hcomponents] at hallowed h
    have hok := createDirSync_ok hwrite hallowed h
    rw [makeParent, if_neg hnil, hrel]
    dsimp only
    refine ⟨hok, ?_⟩
    rw [← hcomponents]
    exact nodeAt_of_createDirSync_ok hok

/-- A passable path is walked to its end, or to where nothing is. -/
theorem resolveDir_of_passable {t : Tree} {done rest : List Text} (h : Passable t (done ++ rest)) :
    resolveDir t done rest = .ok () ∨ resolveDir t done rest = .error .notFound := by
  induction rest generalizing done with
  | nil => exact .inl rfl
  | cons c rest ih =>
    have hassoc : done ++ c :: rest = done ++ [c] ++ rest := by simp
    rw [hassoc] at h
    unfold resolveDir
    rcases hnode : nodeAt t (done ++ [c]) with _ | n
    · exact .inr rfl
    · obtain rfl := h _ (List.prefix_append _ _) n hnode
      exact ih h

/-- Directories all the way down are walked. -/
theorem resolveDir_of_directories {t : Tree} {done rest : List Text}
    (h : ∀ x, x <+: rest → x ≠ [] → nodeAt t (done ++ x) = some .directory) :
    resolveDir t done rest = .ok () := by
  induction rest generalizing done with
  | nil => rfl
  | cons c rest ih =>
    rw [resolveDir, h [c] (List.prefix_append [c] rest) (by simp)]
    refine ih fun x hx hne => ?_
    rw [List.append_assoc]
    exact h ([c] ++ x) (List.cons_prefix_cons.mpr ⟨rfl, hx⟩) (by simp)

/-- A directory can be walked to. -/
theorem WellFormed.resolveDir_of_directory (h : WellFormed t)
    (hdir : nodeAt t dir = some .directory) : PosixVfs.resolveDir t [] dir = .ok () := by
  refine resolveDir_of_directories fun x hx hne => ?_
  rw [List.nil_append]
  by_cases heq : x = dir
  · rw [heq, hdir]
  · exact h.directory_of_prefix hdir hx heq

/-! ### The calls of the receiving side -/

/-- The paths of a transfer: those it may write, and a destination apart from the staged file. -/
structure TransferPaths (dir staged dest : RelPath) : Prop where
  parent : staged.components.dropLast = dir.components
  allowedDir : isDeniedForWrite dir.components = false
  allowedStaged : isDeniedForWrite staged.components = false
  allowedDest : isDeniedForWrite dest.components = false
  allowedParent : isDeniedForWrite dest.components.dropLast = false
  stagedNamed : staged.value ≠ []
  destNamed : dest.value ≠ []
  notAbove : ¬dest.components <+: staged.components
  notBelow : ¬staged.components <+: dest.components

/-- A tree of the transfer: it can be written, and the destination is free. -/
structure Awaits (dest : RelPath) (t : Tree) : Prop where
  wellFormed : WellFormed t
  writable : t.readOnly = false
  free : nodeAt t dest.components = none
  way : Passable t dest.components.dropLast

/-- The staged file, if there is one, holds some bytes. -/
def Stages (staged : RelPath) (bytes : List UInt8) (t : Tree) : Prop :=
  nodeAt t staged.components = none ∧ bytes = [] ∨
    ∃ ino, nodeAt t staged.components = some (.file ino) ∧ t.data ino = bytes

variable {staged dest : RelPath} {bytes : List UInt8} {ino : ℕ}

/-- The staging directory is made. -/
theorem createDir_of_awaits {path : RelPath} (P : TransferPaths path staged dest)
    (h : Awaits dest t) (hway : Passable t path.components) (hstages : Stages staged bytes t) :
    (createDirSync t path).1 = .ok () ∧ Awaits dest (createDirSync t path).2 ∧
      nodeAt (createDirSync t path).2 path.components = some .directory ∧
      Stages staged bytes (createDirSync t path).2 := by
  have hok := createDirSync_ok h.writable P.allowedDir hway
  have hgrow := createDirSync_grows t path
  have hlt (q : List Text) (hq : q <+: path.components) : q <+: staged.components := by
    rw [← P.parent] at hq
    exact hq.trans (List.dropLast_prefix _)
  refine ⟨hok, ⟨h.wellFormed.createDirSync path, hgrow.readOnly.trans h.writable, ?_,
    h.way.grows hgrow⟩, nodeAt_of_createDirSync_ok hok, ?_⟩
  · rw [nodeAt_createDirSync t path fun hpre => P.notAbove (hlt _ hpre)]
    exact h.free
  · have hself : ¬staged.components <+: path.components := fun hpre => by
      have hlen := hpre.length_le
      rw [← P.parent, List.length_dropLast] at hlen
      have hpos : 0 < staged.components.length :=
        List.length_pos_iff.mpr fun hnil => P.stagedNamed (RelPath.components_eq_nil_iff.mp hnil)
      omega
    rcases hstages with ⟨hnone, hbytes⟩ | ⟨ino, hfile, hdata⟩
    · left
      rw [nodeAt_createDirSync t path hself]
      exact ⟨hnone, hbytes⟩
    · right
      rw [nodeAt_createDirSync t path hself, hgrow.data]
      exact ⟨ino, hfile, hdata⟩

/-- The staged file is opened, or made. -/
theorem openWrite_of_awaits {path : RelPath} (P : TransferPaths path staged dest)
    (h : Awaits dest t) (hdir : nodeAt t path.components = some .directory)
    (hstages : Stages staged bytes t) :
    ∃ ino, (openWriteSync t staged).1 = .ok ino ∧ Awaits dest (openWriteSync t staged).2 ∧
      nodeAt (openWriteSync t staged).2 staged.components = some (.file ino) ∧
      (openWriteSync t staged).2.data ino = bytes := by
  have hway : resolveDir t [] staged.components.dropLast = .ok () := by
    rw [P.parent]
    exact h.wellFormed.resolveDir_of_directory hdir
  have hkeeps (hwrite : (openWriteSync t staged).2.readOnly = false) :
      Awaits dest (openWriteSync t staged).2 := by
    refine ⟨h.wellFormed.openWriteSync staged, hwrite, ?_, fun p hp n hn => ?_⟩
    · rw [nodeAt_openWriteSync t staged fun heq => P.notAbove (by rw [heq])]
      exact h.free
    · rw [nodeAt_openWriteSync t staged fun heq => P.notBelow
        (heq ▸ hp.trans (List.dropLast_prefix _))] at hn
      exact h.way p hp n hn
  rcases hstages with ⟨hnone, rfl⟩ | ⟨ino, hfile, hdata⟩
  · have hresolve : resolveWrite t staged = .ok none := by
      rw [resolveWrite, h.writable, if_neg Bool.false_ne_true, checkDenyList, P.allowedStaged,
        if_neg Bool.false_ne_true, ok_bind, if_neg P.stagedNamed, hway, ok_bind, hnone]
    have hopen : openWriteSync t staged = (.ok t.nextIno,
        { addEntry t staged.components (.file t.nextIno) with
          data := Function.update t.data t.nextIno []
          nextIno := t.nextIno + 1 }) := by
      rw [openWriteSync, hresolve]
    refine ⟨t.nextIno, by rw [hopen], hkeeps ?_, ?_, ?_⟩
    · rw [hopen]
      exact h.writable
    · rw [hopen]
      change nodeAt (addEntry t staged.components (.file t.nextIno)) _ = _
      rw [nodeAt_addEntry, hnone, if_pos rfl]
      rfl
    · rw [hopen]
      exact Function.update_self _ _ _
  · have hresolve : resolveWrite t staged = .ok (some ino) := by
      rw [resolveWrite, h.writable, if_neg Bool.false_ne_true, checkDenyList, P.allowedStaged,
        if_neg Bool.false_ne_true, ok_bind, if_neg P.stagedNamed, hway, ok_bind, hfile]
    have hopen : openWriteSync t staged = (.ok ino, t) := by
      rw [openWriteSync, hresolve]
    rw [hopen]
    exact ⟨ino, rfl, h, hfile, hdata⟩

/-- A file is reported with its size. -/
theorem statSync_file (h : WellFormed t) (hallowed : isDeniedForWrite staged.components = false)
    (hfile : nodeAt t staged.components = some (.file ino)) :
    ∃ m, statSync t staged = .ok m ∧ m.kind = .file ∧ m.sizeBytes = (t.data ino).length := by
  refine ⟨⟨.file, (t.data ino).length, t.modified staged.components⟩, ?_, rfl, rfl⟩
  rw [statSync, checkDenyList, hallowed, if_neg Bool.false_ne_true, ok_bind, h.resolveDir hfile,
    ok_bind, hfile]
  rfl

/-- What is free is not there. -/
theorem statSync_of_free (h : Awaits dest t) (hallowed : isDeniedForWrite dest.components = false) :
    statSync t dest = .error .notFound := by
  rw [statSync, checkDenyList, hallowed, if_neg Bool.false_ne_true, ok_bind]
  have hwalk : Passable t ([] ++ dest.components.dropLast) := h.way
  rcases resolveDir_of_passable hwalk with hok | hnone
  · rw [hok, ok_bind, h.free]
  · rw [hnone]
    rfl

/-- **The staged file is moved to the free destination**, and the directories above it are made. -/
theorem renameInternal_ok {path : RelPath} (P : TransferPaths path staged dest) (h : Awaits dest t)
    (hfile : nodeAt t staged.components = some (.file ino)) :
    (renameInternal t staged dest .noReplace).1 = .ok () := by
  obtain ⟨hparent, hdir⟩ := makeParent_ok h.writable P.allowedParent h.way
  have hgrow := makeParent_grows t dest
  have hstaged := hgrow.nodeAt_eq hfile
  have hself : ¬dest.components <+: dest.components.dropLast := fun hpre => by
    have hlen := hpre.length_le
    rw [List.length_dropLast] at hlen
    have hpos : 0 < dest.components.length :=
      List.length_pos_iff.mpr fun hnil => P.destNamed (RelPath.components_eq_nil_iff.mp hnil)
    omega
  have hfree : nodeAt (makeParent t dest).2 dest.components = none := by
    unfold makeParent
    split_ifs with hnil
    · exact h.free
    · obtain ⟨rel, hrel, hcomponents⟩ := RelPath.exists_parent hnil
      rw [hrel]
      dsimp only
      rw [nodeAt_createDirSync t rel (by rwa [hcomponents])]
      exact h.free
  have hfrom : resolveFrom t staged dest = .ok () := by
    rw [resolveFrom, h.writable, if_neg Bool.false_ne_true, checkDenyList, P.allowedStaged,
      if_neg Bool.false_ne_true, ok_bind, checkDenyList, P.allowedDest, if_neg Bool.false_ne_true,
      ok_bind, if_neg (not_or.mpr ⟨P.stagedNamed, P.destNamed⟩), h.wellFormed.resolveDir hfile,
      ok_bind, hfile]
    rfl
  have hwalk := (h.wellFormed.makeParent dest).resolveDir_of_directory hdir
  rw [renameInternal, hfrom]
  dsimp only
  rcases hmake : makeParent t dest with ⟨answer, t₁⟩
  rw [hmake] at hparent hwalk hfree hstaged
  obtain rfl : answer = .ok () := hparent
  dsimp only at hwalk hfree hstaged ⊢
  rw [hwalk]
  dsimp only
  rw [checkDestination, hfree]
  dsimp only [Option.isSome_none]
  rw [if_neg Bool.false_ne_true]
  dsimp only
  rw [renameat, if_neg fun heq => P.notAbove (by rw [heq]), if_neg P.notBelow, hstaged, hfree]

/-- Writing to a file changes no entry. -/
theorem Awaits.write (h : Awaits dest t) (data : ℕ → List UInt8) : Awaits dest { t with data } :=
  ⟨⟨h.wellFormed.parent, h.wellFormed.inode⟩, h.writable, h.free, h.way⟩

/-- **The backend takes a file** that is staged and moved to a free destination. -/
def takesFile {path : RelPath} (P : TransferPaths path staged dest) :
    TakesFile vfs path staged dest where
  Holds bytes t := Awaits dest t ∧ Passable t path.components ∧ Stages staged bytes t
  Made bytes t := Awaits dest t ∧ nodeAt t path.components = some .directory ∧ Stages staged bytes t
  IsOpen bytes t ino :=
    Awaits dest t ∧ nodeAt t staged.components = some (.file ino) ∧ t.data ino = bytes
  Placed bytes t := PosixVfs.content t dest = some bytes
  createDir h := createDir_of_awaits P h.1 h.2.1 h.2.2
  openWrite h := openWrite_of_awaits P h.1 h.2.1 h.2.2
  statStaged h := by
    obtain ⟨hawaits, hfile, rfl⟩ := h
    obtain ⟨m, hm, -, hsize⟩ := statSync_file hawaits.wellFormed P.allowedStaged hfile
    exact ⟨m, hm, hsize, hawaits, hfile, rfl⟩
  writeAt more h _ := by
    obtain ⟨hawaits, hfile, rfl⟩ := h
    exact ⟨rfl, hawaits.write _, hfile, Function.update_self _ _ _⟩
  sync h := ⟨rfl, h⟩
  statDest h := ⟨statSync_of_free h.1 P.allowedDest, h⟩
  place h := by
    obtain ⟨hawaits, hfile, hdata⟩ := h
    have hok := renameInternal_ok P hawaits hfile
    exact ⟨hok, (renameInternal_noReplace_ok (content_eq_some.mpr ⟨_, hfile, hdata⟩) hok).1⟩

/-- A path at which a file is has a name. -/
theorem value_ne_nil_of_file {path : RelPath}
    (hfile : nodeAt t path.components = some (.file ino)) : path.value ≠ [] := fun hnil => by
  rw [RelPath.components_eq_nil_iff.mpr hnil] at hfile
  cases hfile

/-- A file is reported with its size, -/
theorem stat_serves {path : RelPath} {content : List UInt8}
    (hallowed : isDeniedForWrite path.components = false) (t : Tree)
    (h : WellFormed t ∧ PosixVfs.content t path = some content) :
    ∃ m, (vfs.stat t path).1 = .ok m ∧ m.kind = .file ∧ m.sizeBytes = content.length ∧
      WellFormed (vfs.stat t path).2 ∧ PosixVfs.content (vfs.stat t path).2 path = some content := by
  obtain ⟨hwf, hcontent⟩ := h
  obtain ⟨ino, hfile, rfl⟩ := content_eq_some.mp hcontent
  obtain ⟨m, hm, hkind, hsize⟩ := statSync_file hwf hallowed hfile
  exact ⟨m, hm, hkind, hsize, hwf, hcontent⟩

/-- opened for reading, -/
theorem openRead_serves {path : RelPath} {content : List UInt8}
    (hallowed : isDeniedForWrite path.components = false) (t : Tree)
    (h : WellFormed t ∧ PosixVfs.content t path = some content) :
    ∃ ino, (vfs.openRead t path).1 = .ok ino ∧ (vfs.openRead t path).2.data ino = content := by
  obtain ⟨hwf, hcontent⟩ := h
  obtain ⟨ino, hfile, hdata⟩ := content_eq_some.mp hcontent
  refine ⟨ino, ?_, hdata⟩
  change openReadSync t path = .ok ino
  rw [openReadSync, checkDenyList, hallowed, if_neg Bool.false_ne_true, ok_bind,
    if_neg (value_ne_nil_of_file hfile), hwf.resolveDir hfile, ok_bind, hfile]

/-- and read piece by piece. -/
theorem readAt_serves {content : List UInt8} (t : Tree) (ino off len : ℕ)
    (h : t.data ino = content) :
    ∃ n ≤ len, (0 < len → off < content.length → 0 < n) ∧
      (vfs.readAt t ino off len).1 = .ok ((content.drop off).take n) ∧
      (vfs.readAt t ino off len).2.data ino = content := by
  subst h
  refine ⟨min len ((t.data ino).length - off), Nat.min_le_left _ _, fun _ _ => by omega, ?_, rfl⟩
  change Except.ok (((t.data ino).drop off).take len) = _
  rw [← List.length_drop, List.take_eq_take_min]

/-- **The backend serves a file** that is there. -/
def servesFile {path : RelPath} {content : List UInt8}
    (hallowed : isDeniedForWrite path.components = false) (hfits : content.length < UInt64.size) :
    ServesFile vfs path content where
  Holds t := WellFormed t ∧ PosixVfs.content t path = some content
  IsOpen t ino := t.data ino = content
  fits := hfits
  stat := stat_serves hallowed
  openRead := openRead_serves hallowed
  readAt := readAt_serves

end PosixVfs

namespace PosixTransferSample

open ChunkServingSample PosixVfs Protobuf

theorem path_accepted : "a".toList = [] ∨ relPathRefusal "a".toList = none :=
  .inr (by decide)

/-- Where the file goes, and where it comes from. -/
def path : RelPath := ⟨"a".toList, path_accepted⟩

/-- A completion signal, in protobuf. -/
def completionBytes (m : WireItemComplete) : List UInt8 :=
  bytesField 1 (ChunkServingSample.ascii m.transferId) ++
    bytesField 2 (ChunkServingSample.ascii m.itemId) ++
    intField 3 (if m.verified then 1 else 0) ++ bytesField 4 (ChunkServingSample.ascii m.finalPath)

/-- The only request of the transfer, -/
def wireRequest : WireChunkRequest := ⟨TransferId.sample.display, ItemId.sample.value, 0, 1⟩

/-- its only header, -/
def wireHeader : WireChunkData :=
  ⟨TransferId.sample.display, ItemId.sample.value, 0, 11, true, 0⟩

/-- and its completion signal. -/
def wireCompletion : WireItemComplete :=
  ⟨TransferId.sample.display, ItemId.sample.value, true, path.value⟩

/-- The protobuf layer on the messages of the transfer. -/
def codec : SendCodec where
  encodeChunkRequest m := requestBytes (UInt64.ofNat m.fromChunk) (UInt64.ofNat m.count)
  decodeChunkData payload := if payload = headerBytes wireHeader then some wireHeader else none
  encodeItemComplete := completionBytes
  decodeChunkRequest payload := if payload = requestBytes 0 1 then some wireRequest else none
  decodeChunkRerequest _ := none
  encodeChunkData := headerBytes
  decodeItemComplete payload :=
    if payload = completionBytes wireCompletion then some wireCompletion else none

/-- A slice of the leaf verifies if it is the length and the bytes of the file. -/
def verifier : ContentVerifier where
  verify _ _ _ slice :=
    if slice = [3, 0, 0, 0, 0, 0, 0, 0, 1, 2, 3] then .ok [1, 2, 3] else .error .mismatch

/-- A root that holds a file of three bytes. -/
def servedTree : Tree :=
  ⟨[(["a".toList], .file 0)], fun _ => [1, 2, 3], 1, fun _ => 0, false⟩

/-- A root with nothing in it. -/
def emptyTree : Tree :=
  ⟨[], fun _ => [], 0, fun _ => 0, false⟩

/-- A transfer of the file from the one root to the other. -/
def sides : TransferSides Tree ℕ Tree ℕ Unit where
  vfs := PosixVfs.vfs
  receiveEnv := ⟨codec.toTransferCodec, verifier, id⟩
  receiveReq := ⟨path, 3, .zeroes, .sample, .sample, 512⟩
  sendEnv := ⟨PosixVfs.vfs, codec, bao⟩
  sendReq := ⟨path, .sample, .sample, 512, ⟨3, .zeroes, ()⟩⟩

/-- The paths of the transfer are good. -/
theorem transferPaths : TransferPaths (partialDirRelPath .sample)
    (partialFileRelPath .sample .sample) path where
  parent := by
    rw [partialFileRelPath, RelPath.components_ofPlain, partialDirRelPath,
      RelPath.components_ofPlain]
    rfl
  allowedDir := by rw [partialDirRelPath, RelPath.components_ofPlain]; decide +kernel
  allowedStaged := by rw [partialFileRelPath, RelPath.components_ofPlain]; decide +kernel
  allowedDest := by decide +kernel
  allowedParent := by decide +kernel
  stagedNamed := by decide +kernel
  destNamed := by decide +kernel
  notAbove := by rw [partialFileRelPath, RelPath.components_ofPlain]; decide +kernel
  notBelow := by rw [partialFileRelPath, RelPath.components_ofPlain]; decide +kernel

/-- The file, the hash tree and the frames work for the item. -/
theorem sendsItem : SendsItem sides.sendEnv sides.sendReq [1, 2, 3] :=
  ⟨rfl, rfl, ChunkServingSample.sendsItem.extract, ChunkServingSample.sendsItem.frames⟩

/-- There is one chunk. -/
theorem chunkCount_three : ItemResumption.chunkCount 3 = 1 := by decide

/-! The sides of the transfer agree on it, -/

theorem path_allowed : isDeniedForWrite sides.sendReq.relPath.components = false := by
  decide +kernel

theorem content_fits : ([1, 2, 3] : List UInt8).length < UInt64.size := by decide

theorem sides_transferId : sides.receiveReq.transferId = sides.sendReq.transferId := rfl

theorem sides_itemId : sides.receiveReq.itemId = sides.sendReq.itemId := rfl

theorem sides_totalBytes :
    sides.receiveReq.totalBytes.toNat = ([1, 2, 3] : List UInt8).length := rfl

theorem sides_maxFrameSize : sides.receiveReq.maxFrameSize = sides.sendReq.maxFrameSize := rfl

theorem sides_codec : sides.receiveEnv.codec = sides.sendEnv.codec.toTransferCodec := rfl

theorem sides_destination :
    sanitizeDestinationPath sides.receiveEnv.nfc sides.receiveReq.destRelPath.value = .ok path := by
  decide +kernel

theorem path_named : path.value ≠ [] := by decide

/-! and on its messages. -/

theorem sides_request (k count : ℕ) (hcount : 0 < count)
    (hfits : k + count ≤ ItemResumption.chunkCount ([1, 2, 3] : List UInt8).length)
    (req : ChunkRequest)
    (hreq : req = ⟨sides.sendReq.transferId, sides.sendReq.itemId, k, count⟩) :
    sides.sendEnv.codec.decodeChunkRequest
        (sides.sendEnv.codec.encodeChunkRequest (chunkRequestToWire req)) =
      some (chunkRequestToWire req) ∧
    ∃ frame, encodeChunkRequestFrame sides.receiveEnv.codec req
      sides.sendReq.maxFrameSize = .ok frame := by
  have hone : k + count ≤ 1 := hfits
  obtain rfl : k = 0 := by omega
  obtain rfl : count = 1 := by omega
  subst hreq
  refine ⟨by decide +kernel, _, mapError_eq_ok.mpr (encodeFrame_eq_ok_iff.mpr ⟨?_, rfl⟩)⟩
  decide +kernel

theorem sides_header (c : ℕ) (hc : c < ItemResumption.chunkCount ([1, 2, 3] : List UInt8).length)
    (header : ChunkDataHeader) (slice : List UInt8)
    (h : HeadsChunk sides.sendEnv sides.sendReq [1, 2, 3] c header slice) :
    sides.sendEnv.codec.decodeChunkData
        (sides.sendEnv.codec.encodeChunkData (chunkDataHeaderToWire header)) =
      some (chunkDataHeaderToWire header) ∧
    slice.length ≤ maxPayloadBound sides.receiveReq ∧
    sides.receiveEnv.verifier.verify sides.receiveReq.contentHash (c * referenceChunkSizeBytes)
      (chunkOf [1, 2, 3] c).length slice = .ok (chunkOf [1, 2, 3] c) := by
  have hone : c < 1 := hc
  obtain rfl : c = 0 := by omega
  obtain rfl : [3, 0, 0, 0, 0, 0, 0, 0, 1, 2, 3] = slice := Option.some.inj h.extract
  have hwire : chunkDataHeaderToWire header = wireHeader := by
    rw [chunkDataHeaderToWire, wireHeader, h.transferId, h.itemId, h.offsetInChunk,
      h.last.mpr rfl, show header.chunkIndex = 0 from UInt64.toNat_inj.mp h.chunkIndex,
      show header.payloadLen = 11 from UInt32.toNat_inj.mp h.payloadLen]
    rfl
  rw [hwire]
  exact ⟨by decide +kernel, by decide +kernel, rfl⟩

theorem sides_completion (item : ItemComplete)
    (hitem : item = ⟨sides.sendReq.transferId, sides.sendReq.itemId, true, some path⟩) :
    sides.sendEnv.codec.decodeItemComplete
        (sides.sendEnv.codec.encodeItemComplete (itemCompleteToWire item)) =
      some (itemCompleteToWire item) ∧
    ∃ frame, encodeItemCompleteFrame sides.receiveEnv.codec item
      sides.sendReq.maxFrameSize = .ok frame := by
  subst hitem
  refine ⟨by decide +kernel, _, mapError_eq_ok.mpr (encodeFrame_eq_ok_iff.mpr ⟨?_, rfl⟩)⟩
  decide +kernel

/-- The sides of the transfer are honest. -/
def honest : HonestSides sides [1, 2, 3] path where
  sends := sendsItem
  serves := PosixVfs.servesFile path_allowed content_fits
  takes := PosixVfs.takesFile transferPaths
  transferId := sides_transferId
  itemId := sides_itemId
  totalBytes := sides_totalBytes
  maxFrameSize := sides_maxFrameSize
  codec := sides_codec
  request := sides_request
  header := sides_header
  completion := sides_completion
  destination := sides_destination
  named := path_named

end PosixTransferSample

end Tradr
