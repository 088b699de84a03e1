import Tradr.BrowseDenyList
import Tradr.CollisionNames
import Tradr.StagingNames
import Tradr.TreeRegions

/-!
# Uploads among Other Clients

The root of a share is used by several clients at once, and an upload takes as long as its bytes
take to arrive: between any two filesystem calls of its handler the others create, write, rename
and remove what they like. Here the handler runs on a root on which a script of such calls is
carried out before each of its own.

A staged upload is safe from the others as long as none of them names its staging directory, which
is called by an identifier that was drawn for this upload and is told to nobody. Then the staged
file belongs to the handler alone until it is put in place, in one call that checks what is there;
and when the upload is acknowledged exactly one file was placed, with the bytes that were sent, and
the staging directory is gone. The deny list does not keep the others out of it: below the staging
root it lets every client through that knows the name.

## Main definitions

* `Contended.vfs`: the POSIX backend with the calls of other clients before each call.
* `UploadPlacement.Lawful`: what the mode of an upload asks of a file that was placed.

## Main results

* `Contended.acknowledged_upload_is_placed`: an acknowledged upload is complete.
* `Contended.staged_upload_is_exchanged`: a client that knows the staging directory puts another
  file in the place of the upload.
-/

namespace Tradr

open PosixVfs

/-! ### Other clients -/

/-- A call that another client makes on the root. What it writes to is one of the files that the
others hold open. -/
inductive OtherCall
  | createDir (path : RelPath)
  | openWrite (path : RelPath)
  | writeAt (k off : ℕ) (bytes : List UInt8)
  | rename (source target : RelPath)
  | renameNoReplace (source target : RelPath)
  | remove (path : RelPath)

/-- A file that was put in its place: its two paths, and the root before and after. -/
structure UploadPlacement where
  source : RelPath
  target : RelPath
  before : Tree
  after : Tree

/-- A root that others use as well: the files they hold open, what they do before each coming call
of the handler, and what the handler has placed. -/
structure Contended where
  tree : Tree
  held : List ℕ
  coming : List (List OtherCall)
  placements : List UploadPlacement

namespace Contended

/-- Another client opens a file for writing. -/
def opening (c : Contended) (path : RelPath) : Contended :=
  match openWriteSync c.tree path with
  | (.ok ino, tree) => { c with tree, held := ino :: c.held }
  | (.error _, tree) => { c with tree }

/-- Another client writes to a file that the others hold open. -/
def writing (c : Contended) (k off : ℕ) (bytes : List UInt8) : Contended :=
  match c.held[k]? with
  | none => c
  | some ino => { c with tree := (PosixVfs.vfs.writeAt c.tree ino off bytes).2 }

/-- Another client makes a call. -/
def perform (c : Contended) : OtherCall → Contended
  | .createDir path => { c with tree := (createDirSync c.tree path).2 }
  | .openWrite path => c.opening path
  | .writeAt k off bytes => c.writing k off bytes
  | .rename source target => { c with tree := (renameInternal c.tree source target .replace).2 }
  | .renameNoReplace source target =>
    { c with tree := (renameInternal c.tree source target .noReplace).2 }
  | .remove path => { c with tree := (removeSync c.tree path).2 }

/-- The other clients do what they do before the next call of the handler. -/
def disturb (c : Contended) : Contended :=
  { (c.coming.headD []).foldl perform c with coming := c.coming.tail }

/-- A call of the handler, after what the others do before it. -/
def calling {A : Type} (callOn : Tree → Except VfsError A × Tree) (c : Contended) :
    Except VfsError A × Contended :=
  ((callOn c.disturb.tree).1, { c.disturb with tree := (callOn c.disturb.tree).2 })

/-- A rename of the handler, which is remembered when it is carried out. -/
def moving (source target : RelPath) (mode : RenameMode) (c : Contended) :
    Except VfsError Unit × Contended :=
  let t := c.disturb.tree
  match renameInternal t source target mode with
  | (.ok (), t') =>
    (.ok (), { c.disturb with
      tree := t', placements := c.disturb.placements ++ [⟨source, target, t, t'⟩] })
  | (.error e, t') => (.error e, { c.disturb with tree := t' })

/-- The POSIX backend with the calls of other clients before each call. -/
def vfs : Vfs Contended ℕ where
  list c p := calling (PosixVfs.vfs.list · p) c
  stat c p := calling (PosixVfs.vfs.stat · p) c
  openRead c p := calling (PosixVfs.vfs.openRead · p) c
  readAt c ino off len := calling (PosixVfs.vfs.readAt · ino off len) c
  createDir c p := calling (createDirSync · p) c
  openWrite c p := calling (openWriteSync · p) c
  writeAt c ino off bytes := calling (PosixVfs.vfs.writeAt · ino off bytes) c
  sync c ino := calling (PosixVfs.vfs.sync · ino) c
  rename c p q := moving p q .replace c
  renameNoReplace c p q := moving p q .noReplace c
  remove c p := calling (removeSync · p) c

/-- A handler on a root that others use as well. -/
def context (codec : ProtoBrowseCodec) (maxFrameSize : UInt32) (fuel : ℕ) :
    Browse.BrowseContext Contended ℕ :=
  ⟨codec, vfs, maxFrameSize, fuel⟩

end Contended

/-- A path that neither is a directory nor lies below it. -/
def RelPath.Apart (dir : List Text) (path : RelPath) : Prop := ¬dir <+: path.components

/-- A call that names nothing at or below a directory. -/
def OtherCall.ClearOf (dir : List Text) : OtherCall → Prop
  | .createDir path | .openWrite path | .remove path => path.Apart dir
  | .writeAt _ _ _ => True
  | .rename source target | .renameNoReplace source target => source.Apart dir ∧ target.Apart dir

/-- A file with these bytes was put in its place, and no other file changed its bytes. -/
structure UploadPlacement.Holds (bytes : List UInt8) (p : UploadPlacement) : Prop where
  content : PosixVfs.content p.after p.target = some bytes
  others : ∀ q, q ≠ p.source → q ≠ p.target →
    PosixVfs.content p.after q = PosixVfs.content p.before q

/-- What the mode of an upload asks of the place: where it was asked for, and where nothing was. -/
structure UploadPlacement.Lawful (req : WriteFile) (p : UploadPlacement) : Prop where
  requested : req.mode ≠ .renameIfExists → p.target = req.path
  replaced : req.mode ≠ .overwrite → nodeAt p.before p.target.components = none

namespace Contended

/-! ### What is known of a region -/

/-- Above a directory every entry is denied, up to the root. -/
def Sheltered (dir : List Text) : Prop :=
  ∀ p, p <+: dir → p ≠ [] → p ≠ dir → isDeniedForWrite p = true

/-- The entries at and below a directory, and a file with its bytes that lies there only and that
no other client holds open. -/
structure Knows (dir : List Text) (shape : List Text → Option Node)
    (own : Option (ℕ × List UInt8)) (t : Tree) (held : List ℕ) : Prop where
  wellFormed : WellFormed t
  opened : ∀ ino ∈ held, ino < t.nextIno
  below : ∀ rest, nodeAt t (dir ++ rest) = shape rest
  own : ∀ ino bytes, own = some (ino, bytes) → ino < t.nextIno ∧ ino ∉ held ∧
    t.data ino = bytes ∧ ∀ q, nodeAt t q = some (.file ino) → dir <+: q

variable {dir : List Text} {shape : List Text → Option Node} {own : Option (ℕ × List UInt8)}
  {t t' : Tree} {held : List ℕ}

/-- A change of the tree outside the region that moves no file into or out of it. -/
theorem Knows.change (h : Knows dir shape own t held) (hwf : WellFormed t')
    (hnext : t.nextIno ≤ t'.nextIno) (hbelow : ∀ q, dir <+: q → nodeAt t' q = nodeAt t q)
    (hdata : ∀ ino < t.nextIno, ino ∉ held → t'.data ino = t.data ino)
    (hfile : ∀ q, ∀ ino < t.nextIno, nodeAt t' q = some (.file ino) →
      ∃ q', nodeAt t q' = some (.file ino) ∧ (dir <+: q' → dir <+: q)) :
    Knows dir shape own t' held where
  wellFormed := hwf
  opened ino hino := Nat.lt_of_lt_of_le (h.opened ino hino) hnext
  below rest := (hbelow _ (List.prefix_append dir rest)).trans (h.below rest)
  own ino bytes hown := by
    obtain ⟨hlt, hnot, hbytes, hsole⟩ := h.own ino bytes hown
    refine ⟨Nat.lt_of_lt_of_le hlt hnext, hnot, (hdata ino hlt hnot).trans hbytes, fun q hq => ?_⟩
    obtain ⟨q', hq', himp⟩ := hfile q ino hlt hq
    exact himp (hsole q' hq')

/-- Another client opens a file outside the region. -/
theorem Knows.hold (h : Knows dir shape own t held) {q : List Text} {ino : ℕ}
    (hq : nodeAt t q = some (.file ino)) (hout : ¬dir <+: q) :
    Knows dir shape own t (ino :: held) where
  wellFormed := h.wellFormed
  opened i hi := by
    rcases List.mem_cons.mp hi with rfl | hi
    · exact h.wellFormed.inode q i hq
    · exact h.opened i hi
  below := h.below
  own i bytes hown := by
    obtain ⟨hlt, hnot, hbytes, hsole⟩ := h.own i bytes hown
    refine ⟨hlt, ?_, hbytes, hsole⟩
    rw [List.mem_cons, not_or]
    refine ⟨?_, hnot⟩
    rintro rfl
    exact hout (hsole q hq)

theorem Knows.createDir (h : Knows dir shape own t held) {path : RelPath}
    (hpath : path.Apart dir) : Knows dir shape own (createDirSync t path).2 held := by
  have hgrow := createDirSync_grows t path
  refine h.change (h.wellFormed.createDirSync path) (le_of_eq hgrow.nextIno.symm) (fun q hq => ?_)
    (fun ino _ _ => congrFun hgrow.data ino)
    fun q ino _ hq => ⟨q, hgrow.nodeAt_file.mp hq, id⟩
  exact nodeAt_createDirSync t path fun hpre => hpath (hq.trans hpre)

theorem Knows.openWrite (h : Knows dir shape own t held) {path : RelPath}
    (hpath : path.Apart dir) : Knows dir shape own (openWriteSync t path).2 held := by
  have hkeeps := openWriteSync_keeps h.wellFormed path
  refine h.change (h.wellFormed.openWriteSync path) ?_ (fun q hq => ?_)
    (fun ino hino _ => hkeeps.data ino hino) fun q ino hino hq => ?_
  · rcases openWriteSync_cases t path with heq | ⟨-, -, heq⟩
    · rw [heq]
    · rw [heq]
      exact Nat.le_succ _
  · refine nodeAt_openWriteSync t path ?_
    rintro rfl
    exact hpath hq
  · refine ⟨q, ?_, id⟩
    rcases openWriteSync_cases t path with heq | ⟨-, hfree, heq⟩
    · rwa [heq] at hq
    · by_cases hqp : q = path.components
      · rw [heq, hqp] at hq
        change nodeAt (PosixVfs.addEntry t path.components (.file t.nextIno)) path.components = _ at hq
        rw [nodeAt_addEntry, hfree, if_pos rfl] at hq
        have hnew : t.nextIno = ino := Node.file.inj (Option.some.inj hq)
        omega
      · rwa [nodeAt_openWriteSync t path hqp] at hq

theorem Knows.rename (h : Knows dir shape own t held) (hdir : Sheltered dir)
    {source target : RelPath} (hs : source.Apart dir) (ht : target.Apart dir) (mode : RenameMode) :
    Knows dir shape own (renameInternal t source target mode).2 held := by
  obtain ⟨hnext, hdata⟩ := nextIno_renameInternal t source target mode
  -- What an allowed path holds is never above the directory.
  have hclear : ∀ {path : RelPath} {q : List Text}, path.Apart dir →
      isDeniedForWrite path.components = false → path.components ≠ [] → dir <+: q →
      ¬path.components <+: q := by
    intro path q hpath hallowed hne hq hpre
    rcases List.prefix_or_prefix_of_prefix hq hpre with hunder | habove
    · exact hpath hunder
    · have hdenied := hdir _ habove hne fun heq => hpath (heq ▸ List.prefix_rfl)
      rw [hallowed] at hdenied
      cases hdenied
  refine h.change (h.wellFormed.renameInternal source target mode) (le_of_eq hnext.symm)
    (fun q hq => ?_) (fun ino _ _ => congrFun hdata ino) fun q ino _ hq => ?_
  · refine nodeAt_renameInternal_outside t mode (fun hway => ht (hq.trans hway)) fun hfrom => ?_
    obtain ⟨hsource, htarget, hsne, htne, -⟩ := resolveFrom_ok hfrom
    exact ⟨hclear hs hsource hsne hq, hclear ht htarget htne hq⟩
  · rcases file_renameInternal hq with hq' | ⟨hfrom, rest, rfl, hq'⟩
    · exact ⟨q, hq', id⟩
    · refine ⟨_, hq', fun hunder => ?_⟩
      obtain ⟨hsource, -, hsne, -⟩ := resolveFrom_ok hfrom
      exact absurd (List.prefix_append _ _) (hclear hs hsource hsne hunder)

theorem Knows.remove (h : Knows dir shape own t held) {path : RelPath}
    (hpath : path.Apart dir) : Knows dir shape own (removeSync t path).2 held := by
  have hkeeps := removeSync_keeps h.wellFormed path
  have hnext : t.nextIno ≤ (removeSync t path).2.nextIno := by
    rcases removeSync_cases t path with ⟨-, -, -, heq⟩ | ⟨-, -, heq⟩
    · rw [heq]
    · rw [heq]
      exact le_rfl
  refine h.change (h.wellFormed.removeSync path) hnext (fun q hq => ?_)
    (fun ino hino _ => hkeeps.data ino hino)
    fun q ino _ hq => ⟨q, nodeAt_of_nodeAt_removeSync hq, id⟩
  refine nodeAt_removeSync t path ?_
  rintro rfl
  exact hpath hq

/-- Another client leaves the region as it is. -/
theorem Knows.perform {c : Contended} (h : Knows dir shape own c.tree c.held)
    (hdir : Sheltered dir) {call : OtherCall} (hclear : call.ClearOf dir) :
    Knows dir shape own (c.perform call).tree (c.perform call).held := by
  cases call with
  | createDir path => exact h.createDir hclear
  | openWrite path =>
    have hafter := h.openWrite hclear
    change Knows dir shape own (c.opening path).tree (c.opening path).held
    unfold opening
    rcases hopen : openWriteSync c.tree path with ⟨e | ino, tree⟩
    · rw [hopen] at hafter
      exact hafter
    · have hok : (openWriteSync c.tree path).1 = .ok ino := by rw [hopen]
      have hat := (openWriteSync_ok hok).1
      rw [hopen] at hafter hat
      exact hafter.hold hat hclear
  | writeAt k off bytes =>
    change Knows dir shape own (c.writing k off bytes).tree (c.writing k off bytes).held
    unfold writing
    rcases hk : c.held[k]? with _ | ino
    · exact h
    · refine h.change ⟨h.wellFormed.parent, h.wellFormed.inode⟩ le_rfl (fun _ _ => rfl)
        (fun i _ hi => ?_) fun q _ _ hq => ⟨q, hq, id⟩
      refine Function.update_of_ne ?_ ..
      rintro rfl
      exact hi (List.mem_of_getElem? hk)
  | rename source target => exact h.rename hdir hclear.1 hclear.2 .replace
  | renameNoReplace source target => exact h.rename hdir hclear.1 hclear.2 .noReplace
  | remove path => exact h.remove hclear

/-! ### Where the handler stands -/

/-- Before a call of the handler: what is known of its staging directory, that the others stay
clear of it, and what was placed. -/
structure Stands (dir : List Text) (shape : List Text → Option Node)
    (own : Option (ℕ × List UInt8)) (placements : List UploadPlacement) (c : Contended) : Prop where
  knows : Knows dir shape own c.tree c.held
  clear : ∀ calls ∈ c.coming, ∀ call ∈ calls, call.ClearOf dir
  placements : c.placements = placements

variable {c : Contended} {placements : List UploadPlacement}

/-- A call of another client changes nothing but the tree and the files held open. -/
theorem perform_rest (c : Contended) (call : OtherCall) :
    (c.perform call).coming = c.coming ∧ (c.perform call).placements = c.placements := by
  cases call with
  | openWrite path =>
    change (c.opening path).coming = _ ∧ (c.opening path).placements = _
    unfold opening
    rcases openWriteSync c.tree path with ⟨e | ino, tree⟩
    · exact ⟨rfl, rfl⟩
    · exact ⟨rfl, rfl⟩
  | writeAt k off bytes =>
    change (c.writing k off bytes).coming = _ ∧ (c.writing k off bytes).placements = _
    unfold writing
    rcases c.held[k]? with _ | ino
    · exact ⟨rfl, rfl⟩
    · exact ⟨rfl, rfl⟩
  | _ => exact ⟨rfl, rfl⟩

/-- The others leave the region as it is, whatever number of calls they make. -/
theorem Knows.performs (hdir : Sheltered dir) (calls : List OtherCall)
    (hclear : ∀ call ∈ calls, call.ClearOf dir) {c : Contended}
    (h : Knows dir shape own c.tree c.held) :
    Knows dir shape own (calls.foldl Contended.perform c).tree
        (calls.foldl Contended.perform c).held ∧
      (calls.foldl Contended.perform c).placements = c.placements := by
  induction calls generalizing c with
  | nil => exact ⟨h, rfl⟩
  | cons call calls ih =>
      obtain ⟨hknows, hplaced⟩ := ih (fun x hx => hclear x (List.mem_cons_of_mem _ hx))
        (h.perform hdir (hclear call List.mem_cons_self))
      exact ⟨hknows, hplaced.trans (perform_rest c call).2⟩

/-- The others leave the handler where it stands. -/
theorem Stands.disturb (h : Stands dir shape own placements c) (hdir : Sheltered dir) :
    Stands dir shape own placements c.disturb := by
  have hhead : ∀ call ∈ c.coming.headD [], OtherCall.ClearOf dir call := by
    intro call hcall
    rcases hcoming : c.coming with _ | ⟨calls, rest⟩
    · rw [hcoming] at hcall
      cases hcall
    · rw [hcoming] at hcall
      exact h.clear calls (hcoming ▸ List.mem_cons_self) call hcall
  obtain ⟨hknows, hplaced⟩ := Knows.performs hdir _ hhead h.knows
  exact ⟨hknows, fun calls hmem => h.clear calls (List.mem_of_mem_tail hmem),
    hplaced.trans h.placements⟩

/-- A call of the handler moves it from one place to another when it does so on every tree. -/
theorem Stands.calling {A : Type} {callOn : Tree → Except VfsError A × Tree} {a : A}
    {c' : Contended} {shape' : List Text → Option Node} {own' : Option (ℕ × List UInt8)}
    (h : Stands dir shape own placements c) (hdir : Sheltered dir)
    (hok : Contended.calling callOn c = (.ok a, c'))
    (hop : ∀ t held, Knows dir shape own t held → (callOn t).1 = .ok a →
      Knows dir shape' own' (callOn t).2 held) : Stands dir shape' own' placements c' := by
  have hd := h.disturb hdir
  obtain ⟨h1, rfl⟩ := Prod.mk.inj hok
  exact ⟨hop _ _ hd.knows h1, hd.clear, hd.placements⟩

/-- A call that only looks leaves the handler where it stands. -/
theorem Stands.looking {A : Type} (look : Tree → Except VfsError A)
    (h : Stands dir shape own placements c) (hdir : Sheltered dir) :
    Stands dir shape own placements (Contended.calling (fun t => (look t, t)) c).2 := by
  have hd := h.disturb hdir
  exact ⟨hd.knows, hd.clear, hd.placements⟩

/-! ### The calls on the staging directory -/

/-- Nothing is there. -/
def absent : List Text → Option Node := fun _ => none

/-- A directory without entries. -/
def emptied (rest : List Text) : Option Node := if rest = [] then some .directory else none

/-- A directory with one file. -/
def staged (name : Text) (ino : ℕ) (rest : List Text) : Option Node :=
  if rest = [] then some .directory else if rest = [name] then some (.file ino) else none

variable {path source target : RelPath} {name : Text} {ino : ℕ} {bytes : List UInt8}

/-- The staging directory is made. -/
theorem Knows.makeDir (h : Knows dir absent none t held) (hpath : path.components = dir)
    (hok : (createDirSync t path).1 = .ok ()) :
    Knows dir emptied none (createDirSync t path).2 held where
  wellFormed := h.wellFormed.createDirSync path
  opened i hi := by
    rw [(createDirSync_grows t path).nextIno]
    exact h.opened i hi
  below rest := by
    unfold emptied
    split_ifs with hrest
    · rw [hrest, List.append_nil, ← hpath]
      exact nodeAt_of_createDirSync_ok hok
    · rw [nodeAt_createDirSync, h.below]
      · rfl
      · intro hpre
        have hlen := hpre.length_le
        rw [hpath, List.length_append] at hlen
        have := List.length_pos_iff.mpr hrest
        omega
  own _ _ := nofun

/-- The staging file is created: a new file, which nobody else has open. -/
theorem Knows.openStaged (h : Knows dir emptied none t held)
    (hpath : path.components = dir ++ [name]) (hok : (openWriteSync t path).1 = .ok ino) :
    Knows dir (staged name ino) (some (ino, [])) (openWriteSync t path).2 held := by
  have hnode := (openWriteSync_ok hok).1
  have hbefore : nodeAt t path.components = none := by
    rw [hpath, h.below]
    exact if_neg (List.cons_ne_nil name [])
  rcases openWriteSync_cases t path with heq | ⟨hnew, -, heq⟩
  · rw [heq, hbefore] at hnode
    cases hnode
  obtain rfl : ino = t.nextIno := Except.ok.inj (hok.symm.trans hnew)
  have hother : ∀ q, q ≠ path.components → nodeAt (openWriteSync t path).2 q = nodeAt t q :=
    fun q hq => nodeAt_openWriteSync t path hq
  have hnext : (openWriteSync t path).2.nextIno = t.nextIno + 1 := by
    rw [heq]
  refine ⟨h.wellFormed.openWriteSync path, fun i hi => ?_, fun rest => ?_, fun i b hib => ?_⟩
  · rw [hnext]
    exact Nat.lt_succ_of_lt (h.opened i hi)
  · unfold staged
    split_ifs with h0 h1
    · rw [hother, h.below, emptied, if_pos h0]
      rw [hpath, h0]
      simp
    · rw [h1, ← hpath]
      exact hnode
    · rw [hother, h.below, emptied, if_neg h0]
      rw [hpath]
      exact fun heq => h1 (List.append_cancel_left heq)
  · obtain ⟨rfl, rfl⟩ := Prod.mk.inj (Option.some.inj hib)
    refine ⟨by omega, fun hi => Nat.lt_irrefl _ (h.opened _ hi), ?_, fun q hq => ?_⟩
    · rw [heq]
      exact Function.update_self ..
    · by_cases hqp : q = path.components
      · rw [hqp, hpath]
        exact List.prefix_append _ _
      · rw [hother q hqp] at hq
        exact absurd (h.wellFormed.inode q _ hq) (Nat.lt_irrefl _)

/-- Bytes are written to the staging file. -/
theorem Knows.writeStaged (h : Knows dir shape (some (ino, bytes)) t held) (off : ℕ)
    (more : List UInt8) :
    Knows dir shape (some (ino, ByteFile.overlay bytes off more))
      (PosixVfs.vfs.writeAt t ino off more).2 held where
  wellFormed := ⟨h.wellFormed.parent, h.wellFormed.inode⟩
  opened := h.opened
  below := h.below
  own i b hib := by
    obtain ⟨rfl, rfl⟩ := Prod.mk.inj (Option.some.inj hib)
    obtain ⟨hlt, hnot, hbytes, hsole⟩ := h.own _ _ rfl
    refine ⟨hlt, hnot, ?_, hsole⟩
    rw [← hbytes]
    exact Function.update_self ..

/-- A rename that failed leaves the region as it is. -/
theorem Knows.renameFailed (h : Knows dir shape own t held) (htarget : target.Apart dir)
    {mode : RenameMode} {e : VfsError} (he : (renameInternal t source target mode).1 = .error e) :
    Knows dir shape own (renameInternal t source target mode).2 held := by
  rcases renameInternal_error he with heq | heq
  · rw [heq]
    exact h
  · have hgrow := makeParent_grows t target
    rw [heq]
    refine h.change (h.wellFormed.makeParent target) (le_of_eq hgrow.nextIno.symm)
      (fun q hq => nodeAt_makeParent t target fun hpre => htarget (hq.trans hpre))
      (fun i _ _ => congrFun hgrow.data i) fun q i _ hq => ⟨q, hgrow.nodeAt_file.mp hq, id⟩

/-- The staging file is put in its place. -/
theorem Knows.renamed (h : Knows dir (staged name ino) (some (ino, bytes)) t held)
    (hsource : source.components = dir ++ [name]) (htarget : target.Apart dir) {mode : RenameMode}
    (hok : (renameInternal t source target mode).1 = .ok ()) :
    Knows dir emptied none (renameInternal t source target mode).2 held ∧
      UploadPlacement.Holds bytes ⟨source, target, t, (renameInternal t source target mode).2⟩ ∧
      (mode = .noReplace → nodeAt t target.components = none) := by
  have hgrow := makeParent_grows t target
  have hfile : nodeAt t source.components = some (.file ino) := by
    rw [hsource, h.below, staged, if_neg (List.cons_ne_nil name []), if_pos rfl]
  have hne : source.components ≠ target.components := by
    intro heq
    refine htarget ?_
    rw [← heq, hsource]
    exact List.prefix_append _ _
  obtain ⟨hat, hother⟩ := renameInternal_of_file h.wellFormed hfile hne hok
  obtain ⟨hnext, hdata⟩ := nextIno_renameInternal t source target mode
  refine ⟨⟨h.wellFormed.renameInternal .., fun i hi => ?_, fun rest => ?_, fun _ _ => nofun⟩,
    ⟨?_, fun q hqs hqt => ?_⟩, fun hmode => ?_⟩
  · rw [hnext]
    exact h.opened i hi
  · rw [hother, nodeAt_makeParent, h.below, hsource]
    · unfold emptied staged
      by_cases h0 : rest = []
      · rw [if_pos h0, if_pos h0, if_neg]
        rw [h0]
        simp
      · rw [if_neg h0, if_neg h0]
        by_cases h1 : rest = [name]
        · rw [if_pos (congrArg (dir ++ ·) h1)]
        · rw [if_neg h1, if_neg fun heq => h1 (List.append_cancel_left heq)]
    · exact fun hpre => htarget ((List.prefix_append dir rest).trans hpre)
    · rintro heq
      exact htarget (heq ▸ List.prefix_append dir rest)
  · obtain ⟨-, -, hbytes, -⟩ := h.own _ _ rfl
    exact content_eq_some.mpr ⟨ino, hat, by rw [hdata, hbytes]⟩
  · change PosixVfs.content (renameInternal t source target mode).2 q = PosixVfs.content t q
    have hnode := hother q.components fun heq => hqt (RelPath.components_injective heq)
    rw [if_neg fun heq => hqs (RelPath.components_injective heq)] at hnode
    rw [← hgrow.content q]
    unfold PosixVfs.content
    rw [hnode, hdata, hgrow.data]
  · rcases renameInternal_spec t source target mode with
      ⟨e, he, -⟩ | ⟨-, -, hdest, -⟩
    · rw [he] at hok
      cases hok
    · rw [hmode] at hdest
      unfold checkDestination at hdest
      rcases hnode : nodeAt t target.components with _ | n
      · rfl
      · rw [hgrow.nodeAt_eq hnode] at hdest
        cases hdest

/-- The staging directory is removed. -/
theorem Knows.removeDir (h : Knows dir emptied none t held) (hpath : path.components = dir)
    (hok : (removeSync t path).1 = .ok ()) : Knows dir absent none (removeSync t path).2 held where
  wellFormed := h.wellFormed.removeSync path
  opened i hi := by
    rcases removeSync_cases t path with ⟨-, -, -, heq⟩ | ⟨-, -, heq⟩
    · rw [heq]
      exact h.opened i hi
    · rw [heq]
      exact h.opened i hi
  below rest := by
    by_cases hrest : rest = []
    · rw [hrest, List.append_nil, ← hpath]
      exact nodeAt_of_removeSync_ok hok
    · rw [nodeAt_removeSync, h.below, emptied, if_neg hrest]
      · rfl
      · rw [hpath]
        simpa using hrest
  own _ _ := nofun

/-! ### The steps of the handler -/

open Browse Eff

/-- Where the handler stands, the bytes that are still to be read, and the identifiers that are
still to be drawn. -/
structure At (ids : List TransferId) (dir : List Text) (shape : List Text → Option Node)
    (own : Option (ℕ × List UInt8)) (placements : List UploadPlacement) (pending : List UInt8)
    (w : World Contended) : Prop where
  stands : Stands dir shape own placements w.store
  pending : w.buffer ++ w.recv.bytes = pending
  ids : w.ids = ids

variable {ids : List TransferId} {pending : List UInt8} {w w' : World Contended} {req : WriteFile}
  {ctx : BrowseContext Contended ℕ}

/-- A call that is not refused was answered. -/
theorem refusing_call_eq_ok {A : Type} {op : Contended → Except VfsError A × Contended} {a : A}
    (h : refusing (call op) w = (.ok a, w')) :
    ∃ c, op w.store = (.ok a, c) ∧ w' = { w with store := c } := by
  obtain ⟨h1, rfl⟩ := Prod.mk.inj h
  refine ⟨(op w.store).2, Prod.ext ?_ rfl, rfl⟩
  exact Fallible.mapError_eq_ok.mp (Fallible.mapError_eq_ok.mp h1)

/-- Looking at the root leaves the handler where it stands. -/
theorem At.stat (h : At ids dir shape own placements pending w) (hdir : Sheltered dir)
    (hctx : ctx.vfs = vfs) (path : RelPath) :
    At ids dir shape own placements pending { w with store := (ctx.vfs.stat w.store path).2 } := by
  rw [hctx]
  exact ⟨h.stands.looking (statSync · path) hdir, h.pending, h.ids⟩

/-- The numbered names that are tried are outside the staging directory. -/
theorem At.freeNameFrom (hdir : Sheltered dir) (hctx : ctx.vfs = vfs)
    (hnumbered : ∀ n q, RelPath.new (collisionName path.value n) = .ok q → q.Apart dir)
    (fuel n : ℕ) (h : At ids dir shape own placements pending w)
    (hok : Browse.freeNameFrom ctx path fuel n w = (.ok target, w')) :
    At ids dir shape own placements pending w' ∧ target.Apart dir := by
  induction fuel generalizing n w with
  | zero =>
      cases (Prod.mk.inj hok).1
  | succ fuel ih =>
      unfold Browse.freeNameFrom at hok
      rcases hnew : RelPath.new (collisionName path.value n) with e | candidate
      · rw [hnew] at hok
        cases (Prod.mk.inj hok).1
      rw [hnew] at hok
      obtain ⟨r, w₁, h₁, hok⟩ := Eff.bind_eq_ok.mp hok
      obtain ⟨-, rfl⟩ := Prod.mk.inj h₁
      have hat := h.stat hdir hctx candidate
      rcases r with (e | _) | metadata
      · by_cases he : e = .notFound
        · subst he
          obtain ⟨hr, rfl⟩ := Prod.mk.inj hok
          obtain rfl := Except.ok.inj hr
          exact ⟨hat, hnumbered n _ hnew⟩
        · cases e <;> first
            | exact absurd rfl he
            | cases (Prod.mk.inj hok).1
      · cases (Prod.mk.inj hok).1
      · exact ih (n + 1) hat hok

/-- A free name is outside the staging directory. -/
theorem At.freeName (hdir : Sheltered dir) (hctx : ctx.vfs = vfs) (hpath : path.Apart dir)
    (hnumbered : ∀ n q, RelPath.new (collisionName path.value n) = .ok q → q.Apart dir)
    (h : At ids dir shape own placements pending w)
    (hok : Browse.freeName ctx path w = (.ok target, w')) :
    At ids dir shape own placements pending w' ∧ target.Apart dir := by
  unfold Browse.freeName at hok
  obtain ⟨r, w₁, h₁, hok⟩ := Eff.bind_eq_ok.mp hok
  obtain ⟨-, rfl⟩ := Prod.mk.inj h₁
  have hat := h.stat hdir hctx path
  rcases r with (e | _) | metadata
  · by_cases he : e = .notFound
    · subst he
      obtain ⟨hr, rfl⟩ := Prod.mk.inj hok
      obtain rfl := Except.ok.inj hr
      exact ⟨hat, hpath⟩
    · cases e <;> first
        | exact absurd rfl he
        | cases (Prod.mk.inj hok).1
  · cases (Prod.mk.inj hok).1
  · exact At.freeNameFrom hdir hctx hnumbered ctx.fuel 2 hat hok

/-- Where the upload is to go: outside the staging directory, and where it was asked for unless it
is to take a free name. -/
theorem At.uploadTarget (hdir : Sheltered dir) (hctx : ctx.vfs = vfs)
    (hpath : req.path.Apart dir)
    (hnumbered : ∀ n q, RelPath.new (collisionName req.path.value n) = .ok q → q.Apart dir)
    (h : At ids dir shape own placements pending w)
    (hok : Browse.uploadTarget ctx req w = (.ok target, w')) :
    At ids dir shape own placements pending w' ∧ target.Apart dir ∧
      (req.mode ≠ .renameIfExists → target = req.path) := by
  unfold Browse.uploadTarget at hok
  rcases hmode : req.mode with _ | _ | _
  · rw [hmode] at hok
    obtain ⟨r, w₁, h₁, hok⟩ := Eff.bind_eq_ok.mp hok
    obtain ⟨-, rfl⟩ := Prod.mk.inj h₁
    have hat := h.stat hdir hctx req.path
    rcases r with (e | _) | metadata
    · by_cases he : e = .notFound
      · subst he
        obtain ⟨hr, rfl⟩ := Prod.mk.inj hok
        obtain rfl := Except.ok.inj hr
        exact ⟨hat, hpath, fun _ => rfl⟩
      · cases e <;> first
          | exact absurd rfl he
          | cases (Prod.mk.inj hok).1
    · cases (Prod.mk.inj hok).1
    · cases (Prod.mk.inj hok).1
  · rw [hmode] at hok
    obtain ⟨r, w₁, h₁, hok⟩ := Eff.bind_eq_ok.mp hok
    obtain ⟨-, rfl⟩ := Prod.mk.inj h₁
    have hat := h.stat hdir hctx req.path
    rcases r with (e | _) | metadata
    · by_cases he : e = .notFound
      · subst he
        obtain ⟨hr, rfl⟩ := Prod.mk.inj hok
        obtain rfl := Except.ok.inj hr
        exact ⟨hat, hpath, fun _ => rfl⟩
      · cases e <;> first
          | exact absurd rfl he
          | cases (Prod.mk.inj hok).1
    · cases (Prod.mk.inj hok).1
    · dsimp only at hok
      split_ifs at hok
      · cases (Prod.mk.inj hok).1
      · obtain ⟨hr, rfl⟩ := Prod.mk.inj hok
        obtain rfl := Except.ok.inj hr
        exact ⟨hat, hpath, fun _ => rfl⟩
  · rw [hmode] at hok
    obtain ⟨hr, rfl⟩ := Prod.mk.inj hok
    have hfree : Browse.freeName ctx req.path w =
        (.ok target, (Browse.freeName ctx req.path w).2) :=
      Prod.ext (Fallible.mapError_eq_ok.mp hr) rfl
    obtain ⟨hat, htarget⟩ := At.freeName hdir hctx hpath hnumbered h hfree
    exact ⟨hat, htarget, fun hne => absurd rfl hne⟩

/-- A call that does the same on every tree moves the handler on. -/
theorem At.calling {A : Type} (callOn : Tree → Except VfsError A × Tree) {a : A}
    {shape' : List Text → Option Node} {own' : Option (ℕ × List UInt8)}
    (h : At ids dir shape own placements pending w) (hdir : Sheltered dir)
    (hop : ∀ t held, Knows dir shape own t held → (callOn t).1 = .ok a →
      Knows dir shape' own' (callOn t).2 held)
    (hok : refusing (call (Contended.calling callOn)) w = (.ok a, w')) :
    At ids dir shape' own' placements pending w' ∧ w'.buffer = w.buffer ∧ w'.recv = w.recv := by
  obtain ⟨c, hcall, rfl⟩ := refusing_call_eq_ok hok
  exact ⟨⟨h.stands.calling hdir hcall hop, h.pending, h.ids⟩, rfl, rfl⟩

/-- Bytes are appended to the staging file. -/
theorem At.append (h : At ids dir shape (some (ino, bytes)) placements pending w)
    (hdir : Sheltered dir) (hctx : ctx.vfs = vfs) {more : List UInt8}
    (hok : refusing (call (ctx.vfs.writeAt · ino bytes.length more)) w = (.ok (), w')) :
    At ids dir shape (some (ino, bytes ++ more)) placements pending w' ∧
      w'.buffer = w.buffer ∧ w'.recv = w.recv := by
  rw [hctx] at hok
  refine h.calling (PosixVfs.vfs.writeAt · ino bytes.length more) hdir
    (fun t held hknows _ => ?_) hok
  rw [← ByteFile.overlay_length]
  exact hknows.writeStaged bytes.length more

/-- The rest of an upload: as much of what is pending as is missing is appended. -/
theorem At.receiveRest (hdir : Sheltered dir) (hctx : ctx.vfs = vfs) {size : ℕ} (fuel : ℕ)
    (h : At ids dir shape (some (ino, bytes)) placements pending w) (hle : bytes.length ≤ size)
    (hbuffer : bytes.length < size → w.buffer = []) (hfuel : size ≤ bytes.length + fuel)
    (hok : Browse.receiveRest ctx ino size fuel bytes.length w = (.ok (), w')) :
    ∃ more rest, pending = more ++ rest ∧ (bytes ++ more).length = size ∧
      At ids dir shape (some (ino, bytes ++ more)) placements rest w' := by
  induction fuel generalizing bytes pending w with
  | zero =>
      obtain ⟨-, rfl⟩ := Prod.mk.inj hok
      exact ⟨[], pending, rfl, by rw [List.append_nil]; omega, by rwa [List.append_nil]⟩
  | succ fuel ih =>
      unfold Browse.receiveRest at hok
      by_cases hlt : bytes.length < size
      · rw [if_pos hlt] at hok
        obtain ⟨chunk, w₁, hread, hok⟩ := Eff.bind_eq_ok.mp hok
        obtain ⟨hres, hw₁⟩ := Prod.mk.inj hread
        have hroom : 0 < min (size - bytes.length) ioChunkSize := by
          have : 0 < ioChunkSize := by decide
          omega
        rcases w.recv.read_cases hroom with
          ⟨-, -, hcase⟩ | ⟨e, -, -, hcase⟩ | ⟨chunk', rest, sizes, hbytes, hne, hfits, hcase⟩
        · rw [hcase] at hres
          obtain rfl := Except.ok.inj hres
          rw [if_pos rfl] at hok
          cases (Prod.mk.inj hok).1
        · rw [hcase] at hres
          cases hres
        · rw [hcase] at hres hw₁
          obtain rfl := Except.ok.inj hres
          rw [if_neg hne] at hok
          obtain ⟨_, w₂, hwrite, hok⟩ := Eff.bind_eq_ok.mp hok
          -- What was read is no longer pending, and is appended next.
          have hat : At ids dir shape (some (ino, bytes)) placements rest w₁ := by
            rw [← hw₁]
            refine ⟨h.stands, ?_, h.ids⟩
            rw [hbuffer hlt]
            rfl
          obtain ⟨hat₂, hbuf₂, -⟩ := hat.append hdir hctx hwrite
          have hlen : (bytes ++ chunk').length = bytes.length + chunk'.length :=
            List.length_append
          have hpos : 0 < chunk'.length := List.length_pos_iff.mpr hne
          have hbuf₁ : w₂.buffer = [] := by
            rw [hbuf₂, ← hw₁]
            exact hbuffer hlt
          rw [← hlen] at hok
          obtain ⟨more, rest', hrest, hsize, hat'⟩ :=
            ih hat₂ (by omega) (fun _ => hbuf₁) (by omega) hok
          refine ⟨chunk' ++ more, rest', ?_, ?_, ?_⟩
          · rw [← h.pending, hbuffer hlt, List.nil_append, hbytes, hrest, List.append_assoc]
          · rwa [List.append_assoc] at hsize
          · rwa [List.append_assoc] at hat'
      · rw [if_neg hlt] at hok
        obtain ⟨-, rfl⟩ := Prod.mk.inj hok
        exact ⟨[], pending, rfl, by rw [List.append_nil]; omega, by rwa [List.append_nil]⟩

/-- The bytes of an upload: the staging file holds as many as were announced, from the front of
what was pending. -/
theorem At.receiveContent (hdir : Sheltered dir) (hctx : ctx.vfs = vfs) {size : ℕ}
    (h : At ids dir shape (some (ino, [])) placements pending w)
    (hok : Browse.receiveContent ctx ino size w = (.ok (), w')) :
    ∃ more rest, pending = more ++ rest ∧ more.length = size ∧
      At ids dir shape (some (ino, more)) placements rest w' := by
  unfold Browse.receiveContent at hok
  obtain ⟨buffered, w₀, hgets, hok⟩ := Eff.bind_eq_ok.mp hok
  obtain ⟨hres, rfl⟩ := Prod.mk.inj hgets
  obtain rfl := Except.ok.inj hres
  obtain ⟨_, w₁, hwrite, hok⟩ := Eff.bind_eq_ok.mp hok
  have hlen := List.length_take (i := size) (l := w.buffer)
  -- The part that was read before is written first.
  have hfront : At ids dir shape (some (ino, w.buffer.take size)) placements
      (w.buffer.drop size ++ w.recv.bytes) w₁ ∧ w₁.buffer = w.buffer.drop size := by
    unfold writeBuffered at hwrite
    by_cases hnil : w.buffer.take size = []
    · rw [if_pos hnil] at hwrite
      obtain ⟨-, rfl⟩ := Prod.mk.inj hwrite
      have hdrop : w.buffer.drop size = w.buffer := by
        have := List.take_append_drop size w.buffer
        rwa [hnil, List.nil_append] at this
      rw [hnil, hdrop]
      exact ⟨⟨h.stands, rfl, h.ids⟩, rfl⟩
    · rw [if_neg hnil] at hwrite
      obtain ⟨_, w₂, hcall, htake⟩ := Eff.bind_eq_ok.mp hwrite
      obtain ⟨hat, hbuffer, hrecv⟩ := h.append hdir hctx hcall
      obtain ⟨-, rfl⟩ := Prod.mk.inj htake
      have hdrop : w.buffer.drop (w.buffer.take size).length = w.buffer.drop size := by
        rw [hlen]
        rcases Nat.le_total size w.buffer.length with hle | hle
        · rw [Nat.min_eq_left hle]
        · rw [Nat.min_eq_right hle, List.drop_length, List.drop_eq_nil_of_le hle]
      refine ⟨⟨hat.stands, ?_, hat.ids⟩, ?_⟩
      · change w₂.buffer.drop _ ++ w₂.recv.bytes = _
        rw [hbuffer, hrecv, hdrop]
      · change w₂.buffer.drop _ = _
        rw [hbuffer, hdrop]
  obtain ⟨hat, hbuffer⟩ := hfront
  obtain ⟨more, rest, hrest, hsize, hat'⟩ := hat.receiveRest hdir hctx
    (size - (w.buffer.take size).length) (by omega)
    (fun hlt => by
      rw [hbuffer]
      exact List.drop_eq_nil_of_le (by omega))
    (by omega) hok
  refine ⟨w.buffer.take size ++ more, rest, ?_, hsize, hat'⟩
  rw [List.append_assoc, ← hrest, ← List.append_assoc, List.take_append_drop]
  exact h.pending.symm

/-- A rename of the staging file either fails and leaves the handler where it stands, or places the
file and is remembered. -/
theorem Stands.moving (h : Stands dir (staged name ino) (some (ino, bytes)) placements c)
    (hdir : Sheltered dir) (hsource : source.components = dir ++ [name])
    (htarget : target.Apart dir) (mode : RenameMode) :
    (∃ e, (moving source target mode c).1 = .error e ∧
        Stands dir (staged name ino) (some (ino, bytes)) placements
          (moving source target mode c).2) ∨
      ∃ p : UploadPlacement, (moving source target mode c).1 = .ok () ∧
        Stands dir emptied none (placements ++ [p]) (moving source target mode c).2 ∧
        p.source = source ∧ p.target = target ∧ p.Holds bytes ∧
        (mode = .noReplace → nodeAt p.before target.components = none) := by
  have hd := h.disturb hdir
  rcases hren : renameInternal c.disturb.tree source target mode with ⟨e | _, t'⟩
  · have herror : (renameInternal c.disturb.tree source target mode).1 = .error e := by rw [hren]
    have hfailed := hd.knows.renameFailed htarget herror
    left
    unfold Contended.moving
    dsimp only
    rw [hren] at hfailed ⊢
    exact ⟨e, rfl, hfailed, hd.clear, hd.placements⟩
  · have hmoved : (renameInternal c.disturb.tree source target mode).1 = .ok () := by rw [hren]
    obtain ⟨hknows, hholds, hfree⟩ := hd.knows.renamed hsource htarget hmoved
    right
    unfold Contended.moving
    dsimp only
    rw [hren] at hknows hholds ⊢
    exact ⟨⟨source, target, c.disturb.tree, t'⟩, rfl,
      ⟨hknows, hd.clear, congrArg (· ++ _) hd.placements⟩, rfl, rfl, hholds, hfree⟩

/-- A rename that was answered placed the file. -/
theorem At.moving (h : At ids dir (staged name ino) (some (ino, bytes)) placements pending w)
    (hdir : Sheltered dir) (hsource : source.components = dir ++ [name])
    (htarget : target.Apart dir) (mode : RenameMode)
    (hok : refusing (call (Contended.moving source target mode)) w = (.ok (), w')) :
    ∃ p : UploadPlacement, At ids dir emptied none (placements ++ [p]) pending w' ∧ p.source = source ∧
      p.target = target ∧ p.Holds bytes ∧
      (mode = .noReplace → nodeAt p.before target.components = none) := by
  obtain ⟨c, hcall, rfl⟩ := refusing_call_eq_ok hok
  rcases h.stands.moving hdir hsource htarget mode with ⟨e, he, -⟩ | ⟨p, -, hstands, hp⟩
  · rw [hcall] at he
    cases he
  · rw [hcall] at hstands
    exact ⟨p, ⟨hstands, h.pending, h.ids⟩, hp⟩

/-- Placing under a free name: when it ends, the file took the place of nothing. -/
theorem At.placeRenaming (hdir : Sheltered dir) (hctx : ctx.vfs = vfs)
    (hsource : source.components = dir ++ [name]) (hpath : path.Apart dir)
    (hnumbered : ∀ n q, RelPath.new (collisionName path.value n) = .ok q → q.Apart dir)
    (tries : ℕ) (h : At ids dir (staged name ino) (some (ino, bytes)) placements pending w)
    (htarget : target.Apart dir)
    (hok : Browse.placeRenaming ctx path source tries target w = (.ok (), w')) :
    ∃ p : UploadPlacement, At ids dir emptied none (placements ++ [p]) pending w' ∧ p.source = source ∧
      p.Holds bytes ∧ nodeAt p.before p.target.components = none := by
  induction tries generalizing target w with
  | zero => cases (Prod.mk.inj hok).1
  | succ tries ih =>
      unfold Browse.placeRenaming at hok
      rw [hctx] at hok
      obtain ⟨r, w₁, h₁, hok⟩ := Eff.bind_eq_ok.mp hok
      obtain ⟨hr, rfl⟩ := Prod.mk.inj h₁
      obtain rfl := Except.ok.inj hr
      rcases h.stands.moving hdir hsource htarget .noReplace with
        ⟨e, he, hstands⟩ | ⟨p, hres, hstands, hsrc, htgt, hholds, hfree⟩
      · have hcall : (call (vfs.renameNoReplace · source target) w).1 = .error (.failed e) :=
          congrArg (Except.mapError VfsStop.failed) he
        rw [hcall] at hok
        by_cases hexists : e = .alreadyExists
        · subst hexists
          dsimp only at hok
          split_ifs at hok
          · cases (Prod.mk.inj hok).1
          · obtain ⟨next, w₂, h₂, hok⟩ := Eff.bind_eq_ok.mp hok
            obtain ⟨hnext, hw₂⟩ := Prod.mk.inj h₂
            have hfreed : Browse.freeName ctx path
                (call (vfs.renameNoReplace · source target) w).2 = (.ok next, w₂) :=
              Prod.ext (Fallible.mapError_eq_ok.mp hnext) hw₂
            have hat : At ids dir (staged name ino) (some (ino, bytes)) placements pending
                (call (vfs.renameNoReplace · source target) w).2 := ⟨hstands, h.pending, h.ids⟩
            obtain ⟨hat', hnextApart⟩ := At.freeName hdir hctx hpath hnumbered hat hfreed
            exact ih hat' hnextApart hok
        · cases e <;> first
            | exact absurd rfl hexists
            | cases (Prod.mk.inj hok).1
      · have hcall : (call (vfs.renameNoReplace · source target) w).1 = .ok () :=
          congrArg (Except.mapError VfsStop.failed) hres
        rw [hcall] at hok
        obtain ⟨-, rfl⟩ := Prod.mk.inj hok
        exact ⟨p, ⟨hstands, h.pending, h.ids⟩, hsrc, hholds, htgt ▸ hfree rfl⟩

/-- Where an upload is put is lawful under its mode. -/
theorem At.place (hdir : Sheltered dir) (hctx : ctx.vfs = vfs)
    (hsource : source.components = dir ++ [name]) (hpath : req.path.Apart dir)
    (hnumbered : ∀ n q, RelPath.new (collisionName req.path.value n) = .ok q → q.Apart dir)
    (h : At ids dir (staged name ino) (some (ino, bytes)) placements pending w)
    (htarget : target.Apart dir) (hreq : req.mode ≠ .renameIfExists → target = req.path)
    (hok : Browse.place ctx req target source w = (.ok (), w')) :
    ∃ p : UploadPlacement, At ids dir emptied none (placements ++ [p]) pending w' ∧ p.source = source ∧
      p.Holds bytes ∧ p.Lawful req := by
  unfold Browse.place at hok
  rw [hctx] at hok
  rcases hmode : req.mode with _ | _ | _
  · rw [hmode] at hok
    obtain ⟨p, hat, hsrc, htgt, hholds, hfree⟩ :=
      h.moving hdir hsource htarget .noReplace hok
    exact ⟨p, hat, hsrc, hholds, fun hne => htgt.trans (hreq hne),
      fun _ => htgt ▸ hfree rfl⟩
  · rw [hmode] at hok
    obtain ⟨p, hat, hsrc, htgt, hholds, -⟩ :=
      h.moving hdir hsource htarget .replace hok
    exact ⟨p, hat, hsrc, hholds, fun hne => htgt.trans (hreq hne), fun hne => absurd hmode hne⟩
  · rw [hmode] at hok
    obtain ⟨p, hat, hsrc, hholds, hfree⟩ :=
      At.placeRenaming hdir hctx hsource hpath hnumbered maxPlacementAttempts h htarget hok
    exact ⟨p, hat, hsrc, hholds, fun hne => absurd hmode hne, fun _ => hfree⟩

/-! ### The staging directory of an upload -/

/-- Above a staging directory lies the staging root alone, and it is denied. -/
theorem sheltered_partialDir (id : TransferId) : Sheltered (partialDirRelPath id).components := by
  intro p hp hne hproper
  rw [components_partialDirRelPath] at hp hproper
  have hroot : p = [partialRootName] := by
    rcases p with _ | ⟨a, _ | ⟨b, p⟩⟩
    · exact absurd rfl hne
    · rw [(List.cons_prefix_cons.mp hp).1]
    · obtain ⟨rfl, hnil⟩ := List.cons_prefix_cons.mp (List.cons_prefix_cons.mp hp).2
      rw [List.prefix_nil.mp hnil, (List.cons_prefix_cons.mp hp).1] at hproper
      exact absurd rfl hproper
  rw [hroot]
  decide

/-- A numbered name is no staging directory: the identifier has no blank. -/
theorem numbered_apart {id : TransferId} (hpath : path.Apart (partialDirRelPath id).components)
    (n : ℕ) (q : RelPath) (hq : RelPath.new (collisionName path.value n) = .ok q) :
    q.Apart (partialDirRelPath id).components := by
  have hblank : ∀ name m, numberedName name m ≠ id.display := by
    intro name m heq
    obtain ⟨rest, hrest⟩ := numberedName_eq name m
    have hmem : ' ' ∈ id.display := by
      rw [← heq, hrest]
      exact List.mem_append_right _ List.mem_cons_self
    exact absurd (TransferId.permitted_display id ' ' hmem) (by decide)
  have hlast : ∀ dirs name m, q.components = dirs ++ [numberedName name m] →
      ¬(partialDirRelPath id).components <+: dirs → q.Apart (partialDirRelPath id).components := by
    intro dirs name m hcomps hdirs hpre
    rw [hcomps] at hpre
    rcases List.prefix_concat_iff.mp hpre with heq | hpre
    · rw [components_partialDirRelPath] at heq
      have hends := congrArg List.getLast? heq
      rw [List.getLast?_concat] at hends
      exact hblank name m (Option.some.inj hends).symm
    · exact hdirs hpre
  by_cases hroot : path = RelPath.root
  · have hvalue : q.value = numberedName [] n := by
      rw [RelPath.new_value hq, hroot]
      exact collisionName_eq [] List.not_mem_nil n
    have hmark : numberedName [] n = numberMark n := by
      unfold numberedName
      exact List.append_nil _
    have hslash : '/' ∉ numberedName [] n := by
      rw [hmark]
      exact fun hmem => (numberMark_plain hmem).1 rfl
    refine hlast [] [] n ?_ (by rw [components_partialDirRelPath]; simp)
    rw [RelPath.components_eq_splitOn, hvalue, List.splitOn_eq_singleton hslash]
    · rfl
    · rw [hvalue, hmark]
      exact List.cons_ne_nil _ _
  · obtain ⟨dirs, name, hlocated⟩ := exists_located hroot
    rcases hlocated.new_collisionName n with ⟨-, e, he⟩ | ⟨-, q', hq', hat⟩
    · rw [he] at hq
      cases hq
    · obtain rfl := Except.ok.inj (hq'.symm.trans hq)
      refine hlast dirs name n hat.components fun hpre => hpath ?_
      rw [hlocated.components]
      exact hpre.trans (List.prefix_append _ _)

/-- The identifier of an upload is the next one that is drawn. -/
theorem staging_of_ids {id : TransferId} (h : w.ids = id :: ids) : Browse.staging w =
    (.ok (partialDirRelPath id, partialFileRelPath id uploadItemId), { w with ids := ids }) := by
  unfold Browse.staging
  rw [h]

/-- An answer is no call on the root. -/
theorem store_sendAck (ctx : BrowseContext Contended ℕ) (w : World Contended) :
    (sendAck ctx w).2.store = w.store := by
  unfold sendAck respond
  rcases ctx.codec.encodeFrame (.ack ⟨[]⟩) ctx.maxFrameSize with e | encoded
  · rfl
  · rfl

/-- An identifier that nobody was told: nothing is called by it, and no other client names it. -/
structure Untold (id : TransferId) (c : Contended) : Prop where
  wellFormed : WellFormed c.tree
  opened : ∀ ino ∈ c.held, ino < c.tree.nextIno
  fresh : ∀ rest, nodeAt c.tree ((partialDirRelPath id).components ++ rest) = none
  clear : ∀ calls ∈ c.coming, ∀ call ∈ calls, call.ClearOf (partialDirRelPath id).components

/-- **An acknowledged upload is complete.** Whatever other clients do between the filesystem calls
of the handler, as long as they do not name its staging directory: if the handler acknowledges the
upload, it has placed exactly one file, which holds exactly the announced number of bytes from the
front of what followed the request; the place is where it was asked for, or a free name if the
request allowed one; only an overwriting upload took the place of something, and no other file
changed its bytes; and nothing is left of the staging directory. -/
theorem acknowledged_upload_is_placed (codec : ProtoBrowseCodec) (maxFrameSize : UInt32)
    (fuel : ℕ) {req : WriteFile} {w w' : World Contended} {id : TransferId}
    {ids : List TransferId} (hids : w.ids = id :: ids) (huntold : w.store.Untold id)
    (hpath : req.path.Apart (partialDirRelPath id).components)
    (hack : handleWriteFile (context codec maxFrameSize fuel) req w = (.ok (), w')) :
    ∃ p payload rest, w'.store.placements = w.store.placements ++ [p] ∧
      w.buffer ++ w.recv.bytes = payload ++ rest ∧ payload.length = req.size.toNat ∧
      p.source = partialFileRelPath id uploadItemId ∧ p.Holds payload ∧ p.Lawful req ∧
      ∀ below, nodeAt w'.store.tree ((partialDirRelPath id).components ++ below) = none := by
  have hdir := sheltered_partialDir id
  have hnumbered := numbered_apart hpath
  have hfile : (partialFileRelPath id uploadItemId).components =
      (partialDirRelPath id).components ++ [uploadItemId.value] := by
    rw [components_partialFileRelPath, components_partialDirRelPath]
    rfl
  obtain ⟨target, w₁, h₁, hack⟩ := Eff.bind_eq_ok.mp hack
  obtain ⟨staging, w₂, h₂, hack⟩ := Eff.bind_eq_ok.mp hack
  obtain ⟨_, w₃, h₃, hack⟩ := Eff.bind_eq_ok.mp hack
  obtain ⟨writer, w₄, h₄, hack⟩ := Eff.bind_eq_ok.mp (recover_eq_ok.mp hack)
  obtain ⟨_, w₅, h₅, hack⟩ := Eff.bind_eq_ok.mp hack
  obtain ⟨_, w₆, h₆, hack⟩ := Eff.bind_eq_ok.mp hack
  obtain ⟨_, w₇, h₇, hack⟩ := Eff.bind_eq_ok.mp hack
  obtain ⟨_, w₈, h₈, hsend⟩ := Eff.bind_eq_ok.mp hack
  have hat : At (id :: ids) (partialDirRelPath id).components absent none w.store.placements
      (w.buffer ++ w.recv.bytes) w :=
    ⟨⟨⟨huntold.wellFormed, huntold.opened, huntold.fresh, fun _ _ => nofun⟩, huntold.clear, rfl⟩,
      rfl, hids⟩
  -- The place is looked for, and the identifier is drawn.
  obtain ⟨hat₁, htarget, hreq⟩ := At.uploadTarget hdir rfl hpath hnumbered hat h₁
  obtain ⟨rfl, rfl⟩ : staging = (partialDirRelPath id, partialFileRelPath id uploadItemId) ∧
      w₂ = { w₁ with ids := ids } := by
    have hdrawn := staging_of_ids hat₁.ids
    obtain ⟨hres, hw⟩ := Prod.mk.inj h₂
    rw [hdrawn] at hres hw
    exact ⟨(Except.ok.inj hres).symm, hw.symm⟩
  have hat₂ : At ids (partialDirRelPath id).components absent none w.store.placements
      (w.buffer ++ w.recv.bytes) { w₁ with ids := ids } := ⟨hat₁.stands, hat₁.pending, rfl⟩
  -- The staging directory and file are made, and the bytes go there.
  obtain ⟨hat₃, -⟩ := hat₂.calling (createDirSync · (partialDirRelPath id)) hdir
    (fun t held hknows hok => hknows.makeDir rfl hok) h₃
  obtain ⟨hat₄, -⟩ := hat₃.calling (openWriteSync · (partialFileRelPath id uploadItemId)) hdir
    (fun t held hknows hok => hknows.openStaged hfile hok) h₄
  obtain ⟨payload, rest, hpayload, hlen, hat₅⟩ := hat₄.receiveContent hdir rfl h₅
  obtain ⟨hat₆, -⟩ := hat₅.calling (PosixVfs.vfs.sync · writer) hdir
    (fun t held hknows _ => hknows) h₆
  -- The file is placed, and the directory is removed.
  obtain ⟨p, hat₇, hsrc, hholds, hlawful⟩ :=
    At.place hdir rfl hfile hpath hnumbered hat₆ htarget hreq h₇
  obtain ⟨hat₈, -⟩ := hat₇.calling (removeSync · (partialDirRelPath id)) hdir
    (fun t held hknows hok => hknows.removeDir rfl hok) h₈
  have hstore : w'.store = w₈.store := by
    rw [← (Prod.mk.inj hsend).2]
    exact store_sendAck _ w₈
  rw [hstore]
  exact ⟨p, payload, rest, hat₈.stands.placements, hpayload, hlen, hsrc, hholds, hlawful,
    hat₈.stands.knows.below⟩

/-! ### Two runs of an upload -/

namespace Upload

/-- The identifier that is drawn. -/
def id : TransferId := .sample

/-- A new file `a` of two bytes. -/
def request : WriteFile :=
  ⟨DeniedFiles.shareId, ⟨['a'], .inr (by decide)⟩, 2, .zeroes, .createNew⟩

/-- The other client's own file. -/
def theirs : RelPath := ⟨['e'], .inr (by decide)⟩

/-- An empty root on which another client first writes a file and last moves it; one byte of the
upload was read with the request, and a byte of what follows comes with the rest. -/
def world (target : RelPath) : World Contended where
  store :=
    { tree := ⟨[], fun _ => [], 0, fun _ => 0, false⟩
      held := []
      coming := [[.openWrite theirs, .writeAt 0 0 [0x65]], [], [], [], [], [],
        [.rename theirs target]]
      placements := [] }
  ids := [id]
  send := .fresh
  buffer := [0x68]
  recv := ⟨⟨[0x69, 0x21], none⟩, []⟩

/-- The upload is served. -/
def served (target : RelPath) : Except BrowseFailure Unit × World Contended :=
  handleWriteFile (context ⟨DeniedFiles.proto, 512⟩ 512 4) request (world target)

end Upload

/-- A path of one component is not below a staging directory. -/
theorem apart_of_length {id : TransferId} (h : path.components.length = 1) :
    path.Apart (partialDirRelPath id).components := by
  intro hpre
  have hlen := hpre.length_le
  rw [h, components_partialDirRelPath] at hlen
  exact absurd hlen (by simp)

/-- The other client moves its file elsewhere. -/
theorem acknowledged_upload_is_placed_moved : ∃ p : UploadPlacement,
    (Upload.served ⟨['b'], .inr (by decide)⟩).2.store.placements = [p] ∧ p.Holds [0x68, 0x69] ∧
      p.Lawful Upload.request := by
  have huntold : (Upload.world ⟨['b'], .inr (by decide)⟩).store.Untold Upload.id := by
    refine ⟨wellFormed_of_entries_nil rfl, fun _ => nofun, fun rest => ?_, ?_⟩
    · rw [components_partialDirRelPath]
      rfl
    · intro calls hcalls call hcall
      have htheirs : Upload.theirs.Apart (partialDirRelPath Upload.id).components :=
        apart_of_length (by decide)
      simp only [Upload.world, List.mem_cons, List.not_mem_nil, or_false] at hcalls
      rcases hcalls with rfl | rfl | rfl | rfl | rfl | rfl | rfl
      · simp only [List.mem_cons, List.not_mem_nil, or_false] at hcall
        rcases hcall with rfl | rfl
        · exact htheirs
        · trivial
      all_goals first
        | exact absurd hcall List.not_mem_nil
        | skip
      obtain rfl := List.mem_singleton.mp hcall
      exact ⟨htheirs, apart_of_length (by decide)⟩
  have hserved : Upload.served ⟨['b'], .inr (by decide)⟩ =
      (.ok (), (Upload.served ⟨['b'], .inr (by decide)⟩).2) :=
    Prod.ext (by decide +kernel) rfl
  obtain ⟨p, payload, rest, hplaced, hpending, hlen, -, hholds, hlawful, -⟩ :=
    acknowledged_upload_is_placed ⟨DeniedFiles.proto, 512⟩ 512 4 rfl huntold
      (apart_of_length (by decide)) hserved
  have hpayload : payload = [0x68, 0x69] := by
    have htwo : payload.length = 2 := hlen
    have htake := congrArg (List.take 2) hpending
    rw [List.take_append_of_le_length (Nat.le_of_eq htwo.symm),
      List.take_of_length_le (Nat.le_of_eq htwo)] at htake
    exact htake.symm
  exact ⟨p, hplaced, hpayload ▸ hholds, hlawful⟩

/-- **The staged file is not guarded by its place.** Another client that names the staging file moves
its own file there before the upload is placed: the upload of `hi` is acknowledged, and what was
placed under its name is the other client's file. -/
theorem staged_upload_is_exchanged :
    (Upload.served (partialFileRelPath Upload.id uploadItemId)).1 = .ok () ∧
      (Upload.served (partialFileRelPath Upload.id uploadItemId)).2.store.placements.map
        (fun p => (p.target, PosixVfs.content p.after p.target)) = [(Upload.request.path, some [0x65])] ∧
      ((Upload.world (partialFileRelPath Upload.id uploadItemId)).buffer ++
        (Upload.world (partialFileRelPath Upload.id uploadItemId)).recv.bytes).take
          Upload.request.size.toNat = [0x68, 0x69] := by
  decide +kernel

end Contended

end Tradr
