import Mathlib.Data.UInt
import Tradr.ByteFile
import Tradr.Fallible
import Tradr.RelPath

/-!
# The Filesystem Boundary

`Vfs` is the filesystem abstraction the transfer engine and the Browse handler are
written against: operations on relative paths of one root, each of which may fail. A
state of the store is threaded through every call, so that failures, too, are a matter
of the state.

`ByteStore` says what the transfer engine relies on: files hold bytes at positions, an
open handle stays with its path, opening never truncates, writing overlays (a failed
write may have written a front part), and moving carries the bytes along.

`recording` is a boundary that keeps a log of the calls made on it.
-/

namespace Tradr

/-- The kinds of a failed filesystem call. -/
inductive IoErrorKind
  | permissionDenied
  | invalidInput
  | invalidData
  | storageFull
  | other
  deriving DecidableEq, Repr

/-- What an entry is: a regular file or a directory, never anything else. -/
inductive EntryKind
  | file
  | directory
  deriving DecidableEq, Repr

/-- One entry in a directory listing. -/
structure DirEntry where
  name : Text
  kind : EntryKind
  sizeBytes : ℕ
  modified : ℤ
  deriving DecidableEq, Repr

/-- What `stat` reports about one entry. -/
structure Metadata where
  kind : EntryKind
  sizeBytes : ℕ
  modified : ℤ
  deriving DecidableEq, Repr

/-- Why a filesystem operation failed. -/
inductive VfsError
  | notFound
  | alreadyExists
  | outsideRoot
  | denyListed
  | unsupportedEntry
  | wrongKind
  | readOnly
  | io (kind : IoErrorKind)
  deriving DecidableEq, Repr

/-- The operations of a root: `σ` is the state of the store and `H` its open handles. -/
structure Vfs (σ H : Type*) where
  list : σ → RelPath → Except VfsError (List DirEntry) × σ
  stat : σ → RelPath → Except VfsError Metadata × σ
  openRead : σ → RelPath → Except VfsError H × σ
  readAt : σ → H → ℕ → ℕ → Except VfsError (List UInt8) × σ
  createDir : σ → RelPath → Except VfsError Unit × σ
  openWrite : σ → RelPath → Except VfsError H × σ
  writeAt : σ → H → ℕ → List UInt8 → Except VfsError Unit × σ
  sync : σ → H → Except VfsError Unit × σ
  rename : σ → RelPath → RelPath → Except VfsError Unit × σ
  renameNoReplace : σ → RelPath → RelPath → Except VfsError Unit × σ
  remove : σ → RelPath → Except VfsError Unit × σ

/-- A store of byte-addressed files. `content` is the bytes of the file at a path, and
`At s h p` says that the handle `h` is open on the file at `p`. -/
structure ByteStore {σ H : Type*} (vfs : Vfs σ H) where
  content : σ → RelPath → Option (List UInt8)
  At : σ → H → RelPath → Prop
  content_stat : ∀ s p q, content (vfs.stat s p).2 q = content s q
  at_stat : ∀ s p h q, At s h q → At (vfs.stat s p).2 h q
  stat_size : ∀ s p c m, content s p = some c → (vfs.stat s p).1 = .ok m →
    m.sizeBytes = c.length
  content_createDir : ∀ s p q, content (vfs.createDir s p).2 q = content s q
  openWrite_ok : ∀ s p h, (vfs.openWrite s p).1 = .ok h →
    At (vfs.openWrite s p).2 h p ∧
      content (vfs.openWrite s p).2 p = some ((content s p).getD [])
  openWrite_error : ∀ s p e, (vfs.openWrite s p).1 = .error e →
    (content (vfs.openWrite s p).2 p).getD [] = (content s p).getD []
  at_writeAt : ∀ s h off bs q, At s h q → At (vfs.writeAt s h off bs).2 h q
  writeAt_ok : ∀ s h off bs p c, At s h p → content s p = some c →
    (vfs.writeAt s h off bs).1 = .ok () →
    content (vfs.writeAt s h off bs).2 p = some (ByteFile.overlay c off bs)
  writeAt_error : ∀ s h off bs p c e, At s h p → content s p = some c →
    (vfs.writeAt s h off bs).1 = .error e →
    ∃ k, content (vfs.writeAt s h off bs).2 p = some (ByteFile.overlay c off (bs.take k))
  content_sync : ∀ s h q, content (vfs.sync s h).2 q = content s q
  at_sync : ∀ s h g q, At s g q → At (vfs.sync s h).2 g q
  renameNoReplace_ok : ∀ s p q c, content s p = some c →
    (vfs.renameNoReplace s p q).1 = .ok () →
    content (vfs.renameNoReplace s p q).2 q = some c ∧
      content (vfs.renameNoReplace s p q).2 p = none
  renameNoReplace_error : ∀ s p q e r, (vfs.renameNoReplace s p q).1 = .error e →
    content (vfs.renameNoReplace s p q).2 r = content s r
  remove_self : ∀ s p, content (vfs.remove s p).2 p = none ∨
    content (vfs.remove s p).2 p = content s p
  remove_other : ∀ s p q, q ≠ p → content (vfs.remove s p).2 q = content s q

/-! ### Recording -/

variable {σ H A : Type}

/-- A call on the filesystem boundary; a write with its bytes, or with the error it ended
in. -/
inductive VfsOp (H : Type)
  | list (p : RelPath)
  | stat (p : RelPath)
  | openRead (p : RelPath)
  | readAt (h : H) (off len : ℕ)
  | createDir (p : RelPath)
  | openWrite (p : RelPath)
  | write (h : H) (off : ℕ) (outcome : Except VfsError (List UInt8))
  | sync (h : H)
  | rename (p q : RelPath)
  | renameNoReplace (p q : RelPath)
  | remove (p : RelPath)
  deriving DecidableEq

/-- A store with the calls made on it, the latest first. -/
structure Recorded (σ H : Type) where
  store : σ
  log : List (VfsOp H)

/-- Make a call and record it. -/
def record (push : VfsOp H → List (VfsOp H) → List (VfsOp H))
    (op : Except VfsError A → VfsOp H) (callOn : σ → Except VfsError A × σ)
    (r : Recorded σ H) : Except VfsError A × Recorded σ H :=
  ((callOn r.store).1, ⟨(callOn r.store).2, push (op (callOn r.store).1) r.log⟩)

/-- A filesystem that records the calls made on it. -/
def recording (push : VfsOp H → List (VfsOp H) → List (VfsOp H)) (vfs : Vfs σ H) :
    Vfs (Recorded σ H) H where
  list r p := record push (fun _ => .list p) (vfs.list · p) r
  stat r p := record push (fun _ => .stat p) (vfs.stat · p) r
  openRead r p := record push (fun _ => .openRead p) (vfs.openRead · p) r
  readAt r h off len := record push (fun _ => .readAt h off len) (vfs.readAt · h off len) r
  createDir r p := record push (fun _ => .createDir p) (vfs.createDir · p) r
  openWrite r p := record push (fun _ => .openWrite p) (vfs.openWrite · p) r
  writeAt r h off bytes :=
    record push (fun res => .write h off (res.map fun _ => bytes)) (vfs.writeAt · h off bytes) r
  sync r h := record push (fun _ => .sync h) (vfs.sync · h) r
  rename r p q := record push (fun _ => .rename p q) (vfs.rename · p q) r
  renameNoReplace r p q :=
    record push (fun _ => .renameNoReplace p q) (vfs.renameNoReplace · p q) r
  remove r p := record push (fun _ => .remove p) (vfs.remove · p) r

end Tradr
