import Tradr.Browse

/-!
# What Serving a Request Respects

A relation between two worlds that every filesystem call and every write to the stream
respects is respected by every handler, whatever path through its branches a request
takes. `Respects` lists what has to be shown call by call; the one thing a handler does
besides, taking the bytes of an upload, is a hypothesis of its own.

## Main results

* `handleMessage_rel`: what the calls respect, the handler of every request respects.
-/

namespace Tradr

namespace Browse

open Eff

variable {σ H : Type}

/-- Every call of the handlers respects the relation `X`. A file is only read through a
handle that opening it gave, and only moved where `Allowed` holds. -/
structure Respects (ctx : BrowseContext σ H) (X : World σ → World σ → Prop)
    (Readable : H → Prop) (Allowed : RelPath → RelPath → Prop) : Prop where
  list : ∀ p, Rel X X (call (ctx.vfs.list · p)) fun _ => True
  stat : ∀ p, Rel X X (call (ctx.vfs.stat · p)) fun _ => True
  openRead : ∀ p, Rel X X (call (ctx.vfs.openRead · p)) Readable
  readAt : ∀ h off len, Readable h →
    Rel X X (call (ctx.vfs.readAt · h off len)) fun _ => True
  createDir : ∀ p, Rel X X (call (ctx.vfs.createDir · p)) fun _ => True
  openWrite : ∀ p, Rel X X (call (ctx.vfs.openWrite · p)) fun _ => True
  sync : ∀ h, Rel X X (call (ctx.vfs.sync · h)) fun _ => True
  rename : ∀ p q, Allowed p q → Rel X X (call (ctx.vfs.rename · p q)) fun _ => True
  renameNoReplace : ∀ p q, Allowed p q →
    Rel X X (call (ctx.vfs.renameNoReplace · p q)) fun _ => True
  remove : ∀ p, Rel X X (call (ctx.vfs.remove · p)) fun _ => True
  staging : Rel X X staging fun p => ∀ q, Allowed p.2 q
  writeAll : ∀ bytes, Rel X X (writeAll bytes) fun _ => True
  finish : Rel X X finish fun _ => True

variable {ctx : BrowseContext σ H} {X R W : World σ → World σ → Prop}
  {Readable : H → Prop} {Allowed : RelPath → RelPath → Prop}

namespace Respects

/-- A failure leaves what was respected. -/
theorem failure {E A : Type} {P : A → Prop} (e : E) :
    Rel X X (fail e : Eff (World σ) E A) P :=
  Rel.fail fun _ _ h => h

theorem respond (h : Respects ctx X Readable Allowed) (msg : BrowseMessage) :
    Rel X X (respond ctx msg) fun _ => True := by
  unfold Browse.respond
  split
  · exact failure _
  · exact h.writeAll _

theorem sendAck (h : Respects ctx X Readable Allowed) :
    Rel X X (sendAck ctx) fun _ => True :=
  h.respond _

/-- The answer of a `stat` decides what follows. -/
theorem attemptStat {E B : Type} {Q : B → Prop} (h : Respects ctx X Readable Allowed)
    (p : RelPath) {f : Except VfsStop Metadata → Eff (World σ) E B}
    (hf : ∀ r, Rel X X (f r) Q) :
    Rel X X (attempt (call (ctx.vfs.stat · p)) >>= f) Q :=
  Rel.bind (h.stat p).attempt fun r _ => hf r

theorem freeNameFrom (h : Respects ctx X Readable Allowed) (path : RelPath)
    (fuel counter : ℕ) :
    Rel X X (freeNameFrom ctx path fuel counter) fun _ => True := by
  induction fuel generalizing counter with
  | zero => exact failure _
  | succ fuel ih =>
      unfold Browse.freeNameFrom
      split
      · exact failure _
      · refine h.attemptStat _ fun r => ?_
        split
        · exact ih _
        · exact Rel.pure trivial
        · exact failure _

theorem freeName (h : Respects ctx X Readable Allowed) (path : RelPath) :
    Rel X X (freeName ctx path) fun _ => True := by
  unfold Browse.freeName
  refine h.attemptStat _ fun r => ?_
  split
  · exact h.freeNameFrom _ _ _
  · exact Rel.pure trivial
  · exact failure _

theorem childPath (dir : RelPath) (name : Text) :
    Rel X X (childPath dir name : Eff (World σ) VfsStop RelPath) fun _ => True := by
  unfold Browse.childPath
  split
  · exact failure _
  · exact Rel.pure trivial

theorem forEach {E B : Type} {f : B → Eff (World σ) E Unit}
    (hf : ∀ b, Rel X X (f b) fun _ => True) (bs : List B) :
    Rel X X (forEach f bs) fun _ => True := by
  induction bs with
  | nil => exact Rel.pure trivial
  | cons b bs ih => exact Rel.bind (hf b) fun _ _ => ih

theorem removeDirRecursive (h : Respects ctx X Readable Allowed) (fuel : ℕ) (path : RelPath) :
    Rel X X (removeDirRecursive ctx fuel path) fun _ => True := by
  induction fuel generalizing path with
  | zero => exact failure _
  | succ fuel ih =>
      refine Rel.bind (h.list path) fun entries _ => ?_
      refine Rel.bind (forEach (fun entry => ?_) entries) fun _ _ => h.remove path
      refine Rel.bind (childPath path entry.name) fun child _ => ?_
      split
      · exact ih child
      · exact h.remove child

theorem placeRenaming (h : Respects ctx X Readable Allowed) {requested stagingFile : RelPath}
    (hallowed : ∀ q, Allowed stagingFile q) (tries : ℕ) (target : RelPath) :
    Rel X X (placeRenaming ctx requested stagingFile tries target) fun _ => True := by
  induction tries generalizing target with
  | zero => exact failure _
  | succ tries ih =>
      refine Rel.bind (h.renameNoReplace _ _ (hallowed target)).attempt fun r _ => ?_
      split
      · exact Rel.pure trivial
      · split
        · exact failure _
        · exact Rel.bind (h.freeName requested).mapError fun target _ => ih target
      · exact failure _

theorem place (h : Respects ctx X Readable Allowed) (req : WriteFile)
    {target stagingFile : RelPath} (hallowed : ∀ q, Allowed stagingFile q) :
    Rel X X (place ctx req target stagingFile) fun _ => True := by
  unfold Browse.place
  split
  · exact (h.renameNoReplace _ _ (hallowed target)).mapError
  · exact (h.rename _ _ (hallowed target)).mapError
  · exact h.placeRenaming hallowed _ _

theorem uploadTarget (h : Respects ctx X Readable Allowed) (req : WriteFile) :
    Rel X X (uploadTarget ctx req) fun _ => True := by
  unfold Browse.uploadTarget
  split
  · refine h.attemptStat _ fun r => ?_
    split
    · exact failure _
    · exact Rel.pure trivial
    · exact failure _
  · refine h.attemptStat _ fun r => ?_
    split
    · split
      · exact failure _
      · exact Rel.pure trivial
    · exact Rel.pure trivial
    · exact failure _
  · exact (h.freeName _).mapError

theorem removeIfPresent (h : Respects ctx X Readable Allowed) (path : RelPath) :
    Rel X X (removeIfPresent ctx path) fun _ => True := by
  refine Rel.bind (h.remove path).attempt fun r _ => ?_
  split
  · exact Rel.pure trivial
  · exact Rel.pure trivial
  · exact failure _

theorem cleanup (h : Respects ctx X Readable Allowed) (stagingDir stagingFile : RelPath)
    (failure : BrowseFailure) :
    Rel X X (cleanup ctx stagingDir stagingFile failure) fun _ => True :=
  Rel.bind (h.removeIfPresent stagingFile).mapError fun _ _ =>
    Rel.bind (h.removeIfPresent stagingDir).mapError fun _ _ => Rel.pure trivial

theorem handleListDir (h : Respects ctx X Readable Allowed) (req : ListDir) :
    Rel X X (handleListDir ctx req) fun _ => True :=
  Rel.bind (h.list req.path).mapError fun _ _ => h.respond _

theorem handleStat (h : Respects ctx X Readable Allowed) (req : Stat) :
    Rel X X (handleStat ctx req) fun _ => True :=
  Rel.bind (h.stat req.path).mapError fun _ _ => h.respond _

theorem sendContent (h : Respects ctx X Readable Allowed) {reader : H}
    (hreader : Readable reader) (fuel offset remaining : ℕ) :
    Rel X X (sendContent ctx reader fuel offset remaining) fun _ => True := by
  induction fuel generalizing offset remaining with
  | zero => exact Rel.pure trivial
  | succ fuel ih =>
      unfold Browse.sendContent
      split
      · refine Rel.bind (h.readAt _ _ _ hreader).mapError fun bytes _ => ?_
        split
        · exact Rel.pure trivial
        · exact Rel.bind (h.writeAll bytes) fun _ _ => ih _ _
      · exact Rel.pure trivial

theorem handleReadFile (h : Respects ctx X Readable Allowed) (req : ReadFile) :
    Rel X X (handleReadFile ctx req) fun _ => True := by
  refine Rel.bind (h.stat req.path).mapError fun metadata _ => ?_
  split
  · exact failure _
  · exact Rel.bind (h.openRead req.path).mapError fun reader hreader =>
      Rel.bind (h.respond _) fun _ _ =>
        Rel.bind (h.sendContent hreader _ _ _) fun _ _ => h.finish

theorem parentIsDir (h : Respects ctx X Readable Allowed) (path : RelPath) :
    Rel X X (parentIsDir ctx path) fun _ => True := by
  unfold Browse.parentIsDir
  dsimp only
  split
  · exact Rel.pure trivial
  · split
    · exact failure _
    · refine h.attemptStat _ fun r => ?_
      split
      · exact Rel.pure trivial
      · exact Rel.pure trivial

theorem mkdirPermitted (h : Respects ctx X Readable Allowed) (req : Mkdir) :
    Rel X X (mkdirPermitted ctx req) fun _ => True := by
  unfold Browse.mkdirPermitted
  split
  · exact Rel.pure trivial
  · exact h.parentIsDir req.path

theorem handleMkdir (h : Respects ctx X Readable Allowed) (req : Mkdir) :
    Rel X X (handleMkdir ctx req) fun _ => True := by
  refine h.attemptStat _ fun r => ?_
  split
  · split
    · exact h.sendAck
    · exact failure _
  · refine Rel.bind (h.mkdirPermitted req) fun permitted _ => ?_
    split
    · exact Rel.bind (h.createDir req.path).mapError fun _ _ => h.sendAck
    · exact failure _
  · exact failure _

theorem deleteEntry (h : Respects ctx X Readable Allowed) (req : Delete) (kind : EntryKind) :
    Rel X X (deleteEntry ctx req kind) fun _ => True := by
  cases kind with
  | file => exact (h.remove req.path).mapError
  | directory =>
      refine Rel.bind (h.list req.path).mapError fun entries _ => ?_
      split
      · exact (h.remove req.path).mapError
      · split
        · exact (h.removeDirRecursive _ _).mapError
        · exact failure _

theorem handleDelete (h : Respects ctx X Readable Allowed) (req : Delete) :
    Rel X X (handleDelete ctx req) fun _ => True :=
  Rel.bind (h.stat req.path).mapError fun _ _ =>
    Rel.bind (h.deleteEntry req _) fun _ _ => h.sendAck

theorem handleRename (h : Respects ctx X Readable Allowed) {req : Rename}
    (hallowed : Allowed req.source req.target) :
    Rel X X (handleRename ctx req) fun _ => True := by
  unfold Browse.handleRename
  split
  · exact failure _
  · refine h.attemptStat _ fun r => ?_
    split
    · exact failure _
    · exact Rel.bind (h.renameNoReplace _ _ hallowed).mapError fun _ _ => h.sendAck
    · exact failure _

end Respects

section Content

variable (hbuffer : ∀ w t, X w t → w.buffer = t.buffer)
  (hread : ∀ room, Rel X X (read room) fun _ => True)
  (htake : ∀ n, Rel X X (takeBuffered n) fun _ => True)
  (hwrite : ∀ writer off bytes, Rel X X (call (ctx.vfs.writeAt · writer off bytes)) fun _ => True)

include hread hwrite in
theorem receiveRest_rel (writer : H) (size fuel written : ℕ) :
    Rel X X (receiveRest ctx writer size fuel written) fun _ => True := by
  induction fuel generalizing written with
  | zero => exact Rel.pure trivial
  | succ fuel ih =>
      unfold receiveRest
      split
      · refine Rel.bind (hread _) fun chunk _ => ?_
        split
        · exact Respects.failure _
        · exact Rel.bind (hwrite _ _ _).mapError fun _ _ => ih _
      · exact Rel.pure trivial

include hbuffer hread htake hwrite in
/-- Taking the bytes of an upload respects what its reads and writes respect. -/
theorem receiveContent_rel (writer : H) (size : ℕ) :
    Rel X X (receiveContent ctx writer size) fun _ => True := by
  refine Rel.bind (Rel.gets fun w t h => by rw [hbuffer w t h]) fun buffered _ => ?_
  have hbuffered : Rel X X (writeBuffered ctx writer buffered) fun _ => True := by
    unfold writeBuffered
    split
    · exact Rel.pure trivial
    · exact Rel.bind (hwrite _ _ _).mapError fun _ _ => htake _
  exact Rel.bind hbuffered fun _ _ => receiveRest_rel hread hwrite writer size _ _

end Content

/-- Receiving an upload into its staging file respects what its calls and the taking of
its bytes respect. -/
theorem writeStagedContent_rel (hR : Respects ctx R Readable Allowed)
    (hRW : ∀ s t, R s t → W s t)
    (hcontent : ∀ writer size, Rel R W (receiveContent ctx writer size) fun _ => True)
    (req : WriteFile) (target stagingDir : RelPath) {stagingFile : RelPath}
    (hallowed : ∀ q, Allowed stagingFile q) :
    Rel R W (writeStagedContent ctx req target stagingDir stagingFile) fun _ => True :=
  Rel.bind ((hR.openWrite stagingFile).mapError.weaken hRW) fun writer _ =>
    Rel.bind (hcontent writer _) fun _ _ =>
      Rel.bind ((hR.sync writer).mapError.weaken hRW) fun _ _ =>
        Rel.bind ((hR.place req hallowed).weaken hRW) fun _ _ =>
          Rel.bind ((hR.remove stagingDir).mapError.weaken hRW) fun _ _ =>
            hR.sendAck.weaken hRW

/-- Serving an upload respects what its calls and the taking of its bytes respect. -/
theorem handleWriteFile_rel (hR : Respects ctx R Readable Allowed)
    (hW : Respects ctx W Readable Allowed) (hRW : ∀ s t, R s t → W s t)
    (hcontent : ∀ writer size, Rel R W (receiveContent ctx writer size) fun _ => True)
    (req : WriteFile) : Rel R W (handleWriteFile ctx req) fun _ => True := by
  refine Rel.bind ((hR.uploadTarget req).weaken hRW) fun target _ => ?_
  refine Rel.bind (hR.staging.mapError.weaken hRW) fun staging hallowed => ?_
  refine Rel.bind ((hR.createDir staging.1).mapError.weaken hRW) fun _ _ => ?_
  exact Rel.recover (writeStagedContent_rel hR hRW hcontent req target staging.1 hallowed)
    fun failure => hW.cleanup staging.1 staging.2 failure

/-- **What the calls respect, the handler of every request respects.** A request that
fails may leave the stream where only `W` holds. -/
theorem handleMessage_rel (hR : Respects ctx R Readable Allowed)
    (hW : Respects ctx W Readable Allowed) (hRW : ∀ s t, R s t → W s t)
    (hcontent : ∀ writer size, Rel R W (receiveContent ctx writer size) fun _ => True)
    {msg : BrowseMessage} (hallowed : ∀ req, msg = .rename req → Allowed req.source req.target) :
    Rel R W (handleMessage ctx msg) fun _ => True := by
  unfold handleMessage
  split
  · exact (hR.handleListDir _).weaken hRW
  · exact (hR.handleStat _).weaken hRW
  · exact (hR.handleReadFile _).weaken hRW
  · exact handleWriteFile_rel hR hW hRW hcontent _
  · exact (hR.handleMkdir _).weaken hRW
  · exact (hR.handleDelete _).weaken hRW
  · rename_i req
    exact (hR.handleRename (hallowed req rfl)).weaken hRW
  · exact Rel.fail hRW

end Browse

end Tradr
