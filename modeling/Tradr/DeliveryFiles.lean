import Tradr.Collect
import Tradr.EnvelopeGrammar
import Tradr.ListingStore
import Tradr.ReceiveCleanup
import Tradr.Triple

/-!
# The Files of a Delivery

A download writes to files of its own directory only: what an earlier attempt left there is removed
first, so that every file it opens is new, and a verified file is moved to a name that is free. So a
pass, however it ends, leaves every file outside the staging directory where it is and as it is.

## Main definitions

* `FileView.Spares`: nothing outside the staging directory is touched.
* `CollectContext.AtWork`: a download under way, against the files before it.

## Main results

* `CollectContext.removePartial_spec`: no staged file is left.
* `Placing.placeVerifiedFile_spec`: moving a file to its destination.
-/

namespace Tradr

/-! ### Paths in a directory -/

/-- The components of a path below a directory. -/
theorem components_below {dir p : RelPath} {name : Text} (hdir : dir.value ≠ [])
    (h : RelPath.new (dir.value ++ '/' :: name) = .ok p) :
    p.components = dir.components ++ name.splitOn '/' := by
  have hvalue := RelPath.new_value h
  have hne : p.value ≠ [] := by
    rw [hvalue]
    simp
  rw [RelPath.components_eq_splitOn hne, hvalue, List.splitOn_append_cons_self,
    RelPath.components_eq_splitOn hdir]

/-- The name of a staged file. -/
def itemName (index : ℕ) : Text := "item-".toList ++ decimal index

theorem slash_not_mem_itemName (index : ℕ) : '/' ∉ itemName index := by
  rw [itemName, List.mem_append, not_or]
  refine ⟨by decide, fun h => ?_⟩
  have hdigit := Nat.isDigit_of_mem_toDigits (by decide) (by decide) h
  exact absurd hdigit (by decide)

theorem itemName_injective : Function.Injective itemName := by
  intro n m h
  have hdigits := List.append_cancel_left h
  have hvalue := congrArg (fun digits => Nat.ofDigitChars 10 digits 0) hdigits
  simpa only [decimal, Nat.ofDigitChars_ten_toDigits] using hvalue

/-- A path at which a delivery stages an item, and which is not denied. -/
structure IsStaged (dir : RelPath) (index : ℕ) (q : RelPath) : Prop where
  components : q.components = dir.components ++ [itemName index]
  allowed : isDeniedForWrite q.components = false

theorem components_partialPath {dir q : RelPath} {index : ℕ} (hdir : dir.value ≠ [])
    (h : RelPath.new (CollectContext.partialPath dir index) = .ok q) :
    q.components = dir.components ++ [itemName index] := by
  have hpath : CollectContext.partialPath dir index = dir.value ++ '/' :: itemName index := rfl
  rw [hpath] at h
  rw [components_below hdir h, List.splitOn_eq_singleton (slash_not_mem_itemName index)]

/-- A staged file is staged for one item. -/
theorem IsStaged.index_eq {dir q : RelPath} {i j : ℕ} (hi : IsStaged dir i q)
    (hj : IsStaged dir j q) : i = j := by
  have h := hi.components.symm.trans hj.components
  exact itemName_injective (List.singleton_inj.mp (List.append_cancel_left h))

/-- What is staged lies where its directory does. -/
theorem IsStaged.inStaging {dir q : RelPath} {index : ℕ} (hdir : InStaging dir)
    (h : IsStaged dir index q) : InStaging q := by
  unfold InStaging at hdir ⊢
  rw [h.components, List.head?_append, hdir]
  rfl

/-! ### What is left alone -/

namespace FileView

variable {σ N : Type*} (v : FileView σ N)

/-- A sound state in which every file outside the staging directory is where it was and as it
was. -/
structure Spares (s s' : σ) : Prop extends v.Keeps s s' where
  file : ∀ q n, ¬InStaging q → v.file s q = some n → v.file s' q = some n

variable {v} {s s' s'' : σ}

theorem Spares.refl (h : v.Valid s) : v.Spares s s :=
  ⟨⟨h, fun _ hn => hn, fun _ _ => rfl⟩, fun _ _ _ hn => hn⟩

theorem Spares.trans (h : v.Spares s s') (h' : v.Spares s' s'') : v.Spares s s'' :=
  ⟨h.toKeeps.trans h'.toKeeps, fun q n hq hn => h'.file q n hq (h.file q n hq hn)⟩

theorem Same.spares (h : v.Same s s') : v.Spares s s' :=
  ⟨h.toKeeps, fun q _ _ hn => (congrFun h.file q).trans hn⟩

/-- A file was moved to a path that was free, and nothing else changed. -/
structure Moved (v : FileView σ N) (source target : RelPath) (n : N) (s s' : σ) : Prop
    extends v.Keeps s s' where
  free : v.file s target = none
  arrived : v.file s' target = some n
  left : v.file s' source = none
  other : ∀ q, q ≠ source → q ≠ target → v.file s' q = v.file s q

/-- Nothing happened before it. -/
theorem Moved.of_same {source target : RelPath} {n : N} (h : v.Same s s')
    (h' : v.Moved source target n s' s'') : v.Moved source target n s s'' where
  toKeeps := h.toKeeps.trans h'.toKeeps
  free := (congrFun h.file target).symm.trans h'.free
  arrived := h'.arrived
  left := h'.left
  other q hs ht := (h'.other q hs ht).trans (congrFun h.file q)

end FileView

/-! ### Placing a file -/

/-- A name a file may get: the path itself, or one of its numbered names. -/
def CandidateOf (path q : RelPath) : Prop :=
  q = path ∨ ∃ n, RelPath.new (collisionName path.value n) = .ok q

namespace Placing

open Eff (Triple)

variable {σ H N : Type} {vfs : Vfs σ H} (F : FileStore vfs N) {s₀ : σ} {nfc : Text → Text}

theorem stat_spec (p : RelPath) {Q : Except VfsError Metadata → Prop} {X : σ → Prop}
    (hQ : ∀ r, Q r) : Triple (F.Same s₀)
      (Eff.attempt (F := PassStop) (vfs.stat · p : Eff σ VfsError Metadata))
      (fun r s => F.Same s₀ s ∧ Q r) X :=
  fun _ hs => ⟨fun r _ => ⟨hs.trans (F.stat_same p hs.valid), hQ r⟩, nofun⟩

theorem probeNumbered_spec (path : RelPath) (remaining counter : ℕ) : Triple (F.Same s₀)
    (probeNumbered vfs path remaining counter)
    (fun r s => F.Same s₀ s ∧ ∀ q, r = .ok q → CandidateOf path q) (F.Same s₀) := by
  induction remaining generalizing counter with
  | zero => exact Triple.fail
  | succ remaining ih =>
      unfold probeNumbered
      split
      · exact Triple.pure.pre fun s h => ⟨h, nofun⟩
      · rename_i candidate hcandidate
        refine (stat_spec F candidate (Q := fun _ => True) fun _ => trivial).bind fun r => ?_
        split
        · exact (ih _).pre fun s h => h.1
        · refine Triple.pure.pre fun s h => ⟨h.1, fun q hq => .inr ⟨counter, ?_⟩⟩
          rw [hcandidate, Except.ok.inj hq]
        · exact Triple.pure.pre fun s h => ⟨h.1, nofun⟩

theorem resolveCollision_spec (path : RelPath) : Triple (F.Same s₀) (resolveCollision vfs path)
    (fun r s => F.Same s₀ s ∧ ∀ q, r = .ok q → CandidateOf path q) (F.Same s₀) := by
  refine (stat_spec F path (Q := fun _ => True) fun _ => trivial).bind fun r => ?_
  split
  · exact (probeNumbered_spec F path _ _).pre fun s h => h.1
  · exact Triple.pure.pre fun s h => ⟨h.1, fun q hq => .inl (Except.ok.inj hq).symm⟩
  · exact Triple.pure.pre fun s h => ⟨h.1, nofun⟩

/-- What placing a file does: it is moved to a name it may get, or nothing changes. -/
def Places (F : FileStore vfs N) (source path : RelPath) (n : N) (s₀ : σ)
    (r : Except TransferSessionError RelPath) (s : σ) : Prop :=
  match r with
  | .ok q => F.Moved source q n s₀ s ∧ CandidateOf path q
  | .error _ => F.Same s₀ s

theorem placeAt_spec {source : RelPath} {n : N} (hsource : F.file s₀ source = some n)
    (path : RelPath) (attempts : ℕ) : Triple (F.Same s₀) (placeAt vfs source path attempts)
    (Places F source path n s₀) (F.Same s₀) := by
  induction attempts with
  | zero => exact Triple.pure.pre fun s h => h
  | succ attempts ih =>
      refine (resolveCollision_spec F path).bind fun r => ?_
      split
      · exact Triple.pure.pre fun s h => h.1
      · rename_i q
        refine Triple.bind (Q := Eff.Answers
          (fun _ s => F.Moved source q n s₀ s ∧ CandidateOf path q) (F.Same s₀)) ?_ fun r => ?_
        · rintro s ⟨hs, hq⟩
          refine ⟨fun r hr => ?_, nofun⟩
          obtain rfl := Except.ok.inj hr
          have hfile := (congrFun hs.file source).trans hsource
          rcases hrename : (vfs.renameNoReplace s source q).1 with e | u
          · exact hs.trans (F.renameNoReplace_error hs.valid hrename)
          · obtain ⟨hkeeps, hfree, harrived, hleft, hother⟩ :=
              F.renameNoReplace_ok hs.valid hfile hrename
            exact ⟨.of_same hs ⟨hkeeps, hfree, harrived, hleft, hother⟩, hq q rfl⟩
        · rcases r with e | u
          · cases e with
            | alreadyExists => exact ih
            | _ => exact Triple.pure.pre fun s h => h
          · exact Triple.pure.pre fun s h => h

/-- **Moving a verified file to its destination**: to the sanitized path, or one of its numbered
names, that was free. -/
theorem placeVerifiedFile_spec {source : RelPath} {n : N} (hs₀ : F.Valid s₀)
    (hsource : F.file s₀ source = some n) (dest : RelPath) :
    (∀ stop, (placeVerifiedFile vfs nfc source dest s₀).1 = .error stop →
      F.Same s₀ (placeVerifiedFile vfs nfc source dest s₀).2) ∧
    (∀ e, (placeVerifiedFile vfs nfc source dest s₀).1 = .ok (.error e) →
      F.Same s₀ (placeVerifiedFile vfs nfc source dest s₀).2) ∧
    ∀ q, (placeVerifiedFile vfs nfc source dest s₀).1 = .ok (.ok q) →
      F.Moved source q n s₀ (placeVerifiedFile vfs nfc source dest s₀).2 ∧
      ∃ path, sanitizeDestinationPath nfc dest.value = .ok path ∧ CandidateOf path q := by
  unfold placeVerifiedFile
  rcases hsanitize : sanitizeDestinationPath nfc dest.value with e | path
  · exact ⟨nofun, fun _ _ => .refl hs₀, nofun⟩
  · have hspec := placeAt_spec F hsource path maxPlacementAttempts s₀ (.refl hs₀)
    refine ⟨hspec.2, fun e he => hspec.1 _ he, fun q hq => ?_⟩
    obtain ⟨hmoved, hcandidate⟩ := hspec.1 _ hq
    exact ⟨hmoved, path, rfl, hcandidate⟩

end Placing

namespace CollectContext

open Eff (Triple)

variable {σ H B J N : Type} {ctx : CollectContext σ H B J} (F : ListingStore ctx.vfs N)
  {dir : RelPath} {s₀ : σ}

/-- No file is staged from an item on. -/
def FreeFrom (dir : RelPath) (index : ℕ) (s : σ) : Prop :=
  ∀ j q, index ≤ j → IsStaged dir j q → F.file s q = none

/-- A path of the pass's own. -/
theorem localPath_spec {P : σ → Prop} (text : Text) :
    Triple P (localPath text) (fun p s => RelPath.new text = .ok p ∧ P s) P := by
  unfold localPath
  split
  · exact Triple.fail
  · rename_i p hp
    exact Triple.pure.pre fun s hs => ⟨hp, hs⟩

variable {F}

/-- The staged files whose names are listed, and no others, may still be there. -/
def StagedAmong (F : ListingStore ctx.vfs N) (dir : RelPath) (names : List Text) (s : σ) : Prop :=
  ∀ j q, IsStaged dir j q → F.file s q ≠ none → itemName j ∈ names

/-- Removing a path of the staging directory. -/
theorem remove_spares {p : RelPath} (hp : InStaging p) {s : σ} (hs : F.Valid s) :
    F.Spares s (ctx.vfs.remove s p).2 :=
  ⟨F.remove_keeps p hs, fun q _ hq hn => (F.remove_other hs fun heq => by
    rw [heq] at hq
    exact hq hp).trans hn⟩

/-- The path of an entry is in the staging directory. -/
theorem inStaging_below {p : RelPath} {name : Text} (hdir : InStaging dir)
    (h : RelPath.new (dir.value ++ '/' :: name) = .ok p) : InStaging p := by
  have hne : dir.value ≠ [] := fun hnil => by
    rw [InStaging, RelPath.components_eq_nil_iff.mpr hnil] at hdir
    cases hdir
  unfold InStaging at hdir ⊢
  rw [components_below hne h, List.head?_append, hdir]
  rfl

/-- Removing an entry leaves the others. -/
theorem StagedAmong.remove {name : Text} {names : List Text} {p : RelPath} {s : σ}
    (h : StagedAmong F dir (name :: names) s) (hs : F.Valid s) (hdir : dir.value ≠ [])
    (hp : RelPath.new (dir.value ++ '/' :: name) = .ok p)
    (hgone : (ctx.vfs.remove s p).1 = .ok () ∨ (ctx.vfs.remove s p).1 = .error .notFound) :
    StagedAmong F dir names (ctx.vfs.remove s p).2 := by
  intro j q hq hfile
  by_cases hqp : q = p
  · rw [hqp, F.remove_gone hs hgone] at hfile
    exact absurd rfl hfile
  · rw [F.remove_other hs hqp] at hfile
    rcases List.mem_cons.mp (h j q hq hfile) with hname | hmem
    · refine absurd (RelPath.components_injective ?_) hqp
      rw [hq.components, components_below hdir hp, ← hname,
        List.splitOn_eq_singleton (slash_not_mem_itemName j)]
    · exact hmem

theorem removeEntries_spec (hdir : InStaging dir) (hne : dir.value ≠ []) (entries : List DirEntry) :
    Triple (fun s => F.Spares s₀ s ∧ StagedAmong F dir (entries.map DirEntry.name) s)
      (ctx.removeEntries dir entries)
      (fun _ s => F.Spares s₀ s ∧ StagedAmong F dir [] s) (F.Spares s₀) := by
  induction entries with
  | nil => exact Triple.pure.pre fun _ h => h
  | cons entry rest ih =>
      refine Triple.bind ((localPath_spec _).fails fun s h => h.1) fun p => ?_
      refine Triple.bind (Q := fun r s => F.Spares s₀ s ∧ (r = .ok () ∨ r = .error .notFound →
        StagedAmong F dir (rest.map DirEntry.name) s)) ?_ fun r => ?_
      · rintro s ⟨hp, hs, hamong⟩
        refine ⟨fun r hr => ?_, nofun⟩
        obtain rfl := Except.ok.inj hr
        exact ⟨hs.trans (remove_spares (inStaging_below hdir hp) hs.valid),
          fun hgone => hamong.remove hs.valid hne hp hgone⟩
      · split
        · exact ih.pre fun s h => ⟨h.1, h.2 (.inl rfl)⟩
        · exact ih.pre fun s h => ⟨h.1, h.2 (.inr rfl)⟩
        · exact Triple.fail.pre fun s h => h.1

/-- **What is left of a delivery is removed**: no file is staged after that. -/
theorem removePartial_spec (hdir : InStaging dir) : Triple (F.Spares s₀) (ctx.removePartial dir)
    (fun _ s => F.Spares s₀ s ∧ FreeFrom F dir 0 s) (F.Spares s₀) := by
  have hne : dir.value ≠ [] := fun hnil => by
    rw [InStaging, RelPath.components_eq_nil_iff.mpr hnil] at hdir
    cases hdir
  refine Triple.bind (Q := fun r s => F.Spares s₀ s ∧
    (r = .error .notFound → FreeFrom F dir 0 s) ∧
    ∀ entries, r = .ok entries → StagedAmong F dir (entries.map DirEntry.name) s) ?_ fun r => ?_
  · intro s hs
    refine ⟨fun r hr => ?_, nofun⟩
    obtain rfl := Except.ok.inj hr
    have hsame := F.list_same dir hs.valid
    have hfile := fun q => congrFun hsame.file q
    refine ⟨hs.trans hsame.spares, fun hnone j q _ hq => ?_,
      fun entries hentries j q hq hsome => ?_⟩
    · exact (hfile q).trans (F.list_notFound hs.valid hq.components hnone)
    · obtain ⟨n, hn⟩ := Option.ne_none_iff_exists'.mp hsome
      obtain ⟨e, he, hname⟩ := F.list_shows hs.valid ((hfile q).symm.trans hn) hq.allowed
        hq.components hentries
      exact hname ▸ List.mem_map_of_mem he
  · split
    · exact Triple.pure.pre fun s h => ⟨h.1, h.2.1 rfl⟩
    · exact Triple.fail.pre fun s h => h.1
    · rename_i entries
      refine Triple.bind ((removeEntries_spec hdir hne entries).pre fun s h =>
        ⟨h.1, h.2.2 entries rfl⟩) fun _ => ?_
      refine Triple.bind (Q := fun r s => F.Spares s₀ s ∧ FreeFrom F dir 0 s) ?_ fun r => ?_
      · rintro s ⟨hs, hamong⟩
        refine ⟨fun r hr => ?_, nofun⟩
        refine ⟨hs.trans (remove_spares hdir hs.valid), fun j q _ hq => ?_⟩
        have hqdir : q ≠ dir := fun heq => by
          have h := hq.components
          rw [heq] at h
          simp at h
        by_contra hsome
        have hfile := F.remove_other hs.valid hqdir
        exact List.not_mem_nil (hamong j q hq fun hnone => hsome (hfile.trans hnone))
      · split
        · exact Triple.pure.pre fun s h => h
        · exact Triple.pure.pre fun s h => h
        · exact Triple.fail.pre fun s h => h.1

/-! ### A download under way -/

/-- A download under way, against the files from before it: it touches nothing outside the staging
directory, what is staged is new, and the open file is where it was staged. -/
structure AtWork (F : ListingStore ctx.vfs N) (dir : RelPath) (s₀ : σ)
    (current : Option (ℕ × H × ℕ)) (s : σ) : Prop extends F.Spares s₀ s where
  staged : ∀ j q n, IsStaged dir j q → F.file s q = some n → ¬F.InUse s₀ n
  opened : ∀ j h off, current = some (j, h, off) →
    ∃ q, RelPath.new (partialPath dir j) = .ok q ∧ IsStaged dir j q ∧ F.file s q = some (F.node h)

/-- A file was opened at a path; it was there, or is new and empty. -/
structure Opens (F : ListingStore ctx.vfs N) (q : RelPath) (h : H) (s s' : σ) : Prop
    extends F.Keeps s s' where
  self : F.file s' q = some (F.node h)
  other : ∀ r, r ≠ q → F.file s' r = F.file s r
  origin : F.file s q = some (F.node h) ∨
    F.file s q = none ∧ ¬F.InUse s (F.node h) ∧ F.data s' (F.node h) = []

namespace AtWork

variable {current : Option (ℕ × H × ℕ)} {s s' : σ}

/-- Nothing is staged at first. -/
theorem start (hs : F.Valid s) (hfree : FreeFrom F dir 0 s) : AtWork F dir s none s where
  toSpares := .refl hs
  staged j q n hq hn := by
    rw [hfree j q (Nat.zero_le j) hq] at hn
    cases hn
  opened := nofun

/-- The open file is closed. -/
theorem close (h : AtWork F dir s₀ current s) : AtWork F dir s₀ none s :=
  ⟨h.toSpares, h.staged, nofun⟩

/-- No file is touched. -/
theorem same (h : AtWork F dir s₀ current s) (hsame : F.Same s s') :
    AtWork F dir s₀ current s' where
  toSpares := h.toSpares.trans hsame.spares
  staged j q n hq hn := h.staged j q n hq ((congrFun hsame.file q).symm.trans hn)
  opened j w off hc := by
    obtain ⟨q, hnew, hq, hfile⟩ := h.opened j w off hc
    exact ⟨q, hnew, hq, (congrFun hsame.file q).trans hfile⟩

/-- A staged file that is opened for writing, whether this works or not. -/
theorem openWrite (h : AtWork F dir s₀ current s) (hdir : InStaging dir) {j : ℕ} {q : RelPath}
    (hnew : RelPath.new (partialPath dir j) = .ok q) :
    AtWork F dir s₀ none (ctx.vfs.openWrite s q).2 ∧
      ∀ w, (ctx.vfs.openWrite s q).1 = .ok w →
        AtWork F dir s₀ (some (j, w, 0)) (ctx.vfs.openWrite s q).2 ∧ IsStaged dir j q ∧
          Opens F q w s (ctx.vfs.openWrite s q).2 := by
  have hne : dir.value ≠ [] := fun hnil => by
    rw [InStaging, RelPath.components_eq_nil_iff.mpr hnil] at hdir
    cases hdir
  have hkeeps := F.openWrite_keeps q h.valid
  have hspares : F.Spares s (ctx.vfs.openWrite s q).2 := by
    refine ⟨hkeeps, fun r n hr hn => (F.openWrite_other h.valid fun heq => hr ?_).trans hn⟩
    exact heq ▸ inStaging_below hdir hnew
  have hstaged : ∀ i r n, IsStaged dir i r → F.file (ctx.vfs.openWrite s q).2 r = some n →
      ¬F.InUse s₀ n := by
    intro i r n hr hn hin
    by_cases hrq : r = q
    · rw [hrq] at hn hr
      rcases F.openWrite_self h.valid hn with hold | ⟨-, hfresh, -⟩
      · exact h.staged i q n hr hold hin
      · exact hfresh (h.inUse n hin)
    · rw [F.openWrite_other h.valid hrq] at hn
      exact h.staged i r n hr hn hin
  refine ⟨⟨h.toSpares.trans hspares, hstaged, nofun⟩, fun w hw => ?_⟩
  have hself := F.openWrite_ok h.valid hw
  have hq : IsStaged dir j q := ⟨components_partialPath hne hnew, F.openWrite_allowed hw⟩
  refine ⟨⟨h.toSpares.trans hspares, hstaged, ?_⟩, hq, ⟨hkeeps, hself,
    fun r hr => F.openWrite_other h.valid hr, F.openWrite_self h.valid hself⟩⟩
  rintro i w' off hc
  cases hc
  exact ⟨q, hnew, hq, hself⟩

/-- What is written goes to the open file. -/
theorem writeAt (h : AtWork F dir s₀ current s) {j off : ℕ} {w : H}
    (hc : current = some (j, w, off)) (off' : ℕ) (bytes : List UInt8) :
    AtWork F dir s₀ current (ctx.vfs.writeAt s w off' bytes).2 := by
  obtain ⟨q, -, hq, hfile⟩ := h.opened j w off hc
  have hfresh := h.staged j q _ hq hfile
  obtain ⟨hvalid, hfiles, hinUse, hdata⟩ := F.writeAt_file off' bytes h.valid
  refine ⟨⟨⟨hvalid, fun n hn => hinUse n (h.inUse n hn), fun n hn => ?_⟩, fun r n hr hn => ?_⟩,
    fun i r n hr hn => ?_, fun i w' o hi => ?_⟩
  · rw [hdata n fun heq => hfresh (heq ▸ hn)]
    exact h.data n hn
  · rw [hfiles]
    exact h.file r n hr hn
  · rw [hfiles] at hn
    exact h.staged i r n hr hn
  · obtain ⟨r, hnew, hr, hn⟩ := h.opened i w' o hi
    exact ⟨r, hnew, hr, by rw [hfiles]; exact hn⟩

/-- The open file is moved to a free path. -/
theorem moved (h : AtWork F dir s₀ current s) (hdir : InStaging dir) {j : ℕ}
    {source target : RelPath} {n : N} (hsource : IsStaged dir j source)
    (hfile : F.file s source = some n) (hmoved : F.Moved source target n s s') :
    AtWork F dir s₀ none s' := by
  have hfresh := h.staged j source n hsource hfile
  refine ⟨h.toSpares.trans ⟨hmoved.toKeeps, fun q m hq hm => ?_⟩, fun i q m hq hm => ?_, nofun⟩
  · rw [hmoved.other q (fun heq => hq (heq ▸ hsource.inStaging hdir)) fun heq => ?_]
    · exact hm
    · rw [heq, hmoved.free] at hm
      cases hm
  · by_cases hqs : q = source
    · rw [hqs, hmoved.left] at hm
      cases hm
    · by_cases hqt : q = target
      · rw [hqt, hmoved.arrived] at hm
        exact Option.some.inj hm ▸ hfresh
      · rw [hmoved.other q hqs hqt] at hm
        exact h.staged i q m hq hm

end AtWork

end CollectContext

end Tradr
