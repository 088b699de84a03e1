import Tradr.DeliveryFiles

/-!
# What Arrives is Complete

The events of a reader are followed through a download: the bytes of the item under way are those of
the open file, and the items that were verified are at their destinations with all their bytes. So
when a download ends with its envelope opened, every item is there.

An item may be meant for the staging directory itself, since only the filesystem looks at the deny
list. It would be in the way of an item that is staged there, and is left out here.

## Main definitions

* `Hands`: the events from one place in a manifest to another.
* `CollectContext.Filled`: the files of a download under way.
* `CollectContext.Complete`: the files of a delivery that has arrived.

## Main results

* `CollectContext.apply_spec`, `CollectContext.takeIn_spec`: what an event and a download do.
* `CollectContext.collectOnce_whole`: and what a pass does.
-/

namespace Tradr

/-! ### Events -/

/-- The events that lead from one place in the items to another: so many items are verified, and of
the next one these bytes were handed out. -/
inductive Hands (p : Primitives) (items : List EnvelopeItem) :
    ℕ → List UInt8 → List ReaderEvent → ℕ → List UInt8 → Prop
  | nil {k : ℕ} {b : List UInt8} : Hands p items k b [] k b
  | data {k k' : ℕ} {b b' bytes : List UInt8} {events : List ReaderEvent} :
      Hands p items k (b ++ bytes) events k' b' →
      Hands p items k b (.itemData k bytes :: events) k' b'
  | verified {k k' : ℕ} {b b' : List UInt8} {item : EnvelopeItem} {events : List ReaderEvent} :
      items[k]? = some item → b.length = item.size.toNat →
      (p.blake3.hash b).val = item.contentHash.bytes → Hands p items (k + 1) [] events k' b' →
      Hands p items k b (.itemVerified k :: events) k' b'

namespace Hands

variable {p : Primitives} {items : List EnvelopeItem} {k k' k'' : ℕ} {b b' b'' : List UInt8}
  {events more : List ReaderEvent}

theorem trans (h : Hands p items k b events k' b') (h' : Hands p items k' b' more k'' b'') :
    Hands p items k b (events ++ more) k'' b'' := by
  induction h with
  | nil => exact h'
  | data _ ih => exact .data (ih h')
  | verified hitem hsize hhash _ ih => exact .verified hitem hsize hhash (ih h')

/-- Where the first events lead. -/
theorem rest (h : Hands p items k b events k' b')
    (hall : Hands p items k b (events ++ more) k'' b'') : Hands p items k' b' more k'' b'' := by
  induction h with
  | nil => exact hall
  | data _ ih =>
      cases hall with
      | data hall => exact ih hall
  | verified _ _ _ _ ih =>
      cases hall with
      | verified _ _ _ hall => exact ih hall

/-- Pieces of an item. -/
theorem pieces (k : ℕ) (b : List UInt8) (pieces : List (List UInt8)) :
    Hands p items k b (pieces.map (.itemData k)) k (b ++ pieces.flatten) := by
  induction pieces generalizing b with
  | nil =>
      rw [List.map_nil, List.flatten_nil, List.append_nil]
      exact .nil
  | cons piece rest ih =>
      rw [List.map_cons, List.flatten_cons, ← List.append_assoc]
      exact .data (ih (b ++ piece))

/-- Items that are delivered are handed out. -/
theorem of_delivers (h : Delivers p items k events) : Hands p items 0 [] events k [] := by
  induction h with
  | none => exact .nil
  | item _ hitem hsize hhash ih =>
      exact ih.trans ((pieces _ [] _).trans (.verified hitem hsize hhash .nil))

/-- What a reader has reported leads somewhere. -/
theorem of_reported (h : Reported p events) : events = [] ∨ ∃ m es k b,
    events = .manifest m :: es ∧ Hands p m.items 0 [] es k b := by
  rcases h with rfl | ⟨m, k, whole, pieces, rfl, hdelivers, -⟩
  · exact .inl rfl
  · exact .inr ⟨m, _, k, _, rfl, (of_delivers hdelivers).trans (Hands.pieces k [] pieces)⟩

end Hands

/-! ### Manifests -/

/-- A manifest passed the checks of a recipient: its signatures, its times and the attestation of
its sender. -/
def Accepted (p : Primitives) (receiver : EnvelopeRecipient) (m : OpenedManifest) : Prop :=
  ∃ header json, checkManifest p header json receiver.now receiver.verifyAttestation = .ok m

namespace EnvelopeReader

variable {p : Primitives} {receiver : EnvelopeRecipient} {r r' : EnvelopeReader}
  {events : List ReaderEvent}

/-- A unit brings no manifest that was not checked. -/
theorem accepted_of_advance {unit : List UInt8}
    (h : r.advance p receiver unit = .ok (events, r'))
    (hr : ∀ m, r.manifest = some m → Accepted p receiver m) :
    ∀ m, r'.manifest = some m → Accepted p receiver m := by
  unfold advance at h
  split at h
  · obtain ⟨r₁, h₁, h⟩ := Fallible.bind_eq_ok.mp h
    obtain ⟨_, _, _, _, _, _, rfl⟩ := readHeader_eq_ok.mp h₁
    obtain ⟨-, rfl⟩ := Prod.mk.inj (Except.ok.inj h)
    exact hr
  · obtain ⟨r₁, h₁, h⟩ := Fallible.bind_eq_ok.mp h
    obtain ⟨-, -, -, rfl⟩ := readLen_eq_ok.mp h₁
    obtain ⟨-, rfl⟩ := Prod.mk.inj (Except.ok.inj h)
    exact hr
  · split_ifs at h
    · obtain ⟨header, _, _, _, json, _, _, m, hcheck, _, _, _, _, _, rfl⟩ :=
        readManifest_eq_ok.mp h
      rintro m' hm'
      obtain rfl := Option.some.inj hm'
      exact ⟨header, json, hcheck⟩
    · obtain ⟨_, _, _, _, _, _, _, _, _, _, _, rfl⟩ := readData_eq_ok.mp h
      exact hr
  · cases h

/-- Nor does a feed. -/
theorem accepted_of_feedInner {input : List UInt8}
    (h : r.feedInner p receiver input = .ok (events, r'))
    (hr : ∀ m, r.manifest = some m → Accepted p receiver m) :
    ∀ m, r'.manifest = some m → Accepted p receiver m := by
  fun_induction feedInner p receiver r input generalizing events with
  | case1 r hneed =>
      obtain ⟨-, rfl⟩ := Prod.mk.inj (Except.ok.inj h)
      exact hr
  | case2 r input hneed hne => cases h
  | case3 r input n hneed take unit =>
      obtain ⟨-, rfl⟩ := Prod.mk.inj (Except.ok.inj h)
      exact hr
  | case4 r input n hneed take unit hfull e => cases h
  | case5 r input n hneed take unit hfull events₁ r₁ hadv =>
      rename_i ih
      obtain ⟨⟨more, r₂⟩, hmore, h⟩ := Fallible.bind_eq_ok.mp h
      obtain ⟨-, rfl⟩ := Prod.mk.inj (Except.ok.inj h)
      exact ih hmore (accepted_of_advance hadv hr)

end EnvelopeReader

/-! ### Destinations -/

/-- The destinations of the items are outside the staging directory. -/
def OutOfStaging (nfc : Text → Text) (items : List EnvelopeItem) : Prop :=
  ∀ item ∈ items, ∀ path, sanitizeDestinationPath nfc item.relPath.value = .ok path →
    ¬InStaging path

/-- No file is meant for the root. -/
theorem ne_root_of_sanitized {nfc : Text → Text} {raw : Text} {path : RelPath}
    (h : sanitizeDestinationPath nfc raw = .ok path) : path ≠ RelPath.root := by
  unfold sanitizeDestinationPath at h
  dsimp only at h
  split_ifs at h
  rintro rfl
  have hnew := Fallible.mapError_eq_ok.mp h
  have hvalue := RelPath.new_value hnew
  rw [← hvalue] at hnew
  cases hnew

/-- The name of the staging directory is not a numbered one. -/
theorem numberedName_ne_partialRootName (name : Text) (n : ℕ) :
    numberedName name n ≠ partialRootName := by
  intro h
  have hmem : '(' ∈ numberedName name n := by
    simp [numberedName, numberMark]
  rw [h] at hmem
  exact absurd hmem (by decide)

/-- The names a file may get are outside the staging directory when its destination is. -/
theorem not_inStaging_candidate {path q : RelPath} (hpath : ¬InStaging path)
    (hroot : path ≠ RelPath.root) (hq : CandidateOf path q) : ¬InStaging q := by
  rcases hq with rfl | ⟨n, hq⟩
  · exact hpath
  · obtain ⟨dirs, name, hlocated⟩ := exists_located hroot
    rcases hlocated.new_collisionName n with ⟨-, e, he⟩ | ⟨-, q', hq', hlocated'⟩
    · cases hq.symm.trans he
    · obtain rfl := Except.ok.inj (hq.symm.trans hq')
      unfold InStaging at hpath ⊢
      rw [hlocated.components] at hpath
      rw [hlocated'.components]
      rcases dirs with _ | ⟨dir, dirs⟩
      · exact fun h => numberedName_ne_partialRootName name n (Option.some.inj h)
      · exact hpath

namespace CollectContext

open Eff (Triple)

variable {σ H B J N : Type} {ctx : CollectContext σ H B J} (F : ListingStore ctx.vfs N)
  {dir : RelPath} {s₀ : σ}

/-- The file at a path is that of an item: it has its size and its hash, and is at a name the item's
destination may get. -/
def HoldsItem (item : EnvelopeItem) (q : RelPath) (s : σ) : Prop :=
  ∃ n, F.file s q = some n ∧ (F.data s n).length = item.size.toNat ∧
    (ctx.primitives.blake3.hash (F.data s n)).val = item.contentHash.bytes ∧
    ∃ path, sanitizeDestinationPath ctx.nfc item.relPath.value = .ok path ∧ CandidateOf path q

/-- What the file of the item under way holds. -/
def HoldsCurrent (dir : RelPath) (k : ℕ) (b : List UInt8) (placed : List RelPath) (s : σ) :
    Option (ℕ × H × ℕ) → Prop
  | none => b = [] ∧ FreeFrom F dir k s
  | some (j, w, off) => j = k ∧ off = b.length ∧ F.data s (F.node w) = b ∧
    (∀ q ∈ placed, F.file s q ≠ some (F.node w)) ∧ FreeFrom F dir (k + 1) s

/-- The files of a download under way: the items that were verified are at their destinations, and
the bytes handed out of the next one are in the open file. -/
structure Filled (dir : RelPath) (items : List EnvelopeItem) (k : ℕ) (b : List UInt8)
    (current : Option (ℕ × H × ℕ)) (placed : List RelPath) (s : σ) : Prop where
  length : placed.length = k
  nodup : placed.Nodup
  holds : ∀ (j : ℕ) item q, items[j]? = some item → placed[j]? = some q → HoldsItem F item q s
  present : ∀ q ∈ placed, F.file s q ≠ none ∧ ¬InStaging q
  current : HoldsCurrent F dir k b placed s current

/-- A download under way at a place in a manifest. -/
structure Doing (s₀ : σ) (dir : RelPath) (items : List EnvelopeItem) (k : ℕ) (b : List UInt8)
    (current : Option (ℕ × H × ℕ)) (placed : List RelPath) (s : σ) : Prop where
  atWork : AtWork F dir s₀ current s
  filled : OutOfStaging ctx.nfc items → Filled F dir items k b current placed s

variable {F} {items : List EnvelopeItem} {k : ℕ} {b : List UInt8}
  {current : Option (ℕ × H × ℕ)} {placed : List RelPath} {s s' : σ}

/-- A file that stays stays that of its item. -/
theorem HoldsItem.keeps {item : EnvelopeItem} {q : RelPath} (h : HoldsItem F item q s)
    (hs : F.Valid s) (hkeeps : F.Keeps s s') (hfile : F.file s' q = F.file s q) :
    HoldsItem F item q s' := by
  obtain ⟨n, hn, hsize, hhash, hpath⟩ := h
  have hdata := hkeeps.data n (F.inUse_of_file hs hn)
  exact ⟨n, hfile.trans hn, by rw [hdata]; exact hsize, by rw [hdata]; exact hhash, hpath⟩

/-- No file is touched. -/
theorem Doing.same (h : Doing F s₀ dir items k b current placed s) (hsame : F.Same s s') :
    Doing F s₀ dir items k b current placed s' := by
  have hfile := fun q => congrFun hsame.file q
  refine ⟨h.atWork.same hsame, fun hout => ?_⟩
  obtain ⟨hlength, hnodup, hholds, hpresent, hcurrent⟩ := h.filled hout
  refine ⟨hlength, hnodup, fun j item q hj hq =>
    (hholds j item q hj hq).keeps h.atWork.valid hsame.toKeeps (hfile q),
    fun q hq => by rw [hfile]; exact hpresent q hq, ?_⟩
  rcases current with _ | ⟨j, w, off⟩
  · exact ⟨hcurrent.1, fun i q hi hq => (hfile q).trans (hcurrent.2 i q hi hq)⟩
  · obtain ⟨hj, hoff, hdata, hapart, hfree⟩ := hcurrent
    obtain ⟨q, -, -, hq⟩ := h.atWork.opened j w off rfl
    refine ⟨hj, hoff, ?_, fun q hq => by rw [hfile]; exact hapart q hq,
      fun i q hi hq => (hfile q).trans (hfree i q hi hq)⟩
    rw [hsame.data _ (F.inUse_of_file h.atWork.valid hq)]
    exact hdata

/-- Opening the staged file of the item under way. -/
theorem openItem_spec (hdir : InStaging dir) (hcurrent : ∀ w off, current ≠ some (k, w, off)) :
    Triple (Doing F s₀ dir items k b current placed) (ctx.openItem dir k)
      (fun r s => r.1 = k ∧ Doing F s₀ dir items k b (some r) placed s) (F.Spares s₀) := by
  refine Triple.bind ((localPath_spec _).fails fun s h => h.atWork.toSpares) fun q => ?_
  refine Triple.bind (Q := fun w s => Doing F s₀ dir items k b (some (k, w, 0)) placed s) ?_
    fun w => Triple.pure.pre fun s h => ⟨rfl, h⟩
  refine Triple.mapError ?_
  rintro s ⟨hnew, h⟩
  obtain ⟨hstop, hok⟩ := h.atWork.openWrite hdir hnew
  refine ⟨fun w hw => ?_, fun _ _ => hstop.toSpares⟩
  obtain ⟨hwork, hq, hopens⟩ := hok w hw
  refine ⟨hwork, fun hout => ?_⟩
  obtain ⟨hlength, hnodup, hholds, hpresent, hcur⟩ := h.filled hout
  -- The open file is that of the item under way, so there is none.
  rcases current with _ | ⟨j, w', off⟩
  swap
  · exact absurd (congrArg (fun i => some (i, w', off)) hcur.1) (hcurrent w' off)
  obtain ⟨rfl, hfree⟩ := hcur
  have hnone := hfree k q le_rfl hq
  have hne : ∀ r ∈ placed, r ≠ q := fun r hr heq => (hpresent r hr).2 (heq ▸ hq.inStaging hdir)
  have hfile : ∀ r ∈ placed, F.file (ctx.vfs.openWrite s q).2 r = F.file s r :=
    fun r hr => hopens.other r (hne r hr)
  obtain ⟨-, hfresh, hempty⟩ := hopens.origin.resolve_left fun hold => by
    rw [hnone] at hold
    cases hold
  refine ⟨hlength, hnodup, fun j item r hj hr => ?_, fun r hr => ?_, rfl, rfl, hempty,
    fun r hr heq => ?_, fun j r hj hr => ?_⟩
  · exact (hholds j item r hj hr).keeps h.atWork.valid hopens.toKeeps
      (hfile r (List.mem_of_getElem? hr))
  · rw [hfile r hr]
    exact hpresent r hr
  · rw [hfile r hr] at heq
    exact hfresh (F.inUse_of_file h.atWork.valid heq)
  · rw [hopens.other r fun heq => ?_]
    · exact hfree j r (by omega) hr
    · have hjk := hr.index_eq (heq ▸ hq)
      omega

/-- **Having the staged file of an item open.** -/
theorem ensureOpen_spec (hdir : InStaging dir) (partials : Partials H) :
    Triple (Doing F s₀ dir items k b partials.current partials.placed)
      (ctx.ensureOpen dir partials k)
      (fun r s => r.1 = k ∧ Doing F s₀ dir items k b (some r) partials.placed s)
      (F.Spares s₀) := by
  unfold ensureOpen
  split
  · rename_i j w off hcurrent
    split_ifs with hj
    · refine Triple.pure.pre fun s h => ⟨hj, ?_⟩
      rwa [hcurrent] at h
    · refine openItem_spec hdir fun w' off' heq => hj ?_
      rw [hcurrent] at heq
      cases heq
      rfl
  · rename_i hcurrent
    refine openItem_spec hdir fun w' off' heq => ?_
    rw [hcurrent] at heq
    cases heq

/-- Writing on in the open file. -/
theorem Doing.writeAt {w : H} {off : ℕ} {bytes : List UInt8}
    (h : Doing F s₀ dir items k b (some (k, w, off)) placed s)
    (hok : (ctx.vfs.writeAt s w off bytes).1 = .ok ()) :
    Doing F s₀ dir items k (b ++ bytes) (some (k, w, off + bytes.length)) placed
      (ctx.vfs.writeAt s w off bytes).2 := by
  have hwork := h.atWork.writeAt rfl off bytes
  obtain ⟨-, hfiles, -, hdata⟩ := F.writeAt_file off bytes h.atWork.valid
  refine ⟨⟨hwork.toSpares, hwork.staged, fun j w' o hc => ?_⟩, fun hout => ?_⟩
  · cases hc
    exact hwork.opened k w off rfl
  · obtain ⟨hlength, hnodup, hholds, hpresent, -, rfl, hb, hapart, hfree⟩ := h.filled hout
    refine ⟨hlength, hnodup, fun j item q hj hq => ?_,
      fun q hq => by rw [hfiles]; exact hpresent q hq, rfl, ?_, ?_, fun q hq => by rw [hfiles]; exact hapart q hq,
      fun i q hi hq => by rw [hfiles]; exact hfree i q hi hq⟩
    · obtain ⟨n, hn, hsize, hhash, hpath⟩ := hholds j item q hj hq
      have hne : n ≠ F.node w := fun heq => hapart q (List.mem_of_getElem? hq) (heq ▸ hn)
      have hsame := hdata n hne
      exact ⟨n, by rw [hfiles]; exact hn, by rw [hsame]; exact hsize, by rw [hsame]; exact hhash,
        hpath⟩
    · rw [List.length_append]
    · rw [F.writeAt_ok h.atWork.valid hok, hb, ByteFile.overlay_length]

/-- The open file is moved to its destination: the item is done. -/
theorem Doing.place {w : H} {off : ℕ} {item : EnvelopeItem} {source target : RelPath}
    (h : Doing F s₀ dir items k b (some (k, w, off)) placed s) (hdir : InStaging dir)
    (hitem : items[k]? = some item) (hsize : b.length = item.size.toNat)
    (hhash : (ctx.primitives.blake3.hash b).val = item.contentHash.bytes)
    (hsource : IsStaged dir k source) (hfile : F.file s source = some (F.node w))
    (hmoved : F.Moved source target (F.node w) s s') {path : RelPath}
    (hpath : sanitizeDestinationPath ctx.nfc item.relPath.value = .ok path)
    (htarget : CandidateOf path target) :
    Doing F s₀ dir items (k + 1) [] none (placed ++ [target]) s' := by
  refine ⟨h.atWork.moved hdir hsource hfile hmoved, fun hout => ?_⟩
  obtain ⟨hlength, hnodup, hholds, hpresent, -, rfl, hb, hapart, hfree⟩ := h.filled hout
  have hplaced : ¬InStaging target := by
    exact not_inStaging_candidate (hout item (List.mem_of_getElem? hitem) path hpath)
      (ne_root_of_sanitized hpath) htarget
  have hold : ∀ q ∈ placed, F.file s' q = F.file s q := fun q hq =>
    hmoved.other q (fun heq => (hpresent q hq).2 (heq ▸ hsource.inStaging hdir)) fun heq => by
      have hsome := (hpresent q hq).1
      rw [heq, hmoved.free] at hsome
      exact hsome rfl
  refine ⟨by rw [List.length_append, hlength]; rfl, ?_, fun j item' q hj hq => ?_, fun q hq => ?_,
    rfl, fun j q hj hq => ?_⟩
  · refine List.nodup_append.mpr ⟨hnodup, List.nodup_singleton _, ?_⟩
    rintro q hq _ hmem rfl
    obtain rfl := List.mem_singleton.mp hmem
    exact (hpresent q hq).1 hmoved.free
  · rcases Nat.lt_or_ge j placed.length with hlt | hge
    · rw [List.getElem?_append_left hlt] at hq
      exact (hholds j item' q hj hq).keeps h.atWork.valid hmoved.toKeeps
        (hold q (List.mem_of_getElem? hq))
    · rw [List.getElem?_append_right hge, List.getElem?_singleton] at hq
      split_ifs at hq with hzero
      obtain rfl := Option.some.inj hq
      obtain rfl : j = k := by omega
      obtain rfl := Option.some.inj (hitem.symm.trans hj)
      have hdata : F.data s' (F.node w) = b := by
        rw [hmoved.data _ (F.inUse_of_file h.atWork.valid hfile)]
        exact hb
      exact ⟨_, hmoved.arrived, by rw [hdata]; exact hsize, by rw [hdata]; exact hhash, path, hpath,
        htarget⟩
  · rcases List.mem_append.mp hq with hq | hq
    · rw [hold q hq]
      exact hpresent q hq
    · rw [List.mem_singleton.mp hq, hmoved.arrived]
      exact ⟨Option.some_ne_none _, hplaced⟩
  · rw [hmoved.other q ?_ ?_]
    · exact hfree j q hj hq
    · intro heq
      have hjk := hq.index_eq (heq ▸ hsource)
      omega
    · exact fun heq => hplaced (heq ▸ hq.inStaging hdir)

/-! ### A download -/

/-- The variables of a download at a place in a manifest. -/
def DoingWith (F : ListingStore ctx.vfs N) (s₀ : σ) (dir : RelPath) (items : List EnvelopeItem)
    (k : ℕ) (b : List UInt8) (partials : Partials H) (s : σ) : Prop :=
  partials.dests = items.map EnvelopeItem.relPath ∧
    Doing F s₀ dir items k b partials.current partials.placed s

/-- What an event that does not end the download leads to. -/
def GoesOn (F : ListingStore ctx.vfs N) (s₀ : σ) (P : Partials H → σ → Prop)
    (r : Option CollectStep × Partials H) (s : σ) : Prop :=
  F.Spares s₀ s ∧ match r.1 with
    | none => P r.2 s
    | some step => ∀ sender placed, step ≠ .opened sender placed

/-- A piece of an item is written. -/
theorem apply_data (hdir : InStaging dir) (partials : Partials H) (bytes : List UInt8) :
    Triple (DoingWith F s₀ dir items k b partials) (ctx.apply dir partials (.itemData k bytes))
      (GoesOn F s₀ (DoingWith F s₀ dir items k (b ++ bytes))) (F.Spares s₀) := by
  by_cases hdests : partials.dests = items.map EnvelopeItem.relPath
  swap
  · exact fun s h => absurd h.1 hdests
  refine Triple.bind ((ensureOpen_spec hdir partials).pre fun s h => h.2) fun r => ?_
  obtain ⟨i, w, off⟩ := r
  refine Triple.bind (Q := fun _ s => i = k ∧
    Doing F s₀ dir items k (b ++ bytes) (some (k, w, off + bytes.length)) partials.placed s) ?_
    fun _ => ?_
  · refine Triple.mapError ?_
    rintro s ⟨rfl, h⟩
    have hwork := h.atWork.writeAt rfl off bytes
    exact ⟨fun _ hok => ⟨rfl, h.writeAt hok⟩, fun _ _ => hwork.toSpares⟩
  · refine Triple.pure.pre ?_
    rintro s ⟨rfl, h⟩
    exact ⟨h.atWork.toSpares, hdests, h⟩

/-- A verified item is moved to its destination. -/
theorem apply_verified (hdir : InStaging dir) {item : EnvelopeItem} (hitem : items[k]? = some item)
    (hsize : b.length = item.size.toNat)
    (hhash : (ctx.primitives.blake3.hash b).val = item.contentHash.bytes) (partials : Partials H) :
    Triple (DoingWith F s₀ dir items k b partials) (ctx.apply dir partials (.itemVerified k))
      (GoesOn F s₀ (DoingWith F s₀ dir items (k + 1) [])) (F.Spares s₀) := by
  by_cases hdests : partials.dests = items.map EnvelopeItem.relPath
  swap
  · exact fun s h => absurd h.1 hdests
  have hdest : partials.dests[k]? = some item.relPath := by
    rw [hdests, List.getElem?_map, hitem]
    rfl
  refine Triple.bind ((ensureOpen_spec hdir partials).pre fun s h => h.2) fun r => ?_
  obtain ⟨i, w, off⟩ := r
  refine Triple.bind (Q := fun _ s => i = k ∧
    Doing F s₀ dir items k b (some (k, w, off)) partials.placed s) ?_ fun _ => ?_
  · refine Triple.mapError ?_
    rintro s ⟨rfl, h⟩
    have hsame := h.same (F.sync_same w h.atWork.valid)
    exact ⟨fun _ _ => ⟨rfl, hsame⟩, fun _ _ => hsame.atWork.toSpares⟩
  refine Triple.bind ((localPath_spec _).fails fun s h => h.2.atWork.toSpares) fun source => ?_
  rw [hdest]
  refine Triple.bind (Q := Eff.Answers
    (fun target => Doing F s₀ dir items (k + 1) [] none (partials.placed ++ [target]))
    (F.Spares s₀)) ?_ fun r => ?_
  · rintro s ⟨hnew, -, h⟩
    obtain ⟨q, hq, hstaged, hfile⟩ := h.atWork.opened k w off rfl
    obtain rfl := Except.ok.inj (hnew.symm.trans hq)
    obtain ⟨hstop, herror, hok⟩ := @Placing.placeVerifiedFile_spec _ _ _ _ F.toFileStore _
      ctx.nfc _ _ h.atWork.valid hfile item.relPath
    refine ⟨fun r hr => ?_, fun stop he => h.atWork.toSpares.trans (hstop stop he).spares⟩
    rcases r with e | target
    · exact h.atWork.toSpares.trans (herror e hr).spares
    · obtain ⟨hmoved, path, hpath, htarget⟩ := hok target hr
      exact h.place hdir hitem hsize hhash hstaged hfile hmoved hpath htarget
  · rcases r with e | target
    · cases e with
      | vfs e => exact Triple.fail.pre fun s h => h
      | _ => exact Triple.pure.pre fun s h => ⟨h, fun sender placed heq => by cases heq⟩
    · exact Triple.pure.pre fun s h => ⟨h.atWork.toSpares, hdests, h⟩

/-- The manifest starts the items. -/
theorem apply_manifest (m : OpenedManifest) (partials : Partials H)
    (hpartials : partials.current = none ∧ partials.placed = []) :
    Triple (fun s => AtWork F dir s₀ none s ∧ FreeFrom F dir 0 s)
      (ctx.apply dir partials (.manifest m))
      (GoesOn F s₀ (DoingWith F s₀ dir m.items 0 [])) (F.Spares s₀) := by
  refine Triple.bind (Q := fun _ s => AtWork F dir s₀ none s ∧ FreeFrom F dir 0 s)
    (Triple.mapError ?_) fun _ => Triple.pure.pre fun s h => ⟨h.1.toSpares, rfl, ?_⟩
  · rintro s ⟨h, hfree⟩
    have hsame := F.createDir_same dir h.valid
    have hwork := h.same hsame
    exact ⟨fun _ _ => ⟨hwork, fun j q hj hq => (congrFun hsame.file q).trans (hfree j q hj hq)⟩,
      fun _ _ => hwork.toSpares⟩
  · dsimp only
    rw [hpartials.1, hpartials.2]
    refine ⟨h.1, fun _ => ⟨rfl, List.nodup_nil, nofun, nofun, rfl, h.2⟩⟩

/-- **The events of a feed lead on in the manifest**, unless one ends the download. -/
theorem applyAll_spec (hdir : InStaging dir) {events : List ReaderEvent} {k' : ℕ} {b' : List UInt8}
    (hands : Hands ctx.primitives items k b events k' b') (partials : Partials H) :
    Triple (DoingWith F s₀ dir items k b partials) (ctx.applyAll dir partials events)
      (GoesOn F s₀ (DoingWith F s₀ dir items k' b')) (F.Spares s₀) := by
  induction hands generalizing partials with
  | nil => exact Triple.pure.pre fun s h => ⟨h.2.atWork.toSpares, h⟩
  | data _ ih =>
      refine (apply_data hdir partials _).bind fun r => ?_
      obtain ⟨step | _, partials'⟩ := r
      · exact (ih partials').pre fun s h => h.2
      · exact Triple.pure.pre fun s h => h
  | verified hitem hsize hhash _ ih =>
      refine (apply_verified hdir hitem hsize hhash partials).bind fun r => ?_
      obtain ⟨step | _, partials'⟩ := r
      · exact (ih partials').pre fun s h => h.2
      · exact Triple.pure.pre fun s h => h

/-- A reader, and the download of what it has reported. -/
def TakingIn (F : ListingStore ctx.vfs N) (s₀ : σ) (dir : RelPath) (receiver : EnvelopeRecipient)
    (reader : EnvelopeReader) (partials : Partials H) (s : σ) : Prop :=
  ∃ taken events, EnvelopeReader.Conforms ctx.primitives reader taken events ∧ reader.Fits ∧
    reader.failed = false ∧ (∀ m, reader.manifest = some m → Accepted ctx.primitives receiver m) ∧
    ((events = [] ∧ (partials.current = none ∧ partials.placed = []) ∧
        AtWork F dir s₀ none s ∧ FreeFrom F dir 0 s) ∨
      ∃ m es k b, events = .manifest m :: es ∧ Hands ctx.primitives m.items 0 [] es k b ∧
        DoingWith F s₀ dir m.items k b partials s)

/-- The files of a delivery that has arrived: its manifest was accepted, and its items are there, in
their order and at as many paths. -/
def Complete (F : ListingStore ctx.vfs N) (receiver : EnvelopeRecipient) (sender : DeviceId)
    (placed : List RelPath) (s : σ) : Prop :=
  ∃ m, Accepted ctx.primitives receiver m ∧ m.sender.deviceId = sender ∧
    (OutOfStaging ctx.nfc m.items →
      placed.Nodup ∧ List.Forall₂ (fun item q => HoldsItem F item q s) m.items placed)

/-- What a download that ends may say. -/
def Ends (F : ListingStore ctx.vfs N) (s₀ : σ) (receiver : EnvelopeRecipient) (step : CollectStep)
    (s : σ) : Prop :=
  F.Spares s₀ s ∧
    ∀ sender placed, step = .opened sender placed → Complete F receiver sender placed s

variable {receiver : EnvelopeRecipient}

theorem TakingIn.spares {reader : EnvelopeReader} {partials : Partials H}
    (h : TakingIn F s₀ dir receiver reader partials s) : F.Spares s₀ s := by
  obtain ⟨_, _, -, -, -, -, ⟨-, -, h, -⟩ | ⟨_, _, _, _, -, -, -, h⟩⟩ := h
  · exact h.toSpares
  · exact h.atWork.toSpares

/-- When the reader has read the whole envelope, the delivery is complete. -/
theorem TakingIn.complete {reader : EnvelopeReader} {partials : Partials H}
    (h : TakingIn F s₀ dir receiver reader partials s) {m : OpenedManifest}
    (hfinish : reader.finish = .ok m) :
    Complete F receiver m.sender.deviceId partials.placed s := by
  obtain ⟨taken, events, hconforms, -, hfailed, haccepted, h⟩ := h
  rw [EnvelopeReader.finish, hfailed, if_neg Bool.false_ne_true] at hfinish
  rcases hstage : reader.stage with _ | _ | _ | _
  all_goals rw [hstage] at hfinish
  case done =>
    rcases hmanifest : reader.manifest with _ | m'
    · rw [hmanifest] at hfinish
      cases hfinish
    rw [hmanifest] at hfinish
    obtain rfl := Except.ok.inj hfinish
    obtain ⟨whole, rfl, hdelivers⟩ := hconforms.reportedAll hstage hmanifest
    rcases h with ⟨hnil, -⟩ | ⟨m, es, k, b, heq, hands, -, hdoing⟩
    · cases hnil
    obtain ⟨hm, rfl⟩ := List.cons.inj heq
    obtain rfl := ReaderEvent.manifest.inj hm
    have hall : Hands ctx.primitives m'.items 0 [] (whole ++ []) m'.items.length [] := by
      rw [List.append_nil]
      exact .of_delivers hdelivers
    cases hands.rest hall
    refine ⟨m', haccepted m' hmanifest, rfl, fun hout => ?_⟩
    obtain ⟨hlength, hnodup, hholds, -, -⟩ := hdoing.filled hout
    refine ⟨hnodup, List.forall₂_iff_get.mpr ⟨hlength.symm, fun i hi hj => ?_⟩⟩
    exact hholds i _ _ (List.getElem?_eq_getElem hi) (List.getElem?_eq_getElem hj)
  all_goals cases hfinish

/-- **A feed and its events.** -/
theorem applyAll_feed (hdir : InStaging dir) {bytes : List UInt8}
    {reader reader' : EnvelopeReader} {events : List ReaderEvent}
    (hfeed : reader.feed ctx.primitives receiver bytes = (.ok events, reader'))
    (partials : Partials H) :
    Triple (TakingIn F s₀ dir receiver reader partials) (ctx.applyAll dir partials events)
      (GoesOn F s₀ (TakingIn F s₀ dir receiver reader')) (F.Spares s₀) := by
  rintro s ⟨taken, before, hconforms, hfits, hfailed, haccepted, h⟩
  obtain ⟨hinner, hfailed'⟩ :
      reader.feedInner ctx.primitives receiver bytes = .ok (events, reader') ∧
        reader'.failed = false := by
    rw [EnvelopeReader.feed, hfailed, if_neg Bool.false_ne_true] at hfeed
    split at hfeed
    · rename_i events₁ reader₁ hinner
      obtain ⟨hevents, rfl⟩ := Prod.mk.inj hfeed
      obtain rfl := Except.ok.inj hevents
      exact ⟨hinner, (EnvelopeReader.failed_of_feedInner hinner).trans hfailed⟩
    · cases hfeed
  obtain ⟨taken', -, hconforms', hfits'⟩ := EnvelopeReader.feedInner_conforms hconforms hfits hinner
  have haccepted' := EnvelopeReader.accepted_of_feedInner hinner haccepted
  have hgoesOn : ∀ {r : Option CollectStep × Partials H} {s : σ} {m es k b},
      before ++ events = .manifest m :: es → Hands ctx.primitives m.items 0 [] es k b →
      GoesOn F s₀ (DoingWith F s₀ dir m.items k b) r s →
      GoesOn F s₀ (TakingIn F s₀ dir receiver reader') r s := by
    rintro ⟨step | _, partials'⟩ s m es k b heq hands ⟨hspares, hr⟩
    · exact ⟨hspares, taken', _, hconforms', hfits', hfailed', haccepted',
        .inr ⟨m, es, k, b, heq, hands, hr⟩⟩
    · exact ⟨hspares, hr⟩
  rcases h with ⟨rfl, hpartials, hwork⟩ | ⟨m, es, k, b, rfl, hands, hdoing⟩
  · rcases Hands.of_reported hconforms'.reported with hnil | ⟨m, es, k, b, heq, hands⟩
    · obtain rfl : events = [] := hnil
      have hspec : Triple (fun s => AtWork F dir s₀ none s ∧ FreeFrom F dir 0 s)
          (ctx.applyAll dir partials []) (GoesOn F s₀ (TakingIn F s₀ dir receiver reader'))
          (F.Spares s₀) :=
        Triple.pure.pre fun s h => ⟨h.1.toSpares, taken', _, hconforms', hfits', hfailed',
          haccepted', .inl ⟨rfl, hpartials, h⟩⟩
      exact hspec s hwork
    · have hevents : events = .manifest m :: es := heq
      have hspec : Triple (fun s => AtWork F dir s₀ none s ∧ FreeFrom F dir 0 s)
          (ctx.applyAll dir partials events) (GoesOn F s₀ (TakingIn F s₀ dir receiver reader'))
          (F.Spares s₀) := by
        rw [hevents]
        refine (apply_manifest m partials hpartials).bind fun r => ?_
        obtain ⟨step | _, partials'⟩ := r
        · exact ((applyAll_spec hdir hands partials').post fun r s h => hgoesOn heq hands h).pre
            fun s h => h.2
        · exact Triple.pure.pre fun s h => h
      exact hspec s hwork
  · rcases Hands.of_reported hconforms'.reported with hnil | ⟨m', es', k', b', heq, hands'⟩
    · cases hnil
    · obtain ⟨hm, rfl⟩ := List.cons.inj heq
      obtain rfl := ReaderEvent.manifest.inj hm
      exact ((applyAll_spec hdir (hands.rest hands') partials).post fun r s h =>
        hgoesOn heq hands' h) s hdoing

/-- **A download** touches nothing outside the staging directory, and when it ends with the envelope
opened every item is at its destination. -/
theorem takeIn_spec (hdir : InStaging dir) (now : UnixTime) (trust : SenderTrust)
    (stream : List (Except BrokrError (List UInt8))) (reader : EnvelopeReader)
    (partials : Partials H) :
    Triple (TakingIn F s₀ dir (ctx.receiver now trust) reader partials)
      (ctx.takeIn now trust dir stream reader partials) (Ends F s₀ (ctx.receiver now trust))
      (F.Spares s₀) := by
  induction stream generalizing reader partials with
  | nil =>
      rw [takeIn]
      split
      · rename_i m hfinish
        refine Triple.pure.pre fun s h => ⟨h.spares, fun sender placed heq => ?_⟩
        cases heq
        exact h.complete hfinish
      · exact Triple.pure.pre fun s h => ⟨h.spares, nofun⟩
  | cons piece rest ih =>
      rcases piece with e | bytes
      · exact Triple.fail.pre fun s h => h.spares
      rw [takeIn]
      split
      · rename_i e reader' hfeed
        refine Triple.pure.pre fun s h => ⟨h.spares, fun sender placed heq => ?_⟩
        unfold refusedFeed at heq
        split at heq
        · split at heq <;> cases heq
        · cases heq
      · rename_i events reader' hfeed
        refine (applyAll_feed hdir hfeed partials).bind fun r => ?_
        obtain ⟨_ | step, partials'⟩ := r
        · exact (ih reader' partials').pre fun s h => h.2
        · exact Triple.pure.pre fun s h => ⟨h.1, fun sender placed heq => absurd heq (h.2 _ _)⟩

/-! ### Passes -/

/-- The directory of a delivery is a staging directory. -/
theorem inStaging_deferred {id : Text}
    (h : RelPath.new (".tradr-partial/deferred-".toList ++ id) = .ok dir) : InStaging dir := by
  have hvalue := RelPath.new_value h
  have hsplit : ".tradr-partial/deferred-".toList ++ id =
      partialRootName ++ '/' :: ("deferred-".toList ++ id) := rfl
  have hne : dir.value ≠ [] := by
    rw [hvalue, hsplit]
    simp
  have hslash : '/' ∉ partialRootName := by decide
  unfold InStaging
  rw [RelPath.components_eq_splitOn hne, hvalue, hsplit, List.splitOn_append_cons_self,
    List.splitOn_eq_singleton hslash]
  rfl

/-- A delivery is complete, as one of its downloads has accepted it. -/
def Delivered (F : ListingStore ctx.vfs N) (log : List (CollectEvent σ)) (id : Text)
    (sender : DeviceId) (placed : List RelPath) (s : σ) : Prop :=
  ∃ now trust, .downloading id now trust ∈ log ∧
    Complete F (ctx.receiver now trust) sender placed s

/-- Passes that have touched nothing outside the staging directory, and in which what has arrived,
unless before them, was complete. -/
def Whole (F : ListingStore ctx.vfs N) (s₀ : σ) (old : List (CollectEvent σ))
    (w : Collecting σ B J) : Prop :=
  F.Spares s₀ w.store ∧ ∀ id sender placed s, .arrived id sender placed s ∈ w.log →
    .arrived id sender placed s ∈ old ∨ Delivered F w.log id sender placed s

variable {old : List (CollectEvent σ)}

section Calls

variable {A E : Type} {G : List (CollectEvent σ) → Prop}

/-- A call on the filesystem. -/
theorem onStore_whole {m : Eff σ E A} {P X : σ → Prop} {Q : A → σ → Prop} (hm : Triple P m Q X)
    (hQ : ∀ a s, Q a s → F.Spares s₀ s) (hX : ∀ s, X s → F.Spares s₀ s) :
    Triple (fun w => Whole F s₀ old w ∧ P w.store ∧ G w.log) (onStore (B := B) (J := J) m)
      (fun a w => Whole F s₀ old w ∧ Q a w.store ∧ G w.log) (Whole F s₀ old) := fun _ h =>
  ⟨fun a ha => ⟨⟨hQ a _ ((hm _ h.2.1).1 a ha), h.1.2⟩, (hm _ h.2.1).1 a ha, h.2.2⟩,
    fun e he => ⟨hX _ ((hm _ h.2.1).2 e he), h.1.2⟩⟩

theorem onBrokr_whole (m : Eff B BrokrError A) {P : σ → List (CollectEvent σ) → Prop} :
    Triple (fun w => Whole F s₀ old w ∧ P w.store w.log) (onBrokr (J := J) m)
      (fun _ w => Whole F s₀ old w ∧ P w.store w.log) (Whole F s₀ old) :=
  fun _ h => ⟨fun _ _ => h, fun _ _ => h.1⟩

theorem onJournal_whole (m : Eff J PlacedError A) {P : σ → List (CollectEvent σ) → Prop} :
    Triple (fun w => Whole F s₀ old w ∧ P w.store w.log) (onJournal (B := B) m)
      (fun _ w => Whole F s₀ old w ∧ P w.store w.log) (Whole F s₀ old) :=
  fun _ h => ⟨fun _ _ => h, fun _ _ => h.1⟩

/-- A call on the Brokr or the journal, of which nothing more is to be said. -/
theorem onBrokr_quiet (m : Eff B BrokrError A) : Triple (Whole F s₀ old) (onBrokr (J := J) m)
    (fun _ => Whole F s₀ old) (Whole F s₀ old) := fun _ h => ⟨fun _ _ => h, fun _ _ => h⟩

theorem onJournal_quiet (m : Eff J PlacedError A) : Triple (Whole F s₀ old) (onJournal (B := B) m)
    (fun _ => Whole F s₀ old) (Whole F s₀ old) := fun _ h => ⟨fun _ _ => h, fun _ _ => h⟩

end Calls

/-- Another event, that is no arrival or one of a complete delivery. -/
theorem Whole.note {w : Collecting σ B J} (h : Whole F s₀ old w) {event : CollectEvent σ}
    (hevent : ∀ id sender placed s, event = .arrived id sender placed s →
      Delivered F w.log id sender placed s) :
    Whole F s₀ old { w with log := w.log ++ [event] } := by
  have hmore : ∀ {id sender placed s}, Delivered F w.log id sender placed s →
      Delivered F (w.log ++ [event]) id sender placed s := fun ⟨now, trust, hmem, hcomplete⟩ =>
    ⟨now, trust, List.mem_append_left _ hmem, hcomplete⟩
  refine ⟨h.1, fun id sender placed s hmem => ?_⟩
  rcases List.mem_append.mp hmem with hmem | hmem
  · exact (h.2 id sender placed s hmem).imp_right hmore
  · exact .inr (hmore (hevent id sender placed s (List.mem_singleton.mp hmem).symm))

/-- What is left of a delivery is removed. -/
theorem removePartial_whole (hdir : InStaging dir) : Triple (Whole F s₀ old)
    (onStore (ctx.removePartial dir))
    (fun _ w => Whole F s₀ old w ∧ F.Spares s₀ w.store ∧ FreeFrom F dir 0 w.store)
    (Whole F s₀ old) :=
  ((onStore_whole (G := fun _ => True) (removePartial_spec hdir) (fun _ _ h => h.1)
    fun _ h => h).pre fun _ h => ⟨h, h.1, trivial⟩).post fun _ _ h => ⟨h.1, h.2.1⟩

/-- A download of an envelope from its beginning. -/
theorem takeIn_new (hdir : InStaging dir) (now : UnixTime) (trust : SenderTrust)
    (stream : List (Except BrokrError (List UInt8))) :
    Triple (fun s => F.Spares s₀ s ∧ FreeFrom F dir 0 s)
      (ctx.takeIn now trust dir stream .new ⟨[], none, []⟩) (Ends F s₀ (ctx.receiver now trust))
      (F.Spares s₀) := by
  rintro s ⟨hs, hfree⟩
  have hspec : Triple (TakingIn F s dir (ctx.receiver now trust) .new ⟨[], none, []⟩) _ _ _ :=
    takeIn_spec hdir now trust stream .new ⟨[], none, []⟩
  replace hspec := hspec s ⟨0, [], EnvelopeReader.conforms_new, .inl rfl, rfl, nofun,
      .inl ⟨rfl, ⟨rfl, rfl⟩, .start hs.valid hfree, hfree⟩⟩
  exact ⟨fun step hstep => ⟨hs.trans (hspec.1 step hstep).1, (hspec.1 step hstep).2⟩,
    fun e he => hs.trans (hspec.2 e he)⟩

/-- The outcome of the downloads of a delivery: when its envelope was opened it is complete. -/
def Outcome (F : ListingStore ctx.vfs N) (id : Text) (outcome : Except PassStop CollectStep)
    (s : σ) (log : List (CollectEvent σ)) : Prop :=
  ∀ sender placed, outcome = .ok (.opened sender placed) → Delivered F log id sender placed s

/-- **A download of a delivery.** -/
theorem attempt_whole (hdir : InStaging dir) (now : UnixTime) (trust : SenderTrust) (id : Text) :
    Triple (Whole F s₀ old) (Eff.attempt (F := PassStop) (ctx.attempt now trust id dir))
      (fun outcome w => Whole F s₀ old w ∧ Outcome F id outcome w.store w.log)
      (Whole F s₀ old) := by
  have hattempt : Triple (Whole F s₀ old) (ctx.attempt now trust id dir)
      (fun step w => Whole F s₀ old w ∧ Outcome F id (.ok step) w.store w.log)
      (Whole F s₀ old) := by
    refine (removePartial_whole hdir).bind fun _ => ?_
    refine Triple.bind (Q := fun _ w => Whole F s₀ old w ∧
      (F.Spares s₀ w.store ∧ FreeFrom F dir 0 w.store) ∧ .downloading id now trust ∈ w.log) ?_
      fun _ => ?_
    · refine fun w h => ⟨fun _ _ => ⟨h.1.note nofun, h.2, ?_⟩, nofun⟩
      exact List.mem_append_right _ (List.mem_singleton_self _)
    refine (onBrokr_whole (P := fun s log => (F.Spares s₀ s ∧ FreeFrom F dir 0 s) ∧
      .downloading id now trust ∈ log) _).bind fun stream => ?_
    have hnew : Triple (fun s => F.Spares s₀ s ∧ FreeFrom F dir 0 s)
        (ctx.takeIn now trust dir stream .new ⟨[], none, []⟩) (Ends F s₀ (ctx.receiver now trust))
        (F.Spares s₀) := takeIn_new hdir now trust stream
    refine Triple.post (Q := fun step w => Whole F s₀ old w ∧
      Ends F s₀ (ctx.receiver now trust) step w.store ∧ .downloading id now trust ∈ w.log)
      (onStore_whole hnew (fun _ _ h => h.1) fun _ h => h) fun step w h => ?_
    refine ⟨h.1, fun sender placed heq => ⟨now, trust, h.2.2, ?_⟩⟩
    exact h.2.1.2 sender placed (Except.ok.inj heq)
  refine hattempt.attempt.post fun outcome w h => ?_
  rcases outcome with e | step
  · exact ⟨h.2 e rfl, nofun⟩
  · exact h.1 step rfl

/-- Telling the Brokr. -/
theorem acknowledge_whole (id : Text) (refused : Option RefusedReason) :
    Triple (Whole F s₀ old) (ctx.acknowledge id refused) (fun _ => Whole F s₀ old)
      (Whole F s₀ old) := by
  refine Triple.bind (Q := fun _ => Whole F s₀ old) ?_ fun _ => onBrokr_quiet _
  exact fun w h => ⟨fun _ _ => h.note nofun, nofun⟩

/-- A second download that still misses keys has not opened the envelope either. -/
theorem outcome_secondStep {id : Text} {outcome : Except PassStop CollectStep} {s : σ}
    {log : List (CollectEvent σ)} (h : Outcome F id outcome s log) :
    Outcome F id (outcome.map secondStep) s log := by
  intro sender placed heq
  rcases outcome with e | step
  · cases heq
  · cases step with
    | opened sender' placed' => exact h sender placed heq
    | refused why => exact h sender placed heq
    | jwksNeeded uri => cases heq

/-- What comes after the downloads. -/
theorem conclude_whole (hdir : InStaging dir) (id : Text) (outcome : Except PassStop CollectStep) :
    Triple (fun w => Whole F s₀ old w ∧ Outcome F id outcome w.store w.log)
      (ctx.conclude id dir outcome) (fun _ => Whole F s₀ old) (Whole F s₀ old) := by
  have hremove : Triple (Whole F s₀ old) (onStore (ctx.removePartial dir))
      (fun _ => Whole F s₀ old) (Whole F s₀ old) :=
    (removePartial_whole hdir).post fun _ w h => h.1
  rcases outcome with (e | _) | (⟨sender, placed⟩ | why | uri)
  · exact (hremove.bind fun _ => Triple.fail).pre fun w h => h.1
  · exact Triple.fail.pre fun w h => h.1
  · refine (onJournal_whole _).bind fun _ => ?_
    refine Triple.bind (Q := fun _ => Whole F s₀ old) ?_ fun _ => ?_
    · refine fun w h => ⟨fun _ _ => h.1.note fun id' sender' placed' s heq => ?_, nofun⟩
      cases heq
      exact h.2 sender placed rfl
    · refine hremove.bind fun _ => ?_
      refine (acknowledge_whole id none).bind fun _ => ?_
      exact (onJournal_quiet _).bind fun _ => Triple.pure.pre fun _ h => h
  · refine (hremove.pre fun w h => h.1).bind fun _ => ?_
    exact (acknowledge_whole id (some why)).bind fun _ => Triple.pure.pre fun _ h => h
  · exact Triple.fail.pre fun w h => h.1

/-- **A delivery.** -/
theorem collectDelivery_whole (c : Circumstances) (id : Text) :
    Triple (Whole F s₀ old) (ctx.collectDelivery c id) (fun _ => Whole F s₀ old)
      (Whole F s₀ old) := by
  unfold collectDelivery
  split_ifs
  · exact Triple.pure.pre fun _ h => h
  refine Triple.bind ((onStore_whole (G := fun _ => True) (localPath_spec _) (fun _ _ h => h.2)
    fun _ h => h).pre fun w h => ⟨h, h.1, trivial⟩) fun dir => ?_
  by_cases hnew : RelPath.new (".tradr-partial/deferred-".toList ++ id) = .ok dir
  swap
  · exact fun w h => absurd h.2.1.1 hnew
  have hdir := inStaging_deferred hnew
  refine ((onJournal_quiet _).pre fun w h => h.1).bind fun found => ?_
  split_ifs
  · refine ((removePartial_whole hdir).post fun _ w h => h.1).bind fun _ => ?_
    refine (acknowledge_whole id none).bind fun _ => ?_
    exact (onJournal_quiet _).bind fun _ => Triple.pure.pre fun _ h => h
  · refine (attempt_whole hdir c.now c.trust id).bind fun first => ?_
    split
    · split
      · exact Triple.fail.pre fun w h => h.1
      · refine ((attempt_whole hdir c.laterNow c.laterTrust id).pre fun w h => h.1).bind
          fun again => ?_
        exact (conclude_whole hdir id _).pre fun w h => ⟨h.1, outcome_secondStep h.2⟩
    · exact conclude_whole hdir id _

/-- The deliveries of a listing. -/
theorem collectEntries_whole (c : ℕ → Circumstances) (i : ℕ) (entries : List InboxEntry)
    (report : CollectReport) : Triple (Whole F s₀ old) (ctx.collectEntries c i entries report)
      (fun _ => Whole F s₀ old) (Whole F s₀ old) := by
  induction entries generalizing i report with
  | nil => exact Triple.pure.pre fun _ h => h
  | cons entry rest ih =>
      refine (collectDelivery_whole (c i) entry.id).bind fun answer => ?_
      rcases answer with _ | why
      · exact ih _ _
      · exact ih _ _

/-- **A pass.** -/
theorem collectOnce_whole (c : ℕ → Circumstances) :
    Triple (Whole F s₀ old) (ctx.collectOnce c) (fun _ => Whole F s₀ old) (Whole F s₀ old) := by
  refine (onBrokr_quiet _).bind fun listed => ?_
  refine (onJournal_quiet _).bind fun _ => ?_
  exact collectEntries_whole c 0 _ _

end CollectContext

end Tradr
