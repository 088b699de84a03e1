import Mathlib.Data.Finset.Card
import Tradr.ReadRanges

/-!
# Paging Through a Directory

A listing is served in pages: a page starts after the entry that the cursor names, and its last name
is the cursor of the next one. Between two pages the directory may change in any way. Where the entry
of the cursor is gone, the handler starts over.

## Main definitions

* `Directory`: what a directory holds at a moment.
* `pageAfter`: the page that a cursor calls for.
* `DirWalk`: a client that asks for page after page of a changing directory.
* `PagesThrough`: such a walk ends soon, in order, and with all that was there throughout.
* `GoesOn`: at each request the page fits, and the cursor's entry is there or nothing is before it.

## Main results

* `listingPage_eq_pageAfter`: a page is the one called for if the cursor's entry is still there.
* `DirWalk.invariant`: what a walk has received, request by request.
* `pagesThrough_iff`: a client pages through a directory if and only if the walk goes on.
-/

namespace Tradr

/-! ### A directory -/

/-- What a directory holds at a moment: entries with different names, none of them empty. -/
structure Directory where
  entries : List DirEntry
  distinct : (entries.map DirEntry.name).Nodup
  named : ∀ e ∈ entries, e.name ≠ []

namespace Directory

/-- Its entries by their names. -/
def sorted (d : Directory) : List DirEntry :=
  d.entries.insertionSort fun a b => a.name ≤ b.name

/-- An entry of this name is there. -/
def Has (d : Directory) (name : Text) : Prop := ∃ e ∈ d.entries, e.name = name

/-- Sorting keeps the entries. -/
theorem mem_sorted {d : Directory} {e : DirEntry} : e ∈ d.sorted ↔ e ∈ d.entries :=
  (List.perm_insertionSort _ _).mem_iff

/-- The sorted names increase. -/
theorem pairwise_sorted (d : Directory) : d.sorted.Pairwise fun a b => a.name < b.name := by
  have htotal : Std.Total fun a b : DirEntry => a.name ≤ b.name :=
    ⟨fun a b => le_total a.name b.name⟩
  have htrans : IsTrans DirEntry fun a b => a.name ≤ b.name := ⟨fun _ _ _ => le_trans⟩
  have hle : d.sorted.Pairwise fun a b => a.name ≤ b.name := List.pairwise_insertionSort _ d.entries
  have hnodup : (d.sorted.map DirEntry.name).Nodup :=
    ((List.perm_insertionSort _ d.entries).map _).nodup_iff.mpr d.distinct
  refine (hle.and (List.pairwise_map.mp hnodup)).imp fun {a b} h => ?_
  exact (le_iff_lt_or_eq.mp h.1).resolve_right h.2

end Directory

/-! ### A page -/

/-- The most entries of a page. -/
def pageLimit (req : ListDir) : ℕ :=
  if req.limit = 0 then Browse.defaultListLimit else req.limit.toNat

/-- A page has room for an entry. -/
theorem pageLimit_pos (req : ListDir) : 0 < pageLimit req := by
  unfold pageLimit
  split_ifs with h
  · decide
  · exact Nat.pos_of_ne_zero fun hzero => h (UInt32.toNat_inj.mp hzero)

/-- A page of the entries that remain: the first ones, and the name of the last of them if there are
more. -/
def pageOf (limit total : ℕ) (rest : List DirEntry) : DirListing :=
  ⟨rest.take limit,
    if limit < rest.length then (((rest.take limit).getLast?.map DirEntry.name).getD []) else [],
    total⟩

/-- The page that a cursor calls for: of the entries whose names come after it. -/
def pageAfter (req : ListDir) (d : Directory) : DirListing :=
  pageOf (pageLimit req) d.sorted.length (d.sorted.filter fun e => req.cursor < e.name)

/-- Where the handler starts a page. -/
def startIdx (cursor : Text) (sorted : List DirEntry) : ℕ :=
  if cursor = [] then 0
  else
    match sorted.findIdx? fun e => e.name = cursor with
    | some i => i + 1
    | none => 0

/-- The page of the handler is one of the entries from there on. -/
theorem listingPage_eq_pageOf (req : ListDir) (sorted : List DirEntry) :
    Browse.listingPage req sorted =
      pageOf (pageLimit req) sorted.length (sorted.drop (startIdx req.cursor sorted)) := by
  have hmore : startIdx req.cursor sorted + pageLimit req < sorted.length ↔
      pageLimit req < (sorted.drop (startIdx req.cursor sorted)).length := by
    rw [List.length_drop]
    omega
  unfold pageOf
  simp only [← hmore]
  rfl

/-- **A page is the one called for** if the entry that the cursor names is there, or nothing is before
it. -/
theorem listingPage_eq_pageAfter {req : ListDir} {d : Directory}
    (h : d.Has req.cursor ∨ ∀ e ∈ d.entries, req.cursor < e.name) :
    Browse.listingPage req d.sorted = pageAfter req d := by
  rw [listingPage_eq_pageOf, pageAfter]
  congr 1
  by_cases hall : ∀ e ∈ d.entries, req.cursor < e.name
  · have hstart : startIdx req.cursor d.sorted = 0 := by
      unfold startIdx
      split_ifs with hnil
      · rfl
      · have hnone : d.sorted.findIdx? (fun e => e.name = req.cursor) = none := by
          rw [List.findIdx?_eq_none_iff]
          intro e he
          have hlt := hall e (Directory.mem_sorted.mp he)
          rw [decide_eq_false_iff_not]
          intro heq
          rw [heq] at hlt
          exact lt_irrefl _ hlt
        rw [hnone]
    rw [hstart, List.drop_zero, List.filter_eq_self.mpr]
    intro e he
    exact decide_eq_true (hall e (Directory.mem_sorted.mp he))
  · obtain ⟨x, hx, hname⟩ := h.resolve_right hall
    have hcursor : req.cursor ≠ [] := by
      rw [← hname]
      exact d.named x hx
    obtain ⟨i, hi⟩ : ∃ i, d.sorted.findIdx? (fun e => e.name = req.cursor) = some i := by
      rw [← Option.isSome_iff_exists, List.findIdx?_isSome, List.any_eq_true]
      exact ⟨x, Directory.mem_sorted.mpr hx, decide_eq_true hname⟩
    obtain ⟨hlt, hat, -⟩ := List.findIdx?_eq_some_iff_getElem.mp hi
    have hat : d.sorted[i].name = req.cursor := of_decide_eq_true hat
    have hstart : startIdx req.cursor d.sorted = i + 1 := by
      rw [startIdx, if_neg hcursor, hi]
    have hcut : d.sorted = d.sorted.take i ++ d.sorted[i] :: d.sorted.drop (i + 1) := by
      rw [List.getElem_cons_drop, List.take_append_drop]
    have hpairwise := d.pairwise_sorted
    rw [hcut, List.pairwise_append, List.pairwise_cons] at hpairwise
    obtain ⟨-, ⟨hafter, -⟩, hbefore⟩ := hpairwise
    rw [hstart]
    conv_rhs => rw [hcut]
    rw [List.filter_append, List.filter_cons_of_neg, List.filter_eq_nil_iff.mpr,
      List.filter_eq_self.mpr, List.nil_append]
    · intro e he
      exact decide_eq_true (hat ▸ hafter e he)
    · intro e he hgt
      have hless := hbefore e he _ List.mem_cons_self
      rw [hat] at hless
      exact lt_irrefl _ (lt_trans hless (of_decide_eq_true hgt))
    · rw [hat]
      exact fun hlt => lt_irrefl _ (of_decide_eq_true hlt)

/-- Where the cursor's entry is gone and something is before it, a page starts with that. -/
theorem listingPage_starts_over (req : ListDir) {d : Directory} (hgone : ¬d.Has req.cursor)
    {e : DirEntry} (he : e ∈ d.entries) (hle : e.name ≤ req.cursor) :
    ∃ first ∈ (Browse.listingPage req d.sorted).entries, first.name ≤ req.cursor := by
  have hstart : startIdx req.cursor d.sorted = 0 := by
    unfold startIdx
    split_ifs
    · rfl
    · have hnone : d.sorted.findIdx? (fun e => e.name = req.cursor) = none := by
        rw [List.findIdx?_eq_none_iff]
        intro x hx
        rw [decide_eq_false_iff_not]
        exact fun heq => hgone ⟨x, Directory.mem_sorted.mp hx, heq⟩
      rw [hnone]
  rw [listingPage_eq_pageOf, hstart, List.drop_zero]
  have hmem := Directory.mem_sorted.mpr he
  have hpairwise := d.pairwise_sorted
  rcases hsorted : d.sorted with _ | ⟨first, rest⟩
  · rw [hsorted] at hmem
    cases hmem
  · rw [hsorted] at hmem hpairwise
    obtain ⟨k, hk⟩ := Nat.exists_eq_add_one_of_ne_zero (pageLimit_pos req).ne'
    refine ⟨first, ?_, ?_⟩
    · rw [pageOf, hk, List.take_succ_cons]
      exact List.mem_cons_self
    · rcases List.mem_cons.mp hmem with rfl | hrest
      · exact hle
      · exact le_trans (le_of_lt ((List.pairwise_cons.mp hpairwise).1 e hrest)) hle

/-- A page with all that remains is the last one. -/
theorem pageOf_of_le {limit total : ℕ} {rest : List DirEntry} (h : rest.length ≤ limit) :
    pageOf limit total rest = ⟨rest, [], total⟩ := by
  rw [pageOf, if_neg (Nat.not_lt_of_le h), List.take_of_length_le h]

/-- Any other page ends with the entry that is its cursor, and leaves some. -/
theorem pageOf_of_lt (total : ℕ) {limit : ℕ} {rest : List DirEntry} (hpos : 0 < limit)
    (h : limit < rest.length) :
    ∃ init last next more, rest = init ++ last :: next :: more ∧
      pageOf limit total rest = ⟨init ++ [last], last.name, total⟩ := by
  have hne : rest.take limit ≠ [] := by
    rw [← List.length_pos_iff, List.length_take]
    omega
  obtain ⟨next, more, hmore⟩ : ∃ next more, rest.drop limit = next :: more := by
    refine List.exists_cons_of_ne_nil ?_
    rw [← List.length_pos_iff, List.length_drop]
    omega
  have hfront := List.dropLast_append_getLast hne
  refine ⟨(rest.take limit).dropLast, (rest.take limit).getLast hne, next, more, ?_, ?_⟩
  · rw [← hmore, List.append_cons, hfront, List.take_append_drop]
  · rw [pageOf, if_pos h, List.getLast?_eq_some_getLast hne, hfront]
    rfl

/-! ### A walk -/

variable {σ H : Type}

/-- The answer to a request, if it fits its frame. -/
def dirAnswer (ctx : Browse.BrowseContext σ H) (req : ListDir) (d : Directory) :
    Option DirListing :=
  match ctx.codec.encodeFrame (.dirListing (Browse.listingPage req d.sorted))
    ctx.maxFrameSize with
  | .ok _ => some (Browse.listingPage req d.sorted)
  | .error _ => none

/-- The handler answers with a page of what it finds. -/
theorem handleListDir_eq {ctx : Browse.BrowseContext σ H} {req : ListDir} {d : Directory}
    {w : Browse.World σ} (hlist : (ctx.vfs.list w.store req.path).1 = .ok d.entries) :
    Browse.handleListDir ctx req w =
      Browse.respond ctx (.dirListing (Browse.listingPage req d.sorted))
        { w with store := (ctx.vfs.list w.store req.path).2 } := by
  have hentries : Browse.refusing (Browse.call (ctx.vfs.list · req.path)) w =
      (.ok d.entries, { w with store := (ctx.vfs.list w.store req.path).2 }) :=
    Browse.refusing_of_ok hlist
  unfold Browse.handleListDir
  rw [Eff.bind_of_ok hentries]
  rfl

/-- **The handler of a `ListDir`** sends the answer in a frame, -/
theorem handleListDir_of_answer {ctx : Browse.BrowseContext σ H} {req : ListDir} {d : Directory}
    {w : Browse.World σ} (hlist : (ctx.vfs.list w.store req.path).1 = .ok d.entries)
    (hsend : Browse.TakesAll w.send) {page : DirListing} (h : dirAnswer ctx req d = some page) :
    ∃ frame w', Browse.handleListDir ctx req w = (.ok (), w') ∧
      ctx.codec.encodeFrame (.dirListing page) ctx.maxFrameSize = .ok frame ∧
      w'.send.written = w.send.written ++ frame := by
  unfold dirAnswer at h
  rcases henc : ctx.codec.encodeFrame (.dirListing (Browse.listingPage req d.sorted))
    ctx.maxFrameSize with e | frame
  · rw [henc] at h
    cases h
  · rw [henc] at h
    obtain rfl := Option.some.inj h
    have hsent := Browse.writeAll_of_takesAll
      (w := { w with store := (ctx.vfs.list w.store req.path).2 }) hsend frame
    have hanswered : Browse.handleListDir ctx req w = _ := handleListDir_eq hlist
    rw [Browse.respond, henc] at hanswered
    exact ⟨frame, _, hanswered.trans hsent, henc, rfl⟩

/-- and nothing where it does not fit. -/
theorem handleListDir_of_no_answer {ctx : Browse.BrowseContext σ H} {req : ListDir}
    {d : Directory} {w : Browse.World σ}
    (hlist : (ctx.vfs.list w.store req.path).1 = .ok d.entries) (h : dirAnswer ctx req d = none) :
    ∃ w', Browse.handleListDir ctx req w = (.error (.stream (.io .invalidData)), w') ∧
      w'.send = w.send := by
  unfold dirAnswer at h
  rcases henc : ctx.codec.encodeFrame (.dirListing (Browse.listingPage req d.sorted))
    ctx.maxFrameSize with e | frame
  · refine ⟨{ w with store := (ctx.vfs.list w.store req.path).2 }, ?_, rfl⟩
    rw [handleListDir_eq hlist, Browse.respond, henc]
    rfl
  · rw [henc] at h
    cases h

/-- A client that asks for a first page and then for the next one as long as there is a cursor: the
pages so far, and the cursor to go on with. The directory is what it is at each request. -/
inductive DirWalk (ctx : Browse.BrowseContext σ H) (req : ListDir) (d : ℕ → Directory) :
    List DirListing → Text → Prop
  | start : DirWalk ctx req d [] []
  | page {pages : List DirListing} {cursor : Text} {page : DirListing} :
      DirWalk ctx req d pages cursor → (pages = [] ∨ cursor ≠ []) →
      dirAnswer ctx { req with cursor } (d pages.length) = some page →
      DirWalk ctx req d (pages ++ [page]) page.nextCursor

/-- The names on pages. -/
def pageNames (pages : List DirListing) : List Text :=
  pages.flatMap fun page => page.entries.map DirEntry.name

/-- **A client pages through a directory**: the walk ends after no more pages than names ever
existed, or one; the names increase over the whole walk; and every name that existed throughout it
was received. -/
def PagesThrough (ctx : Browse.BrowseContext σ H) (req : ListDir) (d : ℕ → Directory)
    (ever : Finset Text) : Prop :=
  ∃ pages, DirWalk ctx req d pages [] ∧ pages ≠ [] ∧ pages.length ≤ max 1 ever.card ∧
    (pageNames pages).Pairwise (· < ·) ∧
    ∀ name, (∀ i < pages.length, (d i).Has name) → name ∈ pageNames pages

/-- At each request of a walk the page that it calls for fits its frame, and the entry that the cursor
names is there or nothing is before it. -/
def GoesOn (ctx : Browse.BrowseContext σ H) (req : ListDir) (d : ℕ → Directory) : Prop :=
  ∀ pages cursor, DirWalk ctx req d pages cursor → (pages = [] ∨ cursor ≠ []) →
    (∃ frame, ctx.codec.encodeFrame
      (.dirListing (pageAfter { req with cursor } (d pages.length))) ctx.maxFrameSize = .ok frame) ∧
    ((d pages.length).Has cursor ∨ ∀ e ∈ (d pages.length).entries, cursor < e.name)

variable {ctx : Browse.BrowseContext σ H} {req : ListDir} {d : ℕ → Directory} {ever : Finset Text}
  {pages : List DirListing} {cursor : Text}

/-- What is answered is the page of the handler. -/
theorem dirAnswer_eq_some {d : Directory} {page : DirListing} :
    dirAnswer ctx req d = some page ↔ Browse.listingPage req d.sorted = page ∧
      ∃ frame, ctx.codec.encodeFrame (.dirListing page) ctx.maxFrameSize = .ok frame := by
  unfold dirAnswer
  rcases henc : ctx.codec.encodeFrame (.dirListing (Browse.listingPage req d.sorted))
    ctx.maxFrameSize with e | frame
  · refine ⟨fun h => (by cases h), ?_⟩
    rintro ⟨rfl, frame, hframe⟩
    cases henc.symm.trans hframe
  · constructor
    · intro h
      obtain rfl := Option.some.inj h
      exact ⟨rfl, frame, henc⟩
    · rintro ⟨rfl, -⟩
      rfl

/-- The names of one page more. -/
theorem pageNames_append (pages : List DirListing) (page : DirListing) :
    pageNames (pages ++ [page]) = pageNames pages ++ page.entries.map DirEntry.name := by
  simp [pageNames]

/-! ### What a walk has received -/

/-- What the pages of a walk hold: names in order, up to the cursor; at least one a page; and of what
was there throughout all, up to the cursor. -/
structure WalkHolds (d : ℕ → Directory) (ever : Finset Text) (pages : List DirListing)
    (cursor : Text) : Prop where
  started : pages = [] → cursor = []
  ordered : (pageNames pages).Pairwise (· < ·)
  existed : ∀ name ∈ pageNames pages, name ∈ ever
  upTo : cursor ≠ [] → ∀ name ∈ pageNames pages, name ≤ cursor
  more : cursor ≠ [] → ∃ name ∈ ever, cursor < name
  filled : cursor ≠ [] → pages.length ≤ (pageNames pages).length
  complete : ∀ name, (∀ i < pages.length, (d i).Has name) →
    name ∈ pageNames pages ∨ pages = [] ∨ cursor ≠ [] ∧ cursor < name

/-- A client that has received nothing. -/
theorem walkHolds_start : WalkHolds d ever [] [] where
  started _ := rfl
  ordered := List.Pairwise.nil
  existed _ h := by cases h
  upTo h := absurd rfl h
  more h := absurd rfl h
  filled h := absurd rfl h
  complete _ _ := .inr (.inl rfl)

/-- There are more names than pages of a walk that goes on. -/
theorem WalkHolds.length_lt (h : WalkHolds d ever pages cursor) (hcursor : cursor ≠ []) :
    pages.length < ever.card := by
  obtain ⟨name, hname, hlt⟩ := h.more hcursor
  have hnodup : (name :: pageNames pages).Nodup := by
    refine List.nodup_cons.mpr ⟨fun hin => ?_, h.ordered.imp fun {a b} hab heq => ?_⟩
    · exact lt_irrefl _ (lt_of_le_of_lt (h.upTo hcursor name hin) hlt)
    · rw [heq] at hab
      exact lt_irrefl _ hab
  have hsub : (name :: pageNames pages).toFinset ⊆ ever := by
    intro x hx
    rcases List.mem_cons.mp (List.mem_toFinset.mp hx) with rfl | hin
    · exact hname
    · exact h.existed x hin
  have hcard := Finset.card_le_card hsub
  rw [List.toFinset_card_of_nodup hnodup, List.length_cons] at hcard
  have hfilled := h.filled hcursor
  omega

/-- A page that is called for goes on with what was received. -/
theorem WalkHolds.page (h : WalkHolds d ever pages cursor)
    (hever : ∀ i, ∀ e ∈ (d i).entries, e.name ∈ ever) (hgoing : pages = [] ∨ cursor ≠ []) :
    WalkHolds d ever (pages ++ [pageAfter { req with cursor } (d pages.length)])
      (pageAfter { req with cursor } (d pages.length)).nextCursor := by
  rw [pageAfter]
  generalize hrest : (d pages.length).sorted.filter (fun e => cursor < e.name) = rest
  have hmem : ∀ e, e ∈ rest ↔ e ∈ (d pages.length).entries ∧ cursor < e.name := by
    intro e
    rw [← hrest, List.mem_filter, Directory.mem_sorted, decide_eq_true_iff]
  have hsorted : (rest.map DirEntry.name).Pairwise (· < ·) := by
    rw [List.pairwise_map, ← hrest]
    exact (d pages.length).pairwise_sorted.sublist List.filter_sublist
  -- What was received is before what remains, and what was there throughout is in one of the two.
  have hbefore : ∀ name ∈ pageNames pages, ∀ e ∈ rest, name < e.name := by
    intro name hname e he
    rcases hgoing with rfl | hcursor
    · cases hname
    · exact lt_of_le_of_lt (h.upTo hcursor name hname) ((hmem e).mp he).2
  have hthere : ∀ name, (∀ i < pages.length + 1, (d i).Has name) → name ∈ pageNames pages ∨
      ∃ e ∈ rest, e.name = name := by
    intro name hname
    obtain ⟨e, he, rfl⟩ := hname pages.length (Nat.lt_succ_self _)
    rcases h.complete e.name fun i hi => hname i (Nat.lt_succ_of_lt hi) with
      hin | hnone | ⟨-, hlt⟩
    · exact .inl hin
    · refine .inr ⟨e, (hmem e).mpr ⟨he, ?_⟩, rfl⟩
      rw [h.started hnone]
      obtain ⟨c, cs, hcons⟩ := List.exists_cons_of_ne_nil ((d pages.length).named e he)
      rw [hcons]
      exact List.Lex.nil
    · exact .inr ⟨e, (hmem e).mpr ⟨he, hlt⟩, rfl⟩
  have hnew : ∀ e ∈ rest, e.name ∈ ever := fun e he => hever _ e ((hmem e).mp he).1
  by_cases hmore : rest.length ≤ pageLimit { req with cursor }
  · rw [pageOf_of_le hmore]
    exact {
      started := fun hnil => absurd hnil (List.append_ne_nil_of_right_ne_nil _ (by simp))
      ordered := by
        rw [pageNames_append]
        refine List.pairwise_append.mpr ⟨h.ordered, hsorted, fun name hname x hx => ?_⟩
        obtain ⟨e, he, rfl⟩ := List.mem_map.mp hx
        exact hbefore name hname e he
      existed := by
        intro name hname
        rw [pageNames_append] at hname
        rcases List.mem_append.mp hname with hin | hin
        · exact h.existed name hin
        · obtain ⟨e, he, rfl⟩ := List.mem_map.mp hin
          exact hnew e he
      upTo := fun hne => absurd rfl hne
      more := fun hne => absurd rfl hne
      filled := fun hne => absurd rfl hne
      complete := by
        intro name hname
        rw [List.length_append, List.length_singleton] at hname
        left
        rw [pageNames_append]
        rcases hthere name hname with hin | ⟨e, he, rfl⟩
        · exact List.mem_append_left _ hin
        · exact List.mem_append_right _ (List.mem_map_of_mem he) }
  · obtain ⟨init, last, next, more, rfl, hpage⟩ :=
      pageOf_of_lt (d pages.length).sorted.length (pageLimit_pos { req with cursor })
        (Nat.lt_of_not_le hmore)
    rw [hpage]
    rw [List.append_cons, List.map_append, List.pairwise_append] at hsorted
    obtain ⟨hfront, -, hcross⟩ := hsorted
    have hlast : last ∈ init ++ [last] := List.mem_append_right _ (List.mem_singleton_self _)
    have hrest' : ∀ e ∈ init ++ [last], e ∈ init ++ last :: next :: more := by
      intro e he
      rw [List.append_cons]
      exact List.mem_append_left _ he
    have hnext : last.name < next.name :=
      hcross _ (List.mem_map_of_mem hlast) _ (List.mem_map_of_mem List.mem_cons_self)
    exact {
      started := fun hnil => absurd hnil (List.append_ne_nil_of_right_ne_nil _ (by simp))
      ordered := by
        rw [pageNames_append]
        refine List.pairwise_append.mpr ⟨h.ordered, hfront, fun name hname x hx => ?_⟩
        obtain ⟨e, he, rfl⟩ := List.mem_map.mp hx
        exact hbefore name hname e (hrest' e he)
      existed := by
        intro name hname
        rw [pageNames_append] at hname
        rcases List.mem_append.mp hname with hin | hin
        · exact h.existed name hin
        · obtain ⟨e, he, rfl⟩ := List.mem_map.mp hin
          exact hnew e (hrest' e he)
      upTo := by
        intro _ name hname
        rw [pageNames_append, List.mem_append] at hname
        rcases hname with hin | hin
        · exact le_of_lt (hbefore name hin last (hrest' last hlast))
        · rw [List.map_append, List.pairwise_append] at hfront
          rw [List.map_append, List.mem_append] at hin
          rcases hin with hin | hin
          · exact le_of_lt (hfront.2.2 name hin _ (by simp))
          · rw [List.map_singleton, List.mem_singleton] at hin
            exact le_of_eq hin
      more := fun _ => ⟨next.name, hnew next (by simp), hnext⟩
      filled := by
        intro _
        rw [pageNames_append, List.length_append, List.length_append, List.length_map,
          List.length_append, List.length_singleton, List.length_singleton]
        rcases hgoing with rfl | hcursor
        · rw [List.length_nil]
          omega
        · have hfilled := h.filled hcursor
          omega
      complete := by
        intro name hname
        rw [List.length_append, List.length_singleton] at hname
        rw [pageNames_append]
        rcases hthere name hname with hin | ⟨e, he, rfl⟩
        · exact .inl (List.mem_append_left _ hin)
        · rw [List.append_cons] at he
          rcases List.mem_append.mp he with hin | hin
          · exact .inl (List.mem_append_right _ (List.mem_map_of_mem hin))
          · refine .inr (.inr ⟨?_, hcross _ (List.mem_map_of_mem hlast) _
              (List.mem_map_of_mem hin)⟩)
            exact (d pages.length).named last ((hmem last).mp (hrest' last hlast)).1 }

/-! ### The result -/

/-- The next page of a walk that goes on is the one called for. -/
theorem GoesOn.answer (h : GoesOn ctx req d) (hwalk : DirWalk ctx req d pages cursor)
    (hgoing : pages = [] ∨ cursor ≠ []) :
    dirAnswer ctx { req with cursor } (d pages.length) =
      some (pageAfter { req with cursor } (d pages.length)) := by
  obtain ⟨hfits, hthere⟩ := h pages cursor hwalk hgoing
  exact dirAnswer_eq_some.mpr ⟨listingPage_eq_pageAfter hthere, hfits⟩

/-- **What a walk has received**, if it goes on. -/
theorem DirWalk.holds (hwalk : DirWalk ctx req d pages cursor) (h : GoesOn ctx req d)
    (hever : ∀ i, ∀ e ∈ (d i).entries, e.name ∈ ever) : WalkHolds d ever pages cursor := by
  induction hwalk with
  | start => exact walkHolds_start
  | page hwalk hgoing hanswer ih =>
    obtain rfl := Option.some.inj ((h.answer hwalk hgoing).symm.trans hanswer)
    exact ih.page hever hgoing

/-- The next page ends a walk that goes on, or there are still names to come. -/
theorem DirWalk.end_or_longer (h : GoesOn ctx req d)
    (hever : ∀ i, ∀ e ∈ (d i).entries, e.name ∈ ever) (hwalk : DirWalk ctx req d pages cursor)
    (hgoing : pages = [] ∨ cursor ≠ []) :
    ∃ page next, DirWalk ctx req d (pages ++ [page]) next ∧
      (next = [] ∧ pages.length + 1 ≤ max 1 ever.card ∨
        next ≠ [] ∧ pages.length + 1 < ever.card) := by
  have hnext := hwalk.page hgoing (h.answer hwalk hgoing)
  refine ⟨_, _, hnext, ?_⟩
  by_cases hend : (pageAfter { req with cursor } (d pages.length)).nextCursor = []
  · refine .inl ⟨hend, ?_⟩
    rcases hgoing with rfl | hcursor
    · exact le_max_left _ _
    · exact le_max_of_le_right ((hwalk.holds h hever).length_lt hcursor)
  · have hlt := (hnext.holds h hever).length_lt hend
    rw [List.length_append, List.length_singleton] at hlt
    exact .inr ⟨hend, hlt⟩

/-- **A walk that goes on ends**, after no more pages than names ever existed, or one. -/
theorem DirWalk.exists_end (h : GoesOn ctx req d)
    (hever : ∀ i, ∀ e ∈ (d i).entries, e.name ∈ ever) (left : ℕ)
    (hwalk : DirWalk ctx req d pages cursor) (hgoing : pages = [] ∨ cursor ≠ [])
    (hleft : ever.card ≤ pages.length + left) :
    ∃ pages', DirWalk ctx req d pages' [] ∧ pages' ≠ [] ∧ pages'.length ≤ max 1 ever.card := by
  induction left generalizing pages cursor with
  | zero =>
    obtain ⟨page, next, hnext, ⟨rfl, hlen⟩ | ⟨-, hlt⟩⟩ := hwalk.end_or_longer h hever hgoing
    · exact ⟨_, hnext, List.append_ne_nil_of_right_ne_nil _ (by simp), by simpa using hlen⟩
    · omega
  | succ left ih =>
    obtain ⟨page, next, hnext, ⟨rfl, hlen⟩ | ⟨hne, -⟩⟩ := hwalk.end_or_longer h hever hgoing
    · exact ⟨_, hnext, List.append_ne_nil_of_right_ne_nil _ (by simp), by simpa using hlen⟩
    · refine ih hnext (.inr hne) ?_
      rw [List.length_append, List.length_singleton]
      omega

/-- Each page of a walk was an answer. -/
theorem DirWalk.page_at (hwalk : DirWalk ctx req d pages cursor) {i : ℕ} (hi : i < pages.length) :
    ∃ c, DirWalk ctx req d (pages.take i) c ∧ (pages.take i = [] ∨ c ≠ []) ∧
      dirAnswer ctx { req with cursor := c } (d i) = some pages[i] := by
  induction hwalk with
  | start => cases hi
  | @page pages cursor page hwalk hgoing hanswer ih =>
    rw [List.length_append, List.length_singleton] at hi
    rcases Nat.lt_or_ge i pages.length with hlt | hge
    · obtain ⟨c, hbefore, hc, hat⟩ := ih hlt
      refine ⟨c, ?_, ?_, ?_⟩
      · rwa [List.take_append_of_le_length hlt.le]
      · rwa [List.take_append_of_le_length hlt.le]
      · rwa [List.getElem_append_left hlt]
    · obtain rfl : i = pages.length := by omega
      refine ⟨cursor, ?_, ?_, ?_⟩
      · rwa [List.take_left']
        rfl
      · rwa [List.take_left']
        rfl
      · rw [List.getElem_concat_length rfl]
        exact hanswer

/-- Walks of the same number of pages are the same. -/
theorem DirWalk.unique {pages' : List DirListing} {cursor' : Text}
    (hwalk : DirWalk ctx req d pages cursor) (hwalk' : DirWalk ctx req d pages' cursor')
    (hlen : pages.length = pages'.length) : pages = pages' ∧ cursor = cursor' := by
  induction hwalk generalizing pages' cursor' with
  | start =>
    cases hwalk' with
    | start => exact ⟨rfl, rfl⟩
    | page => simp at hlen
  | page hwalk hgoing hanswer ih =>
    cases hwalk' with
    | start => simp at hlen
    | page hwalk' hgoing' hanswer' =>
      rw [List.length_append, List.length_append, List.length_singleton, List.length_singleton]
        at hlen
      obtain ⟨rfl, rfl⟩ := ih hwalk' (Nat.succ_injective hlen)
      obtain rfl := Option.some.inj (hanswer.symm.trans hanswer')
      exact ⟨rfl, rfl⟩

/-- A walk that has not ended is a front part of one that has. -/
theorem DirWalk.length_lt_of_end {whole : List DirListing} (hwhole : DirWalk ctx req d whole [])
    (hne : whole ≠ []) (hwalk : DirWalk ctx req d pages cursor)
    (hgoing : pages = [] ∨ cursor ≠ []) : pages.length < whole.length := by
  by_contra hge
  rcases Nat.lt_or_ge whole.length pages.length with hlt | hle
  · obtain ⟨c, hfront, hc, -⟩ := hwalk.page_at hlt
    have hlen : (pages.take whole.length).length = whole.length := by
      rw [List.length_take]
      omega
    obtain ⟨heq, rfl⟩ := hfront.unique hwhole hlen
    rw [heq] at hc
    exact hc.elim hne fun h => h rfl
  · obtain ⟨rfl, rfl⟩ := hwalk.unique hwhole (by omega)
    exact hgoing.elim hne fun h => h rfl

/-- The cursor of a walk is a name that was received. -/
theorem DirWalk.cursor_mem (hwalk : DirWalk ctx req d pages cursor) (hcursor : cursor ≠ []) :
    cursor ∈ pageNames pages := by
  cases hwalk with
  | start => exact absurd rfl hcursor
  | page hwalk hgoing hanswer =>
    obtain ⟨rfl, -⟩ := dirAnswer_eq_some.mp hanswer
    rw [listingPage_eq_pageOf] at hcursor ⊢
    rw [pageNames_append]
    refine List.mem_append_right _ ?_
    generalize List.drop _ _ = rest at hcursor ⊢
    by_cases hle : rest.length ≤ pageLimit { req with cursor := ‹Text› }
    · rw [pageOf_of_le hle] at hcursor
      exact absurd rfl hcursor
    · obtain ⟨init, last, next, more, rfl, hpage⟩ := pageOf_of_lt _ (pageLimit_pos _)
        (Nat.lt_of_not_le hle)
      rw [hpage]
      exact List.mem_map_of_mem (List.mem_append_right _ (List.mem_singleton_self _))

/-- A walk whose names increase has gone on. -/
theorem goesOn_of_ordered {whole : List DirListing} (hwhole : DirWalk ctx req d whole [])
    (hne : whole ≠ []) (hordered : (pageNames whole).Pairwise (· < ·)) : GoesOn ctx req d := by
  intro pages cursor hwalk hgoing
  have hlt := hwhole.length_lt_of_end hne hwalk hgoing
  obtain ⟨c, hfront, hc, hanswer⟩ := hwhole.page_at hlt
  have hlen : (whole.take pages.length).length = pages.length := by
    rw [List.length_take]
    omega
  obtain ⟨heq, rfl⟩ := hfront.unique hwalk hlen
  obtain ⟨hpage, hfits⟩ := dirAnswer_eq_some.mp hanswer
  have hthere : (d pages.length).Has c ∨ ∀ e ∈ (d pages.length).entries, c < e.name := by
    by_contra hnot
    obtain ⟨hgone, hbefore⟩ := not_or.mp hnot
    push Not at hbefore
    obtain ⟨e, he, hle⟩ := hbefore
    obtain ⟨first, hfirst, hfirst'⟩ :=
      listingPage_starts_over { req with cursor := c } hgone he hle
    rw [hpage] at hfirst
    -- The first name of the page is not after the cursor, which was received before it.
    have hcursor : c ≠ [] := by
      rintro rfl
      obtain ⟨x, xs, hcons⟩ := List.exists_cons_of_ne_nil ((d pages.length).named e he)
      rw [hcons] at hle
      exact absurd List.Lex.nil (not_lt_of_ge hle)
    have hsplit : whole = pages ++ whole[pages.length] :: whole.drop (pages.length + 1) := by
      conv_lhs => rw [← List.take_append_drop pages.length whole, heq]
      rw [List.getElem_cons_drop]
    rw [hsplit, pageNames, List.flatMap_append, List.flatMap_cons, List.pairwise_append]
      at hordered
    have hless := hordered.2.2 c (hwalk.cursor_mem hcursor) first.name
      (List.mem_append_left _ (List.mem_map_of_mem hfirst))
    exact absurd hless (not_lt_of_ge hfirst')
  rw [listingPage_eq_pageAfter hthere] at hpage
  rw [← hpage] at hfits
  exact ⟨hfits, hthere⟩

/-- **A client pages through a directory if and only if the walk goes on**: at each request the page
that is called for fits its frame, and the entry that the cursor names is there or nothing is before
it. -/
theorem pagesThrough_iff (hever : ∀ i, ∀ e ∈ (d i).entries, e.name ∈ ever) :
    PagesThrough ctx req d ever ↔ GoesOn ctx req d := by
  constructor
  · rintro ⟨pages, hwalk, hne, -, hordered, -⟩
    exact goesOn_of_ordered hwalk hne hordered
  · intro h
    obtain ⟨pages, hwalk, hne, hlen⟩ :=
      DirWalk.exists_end h hever ever.card .start (.inl rfl) (Nat.le_add_left _ _)
    have hreceived := hwalk.holds h hever
    refine ⟨pages, hwalk, hne, hlen, hreceived.ordered, fun name hname => ?_⟩
    rcases hreceived.complete name hname with hin | hnil | ⟨hcursor, -⟩
    · exact hin
    · exact absurd hnil hne
    · exact absurd rfl hcursor

namespace DirPagesSample

/-- A text of seven-bit characters. -/
def ascii (s : Text) : List UInt8 := s.map fun c => UInt8.ofNat c.toNat

/-- The fields of an entry. -/
def entryBytes (e : WireFileEntry) : List UInt8 :=
  Protobuf.bytesField 1 (ascii e.relativePath) ++
    Protobuf.intField 2 (UInt64.ofNat e.kind.toNat) ++ Protobuf.intField 3 (UInt64.ofNat e.size) ++
    Protobuf.intField 4 (UInt64.ofNat e.mtime.toNat) ++ Protobuf.intField 5 e.mode.toUInt64 ++
    Protobuf.bytesField 6 e.contentHash ++ Protobuf.bytesField 7 (ascii e.mime)

/-- The protobuf layer on listings. -/
def proto : BrowseProto :=
  { Download.Sample.proto with
    dirListing :=
      ⟨fun m => m.entries.flatMap (Protobuf.messageField 1 ∘ entryBytes) ++
        Protobuf.bytesField 2 (ascii m.nextCursor) ++
        Protobuf.intField 3 (UInt64.ofNat m.totalEstimate), fun _ => none⟩ }

/-- The handler, with frames of at most 512 bytes. -/
def context : Browse.BrowseContext Tree ℕ :=
  ⟨⟨proto, 512⟩, PosixVfs.vfs, 512, 4⟩

/-- A file of one byte. -/
def file (name : String) : DirEntry := ⟨name.toList, .file, 1, 0⟩

/-- Ask for two entries. -/
def request : ListDir :=
  ⟨Download.Sample.shareId, Download.Sample.path, [], 2, false⟩

/-- Three files. -/
def three : Directory := ⟨[file "c", file "a", file "b"], by decide, by decide⟩

/-- The second one was deleted. -/
def two : Directory := ⟨[file "c", file "a"], by decide, by decide⟩

/-- A file was created. -/
def four : Directory := ⟨[file "c", file "d", file "a", file "b"], by decide, by decide⟩

/-- A directory that changes after the first page. -/
def changing (after : Directory) : ℕ → Directory
  | 0 => three
  | _ + 1 => after

/-- The first page. -/
def first : DirListing := ⟨[file "a", file "b"], "b".toList, 3⟩

/-- It is what the client gets first. -/
theorem walk_first (after : Directory) :
    DirWalk context request (changing after) [first] "b".toList := by
  have hanswer : dirAnswer context request three = some first := by decide +kernel
  exact DirWalk.page .start (.inl rfl) hanswer

/-- The second page, where a file was created. -/
theorem walk_second : DirWalk context request (changing four)
    [first, ⟨[file "c", file "d"], [], 4⟩] [] :=
  DirWalk.page (walk_first four) (.inr (by decide)) (by decide +kernel)

/-- The names that ever exist there. -/
theorem name_mem_of_changing (i : ℕ) : ∀ e ∈ (changing four i).entries,
    e.name ∈ ({"a".toList, "b".toList, "c".toList, "d".toList} : Finset Text) := by
  cases i with
  | zero => decide
  | succ i =>
    change ∀ e ∈ four.entries, _
    decide

/-- A file is created while a client pages through a directory. -/
theorem pagesThrough_iff_four :
    PagesThrough context request (changing four)
      {"a".toList, "b".toList, "c".toList, "d".toList} :=
  (pagesThrough_iff name_mem_of_changing).mpr
    (goesOn_of_ordered walk_second (by decide) (by decide))

/-- **A deleted file makes the handler start over**: a client gets the first entry again. -/
theorem deleted_cursor_starts_over :
    ¬PagesThrough context request (changing two) {"a".toList, "b".toList, "c".toList} := by
  rintro ⟨pages, hwalk, hne, -, hordered, -⟩
  obtain ⟨-, hthere⟩ :=
    goesOn_of_ordered hwalk hne hordered _ _ (walk_first two) (.inr (by decide))
  revert hthere
  unfold Directory.Has
  decide

end DirPagesSample

end Tradr
