import Tradr.CollisionNames
import Tradr.DenyAliases
import Tradr.Offer

/-!
# Names in the Staging Area

What is received is written to `.tradr-partial/<transfer_id>/<item_id>`. Both identifiers are of an
alphabet that no rule of a path objects to, and that knows no case. But below the staging directory
only that directory's own entry of the deny list is lifted: the names of private keys stay denied,
and they are of the alphabet of an item's identifier.

## Main definitions

* `NamesKey`: a text that begins as the names of private keys do.
* `Staged`: what a transfer asks of the names of its staging area.

## Main results

* `isDeniedForWrite_partialDirRelPath`: no transfer's directory is denied.
* `isDeniedForWrite_partialFileRelPath`: which partial files are denied.
* `eq_of_partialFileRelPath`: one name is of one transfer and one item, whatever its case.
* `staged_iff`: an item can be staged exactly when it is not named like a private key.
-/

namespace Tradr

open PosixVfs

/-! ### Private keys -/

/-- How the names of private keys begin. -/
def keyNames : List Text := ["id_rsa".toList, "id_ed25519".toList, "id_ecdsa".toList]

/-- A text that begins so. -/
def NamesKey (s : Text) : Prop := ∃ key ∈ keyNames, key <+: s

/-- A part of a pattern with a dot in it. -/
def hasDot : PatternPart → Bool
  | .exact name => '.' ∈ name
  | .glob head tail => '.' ∈ head || '.' ∈ tail

/-- A part of a pattern for private keys. -/
def isKeyPart : PatternPart → Bool
  | .exact _ => false
  | .glob head tail => head ∈ keyNames && tail = []

/-- The first part of a pattern has a dot in it, or is for private keys. -/
theorem firstPart_cases {pattern : List PatternPart} (h : pattern ∈ denyPatterns) :
    ∃ part rest, pattern = part :: rest ∧
      (hasDot part = true ∨ isKeyPart part = true ∧ rest = []) := by
  have hall : denyPatterns.all (fun pattern => match pattern with
      | [] => false
      | part :: rest => hasDot part || isKeyPart part && rest = []) = true := by
    decide
  have hpattern := List.all_eq_true.mp hall pattern h
  cases pattern with
  | nil => cases hpattern
  | cons part rest =>
    refine ⟨part, rest, rfl, ?_⟩
    simpa only [Bool.or_eq_true, Bool.and_eq_true, decide_eq_true_eq] using hpattern

/-- A character without cases that is in a text in lower case is in the text. -/
theorem mem_of_mem_map_toLower {c : Char} (hc : c.toNat < 97 ∨ 122 < c.toNat) {s : Text}
    (h : c ∈ s.map Char.toLower) : c ∈ s := by
  obtain ⟨d, hd, heq⟩ := List.mem_map.mp h
  rwa [← eq_of_toLower hc heq]

/-- What a part with a dot matches has a dot. -/
theorem dot_mem_of_partMatches {part : PatternPart} (hpart : hasDot part = true) {comp : Text}
    (h : partMatches part comp = true) : '.' ∈ comp := by
  cases part with
  | exact name =>
    have hmap : comp.map Char.toLower = name.map Char.toLower := of_decide_eq_true h
    refine mem_of_mem_map_toLower (.inl (by decide)) ?_
    rw [hmap]
    exact mem_map_toLower (by decide) (of_decide_eq_true hpart)
  | glob head tail =>
    rw [partMatches] at h
    split_ifs at h
    rw [Bool.and_eq_true] at h
    have hhead : (comp.take head.length).map Char.toLower = head.map Char.toLower :=
      of_decide_eq_true h.1
    have htail : (comp.drop (comp.length - tail.length)).map Char.toLower =
        tail.map Char.toLower := of_decide_eq_true h.2
    simp only [hasDot, Bool.or_eq_true, decide_eq_true_eq] at hpart
    rcases hpart with hdot | hdot
    · have hmem : '.' ∈ (comp.take head.length).map Char.toLower := by
        rw [hhead]
        exact mem_map_toLower (by decide) hdot
      exact List.mem_of_mem_take (mem_of_mem_map_toLower (.inl (by decide)) hmem)
    · have hmem : '.' ∈ (comp.drop (comp.length - tail.length)).map Char.toLower := by
        rw [htail]
        exact mem_map_toLower (by decide) hdot
      exact List.mem_of_mem_drop (mem_of_mem_map_toLower (.inl (by decide)) hmem)

/-- What a part for private keys matches begins so, in lower case. -/
theorem prefix_of_isKeyPart {part : PatternPart} (hpart : isKeyPart part = true) {comp : Text}
    (h : partMatches part comp = true) : NamesKey (comp.map Char.toLower) := by
  cases part with
  | exact name => cases hpart
  | glob head tail =>
    simp only [isKeyPart, Bool.and_eq_true, decide_eq_true_eq] at hpart
    obtain ⟨hkey, rfl⟩ := hpart
    rw [partMatches] at h
    split_ifs at h
    rw [Bool.and_eq_true] at h
    have hhead : (comp.take head.length).map Char.toLower = head.map Char.toLower :=
      of_decide_eq_true h.1
    have hlower : head.map Char.toLower = head := by
      have hall : keyNames.all (fun key => key.map Char.toLower = key) = true := by decide
      exact of_decide_eq_true (List.all_eq_true.mp hall head hkey)
    refine ⟨head, hkey, ?_⟩
    rw [← hlower, ← hhead, List.map_take]
    exact List.take_prefix _ _

/-! ### The alphabet -/

/-- A character of an identifier is no dot and has no case. -/
theorem isPermittedChar_spec {c : Char} (h : isPermittedChar c = true) :
    c ≠ '.' ∧ c ≠ '/' ∧ c.toLower = c := by
  refine ⟨?_, ?_, ?_⟩
  · rintro rfl
    exact absurd h (by decide)
  · rintro rfl
    exact absurd h (by decide)
  · refine toLower_of_not_upper ?_
    rintro ⟨hlow, hhigh⟩
    have hnat : ∀ d : Char, c = d → c.toNat = d.toNat := fun d hd => by rw [hd]
    simp only [isPermittedChar, decide_eq_true_eq, isLower_iff, Char.isDigit, Bool.and_eq_true,
      ge_iff_le, UInt32.le_iff_toNat_le] at h
    rcases h with h | h | h | h
    · exact absurd (h.1.trans hhigh) (by decide)
    · exact absurd (hlow.trans h.2) (by decide)
    · have : c.toNat = 45 := hnat _ h
      omega
    · have : c.toNat = 95 := hnat _ h
      omega

/-- The characters of a transfer's identifier are digits and hyphens. -/
theorem TransferId.mem_display {t : TransferId} {c : Char} (h : c ∈ t.display) :
    c ∈ '-' :: hexChars := by
  have hdigits : ∀ bs, c ∈ hexText bs → c ∈ hexChars := by
    intro bs hc
    obtain ⟨b, -, hc⟩ := List.mem_flatMap.mp hc
    have hget (n : ℕ) : hexChars.getD n '0' ∈ hexChars := by
      rcases Nat.lt_or_ge n hexChars.length with hn | hn
      · rw [List.getD_eq_getElem _ _ hn]
        exact List.getElem_mem hn
      · rw [List.getD_eq_default _ _ hn]
        decide
    simp only [hexByte, List.mem_cons, List.not_mem_nil, or_false] at hc
    rcases hc with rfl | rfl
    · exact hget _
    · exact hget _
  simp only [display, List.mem_append, List.mem_cons] at h
  rw [List.mem_cons]
  rcases h with (((h | rfl | h) | rfl | h) | rfl | h) | rfl | h
  all_goals first
    | exact .inr (hdigits _ h)
    | exact .inl rfl

/-- A transfer's identifier is of the alphabet. -/
theorem TransferId.permitted_display (t : TransferId) :
    ∀ c ∈ t.display, isPermittedChar c = true := by
  intro c hc
  have hall : ('-' :: hexChars).all isPermittedChar = true := by decide
  exact List.all_eq_true.mp hall c (TransferId.mem_display hc)

/-- An item's identifier is of the alphabet. -/
theorem ItemId.permitted_value (i : ItemId) : ∀ c ∈ i.value, isPermittedChar c = true := by
  have h := i.accepted
  unfold itemIdRefusal at h
  cases hfind : i.value.find? fun c => !isPermittedChar c with
  | none => exact fun c hc => by simpa using List.find?_eq_none.mp hfind c hc
  | some c =>
    rw [hfind] at h
    split_ifs at h

/-- Text of the alphabet is in lower case. -/
theorem map_toLower_of_permitted {s : Text} (h : ∀ c ∈ s, isPermittedChar c = true) :
    s.map Char.toLower = s := by
  conv_rhs => rw [← List.map_id s]
  exact List.map_congr_left fun c hc => (isPermittedChar_spec (h c hc)).2.2

/-- Text of the alphabet has no dot. -/
theorem dot_not_mem_of_permitted {s : Text} (h : ∀ c ∈ s, isPermittedChar c = true) : '.' ∉ s :=
  fun hmem => (isPermittedChar_spec (h '.' hmem)).1 rfl

/-! ### What is denied -/

/-- What denies text of the alphabet: only what is for private keys. -/
theorem namesKey_of_partMatches {pattern : List PatternPart} (hpattern : pattern ∈ denyPatterns)
    {part : PatternPart} {rest : List PatternPart} (hfirst : pattern = part :: rest) {s : Text}
    (hs : ∀ c ∈ s, isPermittedChar c = true) (h : partMatches part s = true) : NamesKey s := by
  obtain ⟨part', rest', hcons, hcase⟩ := firstPart_cases hpattern
  obtain ⟨rfl, rfl⟩ := List.cons.inj (hfirst.symm.trans hcons)
  rcases hcase with hdot | ⟨hkey, -⟩
  · exact absurd (dot_mem_of_partMatches hdot h) (dot_not_mem_of_permitted hs)
  · have hnames := prefix_of_isKeyPart hkey h
    rwa [map_toLower_of_permitted hs] at hnames

/-- A transfer's identifier is not named like a private key. -/
theorem TransferId.not_namesKey (t : TransferId) : ¬NamesKey t.display := by
  rintro ⟨key, hkey, hbegins⟩
  have hi : 'i' ∈ key := by
    have hall : keyNames.all (fun key => 'i' ∈ key) = true := by decide
    exact of_decide_eq_true (List.all_eq_true.mp hall key hkey)
  exact absurd (TransferId.mem_display (hbegins.subset hi)) (by decide)

/-- The staging directory's name is matched by its own entry only. -/
theorem partMatches_partialRootName {pattern : List PatternPart} (hpattern : pattern ∈ denyPatterns)
    (hother : isPartialPattern pattern = false) {part : PatternPart} {rest : List PatternPart}
    (hfirst : pattern = part :: rest) : partMatches part partialRootName = false := by
  have hall : denyPatterns.all (fun pattern => isPartialPattern pattern || match pattern with
      | [] => true
      | part :: _ => !partMatches part partialRootName) = true := by
    decide
  have hpart := List.all_eq_true.mp hall pattern hpattern
  rw [hother, hfirst] at hpart
  simpa using hpart

/-- **What is denied below the staging directory.** -/
theorem isDeniedForWrite_staging {comps : List Text} (hne : comps ≠ [])
    (hcomps : ∀ comp ∈ comps, ∀ c ∈ comp, isPermittedChar c = true) :
    isDeniedForWrite (partialRootName :: comps) = true ↔ ∃ comp ∈ comps, NamesKey comp := by
  have hstaging : isPartialStaging (partialRootName :: comps) = true := by
    obtain ⟨comp, rest, rfl⟩ := List.exists_cons_of_ne_nil hne
    unfold isPartialStaging
    simp only [List.length_cons, List.head?_cons, Bool.and_eq_true, decide_eq_true_eq]
    exact ⟨by omega, by decide⟩
  rw [isDeniedForWrite, if_pos hstaging, List.any_eq_true]
  constructor
  · rintro ⟨pattern, hmem, hmatch⟩
    obtain ⟨hpattern, hother⟩ := List.mem_filter.mp hmem
    have hother' : isPartialPattern pattern = false := by simpa using hother
    obtain ⟨part, rest, hfirst, -⟩ := firstPart_cases hpattern
    obtain ⟨run, hrun, hall⟩ := patternMatchesRun_iff.mp hmatch
    rw [hfirst] at hall
    obtain ⟨comp, run', hpart, -, rfl⟩ := List.forall₂_cons_left_iff.mp hall
    rcases List.mem_cons.mp (hrun.subset List.mem_cons_self) with rfl | hcomp
    · rw [partMatches_partialRootName hpattern hother' hfirst] at hpart
      cases hpart
    · exact ⟨comp, hcomp, namesKey_of_partMatches hpattern hfirst (hcomps comp hcomp) hpart⟩
  · rintro ⟨comp, hcomp, key, hkey, hbegins⟩
    have hall : keyNames.all (fun key => [.glob key []] ∈ denyPatterns.filter
        fun p => !isPartialPattern p) = true := by
      decide
    refine ⟨[.glob key []], of_decide_eq_true (List.all_eq_true.mp hall key hkey), ?_⟩
    obtain ⟨before, after, hsplit⟩ := List.append_of_mem hcomp
    have hinfix : [comp] <:+: partialRootName :: comps :=
      ⟨partialRootName :: before, after, by rw [hsplit]; simp⟩
    refine patternMatchesRun_iff.mpr ⟨[comp], hinfix, .cons ?_ .nil⟩
    obtain ⟨more, rfl⟩ := hbegins
    rw [partMatches, List.length_nil, Nat.add_zero,
      if_neg (not_lt.mpr (by rw [List.length_append]; omega)), List.take_left, Nat.sub_zero,
      List.drop_length, Bool.and_eq_true]
    exact ⟨decide_eq_true rfl, rfl⟩

/-- The components of a transfer's directory. -/
theorem components_partialDirRelPath (t : TransferId) :
    (partialDirRelPath t).components = [partialRootName, t.display] :=
  RelPath.components_ofPlain _ _

/-- The components of a partial file. -/
theorem components_partialFileRelPath (t : TransferId) (i : ItemId) :
    (partialFileRelPath t i).components = [partialRootName, t.display, i.value] :=
  RelPath.components_ofPlain _ _

/-- **No transfer's directory is denied.** -/
theorem isDeniedForWrite_partialDirRelPath (t : TransferId) :
    isDeniedForWrite (partialDirRelPath t).components = false := by
  rw [components_partialDirRelPath, ← Bool.not_eq_true, isDeniedForWrite_staging (by simp)]
  · rintro ⟨comp, hcomp, hkey⟩
    rw [List.mem_singleton.mp hcomp] at hkey
    exact t.not_namesKey hkey
  · intro comp hcomp
    rw [List.mem_singleton.mp hcomp]
    exact t.permitted_display

/-- **Which partial files are denied**: those named like private keys. -/
theorem isDeniedForWrite_partialFileRelPath (t : TransferId) (i : ItemId) :
    isDeniedForWrite (partialFileRelPath t i).components = true ↔ NamesKey i.value := by
  rw [components_partialFileRelPath, isDeniedForWrite_staging (by simp)]
  · constructor
    · rintro ⟨comp, hcomp, hkey⟩
      simp only [List.mem_cons, List.not_mem_nil, or_false] at hcomp
      rcases hcomp with rfl | rfl
      · exact absurd hkey t.not_namesKey
      · exact hkey
    · exact fun hkey => ⟨i.value, by simp, hkey⟩
  · intro comp hcomp
    simp only [List.mem_cons, List.not_mem_nil, or_false] at hcomp
    rcases hcomp with rfl | rfl
    · exact t.permitted_display
    · exact i.permitted_value

/-! ### One name, one item -/

/-- The text of a partial file's path. -/
theorem value_partialFileRelPath (t : TransferId) (i : ItemId) :
    (partialFileRelPath t i).value =
      partialRootName ++ '/' :: (t.display ++ '/' :: i.value) := by
  rw [← RelPath.intercalate_components, components_partialFileRelPath,
    List.intercalate_cons_cons, List.intercalate_cons_cons, List.intercalate_singleton]
  simp only [List.append_assoc, List.singleton_append]

/-- The text of a transfer's directory. -/
theorem value_partialDirRelPath (t : TransferId) :
    (partialDirRelPath t).value = partialRootName ++ '/' :: t.display := by
  rw [← RelPath.intercalate_components, components_partialDirRelPath,
    List.intercalate_cons_cons, List.intercalate_singleton]
  simp only [List.append_assoc, List.singleton_append]

/-- A partial file's path is in lower case. -/
theorem map_toLower_partialFileRelPath (t : TransferId) (i : ItemId) :
    (partialFileRelPath t i).value.map Char.toLower = (partialFileRelPath t i).value := by
  have hroot : partialRootName.map Char.toLower = partialRootName := by decide
  have hslash : '/'.toLower = '/' := by decide
  rw [value_partialFileRelPath, List.map_append, List.map_cons, List.map_append, List.map_cons,
    hroot, hslash, map_toLower_of_permitted t.permitted_display,
    map_toLower_of_permitted i.permitted_value]

/-- **One name is of one transfer and one item**, also where names that differ in their case only
are the same. -/
theorem eq_of_partialFileRelPath {t t' : TransferId} {i i' : ItemId}
    (h : eqIgnoreAsciiCase (partialFileRelPath t i).value (partialFileRelPath t' i').value = true) :
    t = t' ∧ i = i' := by
  have hvalue : (partialFileRelPath t i).value = (partialFileRelPath t' i').value := by
    have hmap := of_decide_eq_true h
    rwa [map_toLower_partialFileRelPath, map_toLower_partialFileRelPath] at hmap
  have hcomps := congrArg RelPath.components (RelPath.ext hvalue)
  rw [components_partialFileRelPath, components_partialFileRelPath] at hcomps
  simp only [List.cons.injEq, true_and, and_true] at hcomps
  constructor
  · have hparse := congrArg TransferId.parse hcomps.1
    rw [TransferId.parse_display, TransferId.parse_display] at hparse
    exact Except.ok.inj hparse
  · obtain ⟨value, _⟩ := i
    obtain ⟨value', _⟩ := i'
    obtain rfl : value = value' := hcomps.2
    rfl

/-! ### Staging -/

/-- What a transfer asks of the names of its staging area: they are paths, no check refuses them, and
no other item's differs in its case only. -/
structure Staged (t : TransferId) (i : ItemId) : Prop where
  dir : RelPath.new (partialRootName ++ '/' :: t.display) = .ok (partialDirRelPath t)
  file : RelPath.new ((partialDirRelPath t).value ++ '/' :: i.value) = .ok (partialFileRelPath t i)
  checked : checkDenyList (partialDirRelPath t) = .ok () ∧
    checkDenyList (partialFileRelPath t i) = .ok ()
  checkedWrite : checkDenyListWrite (partialDirRelPath t) = .ok () ∧
    checkDenyListWrite (partialFileRelPath t i) = .ok ()
  distinct : ∀ t' i', (t, i) ≠ (t', i') →
    eqIgnoreAsciiCase (partialFileRelPath t i).value (partialFileRelPath t' i').value = false

/-- A path is made of its text. -/
theorem RelPath.new_self {p : RelPath} (h : p.value ≠ []) : RelPath.new p.value = .ok p :=
  RelPath.new_eq_ok (p.accepted.resolve_left h)

/-- **An item can be staged exactly when it is not named like a private key**; and every item of an
offer can be when none is. -/
theorem staged_iff (offer : TransferOffer) :
    (∀ t i, Staged t i ↔ ¬NamesKey i.value) ∧
      ((∀ item ∈ offer.items, Staged offer.transferId item.itemId) ↔
        ∀ item ∈ offer.items, ¬NamesKey item.itemId.value) := by
  have hstaged : ∀ t i, Staged t i ↔ ¬NamesKey i.value := by
    intro t i
    have hdenied := isDeniedForWrite_partialFileRelPath t i
    constructor
    · intro h hkey
      have hfile := h.checked.2
      rw [checkDenyList, if_pos (hdenied.mpr hkey)] at hfile
      cases hfile
    · intro hkey
      have hdir : ¬isDeniedForWrite (partialDirRelPath t).components = true := by
        rw [isDeniedForWrite_partialDirRelPath]
        exact Bool.false_ne_true
      have hfile := mt hdenied.mp hkey
      exact {
        dir := by
          rw [← value_partialDirRelPath]
          exact RelPath.new_self (by rw [value_partialDirRelPath]; simp)
        file := by
          have hvalue : (partialDirRelPath t).value ++ '/' :: i.value =
              (partialFileRelPath t i).value := by
            rw [value_partialDirRelPath, value_partialFileRelPath, List.append_assoc,
              List.cons_append]
          rw [hvalue]
          exact RelPath.new_self (by rw [value_partialFileRelPath]; simp)
        checked := ⟨if_neg hdir, if_neg hfile⟩
        checkedWrite := ⟨if_neg hdir, if_neg hfile⟩
        distinct := by
          intro t' i' hne
          rw [← Bool.not_eq_true]
          intro heq
          obtain ⟨rfl, rfl⟩ := eq_of_partialFileRelPath heq
          exact hne rfl }
  exact ⟨hstaged, forall₂_congr fun item _ => hstaged offer.transferId item.itemId⟩

/-- An item of the alphabet that is named like a key cannot be staged. -/
theorem not_every_item_staged : ¬∀ t i, Staged t i := by
  intro h
  have hkey : NamesKey "id_rsa".toList := ⟨_, List.mem_cons_self, List.prefix_rfl⟩
  have hfile := (h ⟨[1, 2, 3, 4, 5, 6, 0x70, 8, 0x80, 10, 11, 12, 13, 14, 15, 16], rfl, by decide,
    by decide⟩ ⟨"id_rsa".toList, by decide⟩).checked.2
  rw [checkDenyList, if_pos ((isDeniedForWrite_partialFileRelPath _ _).mpr hkey)] at hfile
  cases hfile

end Tradr
