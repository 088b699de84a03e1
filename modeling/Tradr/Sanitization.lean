import Mathlib.Data.List.DropRight
import Mathlib.Data.List.Forall2
import Mathlib.Data.List.Infix
import Tradr.DataPlane

/-!
# Path Sanitization

The default deny list, the transforming rules for destination paths and the staging
paths of partial transfers. A deny pattern is a run of parts matched against consecutive
components without regard to ASCII case; the staging directory of partial transfers is on
the list, but everything below it at the top of a root is exempt from that one entry.

Unicode normalisation is third-party code and a parameter of the sanitizer.

## Main results

* `relPathRefusal_intercalate`: plain components joined by slashes form a path.
* `patternMatchesRun_iff`: a pattern matches a run of consecutive components.
* `patternMatchesRun_moved`: what a move can do to a match.
-/

namespace Tradr

/-! ### The deny list -/

/-- One component of a deny pattern. -/
inductive PatternPart
  | exact (pattern : Text)
  | glob (head tail : Text)
  deriving DecidableEq, Repr

/-- The default deny list. A pattern with more than one part denies only that
consecutive run of components. -/
def denyPatterns : List (List PatternPart) :=
  [[.exact ".tradr-partial".toList],
    [.exact ".ssh".toList],
    [.exact ".gnupg".toList],
    [.exact ".aws".toList],
    [.exact ".kube".toList],
    [.exact ".config".toList, .exact "gcloud".toList],
    [.exact ".docker".toList, .exact "config.json".toList],
    [.exact ".netrc".toList],
    [.exact ".git-credentials".toList],
    [.exact ".npmrc".toList],
    [.exact ".pypirc".toList],
    [.glob [] ".pem".toList],
    [.glob [] ".key".toList],
    [.glob [] ".p12".toList],
    [.glob [] ".pfx".toList],
    [.glob [] ".keystore".toList],
    [.glob [] ".jks".toList],
    [.exact ".env".toList],
    [.glob ".env.".toList []],
    [.glob "id_rsa".toList []],
    [.glob "id_ed25519".toList []],
    [.glob "id_ecdsa".toList []]]

/-- Equality up to the case of ASCII letters. -/
def eqIgnoreAsciiCase (a b : Text) : Bool :=
  a.map Char.toLower = b.map Char.toLower

/-- A part against one component. -/
def partMatches : PatternPart → Text → Bool
  | .exact pattern, component => eqIgnoreAsciiCase component pattern
  | .glob head tail, component =>
    if component.length < head.length + tail.length then false
    else
      eqIgnoreAsciiCase (component.take head.length) head &&
        eqIgnoreAsciiCase (component.drop (component.length - tail.length)) tail

/-- A pattern against the components from the front. -/
def patternMatchesHere (pattern : List PatternPart) (components : List Text) : Bool :=
  pattern.length ≤ components.length &&
    (pattern.zip components).all fun pc => partMatches pc.1 pc.2

/-- A pattern against some consecutive run of the components. -/
def patternMatchesRun (pattern : List PatternPart) (components : List Text) : Bool :=
  components.tails.any fun run => patternMatchesHere pattern run

/-- The components match some pattern of the deny list. -/
def isDenied (components : List Text) : Bool :=
  denyPatterns.any fun pattern => patternMatchesRun pattern components

/-- The name of the staging directory. -/
def partialRootName : Text := ".tradr-partial".toList

/-- The components name something below the staging directory of a root. -/
def isPartialStaging (components : List Text) : Bool :=
  components.length > 1 &&
    match components.head? with
    | some c => eqIgnoreAsciiCase c partialRootName
    | none => false

/-- The staging directory's own entry of the deny list. -/
def isPartialPattern (pattern : List PatternPart) : Bool :=
  pattern.head? = some (.exact partialRootName)

/-- The components are denied for every operation: below the staging directory its own
entry of the list does not count. -/
def isDeniedForWrite (components : List Text) : Bool :=
  if isPartialStaging components then
    (denyPatterns.filter fun p => !isPartialPattern p).any fun pattern =>
      patternMatchesRun pattern components
  else isDenied components

/-- A pattern matches from the front when it matches a front part of its length. -/
theorem patternMatchesHere_iff {pattern : List PatternPart} {components : List Text} :
    patternMatchesHere pattern components = true ↔
      ∃ run, run <+: components ∧ List.Forall₂ (fun a c => partMatches a c = true) pattern run := by
  induction pattern generalizing components with
  | nil => exact ⟨fun _ => ⟨[], List.nil_prefix, .nil⟩, fun _ => by simp [patternMatchesHere]⟩
  | cons a pattern ih =>
      cases components with
      | nil =>
          constructor
          · intro h
            exact absurd h (by simp [patternMatchesHere])
          · rintro ⟨run, hrun, hall⟩
            rw [List.prefix_nil.mp hrun] at hall
            exact absurd hall (by simp)
      | cons c components =>
          have hcons : patternMatchesHere (a :: pattern) (c :: components) =
              (partMatches a c && patternMatchesHere pattern components) := by
            simp only [patternMatchesHere, List.length_cons, Nat.add_le_add_iff_right,
              List.zip_cons_cons, List.all_cons]
            rw [Bool.and_left_comm]
          rw [hcons, Bool.and_eq_true, ih]
          constructor
          · rintro ⟨hc, run, hrun, hall⟩
            exact ⟨c :: run, List.cons_prefix_cons.mpr ⟨rfl, hrun⟩, .cons hc hall⟩
          · rintro ⟨run, hrun, hall⟩
            obtain ⟨c', run', hc, hall', rfl⟩ := List.forall₂_cons_left_iff.mp hall
            obtain ⟨rfl, hrun'⟩ := List.cons_prefix_cons.mp hrun
            exact ⟨hc, run', hrun', hall'⟩

/-- A pattern matches a path when it matches a run of consecutive components. -/
theorem patternMatchesRun_iff {pattern : List PatternPart} {components : List Text} :
    patternMatchesRun pattern components = true ↔
      ∃ run, run <:+: components ∧
        List.Forall₂ (fun a c => partMatches a c = true) pattern run := by
  simp only [patternMatchesRun, List.any_eq_true, List.mem_tails, patternMatchesHere_iff]
  constructor
  · rintro ⟨tail, htail, run, hrun, hall⟩
    exact ⟨run, hrun.isInfix.trans htail.isInfix, hall⟩
  · rintro ⟨run, ⟨s, t, rfl⟩, hall⟩
    exact ⟨run ++ t, by simp, run, List.prefix_append _ _, hall⟩

/-- Every pattern of the deny list has one or two parts. -/
theorem length_denyPattern {pattern : List PatternPart} (h : pattern ∈ denyPatterns) :
    pattern.length = 1 ∨ pattern.length = 2 := by
  revert pattern
  decide

/-- A path that may be touched is matched by no pattern but the staging directory's. -/
theorem not_matches_of_isDeniedForWrite {components : List Text}
    (h : isDeniedForWrite components = false) {pattern : List PatternPart}
    (hmem : pattern ∈ denyPatterns) (hother : isPartialPattern pattern = false) :
    patternMatchesRun pattern components = false := by
  unfold isDeniedForWrite at h
  split at h
  · rw [List.any_eq_false] at h
    simpa using h pattern (List.mem_filter.mpr ⟨hmem, by simp [hother]⟩)
  · rw [isDenied, List.any_eq_false] at h
    simpa using h pattern hmem

/-- What a renamed path has in common with its source: where the last component of the
source starts a pattern of two parts, so does that of the target. -/
def KeepsRuns (source target : List Text) : Prop :=
  ∀ a b, [a, b] ∈ denyPatterns → ∀ c, source.getLast? = some c → partMatches a c = true →
    ∃ d, target.getLast? = some d ∧ partMatches a d = true

/-- A pattern that matches below a path and not the path itself still matches after the
path was moved, unless it has two parts and the move cuts them apart. -/
theorem patternMatchesRun_moved {pattern : List PatternPart} (hmem : pattern ∈ denyPatterns)
    {source target rest : List Text} (hsource : patternMatchesRun pattern source = false)
    (hkeeps : pattern.length = 1 ∨ KeepsRuns source target)
    (h : patternMatchesRun pattern (source ++ rest) = true) :
    patternMatchesRun pattern (target ++ rest) = true := by
  obtain ⟨run, hrun, hall⟩ := patternMatchesRun_iff.mp h
  rcases List.infix_append_iff_ne_nil.mp hrun with hin | hin | ⟨x, y, hx, hy, rfl, hsuf, hpre⟩
  · have := patternMatchesRun_iff.mpr ⟨run, hin, hall⟩
    rw [hsource] at this
    exact absurd this (by simp)
  · exact patternMatchesRun_iff.mpr ⟨run, List.infix_append_of_infix_right hin, hall⟩
  · -- the run straddles the end of the source, so it has two parts
    have hlen := hall.length_eq
    have hxlen : 0 < x.length := List.length_pos_iff.mpr hx
    have hylen : 0 < y.length := List.length_pos_iff.mpr hy
    rw [List.length_append] at hlen
    have htwo := length_denyPattern hmem
    obtain ⟨c, rfl⟩ := List.length_eq_one_iff.mp (show x.length = 1 by omega)
    obtain ⟨d, rfl⟩ := List.length_eq_one_iff.mp (show y.length = 1 by omega)
    obtain ⟨a, b, rfl⟩ := List.length_eq_two.mp (show pattern.length = 2 by omega)
    rw [List.singleton_append, List.forall₂_cons, List.forall₂_cons] at hall
    obtain ⟨hac, hbd, -⟩ := hall
    obtain ⟨s, rfl⟩ := hsuf
    rcases hkeeps with hone | hkeeps
    · exact absurd hone (by simp)
    · obtain ⟨c', hlast, hac'⟩ := hkeeps a b hmem c (by simp) hac
      obtain ⟨t, rfl⟩ := List.getLast?_eq_some_iff.mp hlast
      obtain ⟨r, rfl⟩ := hpre
      exact patternMatchesRun_iff.mpr
        ⟨[c', d], ⟨t, r, by simp⟩, .cons hac' (.cons hbd .nil)⟩

/-! ### Destination paths -/

/-- Why a destination path is refused. -/
inductive SanitizationError
  | absolutePath
  | parentTraversal
  | controlCharacters
  | bidiOverride
  | invalidRelPath (e : RelPathError)
  deriving DecidableEq, Repr

/-- A refusal by the rejecting rules, in the sanitizer's terms. -/
def SanitizationError.ofRelPathError : RelPathError → SanitizationError
  | .absolute | .driveLetter | .backslash => .absolutePath
  | .controlCharacter _ => .controlCharacters
  | .misleadingDisplay _ => .bidiOverride
  | .dotComponent s => if s = ['.', '.'] then .parentTraversal else .invalidRelPath (.dotComponent s)
  | other => .invalidRelPath other

/-- The Windows device names. -/
def windowsReserved : List Text :=
  ["CON".toList, "PRN".toList, "AUX".toList, "NUL".toList, "COM1".toList, "COM2".toList,
    "COM3".toList, "COM4".toList, "COM5".toList, "COM6".toList, "COM7".toList,
    "COM8".toList, "COM9".toList, "LPT1".toList, "LPT2".toList, "LPT3".toList,
    "LPT4".toList, "LPT5".toList, "LPT6".toList, "LPT7".toList, "LPT8".toList,
    "LPT9".toList]

/-- Drop trailing dots and spaces. -/
def trimEnd (component : Text) : Text :=
  component.rdropWhile fun c => c = '.' ∨ c = ' '

/-- The transforming rules for one trimmed component: a colon names an alternate data
stream on NTFS, and a device name is marked. -/
def sanitizeComponent (trimmed : Text) : Text :=
  let replaced := trimmed.map fun c => if c = ':' then '_' else c
  let stem := replaced.takeWhile (· ≠ '.')
  let ext := replaced.dropWhile (· ≠ '.')
  if windowsReserved.any fun reserved => eqIgnoreAsciiCase reserved stem then
    stem ++ '_' :: ext
  else replaced

/-- Sanitize a raw destination path from a peer. -/
def sanitizeDestinationPath (nfc : Text → Text) (rawPath : Text) :
    Except SanitizationError RelPath :=
  let normalized := nfc rawPath
  if normalized.head? = some '/' ∨ normalized.head? = some '\\' ∨
      hasDriveLetterPrefix normalized then .error .absolutePath
  else if normalized.any isControl then .error .controlCharacters
  else if normalized.any isMisleadingDisplayCharacter then .error .bidiOverride
  else if ['.', '.'] ∈ normalized.splitOn '/' then .error .parentTraversal
  else
    let kept := ((normalized.splitOn '/').map trimEnd).filter (· ≠ [])
    (RelPath.new (['/'].intercalate (kept.map sanitizeComponent))).mapError
      .ofRelPathError

/-! ### Staging paths -/

/-- Characters no rule of a path objects to. -/
def isPlainChar (c : Char) : Bool :=
  isPermittedChar c || c = '.'

/-- A plain character is ASCII, and none of the special ones. -/
theorem isPlainChar_spec {c : Char} (h : isPlainChar c = true) :
    c.toNat < 0x7f ∧ 0x20 < c.toNat ∧ c ≠ '/' ∧ c ≠ '\\' ∧ c ≠ ':' := by
  have hnat : ∀ d : Char, c = d → c.toNat = d.toNat := fun d hd => by rw [hd]
  have hbound : (97 ≤ c.toNat ∧ c.toNat ≤ 122) ∨ (48 ≤ c.toNat ∧ c.toNat ≤ 57) ∨
      c.toNat = 45 ∨ c.toNat = 95 ∨ c.toNat = 46 := by
    simp only [isPlainChar, isPermittedChar, Bool.or_eq_true, decide_eq_true_eq,
      isLower_iff, Char.isDigit, Bool.and_eq_true, ge_iff_le, UInt32.le_iff_toNat_le] at h
    rcases h with (h | h | h | h) | h
    · exact .inl h
    · exact .inr (.inl h)
    · exact .inr (.inr (.inl (hnat _ h)))
    · exact .inr (.inr (.inr (.inl (hnat _ h))))
    · exact .inr (.inr (.inr (.inr (hnat _ h))))
  refine ⟨by omega, by omega, ?_, ?_, ?_⟩
  · intro hc
    have : c.toNat = 47 := hnat _ hc
    omega
  · intro hc
    have : c.toNat = 92 := hnat _ hc
    omega
  · intro hc
    have : c.toNat = 58 := hnat _ hc
    omega

/-- A plain text has one byte for each character. -/
theorem utf8Len_of_plain {s : Text} (h : ∀ c ∈ s, isPlainChar c = true) :
    utf8Len s = s.length := by
  induction s with
  | nil => rfl
  | cons c s ih =>
      have hc := (isPlainChar_spec (h c (by simp))).1
      have h1 : c.utf8Size = 1 := by
        rw [Char.utf8Size_eq_one_iff, UInt32.le_iff_toNat_le]
        exact (show c.toNat ≤ 127 by omega)
      have hs := ih fun d hd => h d (by simp [hd])
      simp only [utf8Len, List.map_cons, List.sum_cons, List.length_cons] at hs ⊢
      omega

/-- A component that no rule of a path objects to. -/
structure PlainComponent (c : Text) : Prop where
  plain : ∀ d ∈ c, isPlainChar d = true
  ne_nil : c ≠ []
  ne_dot : c ≠ ['.'] ∧ c ≠ ['.', '.']
  length_le : c.length ≤ relPathComponentMaxLen

/-- A plain component passes. -/
theorem PlainComponent.accepted {c : Text} (h : PlainComponent c) :
    componentRefusal c = none := by
  unfold componentRefusal
  rw [if_neg h.ne_nil, if_neg (by simpa using h.ne_dot), utf8Len_of_plain h.plain,
    if_neg (not_lt.mpr h.length_le)]

/-- A character of plain components joined by slashes is plain or a slash. -/
theorem mem_intercalate_plain {comps : List Text} (h : ∀ c ∈ comps, PlainComponent c)
    {d : Char} (hd : d ∈ ['/'].intercalate comps) : isPlainChar d = true ∨ d = '/' := by
  induction comps with
  | nil => simp at hd
  | cons c comps ih =>
      cases comps with
      | nil =>
          rw [List.intercalate_singleton] at hd
          exact .inl ((h c (by simp)).plain d hd)
      | cons c' comps =>
          rw [List.intercalate_cons_cons] at hd
          rcases List.mem_append.mp hd with hd | hd
          · rcases List.mem_append.mp hd with hd | hd
            · exact .inl ((h c (by simp)).plain d hd)
            · exact .inr (by simpa using hd)
          · exact ih (fun x hx => h x (List.mem_cons_of_mem _ hx)) hd

/-- Plain components joined by slashes form a path. -/
theorem relPathRefusal_intercalate {comps : List Text} (h : ∀ c ∈ comps, PlainComponent c)
    (hne : comps ≠ []) : relPathRefusal (['/'].intercalate comps) = none := by
  have hsplit : (['/'].intercalate comps).splitOn '/' = comps := by
    refine List.splitOn_intercalate '/' (fun c hc hmem => ?_) hne
    exact (isPlainChar_spec ((h c hc).plain _ hmem)).2.2.1 rfl
  have hchars : ∀ d ∈ ['/'].intercalate comps, d.toNat < 0x7f ∧ 0x20 < d.toNat ∧
      d ≠ '\\' ∧ d ≠ ':' := by
    intro d hd
    rcases mem_intercalate_plain h hd with hp | rfl
    · obtain ⟨h1, h2, -, h3, h4⟩ := isPlainChar_spec hp
      exact ⟨h1, h2, h3, h4⟩
    · decide
  have hhead : (['/'].intercalate comps).head? ≠ some '/' ∧
      ['/'].intercalate comps ≠ [] := by
    obtain ⟨c, comps, rfl⟩ := List.exists_cons_of_ne_nil hne
    obtain ⟨d, c, rfl⟩ := List.exists_cons_of_ne_nil (h c (by simp)).ne_nil
    have hd := (isPlainChar_spec ((h _ (List.mem_cons_self ..)).plain d (by simp))).2.2.1
    cases comps with
    | nil => simpa using hd
    | cons c' comps => simpa [List.intercalate_cons_cons] using hd
  have hdrive : hasDriveLetterPrefix (['/'].intercalate comps) = false := by
    generalize ['/'].intercalate comps = s at hchars
    unfold hasDriveLetterPrefix
    split
    · exact absurd rfl (hchars ':' (by simp)).2.2.2
    · rfl
  unfold relPathRefusal
  rw [if_neg hhead.2, if_neg hhead.1, if_neg fun hb => (hchars _ hb).2.2.1 rfl, hdrive]
  have hctrl : (['/'].intercalate comps).find? isControl = none := by
    refine List.find?_eq_none.mpr fun d hd => ?_
    have := hchars d hd
    simp only [isControl, decide_eq_true_eq]
    omega
  have hmis : (['/'].intercalate comps).find? isMisleadingDisplayCharacter = none := by
    refine List.find?_eq_none.mpr fun d hd => ?_
    have := hchars d hd
    simp only [isMisleadingDisplayCharacter, decide_eq_true_eq]
    omega
  rw [hctrl, hmis, hsplit]
  simpa using fun c hc => (h c hc).accepted

/-- The path made of plain components. -/
def RelPath.ofPlain (comps : List Text) (h : ∀ c ∈ comps, PlainComponent c)
    (hne : comps ≠ []) : RelPath :=
  ⟨['/'].intercalate comps, .inr (relPathRefusal_intercalate h hne)⟩

/-- The components of a path made of plain components are these. -/
theorem RelPath.components_ofPlain {comps : List Text} (h : ∀ c ∈ comps, PlainComponent c)
    (hne : comps ≠ []) : (RelPath.ofPlain comps h hne).components = comps := by
  rw [RelPath.components_eq_splitOn
    (relPathRefusal_eq_none (relPathRefusal_intercalate h hne)).1]
  refine List.splitOn_intercalate '/' (fun c hc hmem => ?_) hne
  exact (isPlainChar_spec ((h c hc).plain _ hmem)).2.2.1 rfl

/-- The name of the staging directory is plain. -/
theorem plainComponent_partialRootName : PlainComponent partialRootName :=
  ⟨List.all_eq_true.mp (by decide), by decide, by decide, by decide⟩

/-- Hexadecimal digits are plain. -/
theorem isPlainChar_of_mem_hexText {bs : List UInt8} {c : Char} (h : c ∈ hexText bs) :
    isPlainChar c = true := by
  have hdigit : ∀ n, isPlainChar (hexChars.getD n '0') = true := by
    intro n
    rcases Nat.lt_or_ge n hexChars.length with hn | hn
    · rw [List.getD_eq_getElem _ _ hn]
      exact List.all_eq_true.mp (show hexChars.all isPlainChar = true by decide) _
        (List.getElem_mem hn)
    · rw [List.getD_eq_default _ _ hn]
      decide
  obtain ⟨b, -, hc⟩ := List.mem_flatMap.mp h
  simp only [hexByte, List.mem_cons, List.not_mem_nil, or_false] at hc
  rcases hc with rfl | rfl
  · exact hdigit _
  · exact hdigit _

/-- The rendering of a transfer identifier has 36 characters. -/
theorem TransferId.length_display (t : TransferId) : t.display.length = canonicalLen := by
  have h := t.length_bytes
  simp only [display, List.length_append, List.length_cons, length_hexText,
    List.length_take, List.length_drop, canonicalLen]
  omega

/-- The rendering of a transfer identifier is plain. -/
theorem TransferId.plainComponent_display (t : TransferId) : PlainComponent t.display := by
  have hlen : t.display.length = 36 := t.length_display
  refine ⟨?_, ?_, ⟨?_, ?_⟩, ?_⟩
  · intro c hc
    simp only [display, List.mem_append, List.mem_cons] at hc
    rcases hc with (((h | rfl | h) | rfl | h) | rfl | h) | rfl | h
    all_goals first
      | exact isPlainChar_of_mem_hexText h
      | decide
  · intro h
    rw [h] at hlen
    exact absurd hlen (by decide)
  · intro h
    rw [h] at hlen
    exact absurd hlen (by decide)
  · intro h
    rw [h] at hlen
    exact absurd hlen (by decide)
  · rw [hlen]
    decide

/-- An item identifier is plain. -/
theorem ItemId.plainComponent_value (i : ItemId) : PlainComponent i.value := by
  have h := i.accepted
  have h0 : ¬ (i.value = [] ∨ utf8Len i.value > itemIdMaxLen) := by
    intro h0
    rw [itemIdRefusal, if_pos h0] at h
    exact absurd h (by simp)
  rw [itemIdRefusal, if_neg h0] at h
  split at h
  · exact absurd h (by simp)
  · rename_i hfind
    have hperm : ∀ c ∈ i.value, isPermittedChar c = true := by
      intro c hc
      simpa using List.find?_eq_none.mp hfind c hc
    have hplain : ∀ c ∈ i.value, isPlainChar c = true := by
      intro c hc
      simp [isPlainChar, hperm c hc]
    have hdot : '.' ∉ i.value := by
      intro hc
      exact absurd (hperm '.' hc) (by decide)
    obtain ⟨hne, hlen⟩ := not_or.mp h0
    rw [utf8Len_of_plain hplain] at hlen
    refine ⟨hplain, hne, ⟨?_, ?_⟩, ?_⟩
    · intro h1
      exact hdot (by simp [h1])
    · intro h1
      exact hdot (by simp [h1])
    · simp only [itemIdMaxLen, relPathComponentMaxLen] at hlen ⊢
      omega

/-- The directory of a transfer's partial files. -/
def partialDirRelPath (transferId : TransferId) : RelPath :=
  RelPath.ofPlain [partialRootName, transferId.display]
    (by simpa using ⟨plainComponent_partialRootName, transferId.plainComponent_display⟩)
    (by simp)

/-- A transfer's partial file of an item. -/
def partialFileRelPath (transferId : TransferId) (itemId : ItemId) : RelPath :=
  RelPath.ofPlain [partialRootName, transferId.display, itemId.value]
    (by
      simpa using ⟨plainComponent_partialRootName, transferId.plainComponent_display,
        itemId.plainComponent_value⟩)
    (by simp)

/-- A partial file is no transfer's directory. -/
theorem partialFileRelPath_ne_partialDirRelPath (transferId transferId' : TransferId)
    (itemId : ItemId) : partialFileRelPath transferId itemId ≠ partialDirRelPath transferId' := by
  intro h
  have hc := congrArg RelPath.components h
  rw [partialFileRelPath, partialDirRelPath, RelPath.components_ofPlain,
    RelPath.components_ofPlain] at hc
  exact absurd hc (by simp)

/-! ### Collision names -/

/-- A file name cut for a counter: the part before the last dot, unless the name only
starts with one, and the rest. -/
def stemAndExt (fileName : Text) : Text × Text :=
  let tail := fileName.reverse.takeWhile (· ≠ '.')
  let dotIdx := fileName.length - tail.length - 1
  if '.' ∈ fileName ∧ dotIdx > 0 then (fileName.take dotIdx, fileName.drop dotIdx)
  else (fileName, [])

/-- The part of a path up to and with the last slash, and the file name after it. -/
def splitParent (path : Text) : Text × Text :=
  let name := (path.reverse.takeWhile (· ≠ '/')).reverse
  (path.take (path.length - name.length), name)

/-- A natural number in decimal digits. -/
def decimal (n : ℕ) : Text :=
  Nat.toDigits 10 n

/-- The candidate name for a counter: `stem (counter)ext` beside the original. -/
def collisionName (path : Text) (counter : ℕ) : Text :=
  let (parent, fileName) := splitParent path
  let (stem, ext) := stemAndExt fileName
  parent ++ stem ++ " (".toList ++ decimal counter ++ ')' :: ext

end Tradr
