import Tradr.Posix

/-!
# Other Spellings of Denied Names

The deny list is matched against the components of a path as they are spelled. A
filesystem may take other spellings for the same name: one that resolves names up to
Unicode normalisation (NFC), and the one of Windows, which cuts a name at its first colon
and drops trailing dots and spaces. A path is guarded against such an equivalence when it
is refused whenever its other spelling is on the list.

Normalisation is third-party code and a parameter; what is used of it is `IsNfc`. The only
character besides ASCII that it turns into a letter of a pattern is the KELVIN SIGN.

## Main definitions

* `readKelvin`, `windowsName`: what the two equivalences undo.
* `Guarded`: a denied path is refused in this spelling.
* `Disguised`: a path that only its other spelling denies.

## Main results

* `isDeniedForWrite_map_iff`: what the other spelling of an allowed path is denied for.
* `isDeniedForWrite_nfc`: normalisation adds no more than reading the KELVIN SIGN.
* `guarded_iff`: a path is guarded if and only if it is not disguised.
-/

namespace Tradr

/-! ### The two equivalences -/

/-- The KELVIN SIGN, whose normal form is a capital K. -/
def kelvinSign : Char := '\u212a'

/-- Read a KELVIN SIGN as the letter it stands for. -/
def readKelvin (component : Text) : Text :=
  component.map fun c => if c = kelvinSign then 'K' else c

/-- The name Windows takes a component for: up to the first colon, which starts the name of
a stream, and without trailing dots and spaces. -/
def windowsName (component : Text) : Text :=
  trimEnd (component.takeWhile (· ≠ ':'))

/-- The characters of the deny list. -/
def isPatternChar (c : Char) : Bool :=
  c.isAlpha || c.isDigit || c = '.' || c = '-' || c = '_'

/-- What normalisation does around such characters: they are boundaries, and only they and
the KELVIN SIGN give them. -/
structure IsNfc (nfc : Text → Text) : Prop where
  nil : nfc [] = []
  boundary : ∀ x y, (∀ c ∈ y, isPatternChar c = true ∨ c = kelvinSign) →
    nfc (x ++ y) = nfc x ++ readKelvin y
  origin : ∀ s a y b, nfc s = a ++ (y ++ b) → (∀ c ∈ y, isPatternChar c = true) →
    ∃ a' y' b', s = a' ++ (y' ++ b') ∧ readKelvin y' = y ∧ (a = [] → a' = []) ∧ (b = [] → b' = [])

/-! ### The check -/

/-- The check of the writing operations: the same, once more. -/
def checkDenyListWrite (path : RelPath) : Except VfsError Unit :=
  if isDeniedForWrite path.components then .error .denyListed else .ok ()

/-- No operation of a backend on the path answers. -/
structure NothingAnswers {σ H : Type} (vfs : Vfs σ H) (s : σ) (p : RelPath) : Prop where
  list : ∀ a, (vfs.list s p).1 ≠ .ok a
  stat : ∀ a, (vfs.stat s p).1 ≠ .ok a
  openRead : ∀ a, (vfs.openRead s p).1 ≠ .ok a
  createDir : (vfs.createDir s p).1 ≠ .ok ()
  openWrite : ∀ a, (vfs.openWrite s p).1 ≠ .ok a
  remove : (vfs.remove s p).1 ≠ .ok ()
  rename : ∀ q, (vfs.rename s p q).1 ≠ .ok () ∧ (vfs.rename s q p).1 ≠ .ok ()
  renameNoReplace : ∀ q,
    (vfs.renameNoReplace s p q).1 ≠ .ok () ∧ (vfs.renameNoReplace s q p).1 ≠ .ok ()

/-- A path that is denied in its other spelling is refused. -/
def Guarded (canon : Text → Text) (p : RelPath) : Prop :=
  isDeniedForWrite (p.components.map canon) = true →
    PosixVfs.checkDenyList p = .error .denyListed ∧ checkDenyListWrite p = .error .denyListed ∧
      ∀ t, NothingAnswers PosixVfs.vfs t p

/-- A path that is not denied as it is spelled, while a pattern matches a run of its
components once they are undone, of which one is marked. Below the staging directory its
own entry of the list does not count. -/
structure Disguised (undo : Text → Text) (Marked : Text → Prop) (p : RelPath) : Prop where
  allowed : isDeniedForWrite p.components = false
  hidden : ∃ pattern ∈ denyPatterns,
    (isPartialPattern pattern = true → isPartialStaging (p.components.map undo) = false) ∧
    ∃ run, run <:+: p.components ∧ (∃ c ∈ run, Marked c) ∧
      List.Forall₂ (fun a c => partMatches a (undo c) = true) pattern run

/-- A component spelled with a KELVIN SIGN. -/
def HasKelvin (component : Text) : Prop :=
  kelvinSign ∈ component

/-- A component that names a stream, or ends in a dot or a space. -/
def HasStreamOrTail (component : Text) : Prop :=
  ':' ∈ component ∨ component.getLast? = some '.' ∨ component.getLast? = some ' '

/-- Reading the KELVIN SIGN changes a component that has one, and no other. -/
theorem hasKelvin_iff {component : Text} :
    HasKelvin component ↔ readKelvin component ≠ component := by
  constructor
  · intro hmem heq
    rw [HasKelvin, ← heq] at hmem
    obtain ⟨d, -, hd⟩ := List.mem_map.mp hmem
    split_ifs at hd with hk
    · exact absurd hd (by decide)
    · exact hk hd
  · intro hne
    by_contra hno
    refine hne ((List.map_congr_left fun d hd => ?_).trans (List.map_id component))
    refine if_neg ?_
    rintro rfl
    exact hno hd

/-- The name Windows takes a component for differs from it when it names a stream or has
such a tail, and else not. -/
theorem hasStreamOrTail_iff {component : Text} :
    HasStreamOrTail component ↔ windowsName component ≠ component := by
  constructor
  · rintro hmark heq
    have hcolon : ':' ∉ component := by
      rw [← heq]
      intro hmem
      have := List.mem_takeWhile_imp ((List.rdropWhile_prefix _ _).subset hmem)
      simp at this
    have hcut : component.takeWhile (· ≠ ':') = component := by
      rw [List.takeWhile_eq_self_iff]
      rintro c hc
      refine decide_eq_true ?_
      rintro rfl
      exact hcolon hc
    rw [windowsName, hcut, trimEnd, List.rdropWhile_eq_self_iff] at heq
    rcases hmark with h | h
    · exact hcolon h
    · rw [List.getLast?_eq_some_iff, List.getLast?_eq_some_iff] at h
      rcases h with ⟨ys, rfl⟩ | ⟨ys, rfl⟩
      · exact heq (by simp) (by simp)
      · exact heq (by simp) (by simp)
  · intro hne
    by_contra hno
    obtain ⟨hcolon, htail⟩ := not_or.mp hno
    obtain ⟨hdot, hspace⟩ := not_or.mp htail
    refine hne ?_
    have hcut : component.takeWhile (· ≠ ':') = component := by
      rw [List.takeWhile_eq_self_iff]
      rintro c hc
      refine decide_eq_true ?_
      rintro rfl
      exact hcolon hc
    rw [windowsName, hcut, trimEnd, List.rdropWhile_eq_self_iff]
    intro hnil hlast
    rw [List.getLast?_eq_some_getLast hnil] at hdot hspace
    rcases of_decide_eq_true hlast with h | h
    · exact hdot (by rw [h])
    · exact hspace (by rw [h])

/-! ### What a spelling is denied for -/

/-- A path is denied for a pattern that matches a run of its components. -/
theorem isDeniedForWrite_iff {components : List Text} :
    isDeniedForWrite components = true ↔ ∃ pattern ∈ denyPatterns,
      (isPartialPattern pattern = true → isPartialStaging components = false) ∧
      ∃ run, run <:+: components ∧
        List.Forall₂ (fun a c => partMatches a c = true) pattern run := by
  simp only [isDeniedForWrite, ← patternMatchesRun_iff]
  by_cases hstaging : isPartialStaging components = true
  · rw [if_pos hstaging, hstaging]
    simp
  · rw [if_neg hstaging, Bool.eq_false_iff.mpr hstaging]
    simp [isDenied]

/-- The same for a path whose components are spelled in another way. -/
theorem isDeniedForWrite_map {components : List Text} {f : Text → Text} :
    isDeniedForWrite (components.map f) = true ↔ ∃ pattern ∈ denyPatterns,
      (isPartialPattern pattern = true → isPartialStaging (components.map f) = false) ∧
      ∃ run, run <:+: components ∧
        List.Forall₂ (fun a c => partMatches a (f c) = true) pattern run := by
  rw [isDeniedForWrite_iff]
  refine exists_congr fun pattern => and_congr_right fun _ => and_congr_right fun _ => ?_
  constructor
  · rintro ⟨run, hrun, hall⟩
    obtain ⟨run, hin, rfl⟩ := List.infix_map_iff.mp hrun
    exact ⟨run, hin, List.forall₂_map_right_iff.mp hall⟩
  · rintro ⟨run, hin, hall⟩
    exact ⟨run.map f, hin.map f, List.forall₂_map_right_iff.mpr hall⟩

/-- What lies below the staging directory stays there when its name is kept. -/
theorem isPartialStaging_map {components : List Text} {f : Text → Text}
    (hfix : ∀ c, eqIgnoreAsciiCase c partialRootName = true → f c = c)
    (h : isPartialStaging components = true) : isPartialStaging (components.map f) = true := by
  cases components with
  | nil => exact absurd h (by simp [isPartialStaging])
  | cons c components =>
      simp only [isPartialStaging, List.head?_cons, Bool.and_eq_true] at h
      simp only [isPartialStaging, List.map_cons, List.head?_cons, Bool.and_eq_true,
        List.length_cons, List.length_map]
      rw [hfix c h.2]
      exact h

/-- **What another spelling of an allowed path is denied for**: a run of which a component
was changed. -/
theorem isDeniedForWrite_map_iff {components : List Text} {f : Text → Text}
    (hfix : ∀ c, eqIgnoreAsciiCase c partialRootName = true → f c = c)
    (hallowed : isDeniedForWrite components = false) :
    isDeniedForWrite (components.map f) = true ↔ ∃ pattern ∈ denyPatterns,
      (isPartialPattern pattern = true → isPartialStaging (components.map f) = false) ∧
      ∃ run, run <:+: components ∧ (∃ c ∈ run, f c ≠ c) ∧
        List.Forall₂ (fun a c => partMatches a (f c) = true) pattern run := by
  rw [isDeniedForWrite_map]
  refine exists_congr fun pattern => and_congr_right fun hmem => and_congr_right fun hpart => ?_
  refine exists_congr fun run => and_congr_right fun hin => ⟨fun hall => ⟨?_, hall⟩, And.right⟩
  by_contra hsame
  have hkept : ∀ c ∈ run, f c = c := fun c hc => by_contra fun hne => hsame ⟨c, hc, hne⟩
  -- The run itself is matched, and so the path is denied as it is spelled.
  have hmap : run.map f = run := (List.map_congr_left hkept).trans (List.map_id' run)
  have hself : List.Forall₂ (fun a c => partMatches a c = true) pattern (run.map f) :=
    List.forall₂_map_right_iff.mpr hall
  rw [hmap] at hself
  have hdenied : isDeniedForWrite components = true := by
    refine isDeniedForWrite_iff.mpr ⟨pattern, hmem, fun hp => ?_, run, hin, hself⟩
    by_contra hstaging
    have := isPartialStaging_map hfix (Bool.eq_true_of_not_eq_false hstaging)
    rw [hpart hp] at this
    cases this
  rw [hallowed] at hdenied
  cases hdenied

/-! ### Normalisation and the patterns -/

/-- Nothing but letters has a lower case of its own. -/
theorem toLower_of_not_isAlpha {c : Char} (h : ¬c.isAlpha = true) : c.toLower = c :=
  toLower_of_not_upper fun hupper => h (isAlpha_iff.mpr (.inl hupper))

/-- The lower case of a letter is a letter. -/
theorem isAlpha_toLower_of_isAlpha {c : Char} (h : c.isAlpha = true) :
    c.toLower.isAlpha = true := by
  by_cases hupper : 65 ≤ c.toNat ∧ c.toNat ≤ 90
  · have hnat := toNat_toLower_of_upper hupper
    exact isAlpha_iff.mpr (.inr (by omega))
  · rwa [toLower_of_not_upper hupper]

/-- Case does not matter for what a pattern is made of. -/
theorem isPatternChar_of_toLower {c d : Char} (h : c.toLower = d.toLower)
    (hd : isPatternChar d = true) : isPatternChar c = true := by
  by_cases hc : c.isAlpha = true
  · simp [isPatternChar, hc]
  · have hd' : ¬d.isAlpha = true := by
      intro hletter
      apply hc
      rw [← toLower_of_not_isAlpha hc, h]
      exact isAlpha_toLower_of_isAlpha hletter
    rw [toLower_of_not_isAlpha hc, toLower_of_not_isAlpha hd'] at h
    rw [h]
    exact hd

/-- A text that is a pattern up to case is made of the characters of patterns. -/
theorem isPatternChar_of_eqIgnoreAsciiCase {a b : Text} (h : eqIgnoreAsciiCase a b = true)
    (hb : ∀ c ∈ b, isPatternChar c = true) : ∀ c ∈ a, isPatternChar c = true := by
  intro c hc
  have hmem : c.toLower ∈ b.map Char.toLower := by
    rw [← of_decide_eq_true h]
    exact List.mem_map_of_mem hc
  obtain ⟨d, hd, heq⟩ := List.mem_map.mp hmem
  exact isPatternChar_of_toLower heq.symm (hb d hd)

/-- A part with a head and a tail matches a component that has both. -/
theorem partMatches_glob_iff {head tail component : Text} :
    partMatches (.glob head tail) component = true ↔ ∃ a m b, component = a ++ (m ++ b) ∧
      eqIgnoreAsciiCase a head = true ∧ eqIgnoreAsciiCase b tail = true := by
  have hlen : ∀ {a b : Text}, eqIgnoreAsciiCase a b = true → a.length = b.length := by
    intro a b h
    have := congrArg List.length (of_decide_eq_true h)
    rwa [List.length_map, List.length_map] at this
  rw [partMatches]
  constructor
  · intro h
    split_ifs at h with hshort
    obtain ⟨h1, h2⟩ := Bool.and_eq_true_iff.mp h
    have hcut : head.length + (component.length - tail.length - head.length) =
        component.length - tail.length := by omega
    refine ⟨_, (component.drop head.length).take (component.length - tail.length - head.length),
      _, ?_, h1, h2⟩
    have hdrop : component.drop (component.length - tail.length) =
        (component.drop head.length).drop (component.length - tail.length - head.length) := by
      rw [List.drop_drop, hcut]
    rw [hdrop, List.take_append_drop, List.take_append_drop]
  · rintro ⟨a, m, b, rfl, ha, hb⟩
    have hal := hlen ha
    have hbl := hlen hb
    have hdrop : (a ++ (m ++ b)).length - tail.length = (a ++ m).length := by
      rw [List.length_append, List.length_append, List.length_append]
      omega
    rw [if_neg (by rw [List.length_append, List.length_append]; omega), List.take_left' hal, hdrop,
      ← List.append_assoc, List.drop_left, ha, hb]
    rfl

/-- The parts of the deny list: made of plain characters, open at one end at most, and with
no letter K in a head. -/
def isPlainPart : PatternPart → Bool
  | .exact pattern => pattern.all isPatternChar
  | .glob head tail => head.all isPatternChar && tail.all isPatternChar &&
    (head = [] || tail = [] && !(head.map Char.toLower).contains 'k')

/-- Every part of the deny list is one of these. -/
theorem isPlainPart_of_mem {pattern : List PatternPart} (h : pattern ∈ denyPatterns) :
    ∀ part ∈ pattern, isPlainPart part = true := by
  have hall : denyPatterns.all (fun pattern => pattern.all isPlainPart) = true := by
    decide +kernel
  exact List.all_eq_true.mp (List.all_eq_true.mp hall pattern h)

/-- A part that is open at one end. -/
def PatternPart.isGlob : PatternPart → Bool
  | .exact _ => false
  | .glob _ _ => true

/-- It stands alone. -/
theorem eq_singleton_of_isGlob {pattern : List PatternPart} (h : pattern ∈ denyPatterns) :
    ∀ part ∈ pattern, part.isGlob = true → pattern = [part] := by
  revert pattern
  decide +kernel

/-- What is known of a part that is open at one end. -/
theorem isPlainPart_glob {head tail : Text} (h : isPlainPart (.glob head tail) = true) :
    (∀ c ∈ head, isPatternChar c = true) ∧ (∀ c ∈ tail, isPatternChar c = true) ∧
      (head = [] ∨ tail = [] ∧ 'k' ∉ head.map Char.toLower) := by
  simpa [isPlainPart, and_assoc] using h

/-- A text that reads as a plain one is made of plain characters and KELVIN SIGNS. -/
theorem isPatternChar_of_readKelvin {s : Text} (h : ∀ c ∈ readKelvin s, isPatternChar c = true) :
    ∀ c ∈ s, isPatternChar c = true ∨ c = kelvinSign := by
  intro c hc
  by_cases hk : c = kelvinSign
  · exact .inr hk
  · refine .inl ?_
    have hmem := List.mem_map_of_mem (f := fun c => if c = kelvinSign then 'K' else c) hc
    rw [if_neg hk] at hmem
    exact h c hmem

/-- What a part matches in the normal form of a component, it matches when the KELVIN SIGN is
read. -/
theorem IsNfc.partMatches_readKelvin {nfc : Text → Text} (hnfc : IsNfc nfc) {part : PatternPart}
    (hplain : isPlainPart part = true) {c : Text} (h : partMatches part (nfc c) = true) :
    partMatches part (readKelvin c) = true := by
  cases part with
  | exact pattern =>
      obtain ⟨a, y, b, hc, hy, ha, hb⟩ := hnfc.origin c [] (nfc c) [] (by simp)
        (isPatternChar_of_eqIgnoreAsciiCase h (List.all_eq_true.mp hplain))
      rw [ha rfl, hb rfl, List.append_nil, List.nil_append] at hc
      rw [hc, hy]
      exact h
  | glob head tail =>
      obtain ⟨hheadc, htailc, hopen⟩ := isPlainPart_glob hplain
      obtain ⟨a, m, b, hcut, hahead, hbtail⟩ := partMatches_glob_iff.mp h
      rw [partMatches_glob_iff]
      rcases hopen with rfl | ⟨rfl, -⟩
      · obtain ⟨a', y, b', hc, hy, -, hb⟩ := hnfc.origin c (a ++ m) b []
          (by rw [hcut, List.append_nil, List.append_assoc])
          (isPatternChar_of_eqIgnoreAsciiCase hbtail htailc)
        rw [hb rfl, List.append_nil] at hc
        refine ⟨[], readKelvin a', b, ?_, rfl, hbtail⟩
        rw [hc, ← hy]
        exact List.map_append
      · obtain ⟨a', y, b', hc, hy, ha, -⟩ := hnfc.origin c [] a (m ++ b) hcut
          (isPatternChar_of_eqIgnoreAsciiCase hahead hheadc)
        rw [ha rfl, List.nil_append] at hc
        refine ⟨a, readKelvin b', [], ?_, hahead, rfl⟩
        rw [hc, ← hy, List.append_nil]
        exact List.map_append

/-- Conversely, unless it is a head that the component has as it is spelled. -/
theorem IsNfc.partMatches_nfc {nfc : Text → Text} (hnfc : IsNfc nfc) {part : PatternPart}
    (hplain : isPlainPart part = true) {c : Text} (h : partMatches part (readKelvin c) = true) :
    partMatches part (nfc c) = true ∨ part.isGlob = true ∧ partMatches part c = true := by
  have happend : ∀ {u v : Text}, readKelvin (u ++ v) = readKelvin u ++ readKelvin v :=
    List.map_append
  cases part with
  | exact pattern =>
      left
      have hchars := isPatternChar_of_readKelvin
        (isPatternChar_of_eqIgnoreAsciiCase h (List.all_eq_true.mp hplain))
      have hread := hnfc.boundary [] c hchars
      rw [List.nil_append, hnfc.nil, List.nil_append] at hread
      rw [hread]
      exact h
  | glob head tail =>
      obtain ⟨hheadc, htailc, hopen⟩ := isPlainPart_glob hplain
      obtain ⟨a, m, b, hcut, hahead, hbtail⟩ := partMatches_glob_iff.mp h
      rcases hopen with rfl | ⟨rfl, hk⟩
      · left
        rw [← List.append_assoc] at hcut
        obtain ⟨u, v, rfl, -, hv⟩ := List.map_eq_append_iff.mp hcut
        have hchars : ∀ c ∈ v, isPatternChar c = true ∨ c = kelvinSign := by
          refine isPatternChar_of_readKelvin ?_
          rw [readKelvin, hv]
          exact isPatternChar_of_eqIgnoreAsciiCase hbtail htailc
        rw [partMatches_glob_iff]
        refine ⟨[], nfc u, b, ?_, rfl, hbtail⟩
        rw [hnfc.boundary u v hchars, readKelvin, hv]
        rfl
      · right
        obtain ⟨u, v, rfl, hu, -⟩ := List.map_eq_append_iff.mp hcut
        -- The head has no K, and so none that a KELVIN SIGN was read as.
        have hno : kelvinSign ∉ u := by
          intro hmem
          have hK : 'K' ∈ a := by
            rw [← hu]
            exact List.mem_map.mpr ⟨kelvinSign, hmem, if_pos rfl⟩
          rw [← of_decide_eq_true hahead] at hk
          exact hk (List.mem_map_of_mem hK)
        have hsame : readKelvin u = u := by
          by_contra hne
          exact hno (hasKelvin_iff.mpr hne)
        refine ⟨rfl, partMatches_glob_iff.mpr ⟨a, v, [], ?_, hahead, rfl⟩⟩
        rw [List.append_nil, ← hu]
        exact congrArg (· ++ v) hsame.symm

/-- The staging directory is the same by its normal form. -/
theorem IsNfc.isPartialStaging_eq {nfc : Text → Text} (hnfc : IsNfc nfc) (components : List Text) :
    isPartialStaging (components.map nfc) = isPartialStaging (components.map readKelvin) := by
  have hplain : isPlainPart (.exact partialRootName) = true := by decide +kernel
  cases components with
  | nil => rfl
  | cons c components =>
      have hhead : eqIgnoreAsciiCase (nfc c) partialRootName =
          eqIgnoreAsciiCase (readKelvin c) partialRootName := by
        rw [Bool.eq_iff_iff]
        constructor
        · exact fun h => hnfc.partMatches_readKelvin hplain h
        · intro h
          rcases hnfc.partMatches_nfc hplain h with h | ⟨h, -⟩
          · exact h
          · cases h
      simp only [isPartialStaging, List.map_cons, List.length_cons, List.length_map,
        List.head?_cons, hhead]

/-- **Normalisation adds no more than reading the KELVIN SIGN** to what a path is denied
for. -/
theorem IsNfc.isDeniedForWrite_eq {nfc : Text → Text} (hnfc : IsNfc nfc) {components : List Text}
    (hallowed : isDeniedForWrite components = false) :
    isDeniedForWrite (components.map nfc) = isDeniedForWrite (components.map readKelvin) := by
  rw [Bool.eq_iff_iff, isDeniedForWrite_map, isDeniedForWrite_map, hnfc.isPartialStaging_eq]
  refine exists_congr fun pattern => and_congr_right fun hmem => and_congr_right fun hpart =>
    exists_congr fun run => and_congr_right fun hin => ?_
  have hplain := isPlainPart_of_mem hmem
  constructor
  · intro hall
    have hboth := (List.forall₂_and_left pattern run).mpr ⟨hplain, hall⟩
    exact hboth.imp fun a c h => hnfc.partMatches_readKelvin h.1 h.2
  · intro hall
    have hboth := (List.forall₂_and_left pattern run).mpr ⟨hplain, hall⟩
    by_cases hglob : ∃ part ∈ pattern, part.isGlob = true
    · -- A part that is open at one end stands alone, and does not match as it is spelled.
      obtain ⟨part, hin', hglob⟩ := hglob
      have hone := eq_singleton_of_isGlob hmem part hin' hglob
      rw [hone, List.forall₂_cons_left_iff] at hall
      obtain ⟨c, rest, h, hrest, rfl⟩ := hall
      obtain rfl := List.forall₂_nil_left_iff.mp hrest
      rcases hnfc.partMatches_nfc (hplain part hin') h with hnf | ⟨-, hself⟩
      · rw [hone]
        exact .cons hnf .nil
      · exfalso
        have hdenied : isDeniedForWrite components = true := by
          refine isDeniedForWrite_iff.mpr ⟨pattern, hmem, fun hp => ?_, [c], hin, ?_⟩
          · rw [hone] at hp
            cases part with
            | exact _ => cases hglob
            | glob head tail => exact absurd hp (by simp [isPartialPattern])
          · rw [hone]
            exact .cons hself .nil
        rw [hallowed] at hdenied
        cases hdenied
    · have hexact : ∀ part ∈ pattern, ¬part.isGlob = true :=
        fun part hin' hg => hglob ⟨part, hin', hg⟩
      have hthree := (List.forall₂_and_left pattern run).mpr ⟨hexact, hboth⟩
      refine hthree.imp fun a c h => ?_
      exact (hnfc.partMatches_nfc h.2.1 h.2.2).resolve_right fun hg => h.1 hg.1

/-! ### Guarded paths -/

/-- A path that the check refuses gets no answer from the backend. -/
theorem nothingAnswers_of_denied {p : RelPath} (h : isDeniedForWrite p.components = true)
    (t : Tree) : NothingAnswers PosixVfs.vfs t p := by
  have hcheck : PosixVfs.checkDenyList p = .error .denyListed := if_pos h
  have hfrom : ∀ q r, q = p ∨ r = p → ∀ u, PosixVfs.resolveFrom t q r ≠ .ok u := by
    rintro q r hor u hok
    rw [PosixVfs.resolveFrom] at hok
    by_cases hro : t.readOnly = true
    · rw [if_pos hro] at hok
      cases hok
    rw [if_neg hro] at hok
    rcases hq : PosixVfs.checkDenyList q with e | v
    · rw [hq] at hok
      cases hok
    · rcases hor with rfl | rfl
      · rw [hcheck] at hq
        cases hq
      · rw [hq, hcheck] at hok
        cases hok
  have hrename : ∀ q r, q = p ∨ r = p → ∀ mode,
      (PosixVfs.renameInternal t q r mode).1 ≠ .ok () := by
    intro q r hor mode hok
    unfold PosixVfs.renameInternal at hok
    rcases hres : PosixVfs.resolveFrom t q r with e | u
    · rw [hres] at hok
      cases hok
    · exact hfrom q r hor u hres
  refine ⟨?_, ?_, ?_, ?_, ?_, ?_, ?_, ?_⟩
  · intro a hok
    change PosixVfs.listSync t p = .ok a at hok
    rw [PosixVfs.listSync, hcheck] at hok
    cases hok
  · intro a hok
    change PosixVfs.statSync t p = .ok a at hok
    rw [PosixVfs.statSync, hcheck] at hok
    cases hok
  · intro a hok
    change PosixVfs.openReadSync t p = .ok a at hok
    rw [PosixVfs.openReadSync, hcheck] at hok
    cases hok
  · intro hok
    change (PosixVfs.createDirSync t p).1 = .ok () at hok
    rw [PosixVfs.createDirSync, hcheck] at hok
    split_ifs at hok
  · intro a hok
    change (PosixVfs.openWriteSync t p).1 = .ok a at hok
    unfold PosixVfs.openWriteSync PosixVfs.resolveWrite at hok
    rw [hcheck] at hok
    split_ifs at hok <;> cases hok
  · intro hok
    change (PosixVfs.removeSync t p).1 = .ok () at hok
    unfold PosixVfs.removeSync PosixVfs.resolveRemove at hok
    rw [hcheck] at hok
    split_ifs at hok <;> cases hok
  · intro q
    exact ⟨hrename p q (.inl rfl) .replace, hrename q p (.inr rfl) .replace⟩
  · intro q
    exact ⟨hrename p q (.inl rfl) .noReplace, hrename q p (.inr rfl) .noReplace⟩

/-- A path is guarded when it is denied in no other spelling, or in its own as well. -/
theorem guarded_iff_imp {canon : Text → Text} {p : RelPath} : Guarded canon p ↔
    (isDeniedForWrite (p.components.map canon) = true → isDeniedForWrite p.components = true) := by
  refine forall_congr' fun _ => ⟨fun h => ?_, fun h => ⟨if_pos h, if_pos h, ?_⟩⟩
  · by_contra hno
    have hok : checkDenyListWrite p = .ok () := if_neg hno
    rw [h.2.1] at hok
    cases hok
  · exact nothingAnswers_of_denied h

/-- The name of the staging directory is plain. -/
theorem isPatternChar_partialRootName : ∀ c ∈ partialRootName, isPatternChar c = true :=
  List.all_eq_true.mp (show partialRootName.all isPatternChar = true by decide +kernel)

/-- The staging directory has no KELVIN SIGN in its name. -/
theorem readKelvin_partialRootName {c : Text} (h : eqIgnoreAsciiCase c partialRootName = true) :
    readKelvin c = c := by
  by_contra hne
  have hmem : kelvinSign ∈ c := hasKelvin_iff.mpr hne
  have hchar := isPatternChar_of_eqIgnoreAsciiCase h isPatternChar_partialRootName kelvinSign hmem
  exact absurd hchar (by decide)

/-- The staging directory is its own name on Windows. -/
theorem windowsName_partialRootName {c : Text} (h : eqIgnoreAsciiCase c partialRootName = true) :
    windowsName c = c := by
  have hlast : (c.map Char.toLower).getLast? = some 'l' := by
    rw [of_decide_eq_true h]
    decide
  by_contra hne
  rcases hasStreamOrTail_iff.mpr hne with hcolon | hdot | hspace
  · have hchar := isPatternChar_of_eqIgnoreAsciiCase h isPatternChar_partialRootName ':' hcolon
    exact absurd hchar (by decide)
  · rw [List.getLast?_map, hdot] at hlast
    exact absurd hlast (by decide)
  · rw [List.getLast?_map, hspace] at hlast
    exact absurd hlast (by decide)

/-- What a path that only another spelling denies is denied for. -/
theorem disguised_iff {undo : Text → Text} {Marked : Text → Prop}
    (hmarked : ∀ {c}, Marked c ↔ undo c ≠ c)
    (hfix : ∀ c, eqIgnoreAsciiCase c partialRootName = true → undo c = c) {p : RelPath} :
    Disguised undo Marked p ↔
      isDeniedForWrite p.components = false ∧
        isDeniedForWrite (p.components.map undo) = true := by
  constructor
  · rintro ⟨hallowed, hhidden⟩
    refine ⟨hallowed, (isDeniedForWrite_map_iff hfix hallowed).mpr ?_⟩
    simpa only [hmarked] using hhidden
  · rintro ⟨hallowed, hdenied⟩
    refine ⟨hallowed, ?_⟩
    simpa only [hmarked] using (isDeniedForWrite_map_iff hfix hallowed).mp hdenied

/-- **Which paths are guarded.** Against normalisation, those that are not disguised by a
KELVIN SIGN; against the names of Windows, those that are not disguised by the name of a
stream or a trailing dot or space. -/
theorem guarded_iff {nfc : Text → Text} (hnfc : IsNfc nfc) (p : RelPath) :
    (Guarded nfc p ↔ ¬Disguised readKelvin HasKelvin p) ∧
      (Guarded windowsName p ↔ ¬Disguised windowsName HasStreamOrTail p) := by
  rw [guarded_iff_imp, guarded_iff_imp,
    disguised_iff hasKelvin_iff fun _ h => readKelvin_partialRootName h,
    disguised_iff hasStreamOrTail_iff fun _ h => windowsName_partialRootName h]
  by_cases hp : isDeniedForWrite p.components = true
  · simp [hp]
  · have hallowed := Bool.eq_false_iff.mpr hp
    rw [hnfc.isDeniedForWrite_eq hallowed]
    simp [hallowed]

/-- Reading the KELVIN SIGN is what normalisation does to a text that is plain besides. -/
theorem isNfc_readKelvin : IsNfc readKelvin where
  nil := rfl
  boundary _ _ _ := List.map_append
  origin s a y b h _ := by
    obtain ⟨a', rest, rfl, ha, hrest⟩ := List.map_eq_append_iff.mp h
    obtain ⟨y', b', rfl, hy, hb⟩ := List.map_eq_append_iff.mp hrest
    exact ⟨a', y', b', rfl, hy, fun h => List.map_eq_nil_iff.mp (ha.trans h),
      fun h => List.map_eq_nil_iff.mp (hb.trans h)⟩

/-- The path `.kube`, spelled with a KELVIN SIGN. -/
def kelvinKube : RelPath :=
  ⟨['.', kelvinSign, 'u', 'b', 'e'], .inr (by decide)⟩

/-- The path `.ssh`, with a dot behind it. -/
def dottedSsh : RelPath :=
  ⟨".ssh.".toList, .inr (by decide)⟩

/-- At two paths: a trailing dot is no KELVIN SIGN, and a KELVIN SIGN is no trailing dot. -/
theorem guarded_iff_two_spellings :
    (Guarded readKelvin dottedSsh ↔ ¬Disguised readKelvin HasKelvin dottedSsh) ∧
      (Guarded windowsName kelvinKube ↔ ¬Disguised windowsName HasStreamOrTail kelvinKube) :=
  ⟨(guarded_iff isNfc_readKelvin dottedSsh).1, (guarded_iff isNfc_readKelvin kelvinKube).2⟩

/-- **Two spellings that get through**: `.kube` with a KELVIN SIGN and `.ssh.` are not refused,
though the names they stand for are denied. -/
theorem spellings_get_through :
    isDeniedForWrite (kelvinKube.components.map readKelvin) = true ∧
      PosixVfs.checkDenyList kelvinKube = .ok () ∧ ¬Guarded readKelvin kelvinKube ∧
      isDeniedForWrite (dottedSsh.components.map windowsName) = true ∧
      PosixVfs.checkDenyList dottedSsh = .ok () ∧ ¬Guarded windowsName dottedSsh := by
  refine ⟨by decide +kernel, by decide +kernel, ?_, by decide +kernel, by decide +kernel, ?_⟩
  · rw [guarded_iff_imp]
    decide +kernel
  · rw [guarded_iff_imp]
    decide +kernel

end Tradr
