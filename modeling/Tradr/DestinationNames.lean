import Tradr.Sanitization

/-!
# The Normal Form of a Destination Path

A path a peer names is normalised, trimmed, and each of its components is rewritten: colons become
underscores, and a device name gets one. Each of the rules leaves in place what the ones before it
made sure of, so that what comes out is what the sanitizer itself leaves as it is.

## Main definitions

* `NfcLaws`: what is relied on of the normalisation.
* `SafeComponent`: a component the sanitizer has nothing to do with.
* `DestinationNormalForm`: a path it leaves as it is.

## Main results

* `safeComponent_sanitizeComponent`: the rules for one component give a safe one.
* `sanitizeDestinationPath_of_safe`: a normalised path of safe components is left as it is.
* `sanitizeDestinationPath_normalForm`: what is accepted is in normal form.
-/

namespace Tradr

/-! ### The rules for one component -/

/-- A colon becomes an underscore. -/
def replaceColons (s : Text) : Text := s.map fun c => if c = ':' then '_' else c

@[simp] theorem replaceColons_append (s t : Text) :
    replaceColons (s ++ t) = replaceColons s ++ replaceColons t := List.map_append

@[simp] theorem replaceColons_cons (c : Char) (s : Text) :
    replaceColons (c :: s) = (if c = ':' then '_' else c) :: replaceColons s := rfl

/-- A text without colons is kept. -/
theorem replaceColons_of_not_mem {s : Text} (h : ':' ∉ s) : replaceColons s = s := by
  rw [replaceColons]
  conv_rhs => rw [← List.map_id s]
  refine List.map_congr_left fun c hc => ?_
  have hne : c ≠ ':' := by
    rintro rfl
    exact h hc
  rw [if_neg hne, id]

/-- What is done to a component, in these terms. -/
theorem sanitizeComponent_eq (comp : Text) : sanitizeComponent comp =
    if windowsReserved.any (fun reserved => eqIgnoreAsciiCase reserved
        ((replaceColons comp).takeWhile (· ≠ '.'))) then
      (replaceColons comp).takeWhile (· ≠ '.') ++ '_' :: (replaceColons comp).dropWhile (· ≠ '.')
    else replaceColons comp := rfl

/-- What follows the part before the first dot is nothing, or begins with it. -/
theorem dropWhile_dot_cases (s : Text) :
    s.dropWhile (· ≠ '.') = [] ∨ ∃ ext, s.dropWhile (· ≠ '.') = '.' :: ext := by
  cases hext : s.dropWhile (· ≠ '.') with
  | nil => exact .inl rfl
  | cons c ext =>
    have hhead := List.head?_dropWhile_not (· ≠ '.') s
    rw [hext] at hhead
    have hc : c = '.' := by simpa using hhead
    exact .inr ⟨ext, by rw [hc]⟩

/-! ### Normalisation -/

/-- Characters that neither compose with what is beside them nor come from anything else. -/
def isInertChar (c : Char) : Bool := c ∈ ['/', '.', ' ', ':', '_']

/-- What is relied on of the normalisation: it does nothing twice, and the characters the rules
handle play no part in it. -/
structure NfcLaws (nfc : Text → Text) : Prop where
  nil : nfc [] = []
  idem : ∀ s, nfc (nfc s) = nfc s
  inert : ∀ c, isInertChar c = true → ∀ a b, nfc (a ++ c :: b) = nfc a ++ c :: nfc b

namespace NfcLaws

variable {nfc : Text → Text} (h : NfcLaws nfc) {a b : Text} {c : Char}

include h

/-- Normalised texts around such a character make a normalised text. -/
theorem join (hc : isInertChar c = true) (ha : nfc a = a) (hb : nfc b = b) :
    nfc (a ++ c :: b) = a ++ c :: b := by
  rw [h.inert c hc, ha, hb]

/-- A text and such a character after it are not the normal form of the text. -/
theorem ne_append (hc : isInertChar c = true) (ha : nfc a = a) : nfc (a ++ c :: b) ≠ a := by
  intro hab
  rw [h.inert c hc, ha] at hab
  exact absurd (List.append_right_eq_self.mp hab) (List.cons_ne_nil _ _)

/-- **What is on either side of such a character in a normalised text is normalised.** -/
theorem cut (hc : isInertChar c = true) (hab : nfc (a ++ c :: b) = a ++ c :: b) :
    nfc a = a ∧ nfc b = b := by
  rw [h.inert c hc] at hab
  have ha : nfc a = a := by
    rcases List.append_eq_append_iff.mp hab with ⟨x, hx, hrest⟩ | ⟨x, hx, hrest⟩
    -- One of the two begins with the other and then the character, which would be in its normal
    -- form once more.
    · rcases x with _ | ⟨d, x⟩
      · rw [List.append_nil] at hx
        exact hx.symm
      · obtain ⟨rfl, -⟩ := List.cons.inj hrest
        exact absurd (congrArg nfc hx).symm (h.ne_append hc (h.idem a))
    · rcases x with _ | ⟨d, x⟩
      · rw [List.append_nil] at hx
        exact hx
      · obtain ⟨rfl, -⟩ := List.cons.inj hrest
        have hagain := congrArg nfc hx
        rw [h.idem, h.inert _ hc] at hagain
        exact absurd (List.append_right_eq_self.mp hagain.symm) (List.cons_ne_nil _ _)
  rw [ha] at hab
  exact ⟨ha, (List.cons.inj (List.append_cancel_left hab)).2⟩

/-- The pieces of a normalised text between slashes are normalised. -/
theorem pieces {comps : List Text}
    (hcomps : nfc (['/'].intercalate comps) = ['/'].intercalate comps) :
    ∀ comp ∈ comps, nfc comp = comp := by
  induction comps with
  | nil => exact fun _ hcomp => absurd hcomp List.not_mem_nil
  | cons first comps ih =>
    cases comps with
    | nil =>
      rw [List.intercalate_singleton] at hcomps
      exact fun comp hcomp => by rwa [List.mem_singleton.mp hcomp]
    | cons second comps =>
      rw [List.intercalate_cons_cons, List.append_assoc, List.singleton_append] at hcomps
      obtain ⟨hfirst, hrest⟩ := h.cut (by decide) hcomps
      intro comp hcomp
      rcases List.mem_cons.mp hcomp with rfl | hcomp
      · exact hfirst
      · exact ih hrest comp hcomp

/-- Normalised pieces make a normalised text. -/
theorem intercalate {comps : List Text} (hcomps : ∀ comp ∈ comps, nfc comp = comp) :
    nfc (['/'].intercalate comps) = ['/'].intercalate comps := by
  induction comps with
  | nil => exact h.nil
  | cons first comps ih =>
    cases comps with
    | nil =>
      rw [List.intercalate_singleton]
      exact hcomps first List.mem_cons_self
    | cons second comps =>
      rw [List.intercalate_cons_cons, List.append_assoc, List.singleton_append]
      exact h.join (by decide) (hcomps first List.mem_cons_self)
        (ih fun comp hcomp => hcomps comp (List.mem_cons_of_mem _ hcomp))

/-- Dropping trailing dots and spaces keeps a text normalised. -/
theorem trimEnd {comp : Text} (hcomp : nfc comp = comp) : nfc (trimEnd comp) = trimEnd comp := by
  have hsplit : Tradr.trimEnd comp ++ comp.rtakeWhile (fun c => c = '.' ∨ c = ' ') = comp :=
    List.rdropWhile_append_rtakeWhile
  cases htail : comp.rtakeWhile (fun c => c = '.' ∨ c = ' ') with
  | nil =>
    rw [htail, List.append_nil] at hsplit
    rw [hsplit, hcomp]
  | cons c tail =>
    have hc : c = '.' ∨ c = ' ' := by
      have hmem : c ∈ comp.rtakeWhile (fun c => c = '.' ∨ c = ' ') := by
        rw [htail]
        exact List.mem_cons_self
      simpa using List.mem_rtakeWhile_imp hmem
    have hinert : isInertChar c = true := by
      rcases hc with rfl | rfl <;> decide
    rw [htail] at hsplit
    rw [← hsplit] at hcomp
    exact (h.cut hinert hcomp).1

/-- Replacing colons keeps a text normalised. -/
theorem replaceColons (n : ℕ) {comp : Text} (hn : comp.length ≤ n) (hcomp : nfc comp = comp) :
    nfc (replaceColons comp) = replaceColons comp := by
  induction n generalizing comp with
  | zero =>
    obtain rfl := List.length_eq_zero_iff.mp (Nat.le_zero.mp hn)
    exact hcomp
  | succ n ih =>
    by_cases hmem : ':' ∈ comp
    · obtain ⟨a, b, rfl, hfirst⟩ := List.eq_append_cons_of_mem hmem
      obtain ⟨ha, hb⟩ := h.cut (by decide) hcomp
      rw [List.length_append, List.length_cons] at hn
      rw [replaceColons_append, replaceColons_cons, replaceColons_of_not_mem hfirst, if_pos rfl]
      exact h.join (by decide) ha (ih (by omega) hb)
    · rw [replaceColons_of_not_mem hmem, hcomp]

/-- The rules for one component keep it normalised. -/
theorem sanitizeComponent {comp : Text} (hcomp : nfc comp = comp) :
    nfc (sanitizeComponent comp) = sanitizeComponent comp := by
  have hreplaced := h.replaceColons comp.length le_rfl hcomp
  rw [sanitizeComponent_eq]
  generalize Tradr.replaceColons comp = r at hreplaced
  split_ifs with hreserved
  · have hsplit : r.takeWhile (· ≠ '.') ++ r.dropWhile (· ≠ '.') = r :=
      List.takeWhile_append_dropWhile
    rcases dropWhile_dot_cases r with hext | ⟨ext, hext⟩
    · rw [hext, List.append_nil] at hsplit
      rw [hext, hsplit]
      exact h.join (by decide) hreplaced h.nil
    · rw [hext] at hsplit ⊢
      rw [← hsplit] at hreplaced
      obtain ⟨hstem, hrest⟩ := h.cut (by decide) hreplaced
      have hdot := h.join (c := '.') (by decide) h.nil hrest
      rw [List.nil_append] at hdot
      exact h.join (by decide) hstem hdot
  · exact hreplaced

end NfcLaws

/-! ### Safe components -/

/-- The part of a component before its first dot. -/
def deviceStem (comp : Text) : Text := comp.takeWhile (· ≠ '.')

/-- A name of a Windows device, in either case. -/
def IsDeviceName (stem : Text) : Prop :=
  windowsReserved.any (fun reserved => eqIgnoreAsciiCase reserved stem) = true

/-- A component the sanitizer has nothing to do with. -/
structure SafeComponent (comp : Text) : Prop where
  ne_nil : comp ≠ []
  last : ∀ c ∈ comp.getLast?, c ≠ '.' ∧ c ≠ ' '
  no_colon : ':' ∉ comp
  no_device : ¬IsDeviceName (deviceStem comp)

/-- A safe component is neither the directory itself nor the one above it. -/
theorem SafeComponent.ne_dots {comp : Text} (h : SafeComponent comp) :
    comp ≠ ['.'] ∧ comp ≠ ['.', '.'] := by
  constructor
  · rintro rfl
    exact (h.last '.' rfl).1 rfl
  · rintro rfl
    exact (h.last '.' rfl).1 rfl

/-- A safe component is trimmed. -/
theorem SafeComponent.trimEnd_eq {comp : Text} (h : SafeComponent comp) : trimEnd comp = comp := by
  refine List.rdropWhile_eq_self_iff.mpr fun hne => ?_
  obtain ⟨hdot, hspace⟩ := h.last _ (List.getLast?_eq_some_getLast hne)
  simp only [decide_eq_true_eq, not_or]
  exact ⟨hdot, hspace⟩

/-- **A safe component is kept.** -/
theorem SafeComponent.sanitizeComponent_eq {comp : Text} (h : SafeComponent comp) :
    sanitizeComponent comp = comp := by
  rw [Tradr.sanitizeComponent_eq, replaceColons_of_not_mem h.no_colon]
  exact if_neg h.no_device

/-- The last character of a trimmed component. -/
theorem getLast?_trimEnd (comp : Text) : ∀ c ∈ (trimEnd comp).getLast?, c ≠ '.' ∧ c ≠ ' ' := by
  intro c hc
  obtain ⟨hne, rfl⟩ := List.mem_getLast?_eq_getLast hc
  have hlast := List.rdropWhile_last_not (fun c => decide (c = '.' ∨ c = ' ')) comp hne
  simp only [decide_eq_true_eq, not_or] at hlast
  exact hlast

/-- The last character of a text whose colons are replaced. -/
theorem getLast?_replaceColons {s : Text} (h : ∀ c ∈ s.getLast?, c ≠ '.' ∧ c ≠ ' ') :
    ∀ c ∈ (replaceColons s).getLast?, c ≠ '.' ∧ c ≠ ' ' := by
  intro c hc
  rw [replaceColons, List.getLast?_map, Option.mem_map] at hc
  obtain ⟨d, hd, rfl⟩ := hc
  split_ifs
  · decide
  · exact h d hd

/-- No colon is left. -/
theorem colon_not_mem_replaceColons (s : Text) : ':' ∉ replaceColons s := by
  intro h
  obtain ⟨c, -, hc⟩ := List.mem_map.mp h
  by_cases hcolon : c = ':'
  · rw [if_pos hcolon] at hc
    cases hc
  · rw [if_neg hcolon] at hc
    exact hcolon hc

/-- No device's name ends with an underscore. -/
theorem not_isDeviceName_underscore (stem : Text) : ¬IsDeviceName (stem ++ ['_']) := by
  intro h
  obtain ⟨reserved, hmem, heq⟩ := List.any_eq_true.mp h
  have hlast := congrArg List.getLast? (of_decide_eq_true heq)
  rw [List.map_append, List.map_singleton, List.getLast?_concat, List.getLast?_map] at hlast
  have hnone : windowsReserved.all (fun r => r.getLast?.map Char.toLower ≠ some '_') = true := by
    decide
  exact of_decide_eq_true (List.all_eq_true.mp hnone reserved hmem) hlast

/-- **The rules for one component give a safe one**, from what is left after trimming. -/
theorem safeComponent_sanitizeComponent {comp : Text} (hne : comp ≠ [])
    (hlast : ∀ c ∈ comp.getLast?, c ≠ '.' ∧ c ≠ ' ') : SafeComponent (sanitizeComponent comp) := by
  have hlast' := getLast?_replaceColons hlast
  have hcolon := colon_not_mem_replaceColons comp
  have hne' : replaceColons comp ≠ [] := mt List.map_eq_nil_iff.mp hne
  rw [sanitizeComponent_eq]
  generalize replaceColons comp = r at hlast' hcolon hne'
  split_ifs with hreserved
  · have hsplit : r.takeWhile (· ≠ '.') ++ r.dropWhile (· ≠ '.') = r :=
      List.takeWhile_append_dropWhile
    have hstem : deviceStem (r.takeWhile (· ≠ '.') ++ '_' :: r.dropWhile (· ≠ '.')) =
        r.takeWhile (· ≠ '.') ++ ['_'] := by
      have hall : ∀ c ∈ r.takeWhile (· ≠ '.'), decide (c ≠ '.') = true := by
        intro c hc
        have hne := List.mem_takeWhile_imp hc
        exact hne
      rw [deviceStem, List.takeWhile_append_of_pos hall]
      rcases dropWhile_dot_cases r with hext | ⟨ext, hext⟩
      · rw [hext]
        rfl
      · rw [hext]
        rfl
    refine ⟨by simp, ?_, ?_, ?_⟩
    · rcases dropWhile_dot_cases r with hext | ⟨ext, hext⟩
      · rw [hext, List.getLast?_concat]
        rintro c ⟨⟩
        decide
      · rw [hext] at hsplit ⊢
        rw [← hsplit, List.getLast?_append_of_ne_nil _ (List.cons_ne_nil _ _)] at hlast'
        rwa [List.getLast?_append_of_ne_nil _ (List.cons_ne_nil _ _), List.getLast?_cons_cons]
    · rw [← hsplit, List.mem_append] at hcolon
      rw [List.mem_append, List.mem_cons]
      rintro (h | h | h)
      · exact hcolon (.inl h)
      · cases h
      · exact hcolon (.inr h)
    · rw [hstem]
      exact not_isDeviceName_underscore _
  · exact ⟨hne', hlast', hcolon, hreserved⟩

/-! ### Paths -/

/-- What is true of the characters of an accepted path. -/
structure PathChars (s : Text) : Prop where
  no_slash_head : s.head? ≠ some '/'
  no_backslash : '\\' ∉ s
  no_drive : hasDriveLetterPrefix s = false
  no_control : ∀ c ∈ s, isControl c = false
  no_bidi : ∀ c ∈ s, isMisleadingDisplayCharacter c = false

/-- An accepted path has such characters only. -/
theorem pathChars_of_accepted {s : Text} (h : relPathRefusal s = none) : PathChars s := by
  unfold relPathRefusal at h
  split_ifs at h with hempty hslash hbackslash hdrive
  split at h
  · cases h
  · rename_i hcontrol
    split at h
    · cases h
    · rename_i hbidi
      exact {
        no_slash_head := hslash
        no_backslash := hbackslash
        no_drive := by simpa using hdrive
        no_control := fun c hc => by simpa using List.find?_eq_none.mp hcontrol c hc
        no_bidi := fun c hc => by simpa using List.find?_eq_none.mp hbidi c hc }

/-- A character of a piece is one of the pieces joined by slashes. -/
theorem mem_intercalate {comps : List Text} {comp : Text} (hcomp : comp ∈ comps) {c : Char}
    (hc : c ∈ comp) : c ∈ ['/'].intercalate comps := by
  induction comps with
  | nil => exact absurd hcomp List.not_mem_nil
  | cons first comps ih =>
    cases comps with
    | nil =>
      rw [List.intercalate_singleton]
      rwa [← List.mem_singleton.mp hcomp]
    | cons second comps =>
      rw [List.intercalate_cons_cons, List.append_assoc, List.mem_append]
      rcases List.mem_cons.mp hcomp with rfl | hcomp
      · exact .inl hc
      · exact .inr (List.mem_append_right _ (ih hcomp))

/-- The pieces between slashes have none. -/
theorem slash_not_mem_piece {s comp : Text} (hcomp : comp ∈ s.splitOn '/') : '/' ∉ comp := by
  induction s generalizing comp with
  | nil =>
    rw [List.splitOn_nil, List.mem_singleton] at hcomp
    rw [hcomp]
    exact List.not_mem_nil
  | cons c s ih =>
    rw [List.splitOn_cons_eq_if_modifyHead] at hcomp
    split_ifs at hcomp with hc
    · rcases List.mem_cons.mp hcomp with rfl | hcomp
      · exact List.not_mem_nil
      · exact ih hcomp
    · obtain ⟨first, rest, hsplit⟩ := List.exists_cons_of_ne_nil (List.splitOn_ne_nil '/' s)
      rw [hsplit, List.modifyHead_cons] at hcomp
      rw [hsplit] at ih
      rcases List.mem_cons.mp hcomp with rfl | hcomp
      · rw [List.mem_cons, not_or]
        exact ⟨fun heq => hc (by rw [← heq]; rfl), ih List.mem_cons_self⟩
      · exact ih (List.mem_cons_of_mem _ hcomp)

/-- A slash comes from no rule. -/
theorem slash_not_mem_sanitizeComponent {comp : Text} (h : '/' ∉ comp) :
    '/' ∉ sanitizeComponent (trimEnd comp) := by
  have htrimmed : '/' ∉ trimEnd comp := fun hmem =>
    h ((List.rdropWhile_prefix _ _).subset hmem)
  have hreplaced : '/' ∉ replaceColons (trimEnd comp) := by
    intro hmem
    obtain ⟨c, hc, heq⟩ := List.mem_map.mp hmem
    by_cases hcolon : c = ':'
    · rw [if_pos hcolon] at heq
      exact absurd heq (by decide)
    · rw [if_neg hcolon] at heq
      exact htrimmed (heq ▸ hc)
  rw [sanitizeComponent_eq]
  split_ifs
  · rw [List.mem_append, List.mem_cons]
    rintro (h | h | h)
    · exact hreplaced ((List.takeWhile_prefix _).subset h)
    · cases h
    · exact hreplaced ((List.dropWhile_suffix _).subset h)
  · exact hreplaced

/-- A path the sanitizer leaves as it is. -/
structure DestinationNormalForm (nfc : Text → Text) (p : RelPath) : Prop where
  nonroot : p ≠ RelPath.root
  normalized : nfc p.value = p.value
  safe : ∀ comp ∈ p.components, SafeComponent comp
  no_dots : ∀ comp ∈ p.components, comp ≠ ['.'] ∧ comp ≠ ['.', '.']
  no_special : ∀ comp ∈ p.components, ∀ c ∈ comp,
    c ≠ ':' ∧ c ≠ '\\' ∧ isControl c = false ∧ isMisleadingDisplayCharacter c = false
  kept : sanitizeDestinationPath nfc p.value = .ok p

/-- **A normalised path of safe components is left as it is.** -/
theorem sanitizeDestinationPath_of_safe {nfc : Text → Text} {p : RelPath} (hroot : p ≠ RelPath.root)
    (hnfc : nfc p.value = p.value) (hsafe : ∀ comp ∈ p.components, SafeComponent comp) :
    sanitizeDestinationPath nfc p.value = .ok p := by
  have hne : p.value ≠ [] := fun h => hroot (RelPath.ext h)
  have haccepted := p.accepted.resolve_left hne
  have hchars := pathChars_of_accepted haccepted
  have hcomps := RelPath.components_eq_splitOn hne
  have hhead : ¬(p.value.head? = some '/' ∨ p.value.head? = some '\\' ∨
      hasDriveLetterPrefix p.value = true) := by
    rintro (h | h | h)
    · exact hchars.no_slash_head h
    · exact hchars.no_backslash (List.mem_of_mem_head? h)
    · rw [hchars.no_drive] at h
      cases h
  have hcontrol : ¬p.value.any isControl = true := by
    rw [List.any_eq_true]
    rintro ⟨c, hc, h⟩
    rw [hchars.no_control c hc] at h
    cases h
  have hbidi : ¬p.value.any isMisleadingDisplayCharacter = true := by
    rw [List.any_eq_true]
    rintro ⟨c, hc, h⟩
    rw [hchars.no_bidi c hc] at h
    cases h
  have hdots : ['.', '.'] ∉ p.value.splitOn '/' := by
    rw [← hcomps]
    exact fun h => (hsafe _ h).ne_dots.2 rfl
  have hkept : ((p.value.splitOn '/').map trimEnd).filter (· ≠ []) = p.components := by
    rw [← hcomps, List.map_congr_left fun comp h => (hsafe comp h).trimEnd_eq, List.map_id']
    exact List.filter_eq_self.mpr fun comp h => by simpa using (hsafe comp h).ne_nil
  have hmap : p.components.map sanitizeComponent = p.components := by
    rw [List.map_congr_left fun comp h => (hsafe comp h).sanitizeComponent_eq, List.map_id']
  unfold sanitizeDestinationPath
  rw [hnfc]
  dsimp only
  rw [if_neg hhead, if_neg hcontrol, if_neg hbidi, if_neg hdots, hkept, hmap,
    p.intercalate_components, RelPath.new_eq_ok haccepted]
  rfl

/-- **What is accepted is in normal form**, and texts with one normalisation are treated alike. -/
theorem sanitizeDestinationPath_normalForm (nfc : Text → Text) (h : NfcLaws nfc) (s : Text) :
    (∀ p, sanitizeDestinationPath nfc s = .ok p → DestinationNormalForm nfc p) ∧
      ∀ t, nfc t = nfc s → sanitizeDestinationPath nfc t = sanitizeDestinationPath nfc s := by
  constructor
  · intro p hp
    unfold sanitizeDestinationPath at hp
    dsimp only at hp
    split_ifs at hp
    set kept := (((nfc s).splitOn '/').map trimEnd).filter (· ≠ []) with hkept
    have hpath := Fallible.mapError_eq_ok.mp hp
    have hvalue := RelPath.new_value hpath
    -- Each piece of the normalised text is normalised, and has no slash in it.
    have hpieces : ∀ comp ∈ (nfc s).splitOn '/', nfc comp = comp := by
      refine h.pieces ?_
      rw [List.intercalate_splitOn, h.idem]
    have hsafe : ∀ comp ∈ kept.map sanitizeComponent,
        SafeComponent comp ∧ nfc comp = comp ∧ '/' ∉ comp := by
      intro comp hcomp
      obtain ⟨trimmed, htrimmed, rfl⟩ := List.mem_map.mp hcomp
      obtain ⟨hmem, hne⟩ := List.mem_filter.mp htrimmed
      obtain ⟨piece, hpiece, rfl⟩ := List.mem_map.mp hmem
      refine ⟨safeComponent_sanitizeComponent (by simpa using hne) (getLast?_trimEnd piece), ?_,
        slash_not_mem_sanitizeComponent (slash_not_mem_piece hpiece)⟩
      exact h.sanitizeComponent (h.trimEnd (hpieces piece hpiece))
    have hne : p.value ≠ [] := by
      intro hnil
      rw [← hvalue, hnil] at hpath
      cases hpath
    have hcomps : p.components = kept.map sanitizeComponent := by
      rw [RelPath.components_eq_splitOn hne, hvalue]
      refine List.splitOn_intercalate '/' (fun comp hcomp => (hsafe comp hcomp).2.2) ?_
      intro hnil
      rw [hnil] at hvalue
      exact hne hvalue
    have hnfc : nfc p.value = p.value := by
      rw [hvalue]
      exact h.intercalate fun comp hcomp => (hsafe comp hcomp).2.1
    have hroot : p ≠ RelPath.root := by
      rintro rfl
      exact hne rfl
    have hsafe' : ∀ comp ∈ p.components, SafeComponent comp := by
      rw [hcomps]
      exact fun comp hcomp => (hsafe comp hcomp).1
    have hchars := pathChars_of_accepted (p.accepted.resolve_left hne)
    exact {
      nonroot := hroot
      normalized := hnfc
      safe := hsafe'
      no_dots := fun comp hcomp => (hsafe' comp hcomp).ne_dots
      no_special := by
        intro comp hcomp c hc
        have hmem : c ∈ p.value := by
          rw [← p.intercalate_components]
          exact mem_intercalate hcomp hc
        refine ⟨?_, ?_, hchars.no_control c hmem, hchars.no_bidi c hmem⟩
        · rintro rfl
          exact (hsafe' comp hcomp).no_colon hc
        · rintro rfl
          exact hchars.no_backslash hmem
      kept := sanitizeDestinationPath_of_safe hroot hnfc hsafe' }
  · intro t ht
    unfold sanitizeDestinationPath
    rw [ht]

/-- Text in ASCII is normalised already. -/
theorem nfcLaws_id : NfcLaws fun s => s where
  nil := rfl
  idem _ := rfl
  inert _ _ _ _ := rfl

/-- A device's name with trailing dots and spaces. -/
theorem sanitizeDestinationPath_normalForm_con :
    DestinationNormalForm (fun s => s) ⟨"notes/con_.txt".toList, .inr (by decide)⟩ :=
  (sanitizeDestinationPath_normalForm (fun s => s) nfcLaws_id "notes/./con.txt. .".toList).1 _ rfl

end Tradr
