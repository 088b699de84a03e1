import Mathlib.Data.List.Nodup
import Mathlib.Data.List.Perm.Subperm
import Tradr.DestinationNames
import Tradr.Posix

/-!
# Names for What Collides

A file that is placed where another one is gets a number before its last extension: `stem (2).ext`,
`stem (3).ext` and so on, until one is free. The number makes the name longer, so that a name can
outgrow what a component may hold; it never makes a name the deny list matches, since every pattern
looks at what is before or after the number only.

## Main definitions

* `DestinationName.resolveCollision`: the name that is taken, over what `stat` answers.
* `NumberedName`: a name with a number before its last extension.
* `DestinationName.Resolved`: the answers there are.

## Main results

* `stemAndExt_spec`: where a name is cut.
* `new_collisionName`: which numbered names are paths, and where they lie.
* `not_isDeniedForWrite_numbered`: no numbered name is denied for its number.
* `resolveCollision_resolved`: in a finite tree, the least free name is found unless it is too long.
-/

namespace Tradr

/-! ### Cutting a name -/

/-- A text that contains a character splits at the last one. -/
theorem exists_last_split {c : Char} {s : Text} (h : c ∈ s) :
    ∃ a b, s = a ++ c :: b ∧ c ∉ b := by
  obtain ⟨b, a, hrev, hb⟩ := List.eq_append_cons_of_mem (List.mem_reverse.mpr h)
  refine ⟨a.reverse, b.reverse, ?_, by rwa [List.mem_reverse]⟩
  have hs := congrArg List.reverse hrev
  rw [List.reverse_reverse, List.reverse_append, List.reverse_cons, List.append_assoc,
    List.singleton_append] at hs
  exact hs

/-- The last such character stands in one place. -/
theorem last_split_unique {c : Char} {a b a' b' : Text} (hb : c ∉ b) (hb' : c ∉ b')
    (h : a ++ c :: b = a' ++ c :: b') : a = a' ∧ b = b' := by
  rcases List.append_eq_append_iff.mp h with ⟨x, rfl, hx⟩ | ⟨x, rfl, hx⟩
  · rcases x with _ | ⟨d, x⟩
    · exact ⟨(List.append_nil a).symm, (List.cons.inj hx).2⟩
    · obtain ⟨rfl, rfl⟩ := List.cons.inj hx
      exact absurd (List.mem_append_right _ List.mem_cons_self) hb
  · rcases x with _ | ⟨d, x⟩
    · exact ⟨List.append_nil a', (List.cons.inj hx).2.symm⟩
    · obtain ⟨rfl, rfl⟩ := List.cons.inj hx
      exact absurd (List.mem_append_right _ List.mem_cons_self) hb'

/-- A name cut before its last extension: one that begins with its only dot has none. -/
structure LastExtension (name stem ext : Text) : Prop where
  append : stem ++ ext = name
  stem_ne_nil : stem ≠ []
  dot : ext = [] ∧ '.' ∉ name.tail ∨ ∃ rest, ext = '.' :: rest ∧ '.' ∉ rest

/-- What the characters after the last one are. -/
theorem takeWhile_reverse {c : Char} (a : Text) {b : Text} (h : c ∉ b) :
    (a ++ c :: b).reverse.takeWhile (· ≠ c) = b.reverse := by
  have hall : ∀ d ∈ b.reverse, decide (d ≠ c) = true := by
    intro d hd
    refine decide_eq_true fun heq => h ?_
    rwa [heq, List.mem_reverse] at hd
  rw [List.reverse_append, List.reverse_cons, List.append_assoc, List.takeWhile_append_of_pos hall,
    List.singleton_append, List.takeWhile_cons_of_neg (by simp), List.append_nil]

/-- **Where a name is cut.** -/
theorem stemAndExt_spec {name : Text} (h : name ≠ []) :
    LastExtension name (stemAndExt name).1 (stemAndExt name).2 := by
  unfold stemAndExt
  by_cases hdot : '.' ∈ name
  · obtain ⟨a, b, rfl, hb⟩ := exists_last_split hdot
    have hidx : (a ++ '.' :: b).length -
        ((a ++ '.' :: b).reverse.takeWhile (· ≠ '.')).length - 1 = a.length := by
      rw [takeWhile_reverse a hb, List.length_append, List.length_cons, List.length_reverse]
      omega
    dsimp only
    rw [hidx]
    split_ifs with hpos
    · refine ⟨List.take_append_drop _ _, ?_, .inr ⟨b, ?_, hb⟩⟩
      · rw [List.take_left]
        exact List.length_pos_iff.mp hpos.2
      · rw [List.drop_left]
    · obtain rfl := List.length_eq_zero_iff.mp (Nat.le_zero.mp (not_lt.mp fun hlt =>
        hpos ⟨hdot, hlt⟩))
      exact ⟨List.append_nil _, h, .inl ⟨rfl, hb⟩⟩
  · dsimp only
    rw [if_neg fun hpos => hdot hpos.1]
    exact ⟨List.append_nil _, h, .inl ⟨rfl, fun hmem => hdot (List.mem_of_mem_tail hmem)⟩⟩

/-- Directories and the slashes after them. -/
def joinDirs (dirs : List Text) : Text := dirs.flatMap (· ++ ['/'])

/-- Components joined by slashes are the directories and the last of them. -/
theorem intercalate_concat (dirs : List Text) (name : Text) :
    ['/'].intercalate (dirs ++ [name]) = joinDirs dirs ++ name := by
  induction dirs with
  | nil => exact List.intercalate_singleton
  | cons dir dirs ih =>
    obtain ⟨next, rest, hnext⟩ := List.exists_cons_of_ne_nil
      (show dirs ++ [name] ≠ [] by simp)
    rw [List.cons_append, hnext, List.intercalate_cons_cons, ← hnext, ih, joinDirs, joinDirs,
      List.flatMap_cons]
    simp only [List.append_assoc]

/-- Directories that are followed by something are what they are joined to, and a slash. -/
theorem joinDirs_eq {dirs : List Text} (h : dirs ≠ []) :
    joinDirs dirs = ['/'].intercalate dirs ++ ['/'] := by
  obtain ⟨init, last, rfl⟩ := List.eq_nil_or_concat dirs |>.resolve_left h
  rw [List.concat_eq_append, intercalate_concat, joinDirs, List.flatMap_append,
    List.flatMap_singleton, joinDirs, List.append_assoc]

/-- A path is cut after its directories. -/
theorem splitParent_eq (dirs : List Text) {name : Text} (h : '/' ∉ name) :
    splitParent (joinDirs dirs ++ name) = (joinDirs dirs, name) := by
  have hname : ((joinDirs dirs ++ name).reverse.takeWhile (· ≠ '/')).reverse = name := by
    rcases List.eq_nil_or_concat dirs with rfl | ⟨dirs, dir, rfl⟩
    · have hall : ∀ c ∈ name.reverse, decide (c ≠ '/') = true := by
        intro c hc
        refine decide_eq_true fun heq => h ?_
        rwa [heq, List.mem_reverse] at hc
      rw [joinDirs, List.flatMap_nil, List.nil_append, List.takeWhile_eq_self_iff.mpr hall,
        List.reverse_reverse]
    · have hsplit : joinDirs (dirs.concat dir) ++ name = (joinDirs dirs ++ dir) ++ '/' :: name := by
        rw [joinDirs, List.concat_eq_append, List.flatMap_append, List.flatMap_singleton, joinDirs]
        simp only [List.append_assoc, List.singleton_append]
      rw [hsplit, takeWhile_reverse _ h, List.reverse_reverse]
  unfold splitParent
  dsimp only
  rw [hname, List.length_append, Nat.add_sub_cancel, List.take_left]

/-! ### Numbered names -/

/-- A number in brackets after a blank. -/
def numberMark (n : ℕ) : Text := ' ' :: '(' :: (decimal n ++ [')'])

/-- A name with a number before its last extension. -/
def numberedName (name : Text) (n : ℕ) : Text :=
  (stemAndExt name).1 ++ numberMark n ++ (stemAndExt name).2

/-- A numbered name begins as the name does, and goes on with a blank. -/
theorem numberedName_eq (name : Text) (n : ℕ) :
    ∃ w, numberedName name n = (stemAndExt name).1 ++ ' ' :: w := by
  refine ⟨'(' :: (decimal n ++ [')']) ++ (stemAndExt name).2, ?_⟩
  rw [numberedName, numberMark, List.append_assoc]
  rfl

/-- The candidate for a counter lies beside the original. -/
theorem collisionName_eq (dirs : List Text) {name : Text} (h : '/' ∉ name) (n : ℕ) :
    collisionName (joinDirs dirs ++ name) n = joinDirs dirs ++ numberedName name n := by
  unfold collisionName numberedName numberMark
  rw [splitParent_eq dirs h]
  dsimp only
  have hmark : " (".toList = [' ', '('] := rfl
  rw [hmark]
  simp only [List.append_assoc, List.cons_append, List.nil_append]

/-- A character of a number's mark. -/
theorem mem_numberMark {n : ℕ} {c : Char} (h : c ∈ numberMark n) :
    c = ' ' ∨ c = '(' ∨ c = ')' ∨ c.isDigit = true := by
  unfold numberMark at h
  rw [List.mem_cons, List.mem_cons, List.mem_append, List.mem_singleton] at h
  rcases h with h | h | h | h
  · exact .inl h
  · exact .inr (.inl h)
  · exact .inr (.inr (.inr (Nat.isDigit_of_mem_toDigits (by decide) (by decide) h)))
  · exact .inr (.inr (.inl h))

/-- The characters of a number's mark are such as no rule objects to. -/
theorem numberMark_plain {n : ℕ} {c : Char} (h : c ∈ numberMark n) :
    c ≠ '/' ∧ c ≠ '\\' ∧ isControl c = false ∧ isMisleadingDisplayCharacter c = false := by
  rcases mem_numberMark h with rfl | rfl | rfl | hdigit
  · decide
  · decide
  · decide
  · have hrange : 48 ≤ c.toNat ∧ c.toNat ≤ 57 := by
      simp only [Char.isDigit, Bool.and_eq_true, decide_eq_true_eq, ge_iff_le,
        UInt32.le_iff_toNat_le] at hdigit
      exact hdigit
    have hnat : ∀ d : Char, c = d → c.toNat = d.toNat := fun d hd => by rw [hd]
    refine ⟨fun heq => ?_, fun heq => ?_, ?_, ?_⟩
    · have : c.toNat = 47 := hnat _ heq
      omega
    · have : c.toNat = 92 := hnat _ heq
      omega
    · simp only [isControl, decide_eq_false_iff_not]
      omega
    · simp only [isMisleadingDisplayCharacter, decide_eq_false_iff_not]
      omega

/-- Different numbers make different names. -/
theorem numberedName_injective (name : Text) : Function.Injective (numberedName name) := by
  intro n m h
  unfold numberedName numberMark at h
  have hmark := List.append_cancel_left (List.append_cancel_right h)
  have hdigits := List.append_cancel_right (List.cons.inj (List.cons.inj hmark).2).2
  have hvalue := congrArg (fun digits => Nat.ofDigitChars 10 digits 0) hdigits
  simpa only [decimal, Nat.ofDigitChars_ten_toDigits] using hvalue

/-! ### Paths of numbered names -/

/-- A path that is not the root: its directories and its name. -/
structure Located (p : RelPath) (dirs : List Text) (name : Text) : Prop where
  components : p.components = dirs ++ [name]
  value : p.value = joinDirs dirs ++ name
  no_slash : ∀ comp ∈ dirs ++ [name], '/' ∉ comp

/-- Every path but the root lies somewhere. -/
theorem exists_located {p : RelPath} (h : p ≠ RelPath.root) : ∃ dirs name, Located p dirs name := by
  have hne : p.components ≠ [] := fun hnil => h (RelPath.ext (RelPath.components_eq_nil_iff.mp hnil))
  obtain ⟨dirs, name, hcomps⟩ := List.eq_nil_or_concat p.components |>.resolve_left hne
  rw [List.concat_eq_append] at hcomps
  refine ⟨dirs, name, hcomps, ?_, ?_⟩
  · rw [← p.intercalate_components, hcomps, intercalate_concat]
  · rw [← hcomps, RelPath.components_eq_splitOn fun hnil => h (RelPath.ext hnil)]
    exact fun comp hcomp => slash_not_mem_piece hcomp

/-- A drive's name is told by the first two characters. -/
theorem hasDriveLetterPrefix_cons_cons (c d : Char) (s : Text) :
    hasDriveLetterPrefix (c :: d :: s) = (decide (d = ':') && c.isAlpha) := by
  unfold hasDriveLetterPrefix
  split
  · rename_i heq
    obtain ⟨rfl, hrest⟩ := List.cons.inj heq
    obtain ⟨rfl, -⟩ := List.cons.inj hrest
    rfl
  · rename_i hother
    have hd : d ≠ ':' := by
      rintro rfl
      exact hother c s rfl
    rw [decide_eq_false hd, Bool.false_and]

/-- What a number is put into does not begin a drive's name for it. -/
theorem hasDriveLetterPrefix_insert {u v w : Text} (hu : u ≠ [])
    (h : hasDriveLetterPrefix (u ++ v) = false) : hasDriveLetterPrefix (u ++ ' ' :: w) = false := by
  match u, hu, h with
  | [c], _, _ => rfl
  | c :: d :: u, _, h =>
    rw [List.cons_append, List.cons_append, hasDriveLetterPrefix_cons_cons] at h ⊢
    exact h

/-- A text of such characters is refused for its components only. -/
theorem PathChars.relPathRefusal_eq {s : Text} (h : PathChars s) (hne : s ≠ []) :
    relPathRefusal s = (s.splitOn '/').findSome? componentRefusal := by
  have hcontrol : s.find? isControl = none := by
    refine List.find?_eq_none.mpr fun c hc => ?_
    rw [h.no_control c hc]
    exact Bool.false_ne_true
  have hbidi : s.find? isMisleadingDisplayCharacter = none := by
    refine List.find?_eq_none.mpr fun c hc => ?_
    rw [h.no_bidi c hc]
    exact Bool.false_ne_true
  unfold relPathRefusal
  rw [if_neg hne, if_neg h.no_slash_head, if_neg h.no_backslash, h.no_drive,
    if_neg Bool.false_ne_true, hcontrol, hbidi]

/-- A numbered name is refused for its length only. -/
theorem componentRefusal_numbered (name : Text) (n : ℕ) : componentRefusal (numberedName name n) =
    if utf8Len (numberedName name n) > relPathComponentMaxLen then
      some (.componentTooLong (utf8Len (numberedName name n)))
    else none := by
  obtain ⟨w, hw⟩ := numberedName_eq name n
  have hblank : ' ' ∈ numberedName name n := by
    rw [hw]
    exact List.mem_append_right _ List.mem_cons_self
  have hne : numberedName name n ≠ [] := List.ne_nil_of_mem hblank
  have hdots : ¬(numberedName name n = ['.'] ∨ numberedName name n = ['.', '.']) := by
    rintro (heq | heq)
    · rw [heq] at hblank
      exact absurd hblank (by decide)
    · rw [heq] at hblank
      exact absurd hblank (by decide)
  rw [componentRefusal, if_neg hne, if_neg hdots]

namespace Located

variable {p : RelPath} {dirs : List Text} {name : Text} (h : Located p dirs name)

include h

/-- The name is not empty. -/
theorem name_ne_nil : name ≠ [] := by
  have hmem : name ∈ p.components := by
    rw [h.components]
    exact List.mem_append_right _ List.mem_cons_self
  exact ne_nil_of_componentRefusal (RelPath.component_accepted hmem)

/-- The path is not the root. -/
theorem value_ne_nil : p.value ≠ [] := by
  rw [h.value]
  exact List.append_ne_nil_of_right_ne_nil _ h.name_ne_nil

/-- No slash is in the pieces of a numbered path. -/
theorem slash_not_mem (n : ℕ) : ∀ comp ∈ dirs ++ [numberedName name n], '/' ∉ comp := by
  intro comp hcomp
  rcases List.mem_append.mp hcomp with hcomp | hcomp
  · exact h.no_slash comp (List.mem_append_left _ hcomp)
  · rw [List.mem_singleton.mp hcomp]
    have hname := h.no_slash name (List.mem_append_right _ List.mem_cons_self)
    rw [← (stemAndExt_spec h.name_ne_nil).append] at hname
    unfold numberedName
    simp only [List.mem_append] at hname ⊢
    rintro ((hc | hc) | hc)
    · exact hname (.inl hc)
    · exact (numberMark_plain hc).1 rfl
    · exact hname (.inr hc)

/-- The pieces of a numbered path. -/
theorem splitOn_numbered (n : ℕ) : (joinDirs dirs ++ numberedName name n).splitOn '/' =
    dirs ++ [numberedName name n] := by
  rw [← intercalate_concat]
  exact List.splitOn_intercalate '/' (h.slash_not_mem n) (by simp)

/-- The characters of a numbered path are those of the path and of the number's mark. -/
theorem pathChars_numbered (n : ℕ) : PathChars (joinDirs dirs ++ numberedName name n) := by
  have hchars := pathChars_of_accepted (p.accepted.resolve_left h.value_ne_nil)
  obtain ⟨hcut, hstem, -⟩ := stemAndExt_spec h.name_ne_nil
  obtain ⟨w, hw⟩ := numberedName_eq name n
  have hfront : joinDirs dirs ++ (stemAndExt name).1 ≠ [] :=
    List.append_ne_nil_of_right_ne_nil _ hstem
  have hnumbered : joinDirs dirs ++ numberedName name n =
      (joinDirs dirs ++ (stemAndExt name).1) ++ ' ' :: w := by
    rw [hw, List.append_assoc]
  have horiginal : p.value = (joinDirs dirs ++ (stemAndExt name).1) ++ (stemAndExt name).2 := by
    rw [h.value, List.append_assoc, hcut]
  have hmem : ∀ c ∈ joinDirs dirs ++ numberedName name n, c ∈ p.value ∨ c ∈ numberMark n := by
    intro c hc
    rw [horiginal]
    unfold numberedName at hc
    simp only [List.mem_append] at hc ⊢
    tauto
  exact {
    no_slash_head := by
      have hfirst := hchars.no_slash_head
      rw [horiginal] at hfirst
      rw [hnumbered]
      rwa [List.head?_append_of_ne_nil _ hfront] at hfirst ⊢
    no_backslash := fun hc =>
      (hmem _ hc).elim hchars.no_backslash fun hc => (numberMark_plain hc).2.1 rfl
    no_drive := by
      have hbefore := hchars.no_drive
      rw [horiginal] at hbefore
      rw [hnumbered]
      exact hasDriveLetterPrefix_insert hfront hbefore
    no_control := fun c hc =>
      (hmem c hc).elim (hchars.no_control c) fun hc => (numberMark_plain hc).2.2.1
    no_bidi := fun c hc =>
      (hmem c hc).elim (hchars.no_bidi c) fun hc => (numberMark_plain hc).2.2.2 }

/-- **A numbered path is refused for the length of its name only.** -/
theorem relPathRefusal_numbered (n : ℕ) : relPathRefusal (joinDirs dirs ++ numberedName name n) =
    if utf8Len (numberedName name n) > relPathComponentMaxLen then
      some (.componentTooLong (utf8Len (numberedName name n)))
    else none := by
  obtain ⟨w, hw⟩ := numberedName_eq name n
  have hne : joinDirs dirs ++ numberedName name n ≠ [] := by
    rw [hw]
    exact List.append_ne_nil_of_right_ne_nil _
      (List.append_ne_nil_of_right_ne_nil _ (List.cons_ne_nil _ _))
  have hdirs : dirs.findSome? componentRefusal = none := by
    refine List.findSome?_eq_none_iff.mpr fun dir hdir => ?_
    have hmem : dir ∈ p.components := by
      rw [h.components]
      exact List.mem_append_left _ hdir
    exact RelPath.component_accepted hmem
  rw [(h.pathChars_numbered n).relPathRefusal_eq hne, h.splitOn_numbered, List.findSome?_append,
    hdirs, Option.none_or, List.findSome?_singleton, componentRefusal_numbered]

/-- **Which numbered names are paths**, and where they lie. -/
theorem new_collisionName (n : ℕ) :
    (relPathComponentMaxLen < utf8Len (numberedName name n) ∧
        ∃ e, RelPath.new (collisionName p.value n) = .error e) ∨
      utf8Len (numberedName name n) ≤ relPathComponentMaxLen ∧
        ∃ q, RelPath.new (collisionName p.value n) = .ok q ∧
          Located q dirs (numberedName name n) := by
  have hvalue : collisionName p.value n = joinDirs dirs ++ numberedName name n := by
    rw [h.value, collisionName_eq dirs (h.no_slash name (List.mem_append_right _
      List.mem_cons_self))]
  have hrefusal := h.relPathRefusal_numbered n
  rw [hvalue]
  by_cases hlen : utf8Len (numberedName name n) > relPathComponentMaxLen
  · rw [if_pos hlen] at hrefusal
    refine .inl ⟨hlen, .componentTooLong (utf8Len (numberedName name n)), ?_⟩
    unfold RelPath.new
    split
    · rename_i hnone
      rw [hrefusal] at hnone
      cases hnone
    · rename_i e he
      rw [hrefusal] at he
      rw [Option.some.inj he]
  · rw [if_neg hlen] at hrefusal
    refine .inr ⟨not_lt.mp hlen, _, RelPath.new_eq_ok hrefusal, ?_, rfl, h.slash_not_mem n⟩
    rw [RelPath.components_eq_splitOn (relPathRefusal_eq_none hrefusal).1]
    exact h.splitOn_numbered n

end Located

/-! ### The deny list -/

/-- A last part of a pattern that looks at one end of a name only: a whole name without brackets, an
extension, or a beginning without blanks. -/
def looksAtOneEnd : PatternPart → Bool
  | .exact name => name.all fun c => c.toLower ≠ '('
  | .glob head tail =>
    (head = [] && tail.head? = some '.' && (tail.tail.map Char.toLower).all (· ≠ '.') &&
        (tail.map Char.toLower).getLast? ≠ some ')') ||
      (tail = [] && (head.map Char.toLower).all (· ≠ ' '))

/-- Every pattern ends with such a part. -/
theorem looksAtOneEnd_of_mem {pattern : List PatternPart} (h : pattern ∈ denyPatterns) :
    ∀ part ∈ pattern.getLast?, looksAtOneEnd part = true := by
  revert pattern
  decide

/-- Which character becomes a given one in lower case. -/
theorem eq_of_toLower {c d : Char} (hd : d.toNat < 97 ∨ 122 < d.toNat) (h : c.toLower = d) :
    c = d := by
  by_cases hupper : 65 ≤ c.toNat ∧ c.toNat ≤ 90
  · have hnat := toNat_toLower_of_upper hupper
    rw [h] at hnat
    omega
  · rwa [toLower_of_not_upper hupper] at h

/-- A character without cases that is in a text is in the text in lower case. -/
theorem mem_map_toLower {c : Char} (hc : c.toLower = c) {s : Text} (h : c ∈ s) :
    c ∈ s.map Char.toLower := List.mem_map.mpr ⟨c, h, hc⟩

/-- The end of a numbered name that an extension matches is the extension of the name. -/
theorem suffix_of_numbered {name tail : Text} (hname : name ≠ []) {n : ℕ}
    (hdot : tail.head? = some '.') (hrest : '.' ∉ tail.tail.map Char.toLower)
    (hlast : (tail.map Char.toLower).getLast? ≠ some ')')
    {front y : Text} (hsplit : numberedName name n = front ++ y)
    (hy : y.map Char.toLower = tail.map Char.toLower) : ∃ stem, name = stem ++ y := by
  obtain ⟨hcut, hstem, hext⟩ := stemAndExt_spec hname
  obtain ⟨e, rfl⟩ : ∃ e, tail = '.' :: e := by
    cases tail with
    | nil => cases hdot
    | cons c e => exact ⟨e, by rw [Option.some.inj hdot]⟩
  rcases y with _ | ⟨c, y⟩
  · cases hy
  rw [List.map_cons, List.map_cons, List.cons.injEq] at hy
  obtain rfl := eq_of_toLower (.inl (by decide)) (hy.1.trans (by decide : '.'.toLower = '.'))
  have hnodot : '.' ∉ y := fun hmem => hrest (by
    rw [List.tail_cons, ← hy.2]
    exact mem_map_toLower (by decide) hmem)
  rcases hext with ⟨hnone, -⟩ | ⟨rest, hsome, hnorest⟩
  · -- The name has no extension, so that the numbered one ends with a bracket.
    exfalso
    apply hlast
    have hend : numberedName name n =
        ((stemAndExt name).1 ++ ' ' :: '(' :: decimal n) ++ [')'] := by
      rw [numberedName, hnone, numberMark, List.append_nil]
      simp only [List.append_assoc, List.cons_append]
    have hbracket : (numberedName name n).getLast? = some ')' := by
      rw [hend, List.getLast?_concat]
    rw [hsplit, List.getLast?_append_of_ne_nil _ (List.cons_ne_nil _ _)] at hbracket
    rw [List.map_cons, ← hy.2, ← List.map_cons, List.getLast?_map, hbracket]
    rfl
  · rw [numberedName, hsome] at hsplit
    obtain ⟨-, rfl⟩ := last_split_unique hnorest hnodot hsplit
    exact ⟨(stemAndExt name).1, by rw [← hsome, hcut]⟩

/-- The beginning of a numbered name that has no blank is one of the name. -/
theorem prefix_of_numbered {name : Text} (hname : name ≠ []) {n k : ℕ}
    (hblank : ' ' ∉ (numberedName name n).take k) (hk : k ≤ (numberedName name n).length) :
    k ≤ name.length ∧ (numberedName name n).take k = name.take k := by
  obtain ⟨hcut, -, -⟩ := stemAndExt_spec hname
  obtain ⟨w, hw⟩ := numberedName_eq name n
  rw [hw] at hblank hk ⊢
  have hle : k ≤ (stemAndExt name).1.length := by
    by_contra hlt
    rw [not_le] at hlt
    obtain ⟨m, rfl⟩ := Nat.exists_eq_add_of_lt hlt
    apply hblank
    rw [List.take_append, Nat.add_assoc, Nat.add_sub_cancel_left, List.take_succ_cons]
    exact List.mem_append_right _ List.mem_cons_self
  have hlen := congrArg List.length hcut
  rw [List.length_append] at hlen
  refine ⟨by omega, ?_⟩
  rw [List.take_append_of_le_length hle]
  conv_rhs => rw [← hcut]
  rw [List.take_append_of_le_length hle]

/-- **A part that matches a numbered name matches the name.** -/
theorem partMatches_of_numbered {part : PatternPart} (hpart : looksAtOneEnd part = true)
    {name : Text} (hname : name ≠ []) {n : ℕ}
    (h : partMatches part (numberedName name n) = true) : partMatches part name = true := by
  cases part with
  | exact pattern =>
    exfalso
    have hmap : (numberedName name n).map Char.toLower = pattern.map Char.toLower :=
      of_decide_eq_true h
    have hbracket : '(' ∈ numberedName name n := by
      rw [numberedName, numberMark]
      simp
    have hmem := mem_map_toLower (by decide) hbracket
    rw [hmap] at hmem
    obtain ⟨c, hc, hlower⟩ := List.mem_map.mp hmem
    have hnone := List.all_eq_true.mp hpart c hc
    exact of_decide_eq_true hnone hlower
  | glob head tail =>
    rw [partMatches] at h ⊢
    split_ifs at h with hlen
    rw [Bool.and_eq_true] at h
    obtain ⟨hhead, htail⟩ := h
    have hhead' : ((numberedName name n).take head.length).map Char.toLower =
        head.map Char.toLower := of_decide_eq_true hhead
    have htail' : ((numberedName name n).drop
        ((numberedName name n).length - tail.length)).map Char.toLower =
        tail.map Char.toLower := of_decide_eq_true htail
    rw [not_lt] at hlen
    unfold looksAtOneEnd at hpart
    simp only [Bool.or_eq_true, Bool.and_eq_true, decide_eq_true_eq] at hpart
    rcases hpart with ⟨⟨⟨rfl, hdot⟩, hrest⟩, hlast⟩ | ⟨rfl, hblank⟩
    · -- An extension: what it matches is the end of the name as well.
      have hnodot : '.' ∉ tail.tail.map Char.toLower := fun hmem => by
        simpa using List.all_eq_true.mp hrest '.' hmem
      obtain ⟨stem, hstem⟩ := suffix_of_numbered hname hdot hnodot hlast
        (List.take_append_drop _ _).symm htail'
      generalize (numberedName name n).drop ((numberedName name n).length - tail.length) = y
        at hstem htail'
      have hy : y.length = tail.length := by
        have := congrArg List.length htail'
        rwa [List.length_map, List.length_map] at this
      have hlength : name.length = stem.length + tail.length := by
        rw [hstem, List.length_append, hy]
      have hdrop : name.drop (name.length - tail.length) = y := by
        rw [hlength, Nat.add_sub_cancel, hstem, List.drop_left]
      rw [List.length_nil, Nat.zero_add, if_neg (by omega), hdrop, Bool.and_eq_true]
      exact ⟨rfl, decide_eq_true htail'⟩
    · -- A beginning: it ends before the number does begin.
      rw [List.length_nil, Nat.add_zero] at hlen
      have hnoblank : ' ' ∉ (numberedName name n).take head.length := fun hmem => by
        have hmem' := mem_map_toLower (by decide) hmem
        rw [hhead'] at hmem'
        simpa using List.all_eq_true.mp hblank ' ' hmem'
      obtain ⟨hle, htake⟩ := prefix_of_numbered hname hnoblank hlen
      rw [List.length_nil, Nat.add_zero, if_neg (not_lt.mpr hle), Nat.sub_zero, List.drop_length,
        Bool.and_eq_true, ← htake]
      exact ⟨hhead, rfl⟩

/-- A pattern that matches a path whose last component is a numbered name matches the path. -/
theorem patternMatchesRun_of_numbered {pattern : List PatternPart} (hmem : pattern ∈ denyPatterns)
    {dirs : List Text} {name : Text} (hname : name ≠ []) {n : ℕ}
    (h : patternMatchesRun pattern (dirs ++ [numberedName name n]) = true) :
    patternMatchesRun pattern (dirs ++ [name]) = true := by
  obtain ⟨run, ⟨before, after, hrun⟩, hall⟩ := patternMatchesRun_iff.mp h
  rcases List.eq_nil_or_concat after with rfl | ⟨after, last, rfl⟩
  · -- The run ends with the numbered name.
    rw [List.append_nil] at hrun
    rcases List.eq_nil_or_concat run with rfl | ⟨run, last, rfl⟩
    · cases hall
      exact patternMatchesRun_iff.mpr ⟨[], List.nil_infix, .nil⟩
    · rw [List.concat_eq_append, ← List.append_assoc] at hrun
      obtain ⟨rfl, hlast⟩ := List.append_inj' hrun rfl
      obtain rfl := (List.cons.inj hlast).1
      rw [List.concat_eq_append] at hall
      have hfront := List.forall₂_take_append _ _ _ hall
      have hback := List.forall₂_drop_append _ _ _ hall
      obtain ⟨part, more, hpart, hnil, hsplit⟩ := List.forall₂_cons_right_iff.mp hback
      cases hnil
      have hlast : pattern.getLast? = some part := by
        rw [← List.take_append_drop run.length pattern, hsplit, List.getLast?_concat]
      have hmatch := partMatches_of_numbered (looksAtOneEnd_of_mem hmem part hlast) hname hpart
      refine patternMatchesRun_iff.mpr ⟨run ++ [name], ⟨before, [], by simp⟩, ?_⟩
      rw [← List.take_append_drop run.length pattern, hsplit]
      exact List.rel_append hfront (.cons hmatch .nil)
  · -- The run ends before it.
    rw [List.concat_eq_append, ← List.append_assoc] at hrun
    obtain ⟨rfl, -⟩ := List.append_inj' hrun rfl
    exact patternMatchesRun_iff.mpr ⟨run, ⟨before, after ++ [name], by simp⟩, hall⟩

/-- **No numbered name is denied for its number.** -/
theorem not_isDeniedForWrite_numbered {dirs : List Text} {name : Text} (hname : name ≠ [])
    (h : isDeniedForWrite (dirs ++ [name]) = false) (n : ℕ) :
    isDeniedForWrite (dirs ++ [numberedName name n]) = false := by
  have hstaging : isPartialStaging (dirs ++ [numberedName name n]) =
      isPartialStaging (dirs ++ [name]) := by
    unfold isPartialStaging
    cases dirs with
    | nil => rfl
    | cons dir dirs =>
      simp only [List.cons_append, List.head?_cons, List.length_cons, List.length_append]
  unfold isDeniedForWrite isDenied at h ⊢
  rw [hstaging]
  split_ifs at h ⊢ with hif
  · rw [List.any_eq_false] at h ⊢
    exact fun pattern hpattern hmatch => h pattern hpattern
      (patternMatchesRun_of_numbered (List.mem_of_mem_filter hpattern) hname hmatch)
  · rw [List.any_eq_false] at h ⊢
    exact fun pattern hpattern hmatch => h pattern hpattern
      (patternMatchesRun_of_numbered hpattern hname hmatch)

/-! ### Resolving a collision -/

namespace DestinationName

/-- How many counters there are from two on, before the one after them overflows. -/
def counters : ℕ := 2 ^ 31 - 3

/-- Try the numbered names from a counter on; nothing when the counters run out. -/
def numbered (stat : RelPath → Except VfsError Metadata) (path : RelPath) :
    ℕ → ℕ → Option (Except VfsError RelPath)
  | 0, _ => none
  | remaining + 1, counter =>
    match RelPath.new (collisionName path.value counter) with
    | .error _ => some (.error (.io .invalidInput))
    | .ok candidate =>
      match stat candidate with
      | .ok _ => numbered stat path remaining (counter + 1)
      | .error .notFound => some (.ok candidate)
      | .error e => some (.error e)

/-- The path itself when it is free, and else the first numbered one that is. -/
def resolveCollision (stat : RelPath → Except VfsError Metadata) (path : RelPath) :
    Option (Except VfsError RelPath) :=
  match stat path with
  | .ok _ => numbered stat path counters 2
  | .error .notFound => some (.ok path)
  | .error e => some (.error e)

open PosixVfs

/-- Something is there: the directories are, and an entry in the last of them. -/
def Present (t : Tree) (components : List Text) : Prop :=
  resolveDir t [] components.dropLast = .ok () ∧ (nodeAt t components).isSome

/-- What is there is neither a file nor a directory. -/
def Unsupported (t : Tree) (components : List Text) : Prop :=
  nodeAt t components = some .symlink ∨ nodeAt t components = some .special

/-- The name with a number before its extension. -/
abbrev inserted (dirs : List Text) (stem ext : Text) (n : ℕ) : List Text :=
  dirs ++ [stem ++ numberMark n ++ ext]

/-- The answers there are, for a path in some directories with a name cut before its last
extension. -/
inductive Resolved (t : Tree) (p : RelPath) (dirs : List Text) (stem ext : Text) :
    Except VfsError RelPath → Prop
  | free : ¬Present t p.components → Resolved t p dirs stem ext (.ok p)
  | numbered {n : ℕ} {q : RelPath} : 2 ≤ n → Present t p.components →
      (∀ m, 2 ≤ m → m < n → Present t (inserted dirs stem ext m)) →
      q.components = inserted dirs stem ext n → ¬Present t q.components →
      isDeniedForWrite q.components = false → Resolved t p dirs stem ext (.ok q)
  | tooLong {n : ℕ} : 2 ≤ n → Present t p.components →
      (∀ m, 2 ≤ m → m < n → Present t (inserted dirs stem ext m)) →
      relPathComponentMaxLen < utf8Len (stem ++ numberMark n ++ ext) →
      Resolved t p dirs stem ext (.error (.io .invalidInput))
  | unsupported {n : ℕ} : 2 ≤ n → Present t p.components →
      (∀ m, 2 ≤ m → m < n → Present t (inserted dirs stem ext m)) →
      Unsupported t (inserted dirs stem ext n) →
      Resolved t p dirs stem ext (.error .unsupportedEntry)
  | refused {e : VfsError} : e ≠ .notFound → statSync t p = .error e →
      Resolved t p dirs stem ext (.error e)

/-- **What `stat` answers** for a path that is not denied. -/
theorem statSync_cases {t : Tree} {q : RelPath} (hdenied : isDeniedForWrite q.components = false) :
    (∃ m, statSync t q = .ok m ∧ Present t q.components) ∨
      statSync t q = .error .notFound ∧ ¬Present t q.components ∨
      ∃ e, statSync t q = .error e ∧ e ≠ .notFound ∧
        (resolveDir t [] q.components.dropLast = .ok () →
          e = .unsupportedEntry ∧ Unsupported t q.components) := by
  have hcheck : checkDenyList q = .ok () := by
    rw [checkDenyList, hdenied]
    rfl
  unfold statSync
  rw [hcheck, Fallible.ok_bind]
  cases hdir : resolveDir t [] q.components.dropLast with
  | error e =>
    rw [Fallible.error_bind]
    by_cases he : e = .notFound
    · refine .inr (.inl ⟨by rw [he], fun ⟨hwalk, _⟩ => ?_⟩)
      rw [hdir] at hwalk
      cases hwalk
    · exact .inr (.inr ⟨e, rfl, he, fun h => by cases h⟩)
  | ok =>
    rw [Fallible.ok_bind]
    cases hnode : nodeAt t q.components with
    | none =>
      refine .inr (.inl ⟨rfl, fun ⟨_, hsome⟩ => ?_⟩)
      rw [hnode] at hsome
      cases hsome
    | some node =>
      have hpresent : Present t q.components := ⟨hdir, by rw [hnode]; rfl⟩
      cases node with
      | file ino => exact .inl ⟨_, rfl, hpresent⟩
      | directory => exact .inl ⟨_, rfl, hpresent⟩
      | symlink => exact .inr (.inr ⟨_, rfl, by decide, fun _ => ⟨rfl, .inl hnode⟩⟩)
      | special => exact .inr (.inr ⟨_, rfl, by decide, fun _ => ⟨rfl, .inr hnode⟩⟩)

/-- **What trying the numbered names gives**, when those before the counter are taken. -/
theorem numbered_cases {t : Tree} {p : RelPath} {dirs : List Text} {name : Text}
    (h : Located p dirs name) (hdenied : isDeniedForWrite p.components = false)
    (hpresent : Present t p.components) (remaining : ℕ) {counter : ℕ} (hcounter : 2 ≤ counter)
    (htaken : ∀ m, 2 ≤ m → m < counter →
      Present t (inserted dirs (stemAndExt name).1 (stemAndExt name).2 m)) :
    (∃ answer, numbered (statSync t) p remaining counter = some answer ∧
        Resolved t p dirs (stemAndExt name).1 (stemAndExt name).2 answer) ∨
      numbered (statSync t) p remaining counter = none ∧
        ∀ m, 2 ≤ m → m < counter + remaining →
          Present t (inserted dirs (stemAndExt name).1 (stemAndExt name).2 m) := by
  induction remaining generalizing counter with
  | zero => exact .inr ⟨rfl, htaken⟩
  | succ remaining ih =>
    rw [numbered]
    rcases h.new_collisionName counter with ⟨hlong, e, hnew⟩ | ⟨-, q, hnew, hq⟩
    · rw [hnew]
      exact .inl ⟨_, rfl, .tooLong hcounter hpresent htaken hlong⟩
    · rw [hnew]
      dsimp only
      have hallowed : isDeniedForWrite q.components = false := by
        rw [h.components] at hdenied
        rw [hq.components]
        exact not_isDeniedForWrite_numbered h.name_ne_nil hdenied counter
      have hdirs : q.components.dropLast = p.components.dropLast := by
        rw [hq.components, h.components, List.dropLast_concat, List.dropLast_concat]
      rcases statSync_cases (t := t) hallowed with
        ⟨m, hstat, hthere⟩ | ⟨hstat, hfree⟩ | ⟨e, hstat, hne, hkind⟩
      · rw [hstat]
        dsimp only
        rw [hq.components] at hthere
        have htaken' : ∀ m, 2 ≤ m → m < counter + 1 →
            Present t (inserted dirs (stemAndExt name).1 (stemAndExt name).2 m) := by
          intro m hm hlt
          rcases Nat.lt_succ_iff_lt_or_eq.mp hlt with hlt | rfl
          · exact htaken m hm hlt
          · exact hthere
        rw [← Nat.add_assoc counter remaining 1, Nat.add_right_comm counter remaining 1]
        exact ih (by omega) htaken'
      · rw [hstat]
        exact .inl ⟨_, rfl, .numbered hcounter hpresent htaken hq.components hfree hallowed⟩
      · rw [hstat]
        rw [hdirs] at hkind
        obtain ⟨rfl, hunsupported⟩ := hkind hpresent.1
        rw [hq.components] at hunsupported
        exact .inl ⟨_, rfl, .unsupported hcounter hpresent htaken hunsupported⟩

/-- As many numbered names as there are counters are not all taken by fewer entries. -/
theorem exists_free (t : Tree) (dirs : List Text) {name : Text} {k : ℕ}
    (hsmall : t.entries.length < k) :
    ¬∀ m, 2 ≤ m → m < 2 + k →
      Present t (inserted dirs (stemAndExt name).1 (stemAndExt name).2 m) := by
  intro hall
  set names := (List.range k).map fun i =>
    inserted dirs (stemAndExt name).1 (stemAndExt name).2 (i + 2) with hnames
  have hnodup : names.Nodup := by
    refine List.Nodup.map (fun i j hij => ?_) List.nodup_range
    have hname := (List.cons.inj (List.append_cancel_left hij)).1
    have hnumber := numberedName_injective name hname
    omega
  have hsubset : names ⊆ t.entries.map Prod.fst := by
    intro comps hcomps
    obtain ⟨i, hi, rfl⟩ := List.mem_map.mp hcomps
    rw [List.mem_range] at hi
    obtain ⟨-, hsome⟩ := hall (i + 2) (by omega) (by omega)
    obtain ⟨node, hnode⟩ := Option.isSome_iff_exists.mp hsome
    rw [nodeAt, if_neg (by simp)] at hnode
    exact List.mem_map.mpr ⟨_, Assoc.mem_of_lookup hnode, rfl⟩
  have hlength := (hnodup.subperm hsubset).length_le
  rw [hnames, List.length_map, List.length_range, List.length_map] at hlength
  omega

/-- **A collision is resolved**: in a tree with fewer entries than there are counters, the path is
taken when it is free and else the least numbered one that is, unless a number before it makes the
name too long or `stat` refuses a path. -/
theorem resolveCollision_resolved (t : Tree) (p : RelPath) (hroot : p ≠ RelPath.root)
    (hdenied : isDeniedForWrite p.components = false) (hsmall : t.entries.length < counters) :
    ∃ dirs name stem ext answer, p.components = dirs ++ [name] ∧ LastExtension name stem ext ∧
      resolveCollision (statSync t) p = some answer ∧ Resolved t p dirs stem ext answer := by
  obtain ⟨dirs, name, h⟩ := exists_located hroot
  have hcut := stemAndExt_spec h.name_ne_nil
  unfold resolveCollision
  rcases statSync_cases (t := t) hdenied with
    ⟨m, hstat, hpresent⟩ | ⟨hstat, hfree⟩ | ⟨e, hstat, hne, -⟩
  · rw [hstat]
    dsimp only
    have hnone : ∀ m, 2 ≤ m → m < 2 →
        Present t (inserted dirs (stemAndExt name).1 (stemAndExt name).2 m) := by
      intro m hm hlt
      omega
    rcases numbered_cases h hdenied hpresent counters le_rfl hnone with
      ⟨answer, hanswer, hresolved⟩ | ⟨-, hall⟩
    · exact ⟨dirs, name, _, _, answer, h.components, hcut, hanswer, hresolved⟩
    · exact absurd hall (exists_free t dirs hsmall)
  · rw [hstat]
    exact ⟨dirs, name, _, _, _, h.components, hcut, rfl, .free hfree⟩
  · rw [hstat]
    refine ⟨dirs, name, _, _, .error e, h.components, hcut, ?_, .refused hne hstat⟩
    cases e with
    | notFound => exact absurd rfl hne
    | _ => rfl

/-- A tree with one file in its root. -/
def oneFile (name : Text) : Tree := ⟨[([name], .file 0)], fun _ => [], 1, fun _ => 0, false⟩

/-- A picture that is there already. -/
theorem resolveCollision_resolved_picture : ∃ dirs name stem ext answer,
    (⟨"a.jpg".toList, .inr (by decide)⟩ : RelPath).components = dirs ++ [name] ∧
      LastExtension name stem ext ∧
      resolveCollision (statSync (oneFile "a.jpg".toList)) ⟨"a.jpg".toList, .inr (by decide)⟩ =
        some answer ∧
      Resolved (oneFile "a.jpg".toList) ⟨"a.jpg".toList, .inr (by decide)⟩ dirs stem ext answer :=
  resolveCollision_resolved (oneFile "a.jpg".toList) ⟨"a.jpg".toList, .inr (by decide)⟩ (by decide)
    (by decide) (by decide)

/-- A name of as many bytes as a component may have. -/
def longName : Text := List.replicate 255 'a'

/-- The path of this name. -/
def longPath : RelPath := ⟨longName, .inr (by decide +kernel)⟩

/-- The sanitizer has nothing to do with it. -/
theorem safeComponent_longName : SafeComponent longName := by
  have hchar : ∀ c ∈ longName, c = 'a' := fun c hc => (List.mem_replicate.mp hc).2
  refine ⟨List.cons_ne_nil _ _, ?_, ?_, ?_⟩
  · intro c hc
    obtain rfl := hchar c (List.mem_of_getLast? hc)
    exact ⟨by decide, by decide⟩
  · intro hcolon
    exact absurd (hchar _ hcolon) (by decide)
  · intro hdevice
    have hstem : deviceStem longName = longName :=
      List.takeWhile_eq_self_iff.mpr fun c hc => by rw [hchar c hc]; rfl
    have hshort : windowsReserved.all (fun reserved => reserved.length < 255) = true := by decide
    rw [hstem] at hdevice
    obtain ⟨reserved, hmem, heq⟩ := List.any_eq_true.mp hdevice
    have hlower : reserved.map Char.toLower = longName.map Char.toLower := of_decide_eq_true heq
    have hlength := congrArg List.length hlower
    rw [List.length_map, List.length_map, longName, List.length_replicate] at hlength
    have hless := of_decide_eq_true (List.all_eq_true.mp hshort reserved hmem)
    omega

/-- Where a name of full length is taken, the sanitizer and the deny list accept it, and there is no
numbered one. -/
theorem resolveCollision_longName :
    sanitizeDestinationPath (fun s => s) longPath.value = .ok longPath ∧
      isDeniedForWrite longPath.components = false ∧
      resolveCollision (statSync (oneFile longName)) longPath =
        some (.error (.io .invalidInput)) := by
  have hcomps : longPath.components = [longName] := by decide +kernel
  refine ⟨?_, by decide +kernel, ?_⟩
  · refine sanitizeDestinationPath_of_safe (by decide +kernel) rfl fun comp hcomp => ?_
    rw [hcomps, List.mem_singleton] at hcomp
    subst hcomp
    exact safeComponent_longName
  · have hstat : statSync (oneFile longName) longPath = .ok ⟨.file, 0, 0⟩ := by decide +kernel
    have hnew : RelPath.new (collisionName longPath.value 2) = .error (.componentTooLong 259) := by
      decide +kernel
    have hcounters : counters = 2147483644 + 1 := rfl
    rw [resolveCollision, hstat, hcounters]
    dsimp only
    rw [numbered, hnew]

end DestinationName

end Tradr
