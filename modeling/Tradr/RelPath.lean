import Mathlib.Algebra.GroupWithZero.Nat
import Mathlib.Data.List.Basic

/-!
# Relative Paths

A relative path as it arrives from a peer: `/`-separated components that passed every
rejecting rule before anything joins them to a Share Root. Text is a list of Unicode
scalar values; lengths that the source counts in bytes are UTF-8 lengths.

A `RelPath` carries the proof that it passed, so that no path with an empty or a dot
component can be built.

## Main results

* `RelPath.new_value`: an accepted text reproduces itself exactly.
* `RelPath.component_accepted`: every component of a path passed the component rules.
* `RelPath.components_injective`: a path is determined by its components.
-/

namespace Tradr

/-- Text, as its Unicode scalar values. -/
abbrev Text := List Char

/-- Texts are compared character by character. -/
instance Text.instLawfulBEq : LawfulBEq Text := inferInstance

/-- Lower case changes capital letters only. -/
theorem toLower_of_not_upper {c : Char} (h : ¬(65 ≤ c.toNat ∧ c.toNat ≤ 90)) : c.toLower = c :=
  dif_neg h

/-- A capital letter becomes the letter that stands 32 places later. -/
theorem toNat_toLower_of_upper {c : Char} (h : 65 ≤ c.toNat ∧ c.toNat ≤ 90) :
    c.toLower.toNat = c.toNat + 32 := by
  have hlower : c.toLower.val = c.val + ('a'.val - 'A'.val) := congrArg Char.val (dif_pos h)
  have hdiff : ('a'.val - 'A'.val).toNat = 32 := rfl
  have hsum := congrArg UInt32.toNat hlower
  rw [UInt32.toNat_add, hdiff] at hsum
  exact hsum.trans (Nat.mod_eq_of_lt (by have := h.2; unfold Char.toNat at this; omega))

/-- The capital letters. -/
theorem isUpper_iff {c : Char} : c.isUpper = true ↔ 65 ≤ c.toNat ∧ c.toNat ≤ 90 := by
  change decide (65 ≤ c.toNat ∧ c.toNat ≤ 90) = true ↔ _
  exact decide_eq_true_iff

/-- The small letters. -/
theorem isLower_iff {c : Char} : c.isLower = true ↔ 97 ≤ c.toNat ∧ c.toNat ≤ 122 := by
  change (decide (97 ≤ c.toNat) && decide (c.toNat ≤ 122)) = true ↔ _
  rw [Bool.and_eq_true, decide_eq_true_iff, decide_eq_true_iff]

/-- The letters. -/
theorem isAlpha_iff {c : Char} : c.isAlpha = true ↔
    (65 ≤ c.toNat ∧ c.toNat ≤ 90) ∨ (97 ≤ c.toNat ∧ c.toNat ≤ 122) :=
  Bool.or_eq_true_iff.trans (or_congr isUpper_iff isLower_iff)

/-- The number of bytes of a text in UTF-8. -/
def utf8Len (s : Text) : ℕ :=
  (s.map Char.utf8Size).sum

/-- The most bytes a single path component may occupy. -/
def relPathComponentMaxLen : ℕ := 255

/-- Why a text is not a relative path. -/
inductive RelPathError
  | empty
  | absolute
  | backslash
  | driveLetter
  | controlCharacter (c : Char)
  | misleadingDisplay (c : Char)
  | emptyComponent
  | dotComponent (component : Text)
  | componentTooLong (len : ℕ)
  deriving DecidableEq, Repr

/-- General category `Cc`. -/
def isControl (c : Char) : Bool :=
  c.toNat ≤ 0x1f ∨ (0x7f ≤ c.toNat ∧ c.toNat ≤ 0x9f)

/-- Characters that can make what renders differ from what is on the wire. -/
def isMisleadingDisplayCharacter (c : Char) : Bool :=
  (0x202a ≤ c.toNat ∧ c.toNat ≤ 0x202e) ∨ (0x2066 ≤ c.toNat ∧ c.toNat ≤ 0x2069) ∨
    c.toNat = 0x2028 ∨ c.toNat = 0x2029

/-- An ASCII letter and a colon at the very start name a Windows drive. -/
def hasDriveLetterPrefix : Text → Bool
  | first :: ':' :: _ => first.isAlpha
  | _ => false

/-- The rules one component has to pass, in the order they are tried. -/
def componentRefusal (component : Text) : Option RelPathError :=
  if component = [] then some .emptyComponent
  else if component = ['.'] ∨ component = ['.', '.'] then some (.dotComponent component)
  else if utf8Len component > relPathComponentMaxLen then
    some (.componentTooLong (utf8Len component))
  else none

/-- The rules a relative path has to pass, in the order they are tried: the first one it
breaks. -/
def relPathRefusal (s : Text) : Option RelPathError :=
  if s = [] then some .empty
  else if s.head? = some '/' then some .absolute
  else if '\\' ∈ s then some .backslash
  else if hasDriveLetterPrefix s then some .driveLetter
  else
    match s.find? isControl with
    | some c => some (.controlCharacter c)
    | none =>
      match s.find? isMisleadingDisplayCharacter with
      | some c => some (.misleadingDisplay c)
      | none => (s.splitOn '/').findSome? componentRefusal

/-- A relative path that passed every rule, or the root of a Share. -/
structure RelPath where
  value : Text
  accepted : value = [] ∨ relPathRefusal value = none

instance : DecidableEq RelPath := fun p q =>
  decidable_of_iff (p.value = q.value)
    ⟨fun h => by cases p; cases q; subst h; rfl, fun h => by rw [h]⟩

/-- Paths with the same text are the same. -/
@[ext] theorem RelPath.ext {p q : RelPath} (h : p.value = q.value) : p = q := by
  cases p
  cases q
  subst h
  rfl

/-- Validate a text against the rejecting rules. -/
def RelPath.new (s : Text) : Except RelPathError RelPath :=
  match h : relPathRefusal s with
  | none => .ok ⟨s, .inr h⟩
  | some e => .error e

/-- The path `hi.txt`. -/
def RelPath.sample : RelPath := ⟨"hi.txt".toList, .inr (by decide)⟩

/-- The zero-component path, which addresses a Share Root itself. -/
def RelPath.root : RelPath :=
  ⟨[], .inl rfl⟩

/-- The `/`-separated components, in order; none for the root. -/
def RelPath.components (p : RelPath) : List Text :=
  (p.value.splitOn '/').filter (· ≠ [])

/-! ### What an accepted path looks like -/

/-- An accepted text reproduces itself exactly. -/
theorem RelPath.new_value {s : Text} {p : RelPath} (h : RelPath.new s = .ok p) :
    p.value = s := by
  unfold RelPath.new at h
  split at h
  · exact congrArg RelPath.value (Except.ok.inj h).symm
  · exact absurd h (by simp)

/-- A text with no refusal is a path. -/
theorem RelPath.new_eq_ok {s : Text} (h : relPathRefusal s = none) :
    RelPath.new s = .ok ⟨s, .inr h⟩ := by
  unfold RelPath.new
  split
  · rfl
  · rename_i e he
    rw [h] at he
    exact absurd he (by simp)

/-- An accepted text is not empty, and its pieces between slashes all pass. -/
theorem relPathRefusal_eq_none {s : Text} (h : relPathRefusal s = none) :
    s ≠ [] ∧ ∀ c ∈ s.splitOn '/', componentRefusal c = none := by
  unfold relPathRefusal at h
  split_ifs at h with h0
  refine ⟨h0, ?_⟩
  split at h
  · exact absurd h (by simp)
  · split at h
    · exact absurd h (by simp)
    · exact List.findSome?_eq_none_iff.mp h

/-- A component that passes is not empty. -/
theorem ne_nil_of_componentRefusal {c : Text} (h : componentRefusal c = none) : c ≠ [] := by
  rintro rfl
  exact absurd h (by simp [componentRefusal])

/-- Every component of a path passed the component rules. -/
theorem RelPath.component_accepted {p : RelPath} {c : Text} (h : c ∈ p.components) :
    componentRefusal c = none := by
  obtain ⟨hmem, hne⟩ := List.mem_filter.mp h
  rcases p.accepted with h0 | h0
  · rw [h0] at hmem
    simp only [List.splitOn_nil, List.mem_singleton] at hmem
    exact absurd hmem (by simpa using hne)
  · exact (relPathRefusal_eq_none h0).2 c hmem

/-- The components of a path that is not the root are all its pieces. -/
theorem RelPath.components_eq_splitOn {p : RelPath} (h : p.value ≠ []) :
    p.components = p.value.splitOn '/' := by
  rcases p.accepted with h0 | h0
  · exact absurd h0 h
  · refine List.filter_eq_self.mpr fun c hc => ?_
    simpa using ne_nil_of_componentRefusal ((relPathRefusal_eq_none h0).2 c hc)

@[simp] theorem RelPath.components_root : RelPath.root.components = [] := by
  decide

/-- The text of a path is its components joined by slashes. -/
theorem RelPath.intercalate_components (p : RelPath) :
    ['/'].intercalate p.components = p.value := by
  by_cases h : p.value = []
  · have hp : p = RelPath.root := RelPath.ext h
    rw [hp]
    rfl
  · rw [RelPath.components_eq_splitOn h, List.intercalate_splitOn]

/-- A path is determined by its components. -/
theorem RelPath.components_injective : Function.Injective RelPath.components := by
  intro p q h
  apply RelPath.ext
  rw [← p.intercalate_components, ← q.intercalate_components, h]

/-- Only the root has no components. -/
theorem RelPath.components_eq_nil_iff {p : RelPath} : p.components = [] ↔ p.value = [] := by
  constructor
  · intro h
    rw [← p.intercalate_components, h]
    rfl
  · intro h
    have hp : p = RelPath.root := RelPath.ext h
    rw [hp, components_root]

end Tradr
