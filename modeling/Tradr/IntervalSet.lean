import Mathlib.Algebra.BigOperators.Group.Finset.Basic
import Mathlib.Algebra.GroupWithZero.Nat
import Mathlib.Order.Interval.Finset.Nat
import Mathlib.Order.MinMax

/-!
# Interval Lists

Half-open intervals kept in a list, and the one-pass insertion that merges a new interval
with those it meets. `Covers` is the set of numbers a list stands for; no assumption on
the order or the disjointness of the list is needed to know that an insertion covers
nothing new besides the interval inserted.

A list in *normal form* is sorted, and its intervals neither overlap nor touch. An insertion
keeps normal forms, and a normal form is determined by what it covers where that matters: one
that covers everything below its bound is a single interval, and the lengths add up to the
number of numbers covered.

## Main results

* `covers_insert`: what an insertion covers was covered before or lies in the interval.
* `Normal.insert`, `Normal.covers_insert_iff`: an insertion into a normal form gives one, and
  covers the union.
* `Normal.eq_whole_iff`: everything below the bound is covered by one interval alone.
* `Normal.sum_lengths`: the lengths add up to the number of numbers covered.
-/

namespace IntervalSet

/-- The numbers a list of half-open intervals stands for. -/
def Covers (rs : List (ℕ × ℕ)) (j : ℕ) : Prop :=
  ∃ r ∈ rs, r.1 ≤ j ∧ j < r.2

@[simp] theorem not_covers_nil (j : ℕ) : ¬ Covers [] j := by
  rintro ⟨r, hr, -⟩
  exact absurd hr (by simp)

@[simp] theorem covers_cons {r : ℕ × ℕ} {rs : List (ℕ × ℕ)} {j : ℕ} :
    Covers (r :: rs) j ↔ (r.1 ≤ j ∧ j < r.2) ∨ Covers rs j := by
  simp [Covers]

/-- One pass over the list: intervals before the current one are kept, those it meets
are merged into it, and it is placed in front of the first one behind it. -/
def merge : List (ℕ × ℕ) → Bool → ℕ → ℕ → List (ℕ × ℕ)
  | [], inserted, curStart, curEnd => if inserted then [] else [(curStart, curEnd)]
  | (rStart, rEnd) :: rest, inserted, curStart, curEnd =>
    if rEnd < curStart then (rStart, rEnd) :: merge rest inserted curStart curEnd
    else if rStart > curEnd then
      if inserted then (rStart, rEnd) :: merge rest true curStart curEnd
      else (curStart, curEnd) :: (rStart, rEnd) :: merge rest true curStart curEnd
    else merge rest inserted (min curStart rStart) (max curEnd rEnd)

/-- Insert the interval from `start` up to `stop`. -/
def insert (rs : List (ℕ × ℕ)) (start stop : ℕ) : List (ℕ × ℕ) :=
  merge rs false start stop

/-- Two intervals that meet span exactly their union. -/
theorem mem_span_of_meet {a b c d j : ℕ} (h1 : c ≤ b) (h2 : a ≤ d)
    (hlo : min c a ≤ j) (hhi : j < max d b) : (c ≤ j ∧ j < d) ∨ (a ≤ j ∧ j < b) := by
  rcases Nat.lt_or_ge j c with h | h
  · rcases min_le_iff.mp hlo with h' | h'
    · omega
    · exact .inr ⟨h', lt_of_lt_of_le h h1⟩
  · rcases Nat.lt_or_ge j d with h' | h'
    · exact .inl ⟨h, h'⟩
    · rcases lt_max_iff.mp hhi with h'' | h''
      · omega
      · exact .inr ⟨h2.trans h', h''⟩

/-- A pass covers only the current interval and what the list covered. -/
theorem covers_merge {rs : List (ℕ × ℕ)} {inserted : Bool} {curStart curEnd j : ℕ}
    (h : Covers (merge rs inserted curStart curEnd) j) :
    (curStart ≤ j ∧ j < curEnd) ∨ Covers rs j := by
  induction rs generalizing inserted curStart curEnd with
  | nil =>
      cases inserted
      · simpa [merge] using h
      · simp [merge] at h
  | cons r rest ih =>
      obtain ⟨rStart, rEnd⟩ := r
      rw [merge] at h
      split_ifs at h with h1 h2 h3
      · rcases covers_cons.mp h with h | h
        · exact .inr (covers_cons.mpr (.inl h))
        · exact (ih h).imp id fun h => covers_cons.mpr (.inr h)
      · rcases covers_cons.mp h with h | h
        · exact .inr (covers_cons.mpr (.inl h))
        · exact (ih h).imp id fun h => covers_cons.mpr (.inr h)
      · rcases covers_cons.mp h with h | h
        · exact .inl h
        · rcases covers_cons.mp h with h | h
          · exact .inr (covers_cons.mpr (.inl h))
          · exact (ih h).imp id fun h => covers_cons.mpr (.inr h)
      · rcases ih h with ⟨hlo, hhi⟩ | h
        · rcases mem_span_of_meet (by omega) (by omega) hlo hhi with h | h
          · exact .inl h
          · exact .inr (covers_cons.mpr (.inl h))
        · exact .inr (covers_cons.mpr (.inr h))

/-- What an insertion covers was covered before, or lies in the interval inserted. -/
theorem covers_insert {rs : List (ℕ × ℕ)} {start stop j : ℕ}
    (h : Covers (insert rs start stop) j) : (start ≤ j ∧ j < stop) ∨ Covers rs j :=
  covers_merge h

/-! ### Normal forms -/

/-- A list in normal form below a bound: no interval is empty or reaches beyond the bound, and
each ends before the next one begins. -/
structure Normal (bound : ℕ) (rs : List (ℕ × ℕ)) : Prop where
  nonempty : ∀ r ∈ rs, r.1 < r.2
  le_bound : ∀ r ∈ rs, r.2 ≤ bound
  apart : rs.Pairwise fun a b => a.2 < b.1

/-- The empty list is in normal form. -/
theorem normal_nil (bound : ℕ) : Normal bound [] :=
  ⟨by simp, by simp, .nil⟩

/-- One interval is in normal form. -/
theorem normal_singleton {bound start stop : ℕ} (h : start < stop) (hle : stop ≤ bound) :
    Normal bound [(start, stop)] :=
  ⟨by simpa using h, by simpa using hle, List.pairwise_singleton _ _⟩

theorem normal_cons {bound : ℕ} {r : ℕ × ℕ} {rs : List (ℕ × ℕ)} :
    Normal bound (r :: rs) ↔
      r.1 < r.2 ∧ r.2 ≤ bound ∧ (∀ x ∈ rs, r.2 < x.1) ∧ Normal bound rs := by
  constructor
  · rintro ⟨hne, hle, hap⟩
    obtain ⟨hne₁, hne₂⟩ := List.forall_mem_cons.mp hne
    obtain ⟨hle₁, hle₂⟩ := List.forall_mem_cons.mp hle
    obtain ⟨hap₁, hap₂⟩ := List.pairwise_cons.mp hap
    exact ⟨hne₁, hle₁, hap₁, hne₂, hle₂, hap₂⟩
  · rintro ⟨hne₁, hle₁, hap₁, hne₂, hle₂, hap₂⟩
    exact ⟨List.forall_mem_cons.mpr ⟨hne₁, hne₂⟩, List.forall_mem_cons.mpr ⟨hle₁, hle₂⟩,
      List.pairwise_cons.mpr ⟨hap₁, hap₂⟩⟩

/-- Once the current interval was placed, the rest of the pass copies. -/
theorem merge_inserted {rs : List (ℕ × ℕ)} {curStart curEnd : ℕ} (hcur : curStart ≤ curEnd)
    (hbehind : ∀ r ∈ rs, curEnd < r.1) (hne : ∀ r ∈ rs, r.1 < r.2) :
    merge rs true curStart curEnd = rs := by
  induction rs with
  | nil => rfl
  | cons r rest ih =>
    obtain ⟨rStart, rEnd⟩ := r
    obtain ⟨hr, hrest⟩ := List.forall_mem_cons.mp hbehind
    obtain ⟨hr', hrest'⟩ := List.forall_mem_cons.mp hne
    rw [merge, if_neg (by omega), if_pos hr, if_pos rfl, ih hrest hrest']

/-- A pass adds nothing in front of the current interval and the list. -/
theorem lt_of_mem_merge {rs : List (ℕ × ℕ)} {curStart curEnd low : ℕ}
    (hcur : low < curStart) (hrs : ∀ r ∈ rs, low < r.1) {inserted : Bool} :
    ∀ x ∈ merge rs inserted curStart curEnd, low < x.1 := by
  induction rs generalizing inserted curStart curEnd with
  | nil =>
    intro x hx
    cases inserted
    · obtain rfl := List.mem_singleton.mp hx
      exact hcur
    · cases hx
  | cons r rest ih =>
    obtain ⟨rStart, rEnd⟩ := r
    obtain ⟨hr, hrest⟩ := List.forall_mem_cons.mp hrs
    rw [merge]
    split_ifs
    · exact List.forall_mem_cons.mpr ⟨hr, ih hcur hrest⟩
    · exact List.forall_mem_cons.mpr ⟨hr, ih hcur hrest⟩
    · exact List.forall_mem_cons.mpr ⟨hcur, List.forall_mem_cons.mpr ⟨hr, ih hcur hrest⟩⟩
    · exact ih (lt_min hcur hr) hrest

/-- A pass over a normal form gives one. -/
theorem Normal.merge {bound : ℕ} {rs : List (ℕ × ℕ)} (h : Normal bound rs)
    {curStart curEnd : ℕ} (hcur : curStart < curEnd) (hle : curEnd ≤ bound) :
    Normal bound (merge rs false curStart curEnd) := by
  induction rs generalizing curStart curEnd with
  | nil => exact normal_singleton hcur hle
  | cons r rest ih =>
    obtain ⟨rStart, rEnd⟩ := r
    obtain ⟨hr, hrle, hapart, hrest⟩ := normal_cons.mp h
    dsimp only at hr hrle hapart
    simp only [IntervalSet.merge, Bool.false_eq_true, if_false]
    split_ifs with h₁ h₂
    · refine normal_cons.mpr ⟨hr, hrle, ?_, ih hrest hcur hle⟩
      exact lt_of_mem_merge h₁ hapart
    · have hbehind : ∀ x ∈ rest, curEnd < x.1 := fun x hx => by
        have := hapart x hx
        omega
      rw [merge_inserted hcur.le hbehind hrest.nonempty]
      exact normal_cons.mpr ⟨hcur, hle, List.forall_mem_cons.mpr ⟨h₂, hbehind⟩, h⟩
    · exact ih hrest (by omega) (by omega)

/-- A pass over a normal form loses nothing. -/
theorem Normal.covers_merge {bound : ℕ} {rs : List (ℕ × ℕ)} (h : Normal bound rs)
    {curStart curEnd j : ℕ} (hcur : curStart < curEnd)
    (hj : (curStart ≤ j ∧ j < curEnd) ∨ Covers rs j) :
    Covers (IntervalSet.merge rs false curStart curEnd) j := by
  induction rs generalizing curStart curEnd with
  | nil => simpa [IntervalSet.merge] using hj
  | cons r rest ih =>
    obtain ⟨rStart, rEnd⟩ := r
    obtain ⟨hr, hrle, hapart, hrest⟩ := normal_cons.mp h
    dsimp only at hr hrle hapart
    rw [covers_cons] at hj
    simp only [IntervalSet.merge, Bool.false_eq_true, if_false]
    split_ifs with h₁ h₂
    · rw [covers_cons]
      rcases hj with hj | hj | hj
      · exact .inr (ih hrest hcur (.inl hj))
      · exact .inl hj
      · exact .inr (ih hrest hcur (.inr hj))
    · have hbehind : ∀ x ∈ rest, curEnd < x.1 := fun x hx => by
        have := hapart x hx
        omega
      rw [merge_inserted hcur.le hbehind hrest.nonempty, covers_cons, covers_cons]
      exact hj
    · refine ih hrest (by omega) ?_
      rcases hj with hj | hj | hj
      · exact .inl (by omega)
      · exact .inl (by dsimp only at hj; omega)
      · exact .inr hj

/-- An insertion into a normal form gives one. -/
theorem Normal.insert {bound : ℕ} {rs : List (ℕ × ℕ)} (h : Normal bound rs)
    {start stop : ℕ} (hlt : start < stop) (hle : stop ≤ bound) :
    Normal bound (insert rs start stop) :=
  h.merge hlt hle

/-- **An insertion into a normal form covers the union.** -/
theorem Normal.covers_insert_iff {bound : ℕ} {rs : List (ℕ × ℕ)} (h : Normal bound rs)
    {start stop j : ℕ} (hlt : start < stop) :
    Covers (IntervalSet.insert rs start stop) j ↔ (start ≤ j ∧ j < stop) ∨ Covers rs j :=
  ⟨covers_insert, h.covers_merge hlt⟩

/-- What a normal form covers lies below its bound. -/
theorem Normal.lt_of_covers {bound : ℕ} {rs : List (ℕ × ℕ)} (h : Normal bound rs) {j : ℕ}
    (hj : Covers rs j) : j < bound := by
  obtain ⟨r, hr, -, hlt⟩ := hj
  exact lt_of_lt_of_le hlt (h.le_bound r hr)

/-- **Everything below the bound is covered by one interval alone.** -/
theorem Normal.eq_whole_iff {bound : ℕ} (hpos : 0 < bound) {rs : List (ℕ × ℕ)}
    (h : Normal bound rs) : rs = [(0, bound)] ↔ ∀ j < bound, Covers rs j := by
  constructor
  · rintro rfl j hj
    exact covers_cons.mpr (.inl ⟨Nat.zero_le j, hj⟩)
  · intro hall
    rcases rs with _ | ⟨⟨start, stop⟩, rest⟩
    · exact absurd (hall 0 hpos) (not_covers_nil 0)
    obtain ⟨hr, hrle, hapart, hrest⟩ := normal_cons.mp h
    dsimp only at hr hrle hapart
    -- nothing behind the first interval reaches its end, so that it ends at the bound
    have hbehind : ∀ j, Covers rest j → stop < j := by
      rintro j ⟨x, hx, hle, -⟩
      exact lt_of_lt_of_le (hapart x hx) hle
    have hstart : start = 0 := by
      rcases covers_cons.mp (hall 0 hpos) with h0 | h0
      · exact Nat.le_zero.mp h0.1
      · exact absurd (hbehind 0 h0) (Nat.not_lt_zero _)
    have hstop : stop = bound := by
      rcases lt_or_eq_of_le hrle with hlt | heq
      · rcases covers_cons.mp (hall stop hlt) with h0 | h0
        · exact absurd h0.2 (lt_irrefl stop)
        · exact absurd (hbehind stop h0) (lt_irrefl stop)
      · exact heq
    have hnil : rest = [] := by
      rcases rest with _ | ⟨x, rest⟩
      · rfl
      obtain ⟨hx, hxle, -, -⟩ := normal_cons.mp hrest
      have := hapart x List.mem_cons_self
      omega
    rw [hstart, hstop, hnil]

/-! ### Counting -/

/-- How many numbers the intervals have, each counted by itself. -/
def lengths (rs : List (ℕ × ℕ)) : ℕ :=
  (rs.map fun r => r.2 - r.1).sum

instance (rs : List (ℕ × ℕ)) (j : ℕ) : Decidable (Covers rs j) :=
  inferInstanceAs (Decidable (∃ r ∈ rs, r.1 ≤ j ∧ j < r.2))

/-- **The lengths add up to the number of numbers covered.** -/
theorem Normal.sum_lengths {bound : ℕ} {rs : List (ℕ × ℕ)} (h : Normal bound rs) :
    lengths rs = ((Finset.range bound).filter (Covers rs)).card := by
  induction rs with
  | nil => simp [lengths]
  | cons r rest ih =>
    obtain ⟨hr, hrle, hapart, hrest⟩ := normal_cons.mp h
    have hsplit : (Finset.range bound).filter (Covers (r :: rest)) =
        Finset.Ico r.1 r.2 ∪ (Finset.range bound).filter (Covers rest) := by
      ext j
      simp only [Finset.mem_filter, Finset.mem_range, Finset.mem_union, Finset.mem_Ico,
        covers_cons]
      constructor
      · rintro ⟨hj, hcov | hcov⟩
        · exact .inl hcov
        · exact .inr ⟨hj, hcov⟩
      · rintro (hcov | ⟨hj, hcov⟩)
        · exact ⟨by omega, .inl hcov⟩
        · exact ⟨hj, .inr hcov⟩
    have hdisjoint : Disjoint (Finset.Ico r.1 r.2) ((Finset.range bound).filter (Covers rest)) := by
      rw [Finset.disjoint_left]
      intro j hj hcov
      obtain ⟨-, x, hx, hle, -⟩ := Finset.mem_filter.mp hcov
      have := hapart x hx
      have := (Finset.mem_Ico.mp hj).2
      omega
    rw [hsplit, Finset.card_union_of_disjoint hdisjoint, Nat.card_Ico, ← ih hrest]
    rfl

/-- The lengths of a normal form add up to no more than its bound. -/
theorem Normal.lengths_le {bound : ℕ} {rs : List (ℕ × ℕ)} (h : Normal bound rs) :
    lengths rs ≤ bound := by
  rw [h.sum_lengths]
  exact (Finset.card_filter_le _ _).trans (Finset.card_range bound).le

end IntervalSet
