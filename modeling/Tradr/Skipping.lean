import Mathlib.Data.List.Infix
import Mathlib.Logic.Function.Iterate

/-!
# Machines that Skip Units of Their Input

A machine that consumes an input from its front, in steps. In some states it is about to
read a unit; there it skips units of a certain kind, counts how many it skipped in a row,
and fails when there are more than a bound. Anything else it reads makes it forget the
count.

What such a machine does depends on what it has read: put other input behind that, and it
gets to the same place (`Skipper.reach`). So one can say what happens when a run of units
to skip is put into the input where the machine reads a unit.

## Main results

* `Skipper.merges_of_le`: within the bound, the run makes no difference: the two runs merge.
* `Skipper.fails_of_lt`: beyond it, the machine fails.
* `Skipper.merges_insert_iff`: in an input on which the machine does not fail, a run makes no
  difference if and only if it is within the bound, together with the units to skip around it.
-/

/-- A machine that reads an input and skips some of its units. -/
structure Skipper (S β : Type*) where
  step : S → S
  input : S → List β
  feed : S → List β → S
  count : S → Option ℕ
  setCount : S → ℕ → S
  bound : ℕ
  Skippable : List β → Prop
  Foreign : List β → Prop
  Failed : S → Prop
  input_feed : ∀ s x, input (feed s x) = x
  feed_feed : ∀ s x y, feed (feed s x) y = feed s y
  feed_input : ∀ s, feed s (input s) = s
  count_feed : ∀ s x, count (feed s x) = count s
  input_setCount : ∀ s k, input (setCount s k) = input s
  feed_setCount : ∀ s k x, feed (setCount s k) x = setCount (feed s x) k
  count_setCount : ∀ s j k, count s = some j → k ≤ bound → count (setCount s k) = some k
  setCount_setCount : ∀ s j k, setCount (setCount s j) k = setCount s k
  setCount_count : ∀ s k, count s = some k → setCount s k = s
  skippable_ne_nil : ∀ u, Skippable u → u ≠ []
  failed_step : ∀ s, Failed s → Failed (step s)
  skip : ∀ s k u x, count s = some k → k < bound → Skippable u →
    step (feed s (u ++ x)) = setCount (feed s x) (k + 1)
  refuse : ∀ s k u x, count s = some k → bound ≤ k → Skippable u → Failed (step (feed s (u ++ x)))
  foreign : ∀ s k u x, count s = some k → Foreign u → Failed (step (feed s (u ++ x)))
  forget : ∀ s j k, count s = some k → (∀ u x, Skippable u → input s ≠ u ++ x) →
    step (setCount s j) = step s
  consume : ∀ s, (∃ used, input s = used ++ input (step s) ∧
    ∀ x, step (feed s (used ++ x)) = feed (step s) x) ∨ ∀ n, count (step^[n] (step s)) = none

namespace Skipper

variable {S β : Type*} (M : Skipper S β)

/-- Two runs that come to the same state, and so to the same end. -/
def Merges (s t : S) : Prop :=
  ∃ m n, M.step^[m] s = M.step^[n] t

/-- A run that fails. -/
def Fails (s : S) : Prop :=
  ∃ n, M.Failed (M.step^[n] s)

/-- The same, with units put into the input where the machine stands after `n` steps. -/
def insert (s : S) (n : ℕ) (units : List (List β)) : S :=
  M.feed s ((M.input s).take ((M.input s).length - (M.input (M.step^[n] s)).length) ++
    (units.flatten ++ M.input (M.step^[n] s)))

variable {M} {s t : S}

/-- A failure is not undone. -/
theorem failed_iterate (h : M.Failed s) (n : ℕ) : M.Failed (M.step^[n] s) := by
  induction n with
  | zero => exact h
  | succ n ih =>
      rw [Function.iterate_succ_apply']
      exact M.failed_step _ ih

/-- Two runs that merge fail together. -/
theorem Merges.fails (h : M.Merges s t) (hs : M.Fails s) : M.Fails t := by
  obtain ⟨m, n, heq⟩ := h
  obtain ⟨j, hj⟩ := hs
  -- Run both until after the failure.
  refine ⟨j + n, ?_⟩
  rw [Function.iterate_add_apply, ← heq, ← Function.iterate_add_apply, Nat.add_comm,
    Function.iterate_add_apply]
  exact failed_iterate hj m

/-- **The machine gets to the same place** whatever is put behind what it has read. -/
theorem reach {n k : ℕ} (h : M.count (M.step^[n] s) = some k) :
    ∃ used, M.input s = used ++ M.input (M.step^[n] s) ∧
      ∀ x, M.step^[n] (M.feed s (used ++ x)) = M.feed (M.step^[n] s) x := by
  induction n generalizing s with
  | zero => exact ⟨[], rfl, fun _ => rfl⟩
  | succ n ih =>
      rw [Function.iterate_succ_apply] at h ⊢
      obtain ⟨used, hin, hstep⟩ | hpast := M.consume s
      · obtain ⟨used', hin', hrest⟩ := ih h
        refine ⟨used ++ used', ?_, fun x => ?_⟩
        · rw [hin, hin', List.append_assoc]
        · rw [Function.iterate_succ_apply, List.append_assoc, hstep, hrest]
      · rw [hpast n] at h
        cases h

/-- The machine with units put in gets to them. -/
theorem iterate_insert {n k : ℕ} (h : M.count (M.step^[n] s) = some k)
    (units : List (List β)) :
    M.step^[n] (M.insert s n units) =
      M.feed (M.step^[n] s) (units.flatten ++ M.input (M.step^[n] s)) := by
  obtain ⟨used, hin, hrest⟩ := reach h
  have htake : (M.input s).take ((M.input s).length - (M.input (M.step^[n] s)).length) = used := by
    have hlen := congrArg List.length hin
    rw [List.length_append] at hlen
    rw [hin, List.length_append, Nat.add_sub_cancel, List.take_left]
  unfold insert
  rw [htake, hrest]

/-- A run of units to skip is skipped and counted. -/
theorem iterate_skip {units : List (List β)} (hunits : ∀ u ∈ units, M.Skippable u) {k : ℕ}
    (hcount : M.count s = some k) (hle : k + units.length ≤ M.bound) (x : List β) :
    M.step^[units.length] (M.feed s (units.flatten ++ x)) =
      M.setCount (M.feed s x) (k + units.length) := by
  induction units generalizing s k with
  | nil =>
      rw [List.flatten_nil, List.nil_append, List.length_nil, Nat.add_zero, M.setCount_count]
      · rfl
      · rw [M.count_feed, hcount]
  | cons u units ih =>
      rw [List.length_cons] at hle
      rw [List.length_cons, Function.iterate_succ_apply, List.flatten_cons, List.append_assoc,
        M.skip s k u _ hcount (by omega) (hunits u List.mem_cons_self), ← M.feed_setCount,
        ih (fun v hv => hunits v (List.mem_cons_of_mem _ hv))
          (M.count_setCount s k (k + 1) hcount (by omega)) (by omega), M.feed_setCount, M.setCount_setCount,
        Nat.add_right_comm, Nat.add_assoc]

/-- The first units of an input that are to be skipped. -/
structure Leading (M : Skipper S β) (units : List (List β)) (input : List β) : Prop where
  skippable : ∀ u ∈ units, M.Skippable u
  split : ∃ rest, input = units.flatten ++ rest ∧ ∀ u x, M.Skippable u → rest ≠ u ++ x

/-- Every input has its first units to skip. -/
theorem exists_leading (M : Skipper S β) (input : List β) : ∃ units, M.Leading units input := by
  induction hn : input.length using Nat.strong_induction_on generalizing input with
  | _ n ih =>
    subst hn
    by_cases hfront : ∃ u x, M.Skippable u ∧ input = u ++ x
    · obtain ⟨u, x, hu, rfl⟩ := hfront
      have hpos := List.length_pos_iff.mpr (M.skippable_ne_nil u hu)
      obtain ⟨units, hskip, rest, hin, hrest⟩ := ih x.length
        (by rw [List.length_append]; omega) x rfl
      refine ⟨u :: units, ⟨?_, rest, ?_, hrest⟩⟩
      · rintro v (_ | ⟨_, hv⟩)
        · exact hu
        · exact hskip v hv
      · rw [List.flatten_cons, List.append_assoc, ← hin]
    · refine ⟨[], ⟨by simp, input, rfl, fun u x hu heq => hfront ⟨u, x, hu, heq⟩⟩⟩

/-- Within the bound, counted with what was skipped before and what is to be skipped behind,
a run of units makes no difference. -/
theorem merges_of_le {units leading : List (List β)} (hunits : ∀ u ∈ units, M.Skippable u)
    (hleading : M.Leading leading (M.input s)) {k : ℕ} (hcount : M.count s = some k)
    (hle : k + units.length + leading.length ≤ M.bound) :
    M.Merges (M.feed s (units.flatten ++ M.input s)) s := by
  obtain ⟨hskip, rest, hin, hrest⟩ := hleading
  have hall : ∀ u ∈ units ++ leading, M.Skippable u := by
    intro u hu
    rcases List.mem_append.mp hu with hu | hu
    · exact hunits u hu
    · exact hskip u hu
  -- Both get to the rest, with different counts, and forget them there.
  have hlong := iterate_skip hall hcount (by rw [List.length_append]; omega) rest
  have hshort := iterate_skip hskip hcount (by omega) rest
  rw [List.flatten_append, List.append_assoc, ← hin] at hlong
  rw [← hin, M.feed_input] at hshort
  have hforget : ∀ j, M.step (M.setCount (M.feed s rest) j) = M.step (M.feed s rest) := by
    intro j
    refine M.forget _ j k (by rw [M.count_feed, hcount]) ?_
    rw [M.input_feed]
    exact hrest
  refine ⟨(units ++ leading).length + 1, leading.length + 1, ?_⟩
  rw [Function.iterate_succ_apply', Function.iterate_succ_apply', hlong, hshort, hforget,
    hforget]

/-- Beyond the bound, the machine fails. -/
theorem fails_of_lt {units : List (List β)} (hunits : ∀ u ∈ units, M.Skippable u)
    (hne : units ≠ []) {k : ℕ} (hcount : M.count s = some k)
    (hlt : M.bound < k + units.length) (x : List β) :
    M.Fails (M.feed s (units.flatten ++ x)) := by
  induction units generalizing s k with
  | nil => exact absurd rfl hne
  | cons u units ih =>
      rw [List.length_cons] at hlt
      rw [List.flatten_cons, List.append_assoc]
      have hu := hunits u List.mem_cons_self
      by_cases hk : k < M.bound
      · have hmore : units ≠ [] := by
          rintro rfl
          rw [List.length_nil] at hlt
          omega
        obtain ⟨n, hn⟩ := ih (fun v hv => hunits v (List.mem_cons_of_mem _ hv)) hmore
          (M.count_setCount s k (k + 1) hcount hk) (by omega)
        refine ⟨n + 1, ?_⟩
        rw [Function.iterate_succ_apply, M.skip s k u _ hcount hk hu, ← M.feed_setCount]
        exact hn
      · exact ⟨1, M.refuse s k u _ hcount (by omega) hu⟩

/-- What a run does after some steps decides whether it fails. -/
theorem fails_iterate {n : ℕ} (h : M.Fails (M.step^[n] s)) : M.Fails s := by
  obtain ⟨m, hm⟩ := h
  rw [← Function.iterate_add_apply] at hm
  exact ⟨m + n, hm⟩

/-- A run within the bound, together with the units to skip around it, makes no difference
wherever it is put in. -/
theorem merges_insert {n k : ℕ} (hcount : M.count (M.step^[n] s) = some k)
    {units leading : List (List β)} (hunits : ∀ u ∈ units, M.Skippable u)
    (hleading : M.Leading leading (M.input (M.step^[n] s)))
    (hle : units = [] ∨ k + units.length + leading.length ≤ M.bound) :
    M.Merges (M.insert s n units) s := by
  have hreach := iterate_insert hcount units
  rcases hle with rfl | hle
  · refine ⟨n, n, ?_⟩
    rw [hreach, List.flatten_nil, List.nil_append, M.feed_input]
  · obtain ⟨i, j, heq⟩ := merges_of_le hunits hleading hcount hle
    rw [← hreach, ← Function.iterate_add_apply, ← Function.iterate_add_apply] at heq
    exact ⟨i + n, j + n, heq⟩

/-- In an input on which the machine does not fail, a run of units to skip makes no
difference if and only if it is within the bound, together with the units to skip around
it. -/
theorem merges_insert_iff (hs : ¬M.Fails s) {n k : ℕ} (hcount : M.count (M.step^[n] s) = some k)
    {units leading : List (List β)} (hunits : ∀ u ∈ units, M.Skippable u)
    (hleading : M.Leading leading (M.input (M.step^[n] s))) :
    M.Merges (M.insert s n units) s ↔
      units = [] ∨ k + units.length + leading.length ≤ M.bound := by
  refine ⟨fun hmerges => ?_, merges_insert hcount hunits hleading⟩
  by_contra hbeyond
  obtain ⟨hne, hlt⟩ := not_or.mp hbeyond
  obtain ⟨hskip, rest, hin, -⟩ := hleading
  have hall : ∀ u ∈ units ++ leading, M.Skippable u := by
    intro u hu
    rcases List.mem_append.mp hu with hu | hu
    · exact hunits u hu
    · exact hskip u hu
  have hfails := fails_of_lt hall (by simp [hne]) hcount
    (by rw [List.length_append]; omega) rest
  rw [List.flatten_append, List.append_assoc, ← hin, ← iterate_insert hcount units] at hfails
  exact hs (hmerges.fails (fails_iterate hfails))

/-- A run beyond the bound is refused wherever it is put in. -/
theorem fails_insert {n k : ℕ} (hcount : M.count (M.step^[n] s) = some k)
    {units : List (List β)} (hunits : ∀ u ∈ units, M.Skippable u)
    (hlt : M.bound < units.length) : M.Fails (M.insert s n units) := by
  have hne : units ≠ [] := by
    rintro rfl
    rw [List.length_nil] at hlt
    omega
  have hfails := fails_of_lt hunits hne hcount (by omega) (M.input (M.step^[n] s))
  rw [← iterate_insert hcount units] at hfails
  exact fails_iterate hfails

/-- So is a foreign unit. -/
theorem fails_insert_foreign {n k : ℕ} (hcount : M.count (M.step^[n] s) = some k) {u : List β}
    (hu : M.Foreign u) : M.Fails (M.insert s n [u]) := by
  have hfails : M.Fails (M.step^[n] (M.insert s n [u])) := by
    rw [iterate_insert hcount [u], List.flatten_singleton]
    exact ⟨1, M.foreign _ k u _ hcount hu⟩
  exact fails_iterate hfails

end Skipper
