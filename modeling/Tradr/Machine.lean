import Mathlib.Data.List.Induction
import Mathlib.Logic.Function.Basic

/-!
# Machines with a History

A deterministic machine: a state, an action and a step that answers with an event.
`run` performs a list of actions and keeps the events in order. An invariant of a
machine speaks of the history and the state together; `run_invariant` is the induction
every safety result over whole runs rests on.

## Main results

* `run_append`: a run of a concatenation is a run of the first part continued.
* `run_eq_append_cons`: an event of a run splits it at the action that it answers.
* `run_invariant`: what one step preserves holds after every run.
* `run_invariant_of_allows`: the same, when every action is one that its state allows.
* `allows_congr`: two conditions that agree wherever an invariant holds.
* `forall_take_iff_allows`: a property of all states of a run as a condition on its steps.
* `run_family`: machines side by side, each running as if alone.
-/

namespace Machine

variable {S A E : Type*}

/-- Perform the actions in order: the events, and the state reached. -/
def run (step : S → A → E × S) : S → List A → List E × S
  | s, [] => ([], s)
  | s, a :: acts =>
    ((step s a).1 :: (run step (step s a).2 acts).1, (run step (step s a).2 acts).2)

variable (step : S → A → E × S)

@[simp] theorem run_nil (s : S) : run step s [] = ([], s) := rfl

@[simp] theorem run_cons (s : S) (a : A) (acts : List A) :
    run step s (a :: acts) =
      ((step s a).1 :: (run step (step s a).2 acts).1,
        (run step (step s a).2 acts).2) := rfl

/-- A run of a concatenation continues the run of its first part. -/
theorem run_append (s : S) (as bs : List A) :
    run step s (as ++ bs) =
      ((run step s as).1 ++ (run step (run step s as).2 bs).1,
        (run step (run step s as).2 bs).2) := by
  induction as generalizing s with
  | nil => simp
  | cons a as ih =>
      simp [ih]

/-- The last action of a run. -/
theorem run_concat (s : S) (as : List A) (a : A) :
    run step s (as ++ [a]) =
      ((run step s as).1 ++ [(step (run step s as).2 a).1],
        (step (run step s as).2 a).2) := by
  simp [run_append]

/-- **An event of a run splits it** at the action that it answers. -/
theorem run_eq_append_cons {s : S} {as : List A} {before after : List E} {e : E}
    (h : (run step s as).1 = before ++ e :: after) :
    ∃ as₁ a as₂, as = as₁ ++ a :: as₂ ∧ (run step s as₁).1 = before ∧
      (step (run step s as₁).2 a).1 = e ∧
      (run step (step (run step s as₁).2 a).2 as₂).1 = after := by
  induction before generalizing s as with
  | nil =>
      cases as with
      | nil => cases h
      | cons a as =>
          rw [run_cons, List.nil_append] at h
          obtain ⟨he, hafter⟩ := List.cons.inj h
          exact ⟨[], a, as, rfl, rfl, he, hafter⟩
  | cons first before ih =>
      cases as with
      | nil => cases h
      | cons a as =>
          rw [run_cons, List.cons_append] at h
          obtain ⟨hfirst, hrest⟩ := List.cons.inj h
          obtain ⟨as₁, b, as₂, rfl, hbefore, he, hafter⟩ := ih hrest
          exact ⟨a :: as₁, b, as₂, rfl, by rw [run_cons, hfirst, hbefore], he, hafter⟩

/-- **The invariant rule.** A property of history and state that holds at the start and
that every step preserves, holds after every run. -/
theorem run_invariant {I : List E → S → Prop} {s : S} (h0 : I [] s)
    (hstep : ∀ es s a, I es s → I (es ++ [(step s a).1]) (step s a).2) (as : List A) :
    I (run step s as).1 (run step s as).2 := by
  induction as using List.reverseRecOn with
  | nil => exact h0
  | append_singleton as a ih =>
      rw [run_concat]
      exact hstep _ _ a ih

/-- Every action is performed in a state that allows it. -/
def Allows (ok : S → A → Prop) : S → List A → Prop
  | _, [] => True
  | s, a :: as => ok s a ∧ Allows ok (step s a).2 as

instance decidableAllows {ok : S → A → Prop} [∀ s a, Decidable (ok s a)] :
    ∀ s as, Decidable (Allows step ok s as)
  | _, [] => inferInstanceAs (Decidable True)
  | s, a :: as =>
    have : Decidable (Allows step ok (step s a).2 as) := decidableAllows (step s a).2 as
    inferInstanceAs (Decidable (ok s a ∧ Allows step ok (step s a).2 as))

/-- Without a condition every run is allowed. -/
theorem allows_true (s : S) (as : List A) : Allows step (fun _ _ => True) s as := by
  induction as generalizing s with
  | nil => trivial
  | cons a as ih => exact ⟨trivial, ih (step s a).2⟩

/-- The actions of a concatenation are allowed one part after the other. -/
theorem allows_append {ok : S → A → Prop} (s : S) (as bs : List A) :
    Allows step ok s (as ++ bs) ↔ Allows step ok s as ∧ Allows step ok (run step s as).2 bs := by
  induction as generalizing s with
  | nil => simp [Allows]
  | cons a as ih =>
      simp [Allows, ih, and_assoc]

/-- A run that satisfies a condition satisfies the weaker ones. -/
theorem allows_mono {ok ok' : S → A → Prop} (hok : ∀ s a, ok s a → ok' s a) {s : S} {as : List A}
    (h : Allows step ok s as) : Allows step ok' s as := by
  induction as generalizing s with
  | nil => trivial
  | cons a as ih => exact ⟨hok s a h.1, ih h.2⟩

/-- **The invariant rule under a condition**: a property of history and state that every
action preserves which its state allows, holds after every run of such actions. -/
theorem run_invariant_of_allows {ok : S → A → Prop} {I : List E → S → Prop} {s : S}
    (h0 : I [] s)
    (hstep : ∀ es s a, ok s a → I es s → I (es ++ [(step s a).1]) (step s a).2) {as : List A}
    (h : Allows step ok s as) : I (run step s as).1 (run step s as).2 := by
  induction as using List.reverseRecOn with
  | nil => exact h0
  | append_singleton as a ih =>
      obtain ⟨has, ha, -⟩ := (allows_append step s as [a]).mp h
      rw [run_concat]
      exact hstep _ _ a ha (ih has)

/-- Two conditions that agree wherever an invariant holds allow the same runs. -/
theorem allows_congr {I : S → Prop} {adm ok ok' : S → A → Prop} {s : S} (h0 : I s)
    (hstep : ∀ s a, adm s a → I s → I (step s a).2)
    (hok : ∀ s a, I s → (ok s a ↔ ok' s a)) {as : List A} (h : Allows step adm s as) :
    Allows step ok s as ↔ Allows step ok' s as := by
  induction as generalizing s with
  | nil => exact Iff.rfl
  | cons a as ih => exact and_congr (hok s a h0) (ih (hstep s a h.1 h0) h.2)

/-- **A property of all states of a run as a condition on its steps**: where an action that is
allowed keeps the invariant behind the property and one that is not breaks the property, the
property holds all along exactly when every action is allowed. -/
theorem forall_take_iff_allows {ok : S → A → Prop} {I P : S → Prop} (hP : ∀ s, I s → P s)
    (hstep : ∀ s a, I s → ok s a → I (step s a).2)
    (hbreak : ∀ s a, I s → ¬ok s a → ¬P (step s a).2) {s : S} (h0 : I s) (as : List A) :
    (∀ n, P (run step s (as.take n)).2) ↔ Allows step ok s as := by
  induction as generalizing s with
  | nil =>
      refine iff_of_true ?_ trivial
      intro n
      rw [List.take_nil]
      exact hP s h0
  | cons a as ih =>
      constructor
      · intro h
        by_cases hok : ok s a
        · exact ⟨hok, (ih (hstep s a h0 hok)).mp fun n => h (n + 1)⟩
        · exact absurd (h 1) (hbreak s a h0 hok)
      · rintro ⟨hok, hall⟩ n
        cases n with
        | zero => exact hP s h0
        | succ n => exact (ih (hstep s a h0 hok)).mpr hall n

/-! ### Machines side by side -/

variable {ι : Type*} [DecidableEq ι]

/-- A family of machines: each action is for one of them. -/
def family (step : ι → S → A → E × S) (s : ι → S) (act : ι × A) : (ι × E) × (ι → S) :=
  ((act.1, (step act.1 (s act.1) act.2).1),
    Function.update s act.1 (step act.1 (s act.1) act.2).2)

/-- What a list holds for one member of a family. -/
def partOf (i : ι) (l : List (ι × A)) : List A :=
  l.filterMap fun p => if p.1 = i then some p.2 else none

@[simp] theorem partOf_nil (i : ι) : partOf i ([] : List (ι × A)) = [] := rfl

theorem partOf_cons (i : ι) (p : ι × A) (l : List (ι × A)) :
    partOf i (p :: l) = if p.1 = i then p.2 :: partOf i l else partOf i l := by
  unfold partOf
  split_ifs with h
  · simp [h]
  · simp [h]

/-- **Each member of a family runs as if it were alone.** -/
theorem run_family (step : ι → S → A → E × S) (s : ι → S) (acts : List (ι × A)) (i : ι) :
    run (step i) (s i) (partOf i acts) =
      (partOf i (run (family step) s acts).1, (run (family step) s acts).2 i) := by
  induction acts generalizing s with
  | nil => rfl
  | cons act acts ih =>
      obtain ⟨j, a⟩ := act
      rw [run_cons]
      dsimp only
      rw [partOf_cons, partOf_cons]
      have hrest := ih (family step s (j, a)).2
      by_cases h : j = i
      · subst h
        have hs : (family step s (j, a)).2 j = (step j (s j) a).2 := Function.update_self ..
        rw [hs] at hrest
        rw [if_pos rfl, if_pos (show (family step s (j, a)).1.1 = j from rfl), run_cons, hrest]
        rfl
      · have hs : (family step s (j, a)).2 i = s i := Function.update_of_ne (Ne.symm h) ..
        rw [hs] at hrest
        rw [if_neg h, if_neg (show (family step s (j, a)).1.1 ≠ i from h), hrest]

end Machine
