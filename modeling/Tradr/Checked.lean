import Mathlib.Algebra.BigOperators.Group.List.Basic
import Mathlib.Algebra.GroupWithZero.Nat
import Mathlib.Data.Nat.Notation

/-!
# Checked Arithmetic

Sums, differences, products and casts of machine words that have no value where the machine would
overflow: a computation written with them has a value exactly when no step of it overflows.

## Main results

* `add_of_lt`, `sub_of_le`, `mul_of_lt`, `cast_of_lt`: a step that fits has its exact value.
* `foldlM_add`: a chain of sums has its exact value when the total fits.
-/

namespace Checked

/-- A sum below a bound. -/
def add (bound a b : ℕ) : Option ℕ :=
  if a + b < bound then some (a + b) else none

/-- A difference that is not negative. -/
def sub (a b : ℕ) : Option ℕ :=
  if b ≤ a then some (a - b) else none

/-- A product below a bound. -/
def mul (bound a b : ℕ) : Option ℕ :=
  if a * b < bound then some (a * b) else none

/-- A value that a narrower word holds. -/
def cast (bound a : ℕ) : Option ℕ :=
  if a < bound then some a else none

theorem add_of_lt {bound a b : ℕ} (h : a + b < bound) : add bound a b = some (a + b) :=
  if_pos h

theorem sub_of_le {a b : ℕ} (h : b ≤ a) : sub a b = some (a - b) :=
  if_pos h

theorem mul_of_lt {bound a b : ℕ} (h : a * b < bound) : mul bound a b = some (a * b) :=
  if_pos h

theorem cast_of_lt {bound a : ℕ} (h : a < bound) : cast bound a = some a :=
  if_pos h

/-- A sum that overflows has no value. -/
theorem add_eq_none_iff {bound a b : ℕ} : add bound a b = none ↔ bound ≤ a + b := by
  unfold add
  split_ifs with h
  · exact iff_of_false (by simp) (Nat.not_le_of_lt h)
  · exact iff_of_true rfl (Nat.le_of_not_lt h)

/-- **A chain of sums** has its exact value when the total fits. -/
theorem foldlM_add {α : Type*} {bound : ℕ} {f : α → Option ℕ} {g : α → ℕ} {xs : List α}
    (hf : ∀ x ∈ xs, f x = some (g x)) {acc : ℕ} (h : acc + (xs.map g).sum < bound) :
    xs.foldlM (fun total x => do add bound total (← f x)) acc = some (acc + (xs.map g).sum) := by
  induction xs generalizing acc with
  | nil => rfl
  | cons x xs ih =>
    obtain ⟨hx, hxs⟩ := List.forall_mem_cons.mp hf
    rw [List.map_cons, List.sum_cons, ← Nat.add_assoc] at h ⊢
    have hstep : (do add bound acc (← f x)) = some (acc + g x) := by
      rw [hx]
      exact add_of_lt (by omega)
    rw [List.foldlM_cons, hstep]
    exact ih hxs h

end Checked
