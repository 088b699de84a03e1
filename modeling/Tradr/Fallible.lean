import Mathlib.Data.List.Basic

/-!
# Fallible Computations

Straight-line code over `Except`: a step that has to find something, a step that has to
hold, and what a sequence that succeeds says about its steps.

## Main results

* `bind_eq_ok`, `okOr_eq_ok`, `require_eq_ok`, `mapError_eq_ok`: one inversion for each
  construct.
* `mapM_map_of_ok`: a list read back element by element.
-/

namespace Fallible

universe u

variable {ε ε' α β γ : Type u}

/-- A sequence that succeeds did so in both of its parts. -/
theorem bind_eq_ok {x : Except ε α} {f : α → Except ε β} {b : β} :
    (x >>= f) = .ok b ↔ ∃ a, x = .ok a ∧ f a = .ok b := by
  rcases x with e | a
  · simp [bind, Except.bind]
  · simp [bind, Except.bind]

/-- A sequence that fails did so in one of its parts. -/
theorem bind_eq_error {x : Except ε α} {f : α → Except ε β} {e : ε} :
    (x >>= f) = .error e ↔ x = .error e ∨ ∃ a, x = .ok a ∧ f a = .error e := by
  rcases x with e' | a
  · simp [bind, Except.bind]
  · simp [bind, Except.bind]

/-- A sequence goes on after a first part that succeeds. -/
@[simp] theorem ok_bind (a : α) (f : α → Except ε β) : (Except.ok a >>= f) = f a := rfl

/-- A sequence stops at a first part that fails. -/
@[simp] theorem error_bind (e : ε) (f : α → Except ε β) :
    ((Except.error e : Except ε α) >>= f) = .error e := rfl

/-- The end of a sequence. -/
theorem pure_eq_ok {a b : α} : (pure a : Except ε α) = .ok b ↔ b = a := by
  rw [eq_comm]
  exact Except.ok.injEq b a ▸ Iff.rfl

/-- What was found, or an error. -/
def okOr (o : Option α) (e : ε) : Except ε α :=
  match o with
  | some a => .ok a
  | none => .error e

@[simp] theorem okOr_some (a : α) (e : ε) : okOr (some a) e = .ok a := rfl

theorem okOr_eq_ok {o : Option α} {e : ε} {a : α} : okOr o e = .ok a ↔ o = some a := by
  cases o <;> simp [okOr]

theorem okOr_eq_error {o : Option α} {e e' : ε} : okOr o e = .error e' ↔ o = none ∧ e = e' := by
  cases o <;> simp [okOr]

/-- An error unless the condition holds. -/
def require (c : Prop) [Decidable c] (e : ε) : Except ε PUnit :=
  if c then .ok () else .error e

theorem require_of {c : Prop} {_ : Decidable c} {e : ε} (h : c) :
    require c e = .ok ⟨⟩ := if_pos h

theorem require_of_not {c : Prop} {_ : Decidable c} {e : ε} (h : ¬c) :
    require c e = .error e := if_neg h

theorem require_eq_ok {c : Prop} [Decidable c] {e : ε} {a : PUnit} :
    require c e = .ok a ↔ c := by
  by_cases h : c <;> simp [require, h]

theorem require_eq_error {c : Prop} [Decidable c] {e e' : ε} :
    require c e = .error e' ↔ ¬c ∧ e = e' := by
  by_cases h : c <;> simp [require, h]

@[simp] theorem mapError_ok (g : ε → ε') (a : α) :
    (Except.ok a : Except ε α).mapError g = .ok a := rfl

@[simp] theorem mapError_error (g : ε → ε') (e : ε) :
    (Except.error e : Except ε α).mapError g = .error (g e) := rfl

theorem mapError_eq_ok {g : ε → ε'} {x : Except ε α} {a : α} :
    x.mapError g = .ok a ↔ x = .ok a := by
  cases x <;> simp

theorem mapError_eq_error {g : ε → ε'} {x : Except ε α} {e : ε'} :
    x.mapError g = .error e ↔ ∃ e', x = .error e' ∧ g e' = e := by
  cases x <;> simp

/-- A list whose elements each read back is read back. -/
theorem mapM_map_of_ok {f : β → Except ε γ} {g : α → β} {h : α → γ} {l : List α}
    (hl : ∀ a ∈ l, f (g a) = .ok (h a)) : (l.map g).mapM f = .ok (l.map h) := by
  induction l with
  | nil => rfl
  | cons a l ih =>
      rw [List.map_cons, List.mapM_cons, hl a List.mem_cons_self, ok_bind,
        ih fun b hb => hl b (List.mem_cons_of_mem _ hb)]
      rfl

end Fallible
