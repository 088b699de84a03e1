import Mathlib.Data.List.Perm.Basic
import Mathlib.Data.List.Induction

/-!
# Interleavings of Commuting Agents

Agents that act on one shared state, each in at most one way at a time. A schedule says who acts
when. Where the acts of two agents never disturb each other, it does not matter in what order they
come: once some schedule ends where nobody can act, every other one can be completed to one that
ends there as well, with the same acts in another order.

## Main definitions

* `Follows`: a schedule leads from one state to another, and `Leads`: some schedule does.
* `Stuck`: nobody can act.
* `Commutes`: acts of different agents can be swapped, and an agent has one act at a time.

## Main results

* `Follows.residual`: an act that is possible at the start can be moved to the front.
* `Follows.complete`: every schedule can be completed to a permutation of one that ends.
-/

namespace Interleaving

variable {ι S : Type*} (act : ι → S → S → Prop)

/-- A schedule leads from a state to another. -/
inductive Follows : List ι → S → S → Prop
  | nil (s : S) : Follows [] s s
  | cons {i : ι} {schedule : List ι} {s t u : S} (h : act i s t) (h' : Follows schedule t u) :
      Follows (i :: schedule) s u

/-- Nobody can act. -/
def Stuck (s : S) : Prop := ∀ i t, ¬act i s t

/-- An agent has one act at a time, and acts of different agents can be swapped. -/
structure Commutes : Prop where
  unique : ∀ {i s t t'}, act i s t → act i s t' → t = t'
  swap : ∀ {i j s t t'}, i ≠ j → act i s t → act j s t' → ∃ u, act j t u ∧ act i t' u

variable {act} {schedule rest : List ι} {s t u : S} {i : ι}

theorem Follows.append (h : Follows act schedule s t) (h' : Follows act rest t u) :
    Follows act (schedule ++ rest) s u := by
  induction h with
  | nil => exact h'
  | cons hact _ ih => exact .cons hact (ih h')

theorem Follows.single (h : act i s t) : Follows act [i] s t := .cons h (.nil t)

/-- One agent acts again and again. -/
theorem Follows.replicate {f : ℕ → S} {n : ℕ} (h : ∀ k < n, act i (f k) (f (k + 1))) :
    Follows act (List.replicate n i) (f 0) (f n) := by
  induction n with
  | zero => exact .nil _
  | succ n ih =>
    rw [List.replicate_succ']
    exact (ih fun k hk => h k (Nat.lt_succ_of_lt hk)).append (.single (h n (Nat.lt_succ_self n)))

variable (act) in
/-- Some schedule leads from a state to another. -/
def Leads (s t : S) : Prop := ∃ schedule, Follows act schedule s t

theorem Leads.trans (h : Leads act s t) (h' : Leads act t u) : Leads act s u := by
  obtain ⟨_, h⟩ := h
  obtain ⟨_, h'⟩ := h'
  exact ⟨_, h.append h'⟩

variable [DecidableEq ι]

/-- **An act that is possible at the start is among those of every schedule that ends**, and can be
moved to the front. -/
theorem Follows.residual (hc : Commutes act) (h : Follows act schedule s u) (hu : Stuck act u)
    (hact : act i s t) : i ∈ schedule ∧ Follows act (schedule.erase i) t u := by
  induction h generalizing t with
  | nil => exact absurd hact (hu i t)
  | @cons j schedule s c u hfirst hrest ih =>
    by_cases hij : i = j
    · subst hij
      obtain rfl := hc.unique hact hfirst
      exact ⟨List.mem_cons_self, by rwa [List.erase_cons_head]⟩
    · -- The first act of the schedule can be swapped with the other one.
      obtain ⟨d, hjd, hid⟩ := hc.swap hij hact hfirst
      obtain ⟨hmem, hfollows⟩ := ih hu hid
      refine ⟨List.mem_cons_of_mem j hmem, ?_⟩
      rw [List.erase_cons_tail (by simpa using Ne.symm hij)]
      exact .cons hjd hfollows

/-- **Every schedule can be completed**: where one schedule ends with nobody able to act, each other
one goes on to the same end, with the same acts in another order. -/
theorem Follows.complete (hc : Commutes act) {whole : List ι} (h : Follows act whole s u)
    (hu : Stuck act u) (hstart : Follows act schedule s t) :
    ∃ rest, Follows act rest t u ∧ (schedule ++ rest).Perm whole := by
  induction hstart generalizing whole with
  | nil s => exact ⟨whole, h, .refl whole⟩
  | @cons i schedule s b t hact _ ih =>
    obtain ⟨hmem, hresidual⟩ := h.residual hc hu hact
    obtain ⟨rest, hrest, hperm⟩ := ih hresidual
    exact ⟨rest, hrest, (hperm.cons i).trans (List.perm_cons_erase hmem).symm⟩

/-- No schedule is longer than one that ends. -/
theorem Follows.length_le (hc : Commutes act) {whole : List ι} (h : Follows act whole s u)
    (hu : Stuck act u) (hstart : Follows act schedule s t) : schedule.length ≤ whole.length := by
  obtain ⟨rest, -, hperm⟩ := h.complete hc hu hstart
  rw [← hperm.length_eq, List.length_append]
  exact Nat.le_add_right _ _

end Interleaving
