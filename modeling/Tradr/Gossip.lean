import Mathlib.Data.Set.Operations
import Mathlib.Logic.Function.Basic
import Mathlib.Order.Bounds.Basic
import Mathlib.Order.Lattice

/-!
# Gossip over a Join Semilattice

Devices hold values of a join semilattice and meet in pairs; a meeting leaves both with
the join of what they held. A schedule is any list of meetings.

A path is carried by a schedule when its links are among the meetings, in the order of
the path: what the first device of the path knew has then reached the last one.

## Main results

* `le_run`: what a device holds only ever moves up.
* `le_run_of_carries`: every device on a carried path has reached its last device.
* `isLUB_of_carries`: a path that covers all devices ends at their least upper bound.
* `run_mem_range`: if joins choose, everything held was held at the start.
-/

namespace Gossip

variable {D α : Type*} [DecidableEq D] [SemilatticeSup α]

/-- A meeting: both devices hold the join of what they held. -/
def meet (held : D → α) (m : D × D) : D → α :=
  fun d => if d = m.1 ∨ d = m.2 then held m.1 ⊔ held m.2 else held d

/-- A schedule of meetings, in order. -/
def run (held : D → α) (schedule : List (D × D)) : D → α :=
  schedule.foldl meet held

@[simp] theorem run_nil (held : D → α) : run held [] = held := rfl

@[simp] theorem run_cons (held : D → α) (m : D × D) (schedule : List (D × D)) :
    run held (m :: schedule) = run (meet held m) schedule := rfl

theorem run_append (held : D → α) (s t : List (D × D)) :
    run held (s ++ t) = run (run held s) t :=
  List.foldl_append

/-- A meeting lowers nobody. -/
theorem le_meet (held : D → α) (m : D × D) (d : D) : held d ≤ meet held m d := by
  simp only [meet]
  split
  · rename_i h
    rcases h with rfl | rfl
    · exact le_sup_left
    · exact le_sup_right
  · exact le_rfl

/-- **What a device holds only moves up.** -/
theorem le_run (held : D → α) (schedule : List (D × D)) (d : D) :
    held d ≤ run held schedule d := by
  induction schedule generalizing held with
  | nil => exact le_rfl
  | cons m schedule ih => exact (le_meet held m d).trans (ih (meet held m))

/-- Meetings keep every common bound. -/
theorem run_le {held : D → α} {b : α} (h : ∀ d, held d ≤ b) (schedule : List (D × D))
    (d : D) : run held schedule d ≤ b := by
  induction schedule generalizing held with
  | nil => exact h d
  | cons m schedule ih =>
      refine ih fun d' => ?_
      simp only [meet]
      split
      · exact sup_le (h m.1) (h m.2)
      · exact h d'

/-- If a join is always one of the two, everything held was held at the start. -/
theorem run_mem_range (hsel : ∀ a b : α, a ⊔ b = a ∨ a ⊔ b = b) (held : D → α)
    (schedule : List (D × D)) (d : D) : run held schedule d ∈ Set.range held := by
  induction schedule generalizing held with
  | nil => exact ⟨d, rfl⟩
  | cons m schedule ih =>
      obtain ⟨d', hd'⟩ := ih (meet held m)
      rw [run_cons, ← hd']
      simp only [meet]
      split
      · rcases hsel (held m.1) (held m.2) with h | h
        · exact ⟨m.1, h.symm⟩
        · exact ⟨m.2, h.symm⟩
      · exact ⟨d', rfl⟩

/-- The schedule performs the links of the path, in the order of the path; a link may be
a meeting in either orientation, and other meetings may lie in between. -/
inductive Carries : List (D × D) → List D → Prop
  | single (schedule : List (D × D)) (d : D) : Carries schedule [d]
  | link {m : D × D} {schedule : List (D × D)} {a b : D} {path : List D} :
      m = (a, b) ∨ m = (b, a) → Carries schedule (b :: path) →
      Carries (m :: schedule) (a :: b :: path)
  | skip {m : D × D} {schedule : List (D × D)} {path : List D} :
      Carries schedule path → Carries (m :: schedule) path

/-- A meeting of `a` and `b` brings to `b` what `a` held. -/
theorem le_meet_of_link (held : D → α) {m : D × D} {a b : D}
    (h : m = (a, b) ∨ m = (b, a)) : held a ≤ meet held m b := by
  rcases h with rfl | rfl
  · simp [meet]
  · simp [meet]

/-- **What a device on a carried path held has reached the last device.** -/
theorem le_run_of_carries {schedule : List (D × D)} {path : List D}
    (h : Carries schedule path) {last : D} (hlast : path.getLast? = some last)
    (held : D → α) {d : D} (hd : d ∈ path) : held d ≤ run held schedule last := by
  induction h generalizing held d with
  | single schedule d' =>
      obtain rfl := List.mem_singleton.mp hd
      obtain rfl : d = last := by simpa using hlast
      exact le_run held schedule d
  | @link m schedule a b path hm _ ih =>
      have hlast' : (b :: path).getLast? = some last := by
        rwa [List.getLast?_cons_cons] at hlast
      rcases List.mem_cons.mp hd with rfl | hd
      · exact (le_meet_of_link held hm).trans (ih hlast' (meet held m) List.mem_cons_self)
      · exact (le_meet held m d).trans (ih hlast' (meet held m) hd)
  | @skip m schedule path _ ih =>
      exact (le_meet held m d).trans (ih hlast (meet held m) hd)

/-- **A path that covers all devices ends at the least upper bound of what they held.** -/
theorem isLUB_of_carries {schedule : List (D × D)} {path : List D}
    (h : Carries schedule path) (hall : ∀ d, d ∈ path) {last : D}
    (hlast : path.getLast? = some last) (held : D → α) :
    IsLUB (Set.range held) (run held schedule last) := by
  refine ⟨?_, ?_⟩
  · rintro _ ⟨d, rfl⟩
    exact le_run_of_carries h hlast held (hall d)
  · intro b hb
    exact run_le (fun d => hb ⟨d, rfl⟩) schedule last

end Gossip
