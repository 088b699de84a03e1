import Mathlib.Data.Nat.Notation

/-!
# Cutting a List into Chunks

`chunks n l` cuts `l` into pieces of `n` elements with a shorter last one, the way a
slice's `chunks` iterator does. No piece is empty and the pieces join to `l`.

`cut n l` cuts off only the full pieces and keeps what is left over, the way a buffered
writer does. Cutting what was left over together with what arrives next is cutting all of
it at once (`cut_append`).

## Main results

* `flatten_chunks`: nothing is lost, repeated or reordered.
* `length_le_of_mem_chunks`, `ne_nil_of_mem_chunks`: the size of a piece.
* `cut_append`: full pieces do not depend on how the list arrives.
-/

namespace Chunks

variable {α : Type*}

/-- At most `fuel` pieces of `n` elements. -/
def chunksAux (n : ℕ) : ℕ → List α → List (List α)
  | 0, _ => []
  | _ + 1, [] => []
  | fuel + 1, a :: l => (a :: l).take n :: chunksAux n fuel ((a :: l).drop n)

/-- The pieces of `n` elements of a list; the last one may be shorter. -/
def chunks (n : ℕ) (l : List α) : List (List α) :=
  chunksAux n l.length l

@[simp] theorem chunks_nil (n : ℕ) : chunks n ([] : List α) = [] := rfl

/-- Enough fuel joins to the whole list. -/
theorem flatten_chunksAux {n : ℕ} (hn : 0 < n) (fuel : ℕ) (l : List α)
    (hf : l.length ≤ fuel) : (chunksAux n fuel l).flatten = l := by
  induction fuel generalizing l with
  | zero =>
      obtain rfl : l = [] := List.length_eq_zero_iff.mp (by omega)
      rfl
  | succ fuel ih =>
      cases l with
      | nil => rfl
      | cons a l =>
          have hlen : ((a :: l).drop n).length ≤ fuel := by
            rw [List.length_drop]
            simp only [List.length_cons] at hf ⊢
            omega
          rw [chunksAux, List.flatten_cons, ih _ hlen, List.take_append_drop]

/-- The pieces join to the list they were cut from. -/
theorem flatten_chunks {n : ℕ} (hn : 0 < n) (l : List α) : (chunks n l).flatten = l :=
  flatten_chunksAux hn l.length l (Nat.le_refl _)

/-- Every piece is one of the heads taken. -/
theorem of_mem_chunksAux {n : ℕ} (hn : 0 < n) {fuel : ℕ} {l c : List α}
    (h : c ∈ chunksAux n fuel l) : c.length ≤ n ∧ c ≠ [] := by
  induction fuel generalizing l with
  | zero => cases h
  | succ fuel ih =>
      cases l with
      | nil => cases h
      | cons a l =>
          rcases List.mem_cons.mp h with rfl | h
          · refine ⟨List.length_take_le _ _, ?_⟩
            cases n with
            | zero => omega
            | succ n => simp
          · exact ih h

/-- No piece is longer than asked for. -/
theorem length_le_of_mem_chunks {n : ℕ} (hn : 0 < n) {l c : List α}
    (h : c ∈ chunks n l) : c.length ≤ n :=
  (of_mem_chunksAux hn h).1

/-- No piece is empty. -/
theorem ne_nil_of_mem_chunks {n : ℕ} (hn : 0 < n) {l c : List α}
    (h : c ∈ chunks n l) : c ≠ [] :=
  (of_mem_chunksAux hn h).2

/-! ### Full pieces -/

/-- The full pieces of `n` elements at the front of a list, and what is left over. -/
def cut (n : ℕ) (l : List α) : List (List α) × List α :=
  if 0 < n ∧ n ≤ l.length then
    (l.take n :: (cut n (l.drop n)).1, (cut n (l.drop n)).2)
  else ([], l)
termination_by l.length
decreasing_by
  all_goals
    rename_i hfull
    rw [List.length_drop]
    omega

/-- A list shorter than a piece has none. -/
theorem cut_of_lt {n : ℕ} {l : List α} (h : l.length < n) : cut n l = ([], l) := by
  rw [cut, if_neg (by omega)]

/-- A list that is long enough starts with a full piece. -/
theorem cut_of_le {n : ℕ} {l : List α} (hn : 0 < n) (h : n ≤ l.length) :
    cut n l = (l.take n :: (cut n (l.drop n)).1, (cut n (l.drop n)).2) := by
  rw [cut, if_pos ⟨hn, h⟩]

/-- **Full pieces do not depend on how the list arrives**: what is left over of the first
part is cut together with the second. -/
theorem cut_append {n : ℕ} (hn : 0 < n) (a b : List α) :
    cut n (a ++ b) = ((cut n a).1 ++ (cut n ((cut n a).2 ++ b)).1,
      (cut n ((cut n a).2 ++ b)).2) := by
  rcases Nat.lt_or_ge a.length n with h | h
  · rw [cut_of_lt h]
    rfl
  · have hab : n ≤ (a ++ b).length := by
      rw [List.length_append]
      omega
    have ih := cut_append hn (a.drop n) b
    rw [cut_of_le hn hab, cut_of_le hn h, List.take_append_of_le_length h,
      List.drop_append_of_le_length h, ih]
    rfl
termination_by a.length
decreasing_by
  rw [List.length_drop]
  omega

/-- Nothing is lost by cutting. -/
theorem flatten_cut {n : ℕ} (hn : 0 < n) (l : List α) :
    (cut n l).1.flatten ++ (cut n l).2 = l := by
  rcases Nat.lt_or_ge l.length n with h | h
  · rw [cut_of_lt h]
    rfl
  · have ih := flatten_cut hn (l.drop n)
    rw [cut_of_le hn h, List.flatten_cons, List.append_assoc, ih, List.take_append_drop]
termination_by l.length
decreasing_by
  rw [List.length_drop]
  omega

/-- Every piece cut off is full. -/
theorem length_of_mem_cut {n : ℕ} (hn : 0 < n) {l c : List α} (h : c ∈ (cut n l).1) :
    c.length = n := by
  rcases Nat.lt_or_ge l.length n with hl | hl
  · rw [cut_of_lt hl] at h
    cases h
  · rw [cut_of_le hn hl] at h
    rcases List.mem_cons.mp h with rfl | h
    · rw [List.length_take, Nat.min_eq_left hl]
    · exact length_of_mem_cut hn h
termination_by l.length
decreasing_by
  rw [List.length_drop]
  omega

/-- Less than a piece is left over. -/
theorem length_cut_lt {n : ℕ} (hn : 0 < n) (l : List α) : (cut n l).2.length < n := by
  rcases Nat.lt_or_ge l.length n with h | h
  · rw [cut_of_lt h]
    exact h
  · have ih := length_cut_lt hn (l.drop n)
    rw [cut_of_le hn h]
    exact ih
termination_by l.length
decreasing_by
  rw [List.length_drop]
  omega

/-- Full pieces and a last one, which is only empty when there is no other. -/
structure IsRecords (n : ℕ) (full : List (List α)) (last : List α) : Prop where
  length_full : ∀ c ∈ full, c.length = n
  length_last : last.length ≤ n
  last_ne_nil : full ≠ [] → last ≠ []

/-- The size of full pieces together. -/
theorem IsRecords.length_flatten {n : ℕ} {full : List (List α)} {last : List α}
    (h : IsRecords n full last) :
    (full ++ [last]).flatten.length = full.length * n + last.length := by
  have hfull : ∀ l : List (List α), (∀ c ∈ l, c.length = n) → l.flatten.length = l.length * n := by
    intro l hl
    induction l with
    | nil => simp
    | cons c l ih =>
        rw [List.flatten_cons, List.length_append, hl c List.mem_cons_self,
          ih fun d hd => hl d (List.mem_cons_of_mem _ hd), List.length_cons,
          Nat.succ_mul, Nat.add_comm]
  rw [List.flatten_append, List.length_append, hfull full h.length_full]
  simp

/-- The pieces after the first are records again. -/
theorem IsRecords.tail {n : ℕ} {c : List α} {full : List (List α)} {last : List α}
    (h : IsRecords n (c :: full) last) : IsRecords n full last :=
  ⟨fun d hd => h.length_full d (List.mem_cons_of_mem _ hd), h.length_last,
    fun _ => h.last_ne_nil (by simp)⟩

/-- What is left over makes the last record, unless nothing is. -/
theorem isRecords_cut {n : ℕ} (hn : 0 < n) {l : List α}
    (h : (cut n l).1 ≠ [] → (cut n l).2 ≠ []) : IsRecords n (cut n l).1 (cut n l).2 :=
  ⟨fun _ hc => length_of_mem_cut hn hc, Nat.le_of_lt (length_cut_lt hn l), h⟩

/-- A list that is cut without rest ends with a full record. -/
theorem isRecords_dropLast {n : ℕ} (hn : 0 < n) {l : List α} (h : (cut n l).1 ≠ []) :
    IsRecords n (cut n l).1.dropLast ((cut n l).1.getLast h) := by
  have hlast : ((cut n l).1.getLast h).length = n :=
    length_of_mem_cut hn (List.getLast_mem h)
  refine ⟨fun c hc => length_of_mem_cut hn ((List.dropLast_sublist _).subset hc),
    Nat.le_of_eq hlast, ?_⟩
  intro _ hnil
  rw [hnil, List.length_nil] at hlast
  omega

end Chunks
