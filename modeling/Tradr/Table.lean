import Mathlib.Algebra.Order.BigOperators.Group.List
import Mathlib.Algebra.Order.Ring.Nat
import Mathlib.Data.List.Nodup

/-!
# Tables with a Key

A table is a list of rows, and a key tells its rows apart. Updating and deleting rows by
key are the statements of a database; a table whose keys are distinct keeps them distinct,
and a sum over its rows changes by what the one row of the key contributes.

## Main results

* `get_eq_some`: the row of a key.
* `get_delete_concat`: a row takes the place of the one with its key.
* `keyed_update`, `keyed_delete`, `keyed_concat`: distinct keys stay distinct.
* `sum_update`, `sum_delete`, `sum_filter_le`: what a sum over the rows becomes.
-/

namespace Table

variable {R K : Type*} (key : R → K)

/-- The rows have distinct keys. -/
def Keyed (rows : List R) : Prop := (rows.map key).Nodup

section Keyed

variable {key} {rows : List R} {r r' : R}

/-- Rows with the same key are the same. -/
theorem Keyed.eq (h : Keyed key rows) (hr : r ∈ rows) (hr' : r' ∈ rows) (hk : key r = key r') :
    r = r' :=
  List.inj_on_of_nodup_map h hr hr' hk

/-- Keys stay distinct when rows are dropped. -/
theorem Keyed.sublist {rows' : List R} (h : Keyed key rows) (hsub : rows'.Sublist rows) :
    Keyed key rows' :=
  List.Nodup.sublist (hsub.map key) h

/-- Keys stay distinct when a row with a new key is added. -/
theorem keyed_concat (h : Keyed key rows) (hr : ∀ q ∈ rows, key q ≠ key r) :
    Keyed key (rows ++ [r]) := by
  rw [Keyed, List.map_append, List.nodup_append]
  refine ⟨h, List.nodup_singleton _, ?_⟩
  simp only [List.mem_map, List.map_cons, List.map_nil, List.mem_singleton]
  rintro _ ⟨q, hq, rfl⟩ _ rfl
  exact hr q hq

end Keyed

variable [DecidableEq K]

/-- The row of a key. -/
def get (rows : List R) (k : K) : Option R :=
  rows.find? fun r => key r = k

/-- Change the rows of a key. -/
def update (rows : List R) (k : K) (f : R → R) : List R :=
  rows.map fun r => if key r = k then f r else r

/-- Delete the rows of a key. -/
def delete (rows : List R) (k : K) : List R :=
  rows.filter fun r => key r ≠ k

variable {key} {rows : List R} {k : K} {r r' : R} {f : R → R}

/-- A row that is found is in the table, under its key. -/
theorem mem_of_get (h : get key rows k = some r) : r ∈ rows ∧ key r = k := by
  have hk := List.find?_some h
  exact ⟨List.mem_of_find?_eq_some h, by simpa using hk⟩

/-- The row of a key, in a table with distinct keys. -/
theorem get_eq_some (h : Keyed key rows) : get key rows k = some r ↔ r ∈ rows ∧ key r = k := by
  refine ⟨mem_of_get, fun ⟨hr, hk⟩ => ?_⟩
  rcases hget : get key rows k with _ | r'
  · have := List.find?_eq_none.mp hget r hr
    exact absurd hk (by simpa using this)
  · obtain ⟨hr', hk'⟩ := mem_of_get hget
    rw [h.eq hr hr' (hk.trans hk'.symm)]

/-- A key that is not in the table has no row. -/
theorem get_eq_none : get key rows k = none ↔ ∀ r ∈ rows, key r ≠ k := by
  simp [get, List.find?_eq_none]

/-- The rows after an update. -/
theorem mem_update : r' ∈ update key rows k f ↔
    ∃ r ∈ rows, r' = if key r = k then f r else r := by
  simp only [update, List.mem_map, eq_comm]

/-- The rows that are not deleted. -/
theorem mem_delete : r ∈ delete key rows k ↔ r ∈ rows ∧ key r ≠ k := by
  simp [delete]

/-- A row takes the place of the one with its key. -/
theorem get_delete_concat (r : R) (k : K) :
    get key (delete key rows (key r) ++ [r]) k =
      if k = key r then some r else get key rows k := by
  have hrows : get key (delete key rows (key r)) k =
      if k = key r then none else get key rows k := by
    induction rows with
    | nil => simp [get, delete]
    | cons q rows ih =>
        unfold get delete at ih ⊢
        rw [List.filter_cons]
        by_cases hq : key q = key r
        · rw [if_neg (by simpa using hq), ih]
          split_ifs with hk
          · rfl
          · rw [List.find?_cons_of_neg (by simpa [hq] using Ne.symm hk)]
        · rw [if_pos (by simpa using hq)]
          by_cases hqk : key q = k
          · rw [List.find?_cons_of_pos (by simpa using hqk),
              List.find?_cons_of_pos (by simpa using hqk), if_neg fun hk => hq (hqk.trans hk)]
          · rw [List.find?_cons_of_neg (by simpa using hqk),
              List.find?_cons_of_neg (by simpa using hqk), ih]
  have happend : get key (delete key rows (key r) ++ [r]) k =
      (get key (delete key rows (key r)) k).or (get key [r] k) := List.find?_append
  rw [happend, hrows]
  split_ifs with hk
  · rw [Option.none_or, hk]
    exact List.find?_cons_of_pos (decide_eq_true rfl)
  · have hother : get key [r] k = none := List.find?_cons_of_neg (by simpa using Ne.symm hk)
    rw [hother, Option.or_none]
/-- Rows keep their keys in an update that does not touch them. -/
theorem map_key_update (hf : ∀ r ∈ rows, key r = k → key (f r) = key r) :
    (update key rows k f).map key = rows.map key := by
  rw [update, List.map_map]
  refine List.map_congr_left fun r hr => ?_
  simp only [Function.comp_apply]
  split_ifs with hk
  · exact hf r hr hk
  · rfl

/-- Keys stay distinct in an update that does not touch them. -/
theorem keyed_update (h : Keyed key rows) (hf : ∀ r ∈ rows, key r = k → key (f r) = key r) :
    Keyed key (update key rows k f) := by
  rw [Keyed, map_key_update hf]
  exact h

/-- Keys stay distinct when rows are deleted. -/
theorem keyed_delete (h : Keyed key rows) (k : K) : Keyed key (delete key rows k) :=
  h.sublist List.filter_sublist

section Sum

variable (w : R → ℕ)

/-- A key that has no row: nothing changes. -/
theorem update_of_forall_ne (h : ∀ r ∈ rows, key r ≠ k) : update key rows k f = rows := by
  rw [update]
  refine (List.map_congr_left fun r hr => ?_).trans (List.map_id rows)
  exact if_neg (h r hr)

/-- A key that has no row: nothing is deleted. -/
theorem delete_of_forall_ne (h : ∀ r ∈ rows, key r ≠ k) : delete key rows k = rows := by
  rw [delete, List.filter_eq_self]
  intro r hr
  exact decide_eq_true (h r hr)

/-- **A sum changes by the row that is updated.** -/
theorem sum_update (h : Keyed key rows) (hr : r ∈ rows) (hk : key r = k) :
    ((update key rows k f).map w).sum + w r = (rows.map w).sum + w (f r) := by
  induction rows with
  | nil => exact absurd hr (by simp)
  | cons q rows ih =>
      rw [Keyed, List.map_cons, List.nodup_cons] at h
      obtain ⟨hq, hrest⟩ := h
      rcases List.mem_cons.mp hr with rfl | hr
      · have hne : ∀ r' ∈ rows, key r' ≠ k := fun r' hr' he =>
          hq (List.mem_map.mpr ⟨r', hr', he.trans hk.symm⟩)
        have htail : rows.map (fun q => if key q = k then f q else q) = rows :=
          update_of_forall_ne hne
        simp only [update, List.map_cons, hk, if_true, htail, List.sum_cons]
        omega
      · have hne : key q ≠ k := fun he => hq (List.mem_map.mpr ⟨r, hr, hk.trans he.symm⟩)
        have := ih hrest hr
        simp only [update, List.map_cons, if_neg hne, List.sum_cons] at this ⊢
        omega

/-- **A sum loses the row that is deleted.** -/
theorem sum_delete (h : Keyed key rows) (hr : r ∈ rows) (hk : key r = k) :
    ((delete key rows k).map w).sum + w r = (rows.map w).sum := by
  induction rows with
  | nil => exact absurd hr (by simp)
  | cons q rows ih =>
      rw [Keyed, List.map_cons, List.nodup_cons] at h
      obtain ⟨hq, hrest⟩ := h
      rcases List.mem_cons.mp hr with rfl | hr
      · have hne : ∀ r' ∈ rows, key r' ≠ k := fun r' hr' he =>
          hq (List.mem_map.mpr ⟨r', hr', he.trans hk.symm⟩)
        have htail : rows.filter (fun q => key q ≠ k) = rows := delete_of_forall_ne hne
        have hhead : decide (key r ≠ k) = false := by simp [hk]
        rw [delete, List.filter_cons, hhead, if_neg (by simp), htail, List.map_cons,
          List.sum_cons, Nat.add_comm]
      · have hne : key q ≠ k := fun he => hq (List.mem_map.mpr ⟨r, hr, hk.trans he.symm⟩)
        have := ih hrest hr
        have hhead : decide (key q ≠ k) = true := decide_eq_true hne
        rw [delete] at this ⊢
        rw [List.filter_cons, hhead, if_pos rfl, List.map_cons, List.map_cons, List.sum_cons,
          List.sum_cons]
        omega

/-- A sum does not grow by an update that makes no row weigh more. -/
theorem sum_update_le (hf : ∀ r, w (f r) ≤ w r) (rows : List R) (k : K) :
    ((update key rows k f).map w).sum ≤ (rows.map w).sum := by
  rw [update, List.map_map]
  refine List.sum_le_sum fun r _ => ?_
  simp only [Function.comp_apply]
  split_ifs
  · exact hf r
  · exact le_rfl

/-- A sum does not grow by dropping rows. -/
theorem sum_filter_le (p : R → Bool) (rows : List R) :
    ((rows.filter p).map w).sum ≤ (rows.map w).sum :=
  (List.filter_sublist.map w).sum_le_sum fun _ _ => Nat.zero_le _

/-- A sum over the rows that meet a condition. -/
theorem sum_filter (p : R → Bool) (rows : List R) :
    ((rows.filter p).map w).sum = (rows.map fun r => if p r then w r else 0).sum := by
  induction rows with
  | nil => rfl
  | cons r rows ih =>
      rw [List.filter_cons, List.map_cons, List.sum_cons, ← ih]
      split_ifs
      · rw [List.map_cons, List.sum_cons]
      · rw [Nat.zero_add]

end Sum

end Table
