import Mathlib.Data.List.Basic

/-!
# Association Lists

A finite map as a list of pairs, the first pair of a key being its value. Besides adding a
pair at the end, the one operation is rekeying: every pair is given a new key or dropped.
Removing keys and moving keys are rekeyings.

## Main results

* `lookup_append`: a pair added at the end counts when the key is new.
* `lookup_rekey`, `lookup_rekey_of_ne`: a rekeyed list, at a key that exactly one old key
  is sent to and at a key no old key is sent to.
-/

namespace Assoc

variable {K V : Type*} [DecidableEq K]

/-- The value of a key. -/
def lookup (l : List (K × V)) (k : K) : Option V :=
  (l.find? fun e => e.1 = k).map Prod.snd

@[simp] theorem lookup_nil (k : K) : lookup ([] : List (K × V)) k = none := rfl

theorem lookup_cons (e : K × V) (l : List (K × V)) (k : K) :
    lookup (e :: l) k = if e.1 = k then some e.2 else lookup l k := by
  by_cases h : e.1 = k <;> simp [lookup, h]

/-- A value that is found is one of the list. -/
theorem mem_of_lookup {l : List (K × V)} {k : K} {v : V} (h : lookup l k = some v) :
    (k, v) ∈ l := by
  obtain ⟨e, he, rfl⟩ := Option.map_eq_some_iff.mp h
  have hk : e.1 = k := by simpa using List.find?_some he
  subst hk
  exact List.mem_of_find?_eq_some he

/-- A pair added at the end counts when the key is new. -/
theorem lookup_append (l : List (K × V)) (k k' : K) (v : V) :
    lookup (l ++ [(k, v)]) k' =
      (lookup l k').or (if k = k' then some v else none) := by
  induction l with
  | nil => simp [lookup_cons]
  | cons e l ih =>
      rw [List.cons_append, lookup_cons, lookup_cons, ih]
      split_ifs <;> simp

/-- Give every pair a new key, or drop it. -/
def rekey (f : K → Option K) (l : List (K × V)) : List (K × V) :=
  l.filterMap fun e => (f e.1).map fun k => (k, e.2)

/-- At a key that exactly one old key is sent to, a rekeyed list has the old value. -/
theorem lookup_rekey {f : K → Option K} {k k₀ : K} (h : ∀ q, f q = some k ↔ q = k₀)
    (l : List (K × V)) : lookup (rekey f l) k = lookup l k₀ := by
  induction l with
  | nil => rfl
  | cons e l ih =>
      rw [lookup_cons, ← ih]
      rcases hf : f e.1 with _ | k'
      · have hne : e.1 ≠ k₀ := fun he => by
          rw [(h e.1).mpr he] at hf
          exact absurd hf (by simp)
        simp [rekey, hf, hne]
      · have hiff : k' = k ↔ e.1 = k₀ := by
          rw [← h e.1, hf, Option.some_inj]
        simp only [rekey, List.filterMap_cons, hf, Option.map_some, lookup_cons, hiff]

/-- At a key no old key is sent to, a rekeyed list has nothing. -/
theorem lookup_rekey_of_ne {f : K → Option K} {k : K} (h : ∀ q, f q ≠ some k)
    (l : List (K × V)) : lookup (rekey f l) k = none := by
  induction l with
  | nil => rfl
  | cons e l ih =>
      rcases hf : f e.1 with _ | k'
      · simpa [rekey, hf] using ih
      · have hne : k' ≠ k := fun he => h e.1 (by rw [hf, he])
        simp only [rekey, List.filterMap_cons, hf, Option.map_some, lookup_cons, if_neg hne]
        exact ih

end Assoc
