import Mathlib.Tactic.TypeStar

/-!
# Effects with a State and an Error

A computation that threads a state, also when it fails. `Rel R W m P` is the rule of proof
for such computations: from states related by `R` the computation gives the same answer;
an answer satisfies `P` and leaves the states related by `R`, a failure leaves them related
by `W`. With the diagonal of an invariant for both this is a rule for preserving
invariants.

## Main results

* `Rel.bind`, `Rel.attempt`, `Rel.pure`, `Rel.fail`: the rules, one for each construct.
* `Rel.recover`: handling a failure that ends in a failure only needs the weaker relation.
-/

/-- A computation that threads a state and may fail. -/
def Eff (S E A : Type) : Type :=
  S → Except E A × S

namespace Eff

variable {S E F A B : Type}

/-- Answer without an effect. -/
def ret (a : A) : Eff S E A := fun s => (.ok a, s)

/-- Go on with the answer, unless there is none. -/
def andThen (m : Eff S E A) (f : A → Eff S E B) : Eff S E B := fun s =>
  match m s with
  | (.ok a, s) => f a s
  | (.error e, s) => (.error e, s)

instance : Monad (Eff S E) where
  pure := ret
  bind := andThen

/-- A sequence whose first part answers. -/
theorem bind_of_ok {m : Eff S E A} {f : A → Eff S E B} {s s' : S} {a : A}
    (h : m s = (.ok a, s')) : (m >>= f) s = f a s' := by
  change andThen m f s = f a s'
  rw [andThen, h]

/-- A sequence whose first part fails. -/
theorem bind_of_error {m : Eff S E A} {f : A → Eff S E B} {s s' : S} {e : E}
    (h : m s = (.error e, s')) : (m >>= f) s = (.error e, s') := by
  change andThen m f s = (.error e, s')
  rw [andThen, h]

/-- A sequence that answers did so in both of its parts. -/
theorem bind_eq_ok {m : Eff S E A} {f : A → Eff S E B} {s s' : S} {b : B} :
    (m >>= f) s = (.ok b, s') ↔ ∃ a s₁, m s = (.ok a, s₁) ∧ f a s₁ = (.ok b, s') := by
  change andThen m f s = (.ok b, s') ↔ _
  unfold andThen
  rcases m s with ⟨e | a, s₁⟩
  · simp
  · constructor
    · intro h
      exact ⟨a, s₁, rfl, h⟩
    · rintro ⟨a', s', heq, h⟩
      obtain ⟨ha, rfl⟩ := Prod.mk.inj heq
      obtain rfl := Except.ok.inj ha
      exact h

/-- Fail without an effect. -/
def fail (e : E) : Eff S E A := fun s => (.error e, s)

/-- Answer with a part of the state. -/
def gets (f : S → A) : Eff S E A := fun s => (.ok (f s), s)

/-- Change the state. -/
def modify (f : S → S) : Eff S E Unit := fun s => (.ok (), f s)

/-- Answer with the outcome of a computation, failed or not. -/
def attempt (m : Eff S E A) : Eff S F (Except E A) := fun s => (.ok (m s).1, (m s).2)

/-- The error of a computation in other terms. -/
def mapError (g : E → F) (m : Eff S E A) : Eff S F A := fun s => ((m s).1.mapError g, (m s).2)

/-- After a failure, do something and fail with what it answers. -/
def recover (m : Eff S E A) (h : E → Eff S E E) : Eff S E A := fun s =>
  match m s with
  | (.ok a, s) => (.ok a, s)
  | (.error e, s) =>
    match h e s with
    | (.ok e', s) => (.error e', s)
    | (.error e', s) => (.error e', s)

/-- Only a computation that answers is not recovered from. -/
theorem recover_eq_ok {m : Eff S E A} {h : E → Eff S E E} {s s' : S} {a : A} :
    recover m h s = (.ok a, s') ↔ m s = (.ok a, s') := by
  unfold recover
  rcases m s with ⟨e | b, s₁⟩
  · dsimp only
    rcases h e s₁ with ⟨e' | e', s₂⟩
    · simp
    · simp
  · rfl

/-- From states related by `R`: the same outcome, an answer that satisfies `P` in states
related by `R`, or a failure in states related by `W`. -/
def Rel (R W : S → S → Prop) (m : Eff S E A) (P : A → Prop) : Prop :=
  ∀ s t, R s t → (m s).1 = (m t).1 ∧
    (∀ a, (m s).1 = .ok a → P a ∧ R (m s).2 (m t).2) ∧
    ∀ e, (m s).1 = .error e → W (m s).2 (m t).2

variable {R W : S → S → Prop} {P : A → Prop} {Q : B → Prop}

/-- Less may be said about the answer. -/
theorem Rel.mono {P' : A → Prop} {m : Eff S E A} (h : Rel R W m P) (hP : ∀ a, P a → P' a) :
    Rel R W m P' := by
  intro s t hst
  obtain ⟨h1, h2, h3⟩ := h s t hst
  exact ⟨h1, fun a ha => ⟨hP a (h2 a ha).1, (h2 a ha).2⟩, h3⟩

/-- Less may be said about the states after a failure. -/
theorem Rel.weaken {W' : S → S → Prop} {m : Eff S E A} (h : Rel R W m P)
    (hW : ∀ s t, W s t → W' s t) : Rel R W' m P := by
  intro s t hst
  obtain ⟨h1, h2, h3⟩ := h s t hst
  exact ⟨h1, h2, fun e he => hW _ _ (h3 e he)⟩

/-- With one relation for both outcomes, the states are related afterwards. -/
theorem Rel.after {m : Eff S E A} (h : Rel R R m P) {s t : S} (hst : R s t) :
    R (m s).2 (m t).2 := by
  obtain ⟨-, h2, h3⟩ := h s t hst
  rcases hm : (m s).1 with e | a
  · exact h3 e hm
  · exact (h2 a hm).2

theorem Rel.pure {a : A} (h : P a) : Rel R W (Pure.pure a : Eff S E A) P := by
  intro s t hst
  refine ⟨rfl, fun a' ha => ?_, fun e he => absurd he (by simp [Pure.pure, ret])⟩
  obtain rfl := Except.ok.inj ha
  exact ⟨h, hst⟩

theorem Rel.fail {e : E} (hW : ∀ s t, R s t → W s t) : Rel R W (Eff.fail e : Eff S E A) P := by
  intro s t hst
  exact ⟨rfl, fun a ha => absurd ha (by simp [Eff.fail]), fun _ _ => hW s t hst⟩

/-- Related states agree on the part of them that is answered. -/
theorem Rel.gets {f : S → A} (h : ∀ s t, R s t → f s = f t) :
    Rel R W (Eff.gets f : Eff S E A) fun _ => True := by
  intro s t hst
  exact ⟨congrArg Except.ok (h s t hst), fun _ _ => ⟨trivial, hst⟩,
    fun e he => absurd he (by simp [Eff.gets])⟩

theorem Rel.bind {m : Eff S E A} {f : A → Eff S E B} (hm : Rel R W m P)
    (hf : ∀ a, P a → Rel R W (f a) Q) : Rel R W (m >>= f) Q := by
  intro s t hst
  obtain ⟨h1, h2, h3⟩ := hm s t hst
  change (andThen m f s).1 = (andThen m f t).1 ∧
    (∀ b, (andThen m f s).1 = .ok b → Q b ∧ R (andThen m f s).2 (andThen m f t).2) ∧
    ∀ e, (andThen m f s).1 = .error e → W (andThen m f s).2 (andThen m f t).2
  unfold andThen
  rcases hs : m s with ⟨e | a, s'⟩ <;> rcases ht : m t with ⟨e' | a', t'⟩ <;>
    rw [hs, ht] at h1 h2 h3 <;> dsimp only at h1 h2 h3 ⊢
  · obtain rfl := Except.error.inj h1
    exact ⟨rfl, fun b hb => absurd hb (by simp), fun _ _ => h3 e rfl⟩
  · exact absurd h1 (by simp)
  · exact absurd h1 (by simp)
  · obtain rfl := Except.ok.inj h1
    obtain ⟨hP, hR⟩ := h2 a rfl
    exact hf a hP s' t' hR

/-- A computation that keeps the states related also when it fails can be attempted. -/
theorem Rel.attempt {m : Eff S E A} (h : Rel R R m P) :
    Rel R W (Eff.attempt m : Eff S F (Except E A)) fun r => ∀ a, r = .ok a → P a := by
  intro s t hst
  obtain ⟨h1, h2, -⟩ := h s t hst
  refine ⟨congrArg Except.ok h1, fun r hr => ?_, fun e he => absurd he (by simp [Eff.attempt])⟩
  obtain rfl := Except.ok.inj hr
  exact ⟨fun a ha => (h2 a ha).1, h.after hst⟩

theorem Rel.mapError {g : E → F} {m : Eff S E A} (h : Rel R W m P) :
    Rel R W (Eff.mapError g m) P := by
  intro s t hst
  obtain ⟨h1, h2, h3⟩ := h s t hst
  refine ⟨congrArg (Except.mapError g) h1, fun a ha => ?_, fun e he => ?_⟩
  · change (m s).1.mapError g = .ok a at ha
    rcases hm : (m s).1 with e | b
    · rw [hm] at ha
      exact absurd ha nofun
    · rw [hm] at ha
      exact h2 a (hm.trans (congrArg Except.ok (Except.ok.inj ha)))
  · change (m s).1.mapError g = .error e at he
    rcases hm : (m s).1 with e' | b
    · exact h3 e' hm
    · rw [hm] at he
      exact absurd he nofun

/-- Handling a failure that ends in a failure only needs the weaker relation. -/
theorem Rel.recover {m : Eff S E A} {h : E → Eff S E E} (hm : Rel R W m P)
    (hh : ∀ e, Rel W W (h e) fun _ => True) : Rel R W (Eff.recover m h) P := by
  intro s t hst
  obtain ⟨h1, h2, h3⟩ := hm s t hst
  unfold Eff.recover
  rcases hs : m s with ⟨e | a, s'⟩ <;> rcases ht : m t with ⟨e' | a', t'⟩ <;>
    rw [hs, ht] at h1 h2 h3 <;> dsimp only at h1 h2 h3 ⊢
  · obtain rfl := Except.error.inj h1
    obtain ⟨k1, k2, k3⟩ := hh e s' t' (h3 e rfl)
    rcases hs' : h e s' with ⟨e₁ | e₁, s''⟩ <;> rcases ht' : h e t' with ⟨e₂ | e₂, t''⟩ <;>
      rw [hs', ht'] at k1 k2 k3 <;> dsimp only at k1 k2 k3 ⊢
    · obtain rfl := Except.error.inj k1
      exact ⟨rfl, fun a ha => absurd ha (by simp), fun _ _ => k3 e₁ rfl⟩
    · exact absurd k1 (by simp)
    · exact absurd k1 (by simp)
    · obtain rfl := Except.ok.inj k1
      exact ⟨rfl, fun a ha => absurd ha (by simp), fun _ _ => (k2 e₁ rfl).2⟩
  · exact absurd h1 (by simp)
  · exact absurd h1 (by simp)
  · obtain rfl := Except.ok.inj h1
    refine ⟨rfl, fun b hb => ?_, fun e he => absurd he (by simp)⟩
    obtain rfl := Except.ok.inj hb
    exact h2 a rfl

end Eff
