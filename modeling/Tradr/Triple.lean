import Tradr.Eff

/-!
# Triples for Effects

`Triple P m Q X` is the rule of proof for one run of a computation: from a state that satisfies `P`
it answers such that `Q` holds of the answer and the state, or fails in a state that satisfies `X`.

## Main results

* `Triple.bind`, `Triple.attempt`, `Triple.pure`, `Triple.fail`: the rules, one for each construct.
* `Triple.mono`: the rule of consequence.
-/

namespace Eff

variable {S E F A B : Type}

/-- From `P` the computation answers with `Q`, or fails with `X`. -/
def Triple (P : S → Prop) (m : Eff S E A) (Q : A → S → Prop) (X : S → Prop) : Prop :=
  ∀ s, P s → (∀ a, (m s).1 = .ok a → Q a (m s).2) ∧ ∀ e, (m s).1 = .error e → X (m s).2

/-- What holds of an answer that may be an error of its own. -/
def Answers {E' : Type} (Q : A → S → Prop) (X : S → Prop) (r : Except E' A) (s : S) : Prop :=
  match r with
  | .ok a => Q a s
  | .error _ => X s

namespace Triple

variable {P P' : S → Prop} {Q Q' : A → S → Prop} {R : B → S → Prop} {X X' : S → Prop}
  {m : Eff S E A}

/-- The state after a computation that answers. -/
theorem ok (h : Triple P m Q X) {s : S} (hs : P s) {a : A} (ha : (m s).1 = .ok a) : Q a (m s).2 :=
  (h s hs).1 a ha

/-- The rule of consequence. -/
theorem mono (h : Triple P m Q X) (hP : ∀ s, P' s → P s) (hQ : ∀ a s, Q a s → Q' a s)
    (hX : ∀ s, X s → X' s) : Triple P' m Q' X' := fun s hs =>
  ⟨fun a ha => hQ a _ ((h s (hP s hs)).1 a ha), fun e he => hX _ ((h s (hP s hs)).2 e he)⟩

/-- More may be assumed. -/
theorem pre (h : Triple P m Q X) (hP : ∀ s, P' s → P s) : Triple P' m Q X :=
  h.mono hP (fun _ _ => id) fun _ => id

/-- Less may be said about the answer. -/
theorem post (h : Triple P m Q X) (hQ : ∀ a s, Q a s → Q' a s) : Triple P m Q' X :=
  h.mono (fun _ => id) hQ fun _ => id

/-- Less may be said about a failure. -/
theorem fails (h : Triple P m Q X) (hX : ∀ s, X s → X' s) : Triple P m Q X' :=
  h.mono (fun _ => id) (fun _ _ => id) hX

theorem pure {a : A} : Triple (Q a) (Pure.pure a : Eff S E A) Q X := fun _ hs =>
  ⟨fun _ ha => Except.ok.inj ha ▸ hs, nofun⟩

theorem fail {e : E} : Triple X (Eff.fail e : Eff S E A) Q X := fun _ hs =>
  ⟨nofun, fun _ _ => hs⟩

theorem modify {f : S → S} {Q : Unit → S → Prop} :
    Triple (fun s => Q () (f s)) (Eff.modify f : Eff S E Unit) Q X := fun _ hs =>
  ⟨fun _ _ => hs, nofun⟩

theorem bind {f : A → Eff S E B} (hm : Triple P m Q X) (hf : ∀ a, Triple (Q a) (f a) R X) :
    Triple P (m >>= f) R X := fun s hs => by
  rcases hrun : m s with ⟨e | a, s'⟩
  · rw [bind_of_error hrun]
    have herror := (hm s hs).2 e (by rw [hrun])
    rw [hrun] at herror
    exact ⟨nofun, fun _ _ => herror⟩
  · rw [bind_of_ok hrun]
    have hok := (hm s hs).1 a (by rw [hrun])
    rw [hrun] at hok
    exact hf a s' hok

/-- A computation whose answer is known. -/
theorem bind_eq {a₀ : A} {P₁ : S → Prop} {f : A → Eff S E B}
    (hm : Triple P m (fun a s => a = a₀ ∧ P₁ s) X) (hf : Triple P₁ (f a₀) R X) :
    Triple P (m >>= f) R X := by
  refine hm.bind fun a s hs => ?_
  obtain ⟨rfl, hs⟩ := hs
  exact hf s hs

/-- A computation that is attempted never fails. -/
theorem attempt (h : Triple P m Q X) :
    Triple P (Eff.attempt m : Eff S F (Except E A))
      (fun r s => (∀ a, r = .ok a → Q a s) ∧ ∀ e, r = .error e → X s) X' := fun s hs => by
  refine ⟨fun r hr => ?_, nofun⟩
  obtain rfl := Except.ok.inj hr
  exact h s hs

theorem mapError {g : E → F} (h : Triple P m Q X) : Triple P (Eff.mapError g m) Q X := by
  intro s hs
  have hs' := h s hs
  refine ⟨fun a ha => ?_, fun e he => ?_⟩
  · change (m s).1.mapError g = .ok a at ha
    change Q a (m s).2
    rcases hrun : (m s).1 with e | b
    · rw [hrun] at ha
      cases ha
    · rw [hrun] at ha
      exact hs'.1 a (hrun.trans (congrArg Except.ok (Except.ok.inj ha)))
  · change (m s).1.mapError g = .error e at he
    change X (m s).2
    rcases hrun : (m s).1 with e' | b
    · exact hs'.2 e' hrun
    · rw [hrun] at he
      cases he

end Triple

end Eff
