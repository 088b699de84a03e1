import Mathlib.Data.List.Basic
import Mathlib.Tactic.Common

/-!
# Incremental Decoding

A stream decoder is handed its input in pieces of arbitrary size and is asked, at
arbitrary moments, for the next unit of output. This module says once why the pieces
do not matter. A *unit parser* looks at the symbols at the front of a stream and
answers that it needs more of them, that they are malformed, or that a unit of a
certain length stands there; it is *prefix-stable* when appending symbols never
changes the last two answers. For a prefix-stable parser the units a decoder hands
out, and the error it stops at, are those of the whole input (`Parser.parse`),
whatever the schedule of feeds and pulls was.

## Main results

* `Parser.parse`: the units, the error and the rest of a complete input.
* `run_parse`: **every schedule hands out an initial part of the parse**, and what is
  left to hand out is the parse of the buffer.
* `units_run_prefix`, `run_of_firstError`: the two readings of `run_parse` that a
  caller uses before and after the first error.
* `run_drain`: enough pulls after the last feed hand out the whole parse.
* `run_poisoned`: an error is repeated for ever after.
* `runWith_eq_run`: any decoder that simulates `Decoder` has the same output.
-/

namespace Incremental

variable {α β ε : Type*}

/-! ### Unit parsers -/

/-- What a unit parser answers about the front of a stream. -/
inductive Verdict (β ε : Type*)
  | more
  | fail (e : ε)
  | unit (b : β) (consumed : ℕ)

/-- A **prefix-stable unit parser**: once a unit or a failure is visible at the front
of the stream, no later symbol changes the answer, and a unit consumes at least one
symbol and no more than are there. -/
structure Parser (α β ε : Type*) where
  next : List α → Verdict β ε
  consumed_pos : ∀ {bs b n}, next bs = .unit b n → 0 < n
  consumed_le : ∀ {bs b n}, next bs = .unit b n → n ≤ bs.length
  unit_append : ∀ {bs b n}, next bs = .unit b n → ∀ t, next (bs ++ t) = .unit b n
  fail_append : ∀ {bs e}, next bs = .fail e → ∀ t, next (bs ++ t) = .fail e

/-- The parse of a complete input: its units, the error that ends it if there is one,
and the symbols that no unit consumed. -/
def Parser.parse (p : Parser α β ε) (bs : List α) : List β × Option ε × List α :=
  match _h : p.next bs with
  | .more => ([], none, bs)
  | .fail e => ([], some e, [])
  | .unit b n => (b :: (p.parse (bs.drop n)).1, (p.parse (bs.drop n)).2)
termination_by bs.length
decreasing_by
  all_goals
    have hpos := p.consumed_pos _h
    have hle := p.consumed_le _h
    simp only [List.length_drop]
    omega

/-- The parse of an input that is still too short. -/
theorem Parser.parse_more {p : Parser α β ε} {bs : List α} (h : p.next bs = .more) :
    p.parse bs = ([], none, bs) := by
  rw [Parser.parse]
  split <;> simp_all

/-- The parse of an input that is malformed at its front. -/
theorem Parser.parse_fail {p : Parser α β ε} {bs : List α} {e : ε}
    (h : p.next bs = .fail e) : p.parse bs = ([], some e, []) := by
  rw [Parser.parse]
  split <;> simp_all

/-- The parse of an input with a unit at its front. -/
theorem Parser.parse_unit {p : Parser α β ε} {bs : List α} {b : β} {n : ℕ}
    (h : p.next bs = .unit b n) :
    p.parse bs = (b :: (p.parse (bs.drop n)).1, (p.parse (bs.drop n)).2) := by
  rw [Parser.parse]
  split <;> simp_all

/-- A unit at the front of the fed symbols stays at the front of any longer input. -/
theorem Parser.parse_append_unit {p : Parser α β ε} {bs : List α} {b : β} {n : ℕ}
    (h : p.next bs = .unit b n) (t : List α) :
    p.parse (bs ++ t) =
      (b :: (p.parse (bs.drop n ++ t)).1, (p.parse (bs.drop n ++ t)).2) := by
  rw [p.parse_unit (p.unit_append h t), List.drop_append_of_le_length (p.consumed_le h)]

/-- There are no more units than symbols. -/
theorem Parser.length_parse_le (p : Parser α β ε) (bs : List α) :
    (p.parse bs).1.length ≤ bs.length := by
  induction bs using Parser.parse.induct p with
  | case1 bs h => simp [p.parse_more h]
  | case2 bs e h => simp [p.parse_fail h]
  | case3 bs b n h ih =>
      have hpos := p.consumed_pos h
      have hle := p.consumed_le h
      rw [p.parse_unit h, List.length_cons]
      rw [List.length_drop] at ih
      omega

/-! ### The decoder -/

/-- A decoder between two calls: the symbols no unit has consumed, and the error it
reported, if any. -/
structure Decoder (α ε : Type*) where
  buf : List α
  poison : Option ε

/-- A decoder that has seen nothing. -/
def Decoder.fresh : Decoder α ε :=
  ⟨[], none⟩

/-- Append symbols to the buffer; nothing is interpreted. -/
def Decoder.feed (d : Decoder α ε) (bs : List α) : Decoder α ε :=
  { d with buf := d.buf ++ bs }

/-- Ask for the next unit. An error is latched and the buffer dropped. -/
def Decoder.pull (p : Parser α β ε) (d : Decoder α ε) :
    Except ε (Option β) × Decoder α ε :=
  match d.poison with
  | some e => (.error e, d)
  | none =>
    match p.next d.buf with
    | .more => (.ok none, d)
    | .fail e => (.error e, ⟨[], some e⟩)
    | .unit b n => (.ok (some b), ⟨d.buf.drop n, none⟩)

/-- One call on a decoder. -/
inductive Op (α : Type*)
  | feed (bs : List α)
  | pull

/-- The symbols a schedule feeds, in order. -/
def fed : List (Op α) → List α
  | [] => []
  | .feed bs :: ops => bs ++ fed ops
  | .pull :: ops => fed ops

/-- Run a schedule on anything that can be fed and pulled, collecting the answers of
the pulls. -/
def runWith {D : Type*} (feed : D → List α → D)
    (pull : D → Except ε (Option β) × D) :
    D → List (Op α) → List (Except ε (Option β)) × D
  | d, [] => ([], d)
  | d, .feed bs :: ops => runWith feed pull (feed d bs) ops
  | d, .pull :: ops =>
    ((pull d).1 :: (runWith feed pull (pull d).2 ops).1, (runWith feed pull (pull d).2 ops).2)

/-- Run a schedule on the decoder of a unit parser. -/
def run (p : Parser α β ε) : Decoder α ε → List (Op α) →
    List (Except ε (Option β)) × Decoder α ε :=
  runWith Decoder.feed (Decoder.pull p)

/-- One pull, then the rest of the schedule. -/
theorem run_pull {p : Parser α β ε} {d d' : Decoder α ε} {o : Except ε (Option β)}
    (h : d.pull p = (o, d')) (ops : List (Op α)) :
    run p d (.pull :: ops) = (o :: (run p d' ops).1, (run p d' ops).2) := by
  simp only [run, runWith, h]

/-- The units handed out before the first error. -/
def units : List (Except ε (Option β)) → List β
  | [] => []
  | .error _ :: _ => []
  | .ok none :: outs => units outs
  | .ok (some b) :: outs => b :: units outs

/-- The first error handed out. -/
def firstError : List (Except ε (Option β)) → Option ε
  | [] => none
  | .error e :: _ => some e
  | .ok _ :: outs => firstError outs

@[simp] theorem fed_append (ops₁ ops₂ : List (Op α)) :
    fed (ops₁ ++ ops₂) = fed ops₁ ++ fed ops₂ := by
  induction ops₁ with
  | nil => rfl
  | cons op ops ih => cases op <;> simp [fed, ih]

@[simp] theorem fed_replicate_pull (k : ℕ) :
    fed (List.replicate k (Op.pull : Op α)) = [] := by
  induction k with
  | zero => rfl
  | succ k ih => simpa [List.replicate_succ, fed] using ih

/-- Two schedules in a row. -/
theorem runWith_append {D : Type*} (feed : D → List α → D)
    (pull : D → Except ε (Option β) × D) (d : D) (ops₁ ops₂ : List (Op α)) :
    runWith feed pull d (ops₁ ++ ops₂) =
      ((runWith feed pull d ops₁).1 ++
          (runWith feed pull (runWith feed pull d ops₁).2 ops₂).1,
        (runWith feed pull (runWith feed pull d ops₁).2 ops₂).2) := by
  induction ops₁ generalizing d with
  | nil => simp [runWith]
  | cons op ops ih => cases op <;> simp [runWith, ih]

/-- **Simulation.** A decoder whose feeds and pulls project to those of `Decoder`
gives the same answers on every schedule. -/
theorem runWith_eq_run {D : Type*} (feed : D → List α → D)
    (pull : D → Except ε (Option β) × D) (p : Parser α β ε) (view : D → Decoder α ε)
    (good : D → Prop) (good_feed : ∀ d bs, good d → good (feed d bs))
    (good_pull : ∀ d, good d → good (pull d).2)
    (view_feed : ∀ d bs, good d → view (feed d bs) = (view d).feed bs)
    (view_pull : ∀ d, good d →
      ((pull d).1, view (pull d).2) = (view d).pull p) (d : D) (hd : good d)
    (ops : List (Op α)) :
    ((runWith feed pull d ops).1, view (runWith feed pull d ops).2) =
      run p (view d) ops := by
  induction ops generalizing d with
  | nil => rfl
  | cons op ops ih =>
      cases op with
      | feed bs =>
          have h := ih (feed d bs) (good_feed d bs hd)
          rw [view_feed d bs hd] at h
          exact h
      | pull =>
          have h := ih (pull d).2 (good_pull d hd)
          have hp := view_pull d hd
          simp only [runWith, run] at h ⊢
          rw [← hp]
          simp only [← h]

/-! ### Every schedule hands out an initial part of the parse -/

/-- A poisoned decoder repeats its error, whatever it is fed. -/
theorem run_poisoned {p : Parser α β ε} {d : Decoder α ε} {e : ε}
    (hd : d.poison = some e) (ops : List (Op α)) :
    (∀ out ∈ (run p d ops).1, out = .error e) ∧ (run p d ops).2.poison = some e := by
  induction ops generalizing d with
  | nil => simpa [run, runWith] using hd
  | cons op ops ih =>
      cases op with
      | feed bs => exact ih (d := d.feed bs) hd
      | pull =>
          have hpull : d.pull p = (.error e, d) := by rw [Decoder.pull, hd]
          obtain ⟨hout, hend⟩ := ih hd
          rw [run_pull hpull]
          exact ⟨by simpa using hout, hend⟩

/-- **Every schedule hands out an initial part of the parse** of what was buffered and
fed. Without an error, what is left to hand out is the parse of the final buffer; with
one, everything before it has been handed out and the decoder stays poisoned. -/
theorem run_parse (p : Parser α β ε) (d : Decoder α ε) (hd : d.poison = none)
    (ops : List (Op α)) :
    (firstError (run p d ops).1 = none ∧ (run p d ops).2.poison = none ∧
      p.parse (d.buf ++ fed ops) =
        (units (run p d ops).1 ++ (p.parse (run p d ops).2.buf).1,
          (p.parse (run p d ops).2.buf).2)) ∨
    ∃ e, firstError (run p d ops).1 = some e ∧ (run p d ops).2.poison = some e ∧
      (p.parse (d.buf ++ fed ops)).1 = units (run p d ops).1 ∧
      (p.parse (d.buf ++ fed ops)).2.1 = some e := by
  induction ops generalizing d with
  | nil => exact Or.inl ⟨rfl, hd, by simp [run, runWith, units, fed]⟩
  | cons op ops ih =>
      cases op with
      | feed bs =>
          have h := ih (d.feed bs) hd
          simp only [Decoder.feed, List.append_assoc] at h
          exact h
      | pull =>
          cases hn : p.next d.buf with
          | more =>
              have hpull : d.pull p = (.ok none, d) := by simp only [Decoder.pull, hd, hn]
              rw [run_pull hpull]
              exact ih d hd
          | fail e =>
              have hpull : d.pull p = (.error e, ⟨[], some e⟩) := by
                simp only [Decoder.pull, hd, hn]
              have hend := (run_poisoned (p := p) (d := ⟨[], some e⟩) rfl ops).2
              rw [run_pull hpull, p.parse_fail (p.fail_append hn _)]
              exact Or.inr ⟨e, rfl, hend, rfl, rfl⟩
          | unit b n =>
              have hpull : d.pull p = (.ok (some b), ⟨d.buf.drop n, none⟩) := by
                simp only [Decoder.pull, hd, hn]
              rw [run_pull hpull, fed, p.parse_append_unit hn]
              -- the unit comes off the front of the parse and of the hand-outs alike
              rcases ih ⟨d.buf.drop n, none⟩ rfl with
                ⟨hf, hp, hparse⟩ | ⟨e, hf, hp, hunits, herr⟩
              · exact Or.inl ⟨hf, hp, by rw [hparse]; rfl⟩
              · exact Or.inr ⟨e, hf, hp, by rw [hunits]; rfl, herr⟩

/-- The units handed out are the first units of the parse. -/
theorem units_run_prefix (p : Parser α β ε) (ops : List (Op α)) :
    units (run p .fresh ops).1 <+: (p.parse (fed ops)).1 := by
  rcases run_parse p .fresh rfl ops with ⟨-, -, hparse⟩ | ⟨e, -, -, hunits, -⟩
  · simp only [Decoder.fresh, List.nil_append] at hparse
    rw [hparse]
    exact List.prefix_append _ _
  · simp only [Decoder.fresh, List.nil_append] at hunits
    rw [hunits]
    exact List.prefix_rfl

/-- The first error handed out is the error of the parse, and all its units came
before it. -/
theorem run_of_firstError (p : Parser α β ε) {ops : List (Op α)} {e : ε}
    (h : firstError (run p .fresh ops).1 = some e) :
    units (run p .fresh ops).1 = (p.parse (fed ops)).1 ∧
      (p.parse (fed ops)).2.1 = some e ∧ (run p .fresh ops).2.poison = some e := by
  rcases run_parse p .fresh rfl ops with ⟨hf, -, -⟩ | ⟨e', hf, hp, hunits, herr⟩
  · rw [h] at hf
    cases hf
  · rw [h] at hf
    obtain rfl : e = e' := Option.some.inj hf
    exact ⟨hunits.symm, herr, hp⟩

/-! ### Draining -/

/-- Pulling a decoder often enough hands out the whole parse of its buffer: one pull
for each unit, and one more for the error if there is one. -/
theorem run_pulls (p : Parser α β ε) (bs : List α) {k : ℕ}
    (hk : (p.parse bs).1.length ≤ k)
    (he : (p.parse bs).2.1 ≠ none → (p.parse bs).1.length < k) :
    units (run p ⟨bs, none⟩ (List.replicate k .pull)).1 = (p.parse bs).1 ∧
      firstError (run p ⟨bs, none⟩ (List.replicate k .pull)).1 = (p.parse bs).2.1 ∧
      (run p ⟨bs, none⟩ (List.replicate k .pull)).2.buf = (p.parse bs).2.2 := by
  induction bs using Parser.parse.induct p generalizing k with
  | case1 bs h =>
      rw [p.parse_more h]
      clear hk he
      have hpull : Decoder.pull p ⟨bs, none⟩ = (.ok none, ⟨bs, none⟩) := by
        simp only [Decoder.pull, h]
      induction k with
      | zero => exact ⟨rfl, rfl, rfl⟩
      | succ k ih =>
          rw [List.replicate_succ, run_pull hpull]
          exact ih
  | case2 bs e h =>
      rw [p.parse_fail h] at he ⊢
      obtain ⟨k, rfl⟩ : ∃ j, k = j + 1 := ⟨k - 1, by simp at he; omega⟩
      have hpull : Decoder.pull p ⟨bs, none⟩ = (.error e, ⟨[], some e⟩) := by
        simp only [Decoder.pull, h]
      have hstuck : Decoder.pull p ⟨[], some e⟩ = (.error e, ⟨[], some e⟩) := rfl
      have hbuf : ∀ j, (run p ⟨[], some e⟩ (List.replicate j .pull)).2.buf = [] := by
        intro j
        induction j with
        | zero => rfl
        | succ j ih =>
            rw [List.replicate_succ, run_pull hstuck]
            exact ih
      rw [List.replicate_succ, run_pull hpull]
      exact ⟨rfl, rfl, hbuf k⟩
  | case3 bs b n h ih =>
      rw [p.parse_unit h] at hk he ⊢
      simp only [List.length_cons] at hk he
      obtain ⟨k, rfl⟩ : ∃ j, k = j + 1 := ⟨k - 1, by omega⟩
      have hpull : Decoder.pull p ⟨bs, none⟩ = (.ok (some b), ⟨bs.drop n, none⟩) := by
        simp only [Decoder.pull, h]
      obtain ⟨h₁, h₂, h₃⟩ := ih (k := k) (by omega) (fun hne => by have := he hne; omega)
      rw [List.replicate_succ, run_pull hpull]
      exact ⟨by rw [units, h₁], h₂, h₃⟩

/-- Handing out in two halves, when the first half met no error. -/
theorem units_append {outs₁ : List (Except ε (Option β))}
    (outs₂ : List (Except ε (Option β))) (h : firstError outs₁ = none) :
    units (outs₁ ++ outs₂) = units outs₁ ++ units outs₂ ∧
      firstError (outs₁ ++ outs₂) = firstError outs₂ := by
  induction outs₁ with
  | nil => exact ⟨rfl, rfl⟩
  | cons out outs ih =>
      cases out with
      | error e => simp [firstError] at h
      | ok o =>
          obtain ⟨h₁, h₂⟩ := ih h
          cases o <;> simp [units, firstError, h₁, h₂]

/-- Handing out in two halves, when the first half met an error. -/
theorem units_append_of_firstError {outs₁ : List (Except ε (Option β))}
    (outs₂ : List (Except ε (Option β))) {e : ε} (h : firstError outs₁ = some e) :
    units (outs₁ ++ outs₂) = units outs₁ ∧ firstError (outs₁ ++ outs₂) = some e := by
  induction outs₁ with
  | nil => simp [firstError] at h
  | cons out outs ih =>
      cases out with
      | error e' => simpa [units, firstError] using h
      | ok o =>
          obtain ⟨h₁, h₂⟩ := ih h
          cases o <;> simp [units, firstError, h₁, h₂]

/-- **Enough pulls after the last feed hand out the whole parse**, whatever the
schedule before them was. -/
theorem run_drain (p : Parser α β ε) (ops : List (Op α)) {k : ℕ}
    (hk : (p.parse (fed ops)).1.length ≤ k)
    (he : (p.parse (fed ops)).2.1 ≠ none → (p.parse (fed ops)).1.length < k) :
    units (run p .fresh (ops ++ List.replicate k .pull)).1 = (p.parse (fed ops)).1 ∧
      firstError (run p .fresh (ops ++ List.replicate k .pull)).1 =
        (p.parse (fed ops)).2.1 ∧
      ((p.parse (fed ops)).2.1 = none →
        (run p .fresh (ops ++ List.replicate k .pull)).2.buf = (p.parse (fed ops)).2.2) := by
  have happ : run p .fresh (ops ++ List.replicate k .pull) =
      ((run p .fresh ops).1 ++ (run p (run p .fresh ops).2 (List.replicate k .pull)).1,
        (run p (run p .fresh ops).2 (List.replicate k .pull)).2) :=
    runWith_append _ _ _ _ _
  rw [happ]
  rcases run_parse p .fresh rfl ops with ⟨hf, hp, hparse⟩ | ⟨e, hf, -, hunits, herr⟩
  · change p.parse (fed ops) = _ at hparse
    generalize run p .fresh ops = r at hf hp hparse ⊢
    obtain ⟨outs, buf, poison⟩ := r
    obtain rfl : poison = none := hp
    have hlen := congrArg (fun r => r.1.length) hparse
    simp only [List.length_append] at hlen
    obtain ⟨h₁, h₂, h₃⟩ := run_pulls p buf (k := k) (by omega)
      (fun hne => by
        have := he (by rw [hparse]; exact hne)
        omega)
    obtain ⟨hu, hfe⟩ := units_append (run p ⟨buf, none⟩ (List.replicate k .pull)).1 hf
    simp only at hu hfe ⊢
    rw [hu, hfe, h₁, h₂, h₃, hparse]
    exact ⟨rfl, rfl, fun _ => rfl⟩
  · change (p.parse (fed ops)).1 = _ at hunits
    change (p.parse (fed ops)).2.1 = _ at herr
    obtain ⟨hu, hfe⟩ := units_append_of_firstError
      (run p (run p .fresh ops).2 (List.replicate k .pull)).1 hf
    rw [hu, hfe, hunits, herr]
    exact ⟨rfl, rfl, fun hne => by cases hne⟩

end Incremental
