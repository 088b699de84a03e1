import Tradr.BroadcastKey
import Tradr.Envelope
import Tradr.Fallible
import Tradr.StaticPeer

/-!
# Reading the Registry of Known Devices

`known-devices.json` keeps the devices met in a verified handshake. What is read back is not
trusted: the version, the identifiers, the keys, the names and the tiers of the records are checked
one after the other, and the first one that does not hold refuses the file. A key is decoded from
slices of its text at byte offsets, after the text's length in bytes was checked; a slice that does
not fall between characters panics.

## Main definitions

* `decodeHexExact`: a number of bytes from their digits.
* `KnownDevices.load`: the registry a file holds.
* `Straddles`: a text in which the first character that is no digit crosses a pair of bytes.

## Main results

* `decodeHexExact_eq_ok`, `decodeHexExact_eq_none`: what is decoded, and which texts panic.
* `load_eq_none`: which files panic.
* `load_answers_iff`: a file is answered exactly when no key that is reached straddles.
-/

namespace Tradr

/-! ### Calls that may panic -/

/-- What a call answers; nothing when it panics. -/
abbrev OrPanic (ε α : Type) := ExceptT ε Option α

namespace OrPanic

variable {ε α β : Type}

/-- A call that panicked. -/
def panicked : OrPanic ε α := ExceptT.mk none

/-- An answer that is there. -/
def of (x : Except ε α) : OrPanic ε α := ExceptT.mk (some x)

theorem of_eq {x y : Except ε α} : of x = of y ↔ x = y :=
  ⟨fun h => Option.some.inj h, fun h => h ▸ rfl⟩

theorem of_ne_panicked {x : Except ε α} : of x ≠ panicked := fun h => Option.some_ne_none x h

@[simp] theorem ok_bind (a : α) (f : α → OrPanic ε β) : (of (.ok a) >>= f) = f a := rfl

@[simp] theorem error_bind (e : ε) (f : α → OrPanic ε β) :
    (of (.error e) >>= f) = of (.error e) := rfl

@[simp] theorem panicked_bind (f : α → OrPanic ε β) : (panicked >>= f) = panicked := rfl

/-- A call panics, fails, or goes on. -/
theorem cases_of (x : OrPanic ε α) :
    x = panicked ∨ (∃ e, x = of (.error e)) ∨ ∃ a, x = of (.ok a) :=
  match x with
  | none => .inl rfl
  | some (.error e) => .inr (.inl ⟨e, rfl⟩)
  | some (.ok a) => .inr (.inr ⟨a, rfl⟩)

/-- Two calls panic when the first one does, or the second one after it. -/
theorem bind_eq_panicked {x : OrPanic ε α} {f : α → OrPanic ε β} :
    (x >>= f) = panicked ↔ x = panicked ∨ ∃ a, x = of (.ok a) ∧ f a = panicked := by
  rcases cases_of x with rfl | ⟨e, rfl⟩ | ⟨a, rfl⟩
  · exact ⟨fun _ => .inl rfl, fun _ => rfl⟩
  · rw [error_bind]
    refine ⟨fun h => absurd h of_ne_panicked, ?_⟩
    rintro (h | ⟨a, ha, -⟩)
    · exact absurd h of_ne_panicked
    · cases of_eq.mp ha
  · rw [ok_bind]
    refine ⟨fun h => .inr ⟨a, rfl, h⟩, ?_⟩
    rintro (h | ⟨a', ha, h⟩)
    · exact absurd h of_ne_panicked
    · obtain rfl := Except.ok.inj (of_eq.mp ha)
      exact h

/-- Two calls succeed when both do. -/
theorem bind_eq_ok {x : OrPanic ε α} {f : α → OrPanic ε β} {b : β} :
    (x >>= f) = of (.ok b) ↔ ∃ a, x = of (.ok a) ∧ f a = of (.ok b) := by
  rcases cases_of x with rfl | ⟨e, rfl⟩ | ⟨a, rfl⟩
  · rw [panicked_bind]
    refine ⟨fun h => absurd h.symm of_ne_panicked, ?_⟩
    rintro ⟨a, ha, -⟩
    exact absurd ha.symm of_ne_panicked
  · rw [error_bind]
    constructor
    · intro h
      cases of_eq.mp h
    · rintro ⟨a, ha, -⟩
      cases of_eq.mp ha
  · rw [ok_bind]
    refine ⟨fun h => ⟨a, rfl, h⟩, ?_⟩
    rintro ⟨a', ha, h⟩
    obtain rfl := Except.ok.inj (of_eq.mp ha)
    exact h

/-- A call with its error named otherwise. -/
def adapt {ε' : Type} (x : OrPanic ε α) (g : ε → ε') : OrPanic ε' α :=
  ExceptT.mk (Option.map (Except.mapError g) x)

theorem adapt_eq_panicked {ε' : Type} {x : OrPanic ε α} {g : ε → ε'} :
    x.adapt g = panicked ↔ x = panicked := by
  rcases cases_of x with rfl | ⟨e, rfl⟩ | ⟨a, rfl⟩
  · exact ⟨fun _ => rfl, fun _ => rfl⟩
  · exact ⟨fun h => absurd h of_ne_panicked, fun h => absurd h of_ne_panicked⟩
  · exact ⟨fun h => absurd h of_ne_panicked, fun h => absurd h of_ne_panicked⟩

theorem adapt_eq_ok {ε' : Type} {x : OrPanic ε α} {g : ε → ε'} {a : α} :
    x.adapt g = of (.ok a) ↔ x = of (.ok a) := by
  rcases cases_of x with rfl | ⟨e, rfl⟩ | ⟨b, rfl⟩
  · exact ⟨fun h => absurd h.symm of_ne_panicked, fun h => absurd h.symm of_ne_panicked⟩
  · exact ⟨fun h => (by cases of_eq.mp h), fun h => (by cases of_eq.mp h)⟩
  · exact ⟨fun h => congrArg (fun y => of (.ok y)) (Except.ok.inj (of_eq.mp h)),
      fun h => congrArg (fun y => of (.ok y)) (Except.ok.inj (of_eq.mp h))⟩

end OrPanic

/-! ### Slices -/

/-- The text after some bytes; nothing when they end inside a character or past the end. -/
def dropBytes : Text → ℕ → Option Text
  | s, 0 => some s
  | [], _ + 1 => none
  | c :: s, n + 1 => if c.utf8Size ≤ n + 1 then dropBytes s (n + 1 - c.utf8Size) else none

/-- The first bytes of a text; nothing when they end inside a character or past the end. -/
def takeBytes : Text → ℕ → Option Text
  | _, 0 => some []
  | [], _ + 1 => none
  | c :: s, n + 1 =>
    if c.utf8Size ≤ n + 1 then (takeBytes s (n + 1 - c.utf8Size)).map (c :: ·) else none

/-- The characters between two byte offsets. -/
def sliceBytes (s : Text) (start stop : ℕ) : Option Text :=
  (dropBytes s start).bind fun rest => takeBytes rest (stop - start)

/-- What follows a text is what is left after its bytes. -/
theorem dropBytes_append (s rest : Text) : dropBytes (s ++ rest) (utf8Len s) = some rest := by
  induction s with
  | nil => cases rest <;> rfl
  | cons c s ih =>
    have hpos : 0 < c.utf8Size := c.utf8Size_pos
    have hlen : utf8Len (c :: s) = c.utf8Size + utf8Len s := by
      rw [utf8Len, List.map_cons, List.sum_cons, utf8Len]
    obtain ⟨n, hn⟩ : ∃ n, utf8Len (c :: s) = n + 1 := ⟨utf8Len (c :: s) - 1, by omega⟩
    rw [hn, List.cons_append, dropBytes, if_pos (by omega),
      show n + 1 - c.utf8Size = utf8Len s by omega, ih]

@[simp] theorem takeBytes_zero (s : Text) : takeBytes s 0 = some [] := by cases s <;> rfl

/-- Two bytes of a text: two characters of one byte each, or one of two. -/
theorem takeBytes_two (c : Char) (s : Text) : takeBytes (c :: s) 2 =
    if c.utf8Size = 2 then some [c]
    else if c.utf8Size = 1 then
      match s with
      | [] => none
      | d :: _ => if d.utf8Size = 1 then some [c, d] else none
    else none := by
  have hpos : 0 < c.utf8Size := c.utf8Size_pos
  rw [takeBytes]
  split_ifs with h₁ h₂ h₃
  · rw [h₂, takeBytes_zero]
    rfl
  · rw [h₃]
    cases s with
    | nil => rfl
    | cons d s =>
      have hd : 0 < d.utf8Size := d.utf8Size_pos
      dsimp only
      rw [takeBytes]
      split_ifs with h₄ h₅ h₆
      · rw [h₅, takeBytes_zero]
        rfl
      all_goals first | omega | rfl
  all_goals first | omega | rfl

/-! ### Digits -/

/-- Why a text is not a number of bytes. -/
inductive HexError
  | wrongLength (expected got : ℕ)
  | invalidCharacter (pair : Text)
  deriving DecidableEq

/-- The byte of a pair of digits; a single character of two bytes is no pair of digits. -/
def hexPair : Text → Option UInt8
  | [hi, lo] => do
    let h ← hexDigit hi
    let l ← hexDigit lo
    return h * 16 + l
  | _ => none

/-- The bytes of some pairs of a text. -/
def decodePairs (s : Text) : List ℕ → OrPanic HexError (List UInt8)
  | [] => .of (.ok [])
  | i :: is =>
    match sliceBytes s (i * 2) (i * 2 + 2) with
    | none => .panicked
    | some pair =>
      match hexPair pair with
      | none => .of (.error (.invalidCharacter pair))
      | some byte => do
        let bytes ← decodePairs s is
        .of (.ok (byte :: bytes))

/-- Exactly `n` bytes from the digits of a text. -/
def decodeHexExact (n : ℕ) (s : Text) : OrPanic HexError (List UInt8) :=
  if utf8Len s ≠ n * 2 then .of (.error (.wrongLength (n * 2) (utf8Len s)))
  else decodePairs s (List.range n)

/-- A text in which the first character that is no digit crosses a pair of bytes: an even number
of digits, then a character of more than two bytes, or one of one byte and then a longer one. -/
def Straddles (s : Text) : Prop :=
  ∃ digits c rest, s = digits ++ c :: rest ∧ (hexBytes digits).isSome ∧
    (2 < c.utf8Size ∨ c.utf8Size = 1 ∧ ∃ d more, rest = d :: more ∧ 1 < d.utf8Size)

/-- The bytes of a text, two at a time from its head. -/
def readPairs : Text → OrPanic HexError (List UInt8)
  | [] => .of (.ok [])
  | [c] => if c.utf8Size = 2 then .of (.error (.invalidCharacter [c])) else .panicked
  | c :: d :: rest =>
    if c.utf8Size = 2 then .of (.error (.invalidCharacter [c]))
    else if c.utf8Size = 1 ∧ d.utf8Size = 1 then
      match hexPair [c, d] with
      | none => .of (.error (.invalidCharacter [c, d]))
      | some byte => do
        let bytes ← readPairs rest
        .of (.ok (byte :: bytes))
    else .panicked

/-- A digit is of one byte. -/
theorem utf8Size_of_hexDigit {c : Char} {v : UInt8} (h : hexDigit c = some v) :
    c.utf8Size = 1 := by
  have hle : c.toNat ≤ 127 := by
    unfold hexDigit at h
    split_ifs at h with h₁ h₂ h₃
    · exact le_trans (show c.toNat ≤ '9'.toNat from h₁.2) (by decide)
    · exact le_trans (show c.toNat ≤ 'f'.toNat from h₂.2) (by decide)
    · exact le_trans (show c.toNat ≤ 'F'.toNat from h₃.2) (by decide)
  exact Char.utf8Size_eq_one_iff.mpr (UInt32.le_iff_toNat_le.mpr hle)

/-- The digits of a pair. -/
theorem hexPair_eq_some {c d : Char} {byte : UInt8} :
    hexPair [c, d] = some byte ↔
      ∃ h l, hexDigit c = some h ∧ hexDigit d = some l ∧ byte = h * 16 + l := by
  rw [hexPair]
  cases hexDigit c with
  | none => simp
  | some h =>
    cases hexDigit d with
    | none => simp
    | some l => simp [eq_comm]

/-- The digits of a pair and of those after it. -/
theorem hexBytes_cons_cons {c d : Char} {rest : Text} :
    hexBytes (c :: d :: rest) = (hexPair [c, d]).bind fun byte =>
      (hexBytes rest).map fun bytes => byte :: bytes := by
  rw [hexBytes, hexPair]
  cases hexDigit c with
  | none => rfl
  | some h =>
    cases hexDigit d with
    | none => rfl
    | some l => cases hexBytes rest <;> rfl

@[simp] theorem utf8Len_nil : utf8Len [] = 0 := rfl

/-- The length of a text in bytes, one character after the other. -/
theorem utf8Len_cons (c : Char) (s : Text) : utf8Len (c :: s) = c.utf8Size + utf8Len s := by
  rw [utf8Len, List.map_cons, List.sum_cons, utf8Len]

theorem utf8Len_append (s t : Text) : utf8Len (s ++ t) = utf8Len s + utf8Len t := by
  rw [utf8Len, List.map_append, List.sum_append, utf8Len, utf8Len]

/-- **The pairs from an offset on** are read from what follows it. -/
theorem decodePairs_eq (m : ℕ) (before rest : Text) (k : ℕ) (hbefore : utf8Len before = k * 2)
    (hrest : utf8Len rest = m * 2) :
    decodePairs (before ++ rest) (List.range' k m) = readPairs rest := by
  induction m generalizing before rest k with
  | zero =>
    cases rest with
    | nil => rfl
    | cons c rest =>
      have hpos := c.utf8Size_pos
      rw [utf8Len_cons] at hrest
      omega
  | succ m ih =>
    have hslice : sliceBytes (before ++ rest) (k * 2) (k * 2 + 2) = takeBytes rest 2 := by
      rw [sliceBytes, ← hbefore, dropBytes_append, Option.bind_some, Nat.add_sub_cancel_left]
    rw [List.range'_succ, decodePairs, hslice]
    cases rest with
    | nil =>
      rw [utf8Len_nil] at hrest
      omega
    | cons c rest =>
      rw [takeBytes_two]
      have hc := c.utf8Size_pos
      rw [utf8Len_cons] at hrest
      by_cases htwo : c.utf8Size = 2
      · rw [if_pos htwo]
        cases rest with
        | nil => rw [readPairs, if_pos htwo]; rfl
        | cons d rest => rw [readPairs, if_pos htwo]; rfl
      by_cases hone : c.utf8Size = 1
      · rw [if_neg htwo, if_pos hone]
        cases rest with
        | nil =>
          rw [utf8Len_nil] at hrest
          omega
        | cons d rest =>
          rw [utf8Len_cons] at hrest
          have hd := d.utf8Size_pos
          rw [readPairs, if_neg htwo]
          by_cases hd' : d.utf8Size = 1
          · have hpairs : decodePairs (before ++ c :: d :: rest) (List.range' (k + 1) m) =
                readPairs rest := by
              have happend : before ++ c :: d :: rest = (before ++ [c, d]) ++ rest := by simp
              rw [happend]
              refine ih (before ++ [c, d]) rest (k + 1) ?_ (by omega)
              rw [utf8Len_append, utf8Len_cons, utf8Len_cons, utf8Len_nil]
              omega
            rw [if_pos ⟨hone, hd'⟩, hpairs]
            dsimp only
            rw [if_pos hd']
          · rw [if_neg fun h => hd' h.2]
            dsimp only
            rw [if_neg hd']
      · rw [if_neg htwo, if_neg hone]
        cases rest with
        | nil => rw [readPairs, if_neg htwo]
        | cons d rest => rw [readPairs, if_neg htwo, if_neg fun h => hone h.1]

/-- **Decoding reads the pairs** of a text of the right length. -/
theorem decodeHexExact_eq {n : ℕ} {s : Text} (h : utf8Len s = n * 2) :
    decodeHexExact n s = readPairs s := by
  rw [decodeHexExact, if_neg (not_not.mpr h), List.range_eq_range']
  exact decodePairs_eq n [] s 0 rfl h

/-- The bytes of pairs of digits. -/
theorem readPairs_eq_ok {s : Text} {bytes : List UInt8} :
    readPairs s = .of (.ok bytes) ↔ hexBytes s = some bytes := by
  induction s using readPairs.induct generalizing bytes with
  | case1 =>
    rw [readPairs, OrPanic.of_eq, hexBytes]
    simp
  | case2 c htwo =>
    rw [readPairs, if_pos htwo, hexBytes]
    exact ⟨fun h => (by cases OrPanic.of_eq.mp h), fun h => (by cases h)⟩
  | case3 c htwo =>
    rw [readPairs, if_neg htwo, hexBytes]
    exact ⟨fun h => absurd h.symm OrPanic.of_ne_panicked, fun h => (by cases h)⟩
  | case4 c d rest htwo =>
    rw [readPairs, if_pos htwo, hexBytes_cons_cons]
    refine ⟨fun h => (by cases OrPanic.of_eq.mp h), fun h => ?_⟩
    obtain ⟨byte, hpair, -⟩ := Option.bind_eq_some_iff.mp h
    obtain ⟨hi, lo, hhi, -⟩ := hexPair_eq_some.mp hpair
    rw [utf8Size_of_hexDigit hhi] at htwo
    omega
  | case5 c d rest htwo hone hpair =>
    rw [readPairs, if_neg htwo, if_pos hone, hpair, hexBytes_cons_cons, hpair]
    refine ⟨fun h => (by cases OrPanic.of_eq.mp h), fun h => (by cases h)⟩
  | case6 c d rest htwo hone byte hpair ih =>
    rw [readPairs, if_neg htwo, if_pos hone, hpair, hexBytes_cons_cons, hpair, Option.bind_some]
    dsimp only
    rw [OrPanic.bind_eq_ok, Option.map_eq_some_iff]
    constructor
    · rintro ⟨more, hmore, hbytes⟩
      exact ⟨more, ih.mp hmore, Except.ok.inj (OrPanic.of_eq.mp hbytes)⟩
    · rintro ⟨more, hmore, rfl⟩
      exact ⟨more, ih.mpr hmore, rfl⟩
  | case7 c d rest htwo hone =>
    rw [readPairs, if_neg htwo, if_neg hone, hexBytes_cons_cons]
    refine ⟨fun h => absurd h.symm OrPanic.of_ne_panicked, fun h => ?_⟩
    obtain ⟨byte, hpair, -⟩ := Option.bind_eq_some_iff.mp h
    obtain ⟨hi, lo, hhi, hlo, -⟩ := hexPair_eq_some.mp hpair
    exact absurd ⟨utf8Size_of_hexDigit hhi, utf8Size_of_hexDigit hlo⟩ hone

/-- Where the digits are of an even number of bytes, so are their texts. -/
theorem hexBytes_isSome_cons_cons {c d : Char} {rest : Text} :
    (hexBytes (c :: d :: rest)).isSome ↔
      (hexPair [c, d]).isSome ∧ (hexBytes rest).isSome := by
  rw [hexBytes_cons_cons]
  cases hexPair [c, d] with
  | none => simp
  | some byte => simp

/-- A text straddles at its first pair or after a pair of digits. -/
theorem straddles_cons_cons {c d : Char} {rest : Text} :
    Straddles (c :: d :: rest) ↔
      2 < c.utf8Size ∨ (c.utf8Size = 1 ∧ 1 < d.utf8Size) ∨
        ((hexPair [c, d]).isSome ∧ Straddles rest) := by
  constructor
  · rintro ⟨digits, c', more, hsplit, hdigits, hcross⟩
    rcases digits with _ | ⟨hi, _ | ⟨lo, digits⟩⟩
    · obtain ⟨rfl, rfl⟩ := List.cons.inj hsplit
      rcases hcross with hlong | ⟨hone, d', more, hmore, hlong⟩
      · exact .inl hlong
      · obtain ⟨rfl, rfl⟩ := List.cons.inj hmore
        exact .inr (.inl ⟨hone, hlong⟩)
    · cases hdigits
    · rw [List.cons_append, List.cons_append, List.cons.injEq, List.cons.injEq] at hsplit
      obtain ⟨rfl, rfl, rfl⟩ := hsplit
      obtain ⟨hpair, hdigits⟩ := hexBytes_isSome_cons_cons.mp hdigits
      exact .inr (.inr ⟨hpair, digits, c', more, rfl, hdigits, hcross⟩)
  · rintro (hlong | ⟨hone, hlong⟩ | ⟨hpair, digits, c', more, rfl, hdigits, hcross⟩)
    · exact ⟨[], c, d :: rest, rfl, rfl, .inl hlong⟩
    · exact ⟨[], c, d :: rest, rfl, rfl, .inr ⟨hone, d, rest, rfl, hlong⟩⟩
    · exact ⟨c :: d :: digits, c', more, rfl, hexBytes_isSome_cons_cons.mpr ⟨hpair, hdigits⟩,
        hcross⟩

/-- **Pairs panic where the text straddles.** -/
theorem readPairs_eq_panicked {s : Text} (heven : utf8Len s % 2 = 0) :
    readPairs s = .panicked ↔ Straddles s := by
  induction s using readPairs.induct with
  | case1 =>
    rw [readPairs]
    refine ⟨fun h => absurd h OrPanic.of_ne_panicked, ?_⟩
    rintro ⟨digits, c, rest, hsplit, -⟩
    cases digits <;> cases hsplit
  | case2 c htwo =>
    rw [readPairs, if_pos htwo]
    refine ⟨fun h => absurd h OrPanic.of_ne_panicked, ?_⟩
    rintro ⟨digits, c', rest, hsplit, -, hcross⟩
    rcases digits with _ | ⟨hi, digits⟩
    · obtain ⟨rfl, rfl⟩ := List.cons.inj hsplit
      omega
    · obtain ⟨-, hsplit⟩ := List.cons.inj hsplit
      cases digits <;> cases hsplit
  | case3 c htwo =>
    have hc := c.utf8Size_pos
    rw [utf8Len_cons, utf8Len_nil, Nat.add_zero] at heven
    rw [readPairs, if_neg htwo]
    exact ⟨fun _ => ⟨[], c, [], rfl, rfl, .inl (by omega)⟩, fun _ => rfl⟩
  | case4 c d rest htwo =>
    rw [readPairs, if_pos htwo, straddles_cons_cons]
    refine ⟨fun h => absurd h OrPanic.of_ne_panicked, ?_⟩
    rintro (hlong | ⟨hone, -⟩ | ⟨hpair, -⟩)
    · omega
    · omega
    · obtain ⟨byte, hpair⟩ := Option.isSome_iff_exists.mp hpair
      obtain ⟨hi, lo, hhi, -⟩ := hexPair_eq_some.mp hpair
      rw [utf8Size_of_hexDigit hhi] at htwo
      omega
  | case5 c d rest htwo hone hpair =>
    rw [readPairs, if_neg htwo, if_pos hone, hpair, straddles_cons_cons, hpair]
    refine ⟨fun h => absurd h OrPanic.of_ne_panicked, ?_⟩
    rintro (hlong | ⟨-, hlong⟩ | ⟨hsome, -⟩)
    · omega
    · omega
    · cases hsome
  | case6 c d rest htwo hone byte hpair ih =>
    rw [utf8Len_cons, utf8Len_cons, hone.1, hone.2] at heven
    rw [readPairs, if_neg htwo, if_pos hone, hpair, straddles_cons_cons, hpair, ← ih (by omega)]
    dsimp only
    rw [OrPanic.bind_eq_panicked]
    constructor
    · rintro (h | ⟨bytes, -, h⟩)
      · exact .inr (.inr ⟨rfl, h⟩)
      · exact absurd h OrPanic.of_ne_panicked
    · rintro (hlong | ⟨-, hlong⟩ | ⟨-, h⟩)
      · omega
      · omega
      · exact .inl h
  | case7 c d rest htwo hone =>
    have hc := c.utf8Size_pos
    have hd := d.utf8Size_pos
    rw [readPairs, if_neg htwo, if_neg hone, straddles_cons_cons]
    refine ⟨fun _ => ?_, fun _ => rfl⟩
    by_cases hlong : 2 < c.utf8Size
    · exact .inl hlong
    · exact .inr (.inl ⟨by omega, by omega⟩)

/-- Digits are of one byte each. -/
theorem utf8Len_of_hexBytes {s : Text} {bytes : List UInt8} (h : hexBytes s = some bytes) :
    utf8Len s = bytes.length * 2 := by
  induction s using hexBytes.induct generalizing bytes with
  | case1 =>
    obtain rfl := Option.some.inj h
    rfl
  | case2 c => cases h
  | case3 hi lo rest ih =>
    rw [hexBytes_cons_cons] at h
    obtain ⟨byte, hpair, h⟩ := Option.bind_eq_some_iff.mp h
    obtain ⟨more, hmore, rfl⟩ := Option.map_eq_some_iff.mp h
    obtain ⟨u, v, hhi, hlo, -⟩ := hexPair_eq_some.mp hpair
    rw [utf8Len_cons, utf8Len_cons, utf8Size_of_hexDigit hhi, utf8Size_of_hexDigit hlo, ih hmore,
      List.length_cons]
    omega

/-- **What is decoded** are exactly twice as many digits as there are bytes. -/
theorem decodeHexExact_eq_ok {n : ℕ} {s : Text} {bytes : List UInt8} :
    decodeHexExact n s = .of (.ok bytes) ↔ bytes.length = n ∧ hexBytes s = some bytes := by
  by_cases hlen : utf8Len s = n * 2
  · rw [decodeHexExact_eq hlen, readPairs_eq_ok]
    refine ⟨fun h => ⟨?_, h⟩, And.right⟩
    have := utf8Len_of_hexBytes h
    omega
  · rw [decodeHexExact, if_pos hlen]
    constructor
    · intro h
      cases OrPanic.of_eq.mp h
    · rintro ⟨rfl, h⟩
      exact absurd (utf8Len_of_hexBytes h) hlen

/-- **What panics** are the texts of the right length that straddle. -/
theorem decodeHexExact_eq_panicked {n : ℕ} {s : Text} :
    decodeHexExact n s = .panicked ↔ utf8Len s = n * 2 ∧ Straddles s := by
  by_cases hlen : utf8Len s = n * 2
  · rw [decodeHexExact_eq hlen, readPairs_eq_panicked (by omega)]
    exact (and_iff_right hlen).symm
  · rw [decodeHexExact, if_pos hlen]
    exact ⟨fun h => absurd h OrPanic.of_ne_panicked, fun h => absurd h.1 hlen⟩

/-! ### Records -/

/-- A device met in a verified handshake. -/
structure KnownDevice where
  deviceId : DeviceId
  identity : PublicIdentity
  displayName : Option DisplayName
  tier : TrustTier
  lastSeen : UnixTime
  deriving DecidableEq

/-- The shape of a device on disk. -/
structure KnownDeviceRecord where
  deviceId : Text
  identityPub : Text
  agreementPub : Text
  displayName : Option Text
  tier : Text
  lastSeen : Int64
  deriving DecidableEq

/-- The whole file. -/
structure KnownDevicesFile where
  version : UInt32
  devices : List KnownDeviceRecord
  deriving DecidableEq

/-- The version that is written. -/
def knownDevicesVersion : UInt32 := 1

/-- What is wrong with a file. -/
inductive KnownDevicesMalformed
  | json (source : String)
  | deviceId (source : DeviceIdError)
  | key (source : HexError)
  | point (source : PublicKeyPointError)
  | displayName (source : BoundedStringError)
  | tier (other : Text)
  | duplicate (deviceId : DeviceId)
  deriving DecidableEq

/-- An error of the registry. -/
inductive KnownDevicesError
  | malformed (reason : KnownDevicesMalformed)
  | unknownVersion (version : UInt32)
  | mismatchedDeviceId (expected found : DeviceId)
  | invalidTier (tier : TrustTier)
  | cleanupFailed (original cleanup : String)
  | io (source : String)
  deriving DecidableEq

/-- A file as bytes and back. -/
structure KnownDevicesJson where
  fromSlice : List UInt8 → Except String KnownDevicesFile
  toVecPretty : KnownDevicesFile → Except String (List UInt8)

namespace KnownDevices

/-- A tier by its name. -/
def parseTier (name : Text) : Except KnownDevicesError TrustTier :=
  if name = "same-account".toList ∨ name = "SameAccount".toList then .ok .sameAccount
  else if name = "linked".toList ∨ name = "Linked".toList then .ok .linked
  else if name = "nearby-ephemeral".toList ∨ name = "NearbyEphemeral".toList then
    .error (.invalidTier .nearbyEphemeral)
  else if name = "rejected".toList ∨ name = "Rejected".toList then
    .error (.invalidTier .rejected)
  else .error (.malformed (.tier name))

/-- The bytes of a key, whose digits are wrong in a way of their own. -/
def decodeKey (s : Text) : OrPanic KnownDevicesError (List UInt8) :=
  (decodeHexExact publicKeyPointLen s).adapt fun e => .malformed (.key e)

/-- A key from its digits. -/
def readKey (s : Text) : OrPanic KnownDevicesError PublicKeyPoint := do
  let bytes ← decodeKey s
  .of ((PublicKeyPoint.fromBytes bytes).mapError fun e => .malformed (.point e))

/-- A name, where there is one. -/
def readDisplayName : Option Text → Except KnownDevicesError (Option DisplayName)
  | none => .ok none
  | some name =>
    match DisplayName.new name with
    | .error e => .error (.malformed (.displayName e))
    | .ok name => .ok (some name)

/-- The device of a record. -/
def fromRecord (blake3 : Blake3) (record : KnownDeviceRecord) :
    OrPanic KnownDevicesError KnownDevice := do
  let recordDeviceId ←
    .of ((DeviceId.fromStr record.deviceId).mapError fun e => .malformed (.deviceId e))
  let identityPub ← readKey record.identityPub
  let derivedId := blake3.deviceIdOf identityPub
  if recordDeviceId ≠ derivedId then
    .of (.error (.mismatchedDeviceId derivedId recordDeviceId))
  else do
    let agreementPub ← readKey record.agreementPub
    let displayName ← .of (readDisplayName record.displayName)
    let tier ← .of (parseTier record.tier)
    .of (.ok ⟨recordDeviceId, ⟨identityPub, agreementPub, derivedId⟩, displayName, tier,
      ⟨record.lastSeen⟩⟩)

/-- Read the records of a file after the devices that were read before. -/
def loadRecords (blake3 : Blake3) :
    List KnownDevice → List KnownDeviceRecord → OrPanic KnownDevicesError (List KnownDevice)
  | devices, [] => .of (.ok devices)
  | devices, record :: records => do
    let device ← fromRecord blake3 record
    if devices.any fun d => d.deviceId = device.deviceId then
      .of (.error (.malformed (.duplicate device.deviceId)))
    else loadRecords blake3 (devices ++ [device]) records

/-- The order of devices: the last one seen first, then by identifier. -/
def deviceCmp : KnownDevice → KnownDevice → Ordering :=
  compareLex (fun a b => compareOn (fun d : KnownDevice => d.lastSeen.secs) b a)
    (compareOn fun d : KnownDevice => d.deviceId.bytes.val)

/-- The devices in their order. -/
def sortDevices (devices : List KnownDevice) : List KnownDevice :=
  devices.mergeSort fun a b => (deviceCmp a b).isLE

end KnownDevices

/-- What reading a file gives. -/
inductive FileRead
  | missing
  | failed (source : String)
  | bytes (content : List UInt8)

/-- The devices a file holds. -/
def KnownDevices.load (json : KnownDevicesJson) (blake3 : Blake3) :
    FileRead → OrPanic KnownDevicesError (List KnownDevice)
  | .missing => .of (.ok [])
  | .failed e => .of (.error (.io e))
  | .bytes content => do
    let file ← .of ((json.fromSlice content).mapError fun e => .malformed (.json e))
    if file.version ≠ knownDevicesVersion then .of (.error (.unknownVersion file.version))
    else do
      let devices ← loadRecords blake3 [] file.devices
      .of (.ok (sortDevices devices))

/-! ### Which files are read -/

/-- A key whose slices do not all fall between characters. -/
def StraddlingKey (s : Text) : Prop := utf8Len s = publicKeyPointLen * 2 ∧ Straddles s

/-- The digits of a key. -/
def KeyDigits (s : Text) (key : PublicKeyPoint) : Prop := hexBytes s = some key.bytes.val

/-- A record of the device with this identifier that nothing is wrong with. -/
structure KnownDeviceRecord.Readable (blake3 : Blake3) (record : KnownDeviceRecord)
    (id : DeviceId) : Prop where
  deviceId : DeviceId.fromStr record.deviceId = .ok id
  identityPub : ∃ key, KeyDigits record.identityPub key ∧ blake3.deviceIdOf key = id
  agreementPub : ∃ key, KeyDigits record.agreementPub key
  displayName : ∀ name ∈ record.displayName, validateBoundedString name displayNameMaxLen = none
  tier : record.tier ∈ ["same-account".toList, "SameAccount".toList, "linked".toList,
    "Linked".toList]

/-- A record with a straddling key that is reached: the identity key after an identifier, the
agreement key after the identity key the identifier is derived from. -/
def KnownDeviceRecord.Fatal (blake3 : Blake3) (record : KnownDeviceRecord) : Prop :=
  ∃ id, DeviceId.fromStr record.deviceId = .ok id ∧
    (StraddlingKey record.identityPub ∨
      (∃ key, KeyDigits record.identityPub key ∧ blake3.deviceIdOf key = id) ∧
        StraddlingKey record.agreementPub)

/-- A file of this version in which such a record comes after readable ones of distinct devices. -/
def KnownDevicesFile.Fatal (blake3 : Blake3) (file : KnownDevicesFile) : Prop :=
  file.version = knownDevicesVersion ∧ ∃ readable record rest ids,
    file.devices = readable ++ record :: rest ∧
    List.Forall₂ (KnownDeviceRecord.Readable blake3) readable ids ∧ ids.Nodup ∧
    record.Fatal blake3

namespace KnownDevices

variable {json : KnownDevicesJson} {blake3 : Blake3} {record : KnownDeviceRecord}

/-- A key's decoding. -/
theorem readKey_eq_ok {s : Text} {key : PublicKeyPoint} :
    readKey s = .of (.ok key) ↔ KeyDigits s key := by
  rw [readKey, OrPanic.bind_eq_ok]
  constructor
  · rintro ⟨bytes, hbytes, hkey⟩
    have hpoint := Fallible.mapError_eq_ok.mp (OrPanic.of_eq.mp hkey)
    obtain ⟨-, hdigits⟩ := decodeHexExact_eq_ok.mp (OrPanic.adapt_eq_ok.mp hbytes)
    unfold PublicKeyPoint.fromBytes at hpoint
    split_ifs at hpoint
    obtain rfl := Except.ok.inj hpoint
    exact hdigits
  · intro h
    refine ⟨key.bytes.val, ?_, ?_⟩
    · exact OrPanic.adapt_eq_ok.mpr (decodeHexExact_eq_ok.mpr ⟨key.bytes.property, h⟩)
    · rw [PublicKeyPoint.fromBytes_bytes]
      rfl

/-- A key whose decoding panics. -/
theorem readKey_eq_panicked {s : Text} : readKey s = .panicked ↔ StraddlingKey s := by
  rw [readKey, OrPanic.bind_eq_panicked, decodeKey, OrPanic.adapt_eq_panicked,
    decodeHexExact_eq_panicked, StraddlingKey]
  refine ⟨?_, .inl⟩
  rintro (h | ⟨bytes, -, h⟩)
  · exact h
  · exact absurd h OrPanic.of_ne_panicked

/-- A tier that may be stored. -/
theorem parseTier_eq_ok {name : Text} :
    (∃ tier, parseTier name = .ok tier) ↔ name ∈ ["same-account".toList, "SameAccount".toList,
      "linked".toList, "Linked".toList] := by
  unfold parseTier
  split_ifs with h₁ h₂ h₃ h₄
  · refine ⟨fun _ => ?_, fun _ => ⟨_, rfl⟩⟩
    rcases h₁ with rfl | rfl <;> decide
  · refine ⟨fun _ => ?_, fun _ => ⟨_, rfl⟩⟩
    rcases h₂ with rfl | rfl <;> decide
  · refine ⟨fun ⟨_, h⟩ => (by cases h), fun h => absurd h ?_⟩
    rcases h₃ with rfl | rfl <;> decide
  · refine ⟨fun ⟨_, h⟩ => (by cases h), fun h => absurd h ?_⟩
    rcases h₄ with rfl | rfl <;> decide
  · refine ⟨fun ⟨_, h⟩ => (by cases h), fun h => ?_⟩
    simp only [List.mem_cons, List.not_mem_nil, or_false] at h
    rcases h with h | h | h | h
    · exact absurd (.inl h) h₁
    · exact absurd (.inr h) h₁
    · exact absurd (.inl h) h₂
    · exact absurd (.inr h) h₂

/-- A name that may be shown. -/
theorem readDisplayName_eq_ok {name : Option Text} :
    (∃ shown, readDisplayName name = .ok shown) ↔
      ∀ text ∈ name, validateBoundedString text displayNameMaxLen = none := by
  cases name with
  | none => exact ⟨fun _ _ h => (by cases h), fun _ => ⟨none, rfl⟩⟩
  | some text =>
    rw [readDisplayName]
    simp only [Option.mem_some_iff, forall_eq']
    unfold DisplayName.new
    split
    · rename_i e he
      split at he
      · cases he
      · rename_i hvalid
        refine ⟨fun ⟨_, h⟩ => (by cases h), fun h => ?_⟩
        rw [hvalid] at h
        cases h
    · rename_i shown hshown
      split at hshown
      · rename_i hvalid
        exact ⟨fun _ => hvalid, fun _ => ⟨_, rfl⟩⟩
      · cases hshown

/-- **Which records are read.** -/
theorem fromRecord_eq_ok {id : DeviceId} :
    (∃ device, fromRecord blake3 record = .of (.ok device) ∧ device.deviceId = id) ↔
      record.Readable blake3 id := by
  constructor
  · rintro ⟨device, h, rfl⟩
    obtain ⟨id, hid, h⟩ := OrPanic.bind_eq_ok.mp h
    obtain ⟨key, hkey, h⟩ := OrPanic.bind_eq_ok.mp h
    dsimp only at h
    split_ifs at h with hderived
    · cases OrPanic.of_eq.mp h
    obtain ⟨agreementPub, hagreement, h⟩ := OrPanic.bind_eq_ok.mp h
    obtain ⟨name, hname, h⟩ := OrPanic.bind_eq_ok.mp h
    obtain ⟨tier, htier, h⟩ := OrPanic.bind_eq_ok.mp h
    obtain rfl := Except.ok.inj (OrPanic.of_eq.mp h)
    exact {
      deviceId := Fallible.mapError_eq_ok.mp (OrPanic.of_eq.mp hid)
      identityPub := ⟨key, readKey_eq_ok.mp hkey, (not_not.mp hderived).symm⟩
      agreementPub := ⟨agreementPub, readKey_eq_ok.mp hagreement⟩
      displayName := readDisplayName_eq_ok.mp ⟨name, OrPanic.of_eq.mp hname⟩
      tier := parseTier_eq_ok.mp ⟨tier, OrPanic.of_eq.mp htier⟩ }
  · intro h
    obtain ⟨key, hkey, hderived⟩ := h.identityPub
    obtain ⟨agreementPub, hagreement⟩ := h.agreementPub
    obtain ⟨name, hname⟩ := readDisplayName_eq_ok.mpr h.displayName
    obtain ⟨tier, htier⟩ := parseTier_eq_ok.mpr h.tier
    refine ⟨⟨id, ⟨key, agreementPub, blake3.deviceIdOf key⟩, name, tier, ⟨record.lastSeen⟩⟩, ?_,
      rfl⟩
    rw [fromRecord, h.deviceId, readKey_eq_ok.mpr hkey, readKey_eq_ok.mpr hagreement, hname, htier,
      Fallible.mapError_ok, OrPanic.ok_bind, OrPanic.ok_bind]
    dsimp only
    rw [if_neg (not_not.mpr hderived.symm), OrPanic.ok_bind, OrPanic.ok_bind, OrPanic.ok_bind]

/-- **Which records panic.** -/
theorem fromRecord_eq_panicked : fromRecord blake3 record = .panicked ↔ record.Fatal blake3 := by
  rw [fromRecord, OrPanic.bind_eq_panicked]
  constructor
  · rintro (h | ⟨id, hid, h⟩)
    · exact absurd h OrPanic.of_ne_panicked
    refine ⟨id, Fallible.mapError_eq_ok.mp (OrPanic.of_eq.mp hid), ?_⟩
    rcases OrPanic.bind_eq_panicked.mp h with h | ⟨key, hkey, h⟩
    · exact .inl (readKey_eq_panicked.mp h)
    dsimp only at h
    split_ifs at h with hderived
    · exact absurd h OrPanic.of_ne_panicked
    refine .inr ⟨⟨key, readKey_eq_ok.mp hkey, (not_not.mp hderived).symm⟩, ?_⟩
    rcases OrPanic.bind_eq_panicked.mp h with h | ⟨agreementPub, -, h⟩
    · exact readKey_eq_panicked.mp h
    rcases OrPanic.bind_eq_panicked.mp h with h | ⟨name, -, h⟩
    · exact absurd h OrPanic.of_ne_panicked
    rcases OrPanic.bind_eq_panicked.mp h with h | ⟨tier, -, h⟩
    · exact absurd h OrPanic.of_ne_panicked
    · exact absurd h OrPanic.of_ne_panicked
  · rintro ⟨id, hid, h⟩
    refine .inr ⟨id, by rw [hid]; rfl, ?_⟩
    rcases h with h | ⟨⟨key, hkey, hderived⟩, h⟩
    · rw [readKey_eq_panicked.mpr h]
      rfl
    · rw [readKey_eq_ok.mpr hkey, OrPanic.ok_bind]
      dsimp only
      rw [if_neg (not_not.mpr hderived.symm), readKey_eq_panicked.mpr h]
      rfl

/-- **Which lists of records panic**, after devices that were read before. -/
theorem loadRecords_eq_panicked {devices : List KnownDevice} {records : List KnownDeviceRecord}
    (hdevices : (devices.map KnownDevice.deviceId).Nodup) :
    loadRecords blake3 devices records = .panicked ↔
      ∃ readable record rest ids, records = readable ++ record :: rest ∧
        List.Forall₂ (KnownDeviceRecord.Readable blake3) readable ids ∧
        (devices.map KnownDevice.deviceId ++ ids).Nodup ∧ record.Fatal blake3 := by
  induction records generalizing devices with
  | nil =>
    rw [loadRecords]
    refine ⟨fun h => absurd h OrPanic.of_ne_panicked, ?_⟩
    rintro ⟨readable, record, rest, ids, hsplit, -⟩
    cases readable <;> cases hsplit
  | cons record records ih =>
    have hany (device : KnownDevice) :
        (devices.any fun d => d.deviceId = device.deviceId) = true ↔
          device.deviceId ∈ devices.map KnownDevice.deviceId := by
      simp only [List.any_eq_true, decide_eq_true_eq, List.mem_map]
    rw [loadRecords, OrPanic.bind_eq_panicked, fromRecord_eq_panicked]
    constructor
    · rintro (h | ⟨device, hdevice, h⟩)
      · exact ⟨[], record, records, [], rfl, .nil, by rwa [List.append_nil], h⟩
      · split_ifs at h with hknown
        · exact absurd h OrPanic.of_ne_panicked
        rw [hany] at hknown
        have hnodup : ((devices ++ [device]).map KnownDevice.deviceId).Nodup := by
          rw [List.map_append, List.map_singleton]
          exact List.nodup_append.mpr ⟨hdevices, List.nodup_singleton _,
            fun a ha b hb heq => hknown (by rwa [← List.mem_singleton.mp hb, ← heq])⟩
        obtain ⟨readable, fatal, rest, ids, rfl, hreadable, hids, hfatal⟩ := (ih hnodup).mp h
        refine ⟨record :: readable, fatal, rest, device.deviceId :: ids, rfl,
          .cons (fromRecord_eq_ok.mp ⟨device, hdevice, rfl⟩) hreadable, ?_, hfatal⟩
        rwa [List.map_append, List.map_singleton, List.append_assoc,
          List.singleton_append] at hids
    · rintro ⟨readable, fatal, rest, ids, hsplit, hreadable, hids, hfatal⟩
      cases hreadable with
      | nil =>
        obtain ⟨rfl, -⟩ := List.cons.inj hsplit
        exact .inl hfatal
      | cons hrecord hreadable =>
        rename_i first id readable ids
        rw [List.cons_append, List.cons.injEq] at hsplit
        obtain ⟨rfl, rfl⟩ := hsplit
        obtain ⟨device, hdevice, rfl⟩ := fromRecord_eq_ok.mpr hrecord
        refine .inr ⟨device, hdevice, ?_⟩
        have hnodup : (((devices ++ [device]).map KnownDevice.deviceId) ++ ids).Nodup := by
          rwa [List.map_append, List.map_singleton, List.append_assoc, List.singleton_append]
        have hunknown : device.deviceId ∉ devices.map KnownDevice.deviceId := fun hmem =>
          (List.nodup_append.mp hids).2.2 _ hmem _ List.mem_cons_self rfl
        rw [if_neg (mt (hany device).mp hunknown)]
        exact (ih (List.nodup_append.mp hnodup).1).mpr
          ⟨readable, fatal, rest, ids, rfl, hreadable, hnodup, hfatal⟩

/-- Which lists of records panic, from the first record on. -/
theorem loadRecords_nil_eq_panicked {records : List KnownDeviceRecord} :
    loadRecords blake3 [] records = .panicked ↔
      ∃ readable record rest ids, records = readable ++ record :: rest ∧
        List.Forall₂ (KnownDeviceRecord.Readable blake3) readable ids ∧ ids.Nodup ∧
        record.Fatal blake3 := by
  have hnil : (List.map KnownDevice.deviceId []).Nodup := List.nodup_nil
  rw [loadRecords_eq_panicked hnil, List.map_nil]
  simp only [List.nil_append]

/-- **Which files panic.** -/
theorem load_eq_panicked {read : FileRead} :
    load json blake3 read = .panicked ↔ ∃ content file, read = .bytes content ∧
      json.fromSlice content = .ok file ∧ file.Fatal blake3 := by
  cases read with
  | missing =>
    exact ⟨fun h => absurd h OrPanic.of_ne_panicked, fun ⟨_, _, h, _⟩ => by cases h⟩
  | failed e =>
    exact ⟨fun h => absurd h OrPanic.of_ne_panicked, fun ⟨_, _, h, _⟩ => by cases h⟩
  | bytes content =>
    rw [load, OrPanic.bind_eq_panicked]
    constructor
    · rintro (h | ⟨file, hfile, h⟩)
      · exact absurd h OrPanic.of_ne_panicked
      split_ifs at h with hversion
      · exact absurd h OrPanic.of_ne_panicked
      rcases OrPanic.bind_eq_panicked.mp h with h | ⟨devices, -, h⟩
      · exact ⟨content, file, rfl, Fallible.mapError_eq_ok.mp (OrPanic.of_eq.mp hfile),
          not_not.mp hversion, loadRecords_nil_eq_panicked.mp h⟩
      · exact absurd h OrPanic.of_ne_panicked
    · rintro ⟨content', file, hread, hfile, hversion, hfatal⟩
      obtain rfl := FileRead.bytes.inj hread
      refine .inr ⟨file, by rw [hfile]; rfl, ?_⟩
      rw [if_neg (not_not.mpr hversion), loadRecords_nil_eq_panicked.mpr hfatal]
      rfl

/-- What is refused is refused with an answer: a file is read or refused, digits are decoded when
they are exactly as many as the bytes have, and the digits of some bytes decode to them. -/
structure Answers (json : KnownDevicesJson) (blake3 : Blake3) (read : FileRead) : Prop where
  load : load json blake3 read ≠ .panicked
  decode : ∀ (n : ℕ) (s : Text) (bytes : List UInt8),
    decodeHexExact n s = .of (.ok bytes) ↔ bytes.length = n ∧ hexBytes s = some bytes
  encode : ∀ bytes : List UInt8, decodeHexExact bytes.length (hexText bytes) = .of (.ok bytes)

/-- **A registry file is answered** exactly when it holds no record that is reached with a key whose
text straddles. -/
theorem load_answers_iff (json : KnownDevicesJson) (blake3 : Blake3) (read : FileRead) :
    Answers json blake3 read ↔ ¬∃ content file, read = .bytes content ∧
      json.fromSlice content = .ok file ∧ file.Fatal blake3 := by
  constructor
  · intro h hfatal
    exact h.load (load_eq_panicked.mpr hfatal)
  · intro h
    exact {
      load := mt load_eq_panicked.mp h
      decode := fun _ _ _ => decodeHexExact_eq_ok
      encode := fun bytes => decodeHexExact_eq_ok.mpr ⟨rfl, hexBytes_hexText bytes⟩ }

/-- A key of 130 bytes whose second character is of two. -/
def straddlingText : Text := 'a' :: 'é' :: List.replicate 127 '0'

/-- A record with this key. -/
def straddlingRecord : KnownDeviceRecord :=
  ⟨List.replicate 32 '0', straddlingText, [], none, "linked".toList, 0⟩

/-- Its file. -/
def straddlingContent : List UInt8 :=
  utf8Bytes ("\x7b\"version\":1,\"devices\":[\x7b\"device_id\":\"".toList ++
    List.replicate 32 '0' ++ "\",\"identity_pub\":\"".toList ++ straddlingText ++
    "\",\"agreement_pub\":\"\",\"tier\":\"linked\",\"last_seen\":0\x7d]\x7d".toList)

/-- What this file is read as. -/
def straddlingJson : KnownDevicesJson where
  fromSlice content :=
    if content = straddlingContent then .ok ⟨1, [straddlingRecord]⟩ else .error "expected value"
  toVecPretty _ := .error "nothing is written"

/-- The file is JSON of the expected shape, and reading it panics. -/
theorem straddling_file_panics :
    ¬Answers straddlingJson ⟨fun _ => ⟨List.replicate 32 0, rfl⟩⟩ (.bytes straddlingContent) := by
  intro h
  have hfile : straddlingJson.fromSlice straddlingContent = .ok ⟨1, [straddlingRecord]⟩ := by
    unfold straddlingJson
    generalize straddlingContent = content
    exact if_pos (Eq.refl content)
  refine h.load (load_eq_panicked.mpr ⟨straddlingContent, ⟨1, [straddlingRecord]⟩, rfl, hfile, rfl,
    [], straddlingRecord, [], [], rfl, .nil, List.nodup_nil, ?_⟩)
  refine ⟨⟨⟨List.replicate 16 0, rfl⟩⟩, by decide, .inl ⟨by decide, ?_⟩⟩
  exact ⟨[], 'a', 'é' :: List.replicate 127 '0', rfl, rfl,
    .inr ⟨by decide, 'é', List.replicate 127 '0', rfl, by decide⟩⟩

end KnownDevices

end Tradr
