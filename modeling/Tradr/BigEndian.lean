import Mathlib.Data.List.Induction
import Mathlib.Tactic.Ring

/-!
# Big-Endian Words

Fixed-width unsigned words as byte strings, most significant byte first. `toBE w n`
writes the low `w` bytes of `n`; `ofBE` reads any byte string back as a number. The
two are inverse to each other on the values that fit (`ofBE_toBE`) and on the byte
strings of the width (`toBE_ofBE`), which is all a length-prefixed format needs.

## Main results

* `length_toBE`: a word of width `w` occupies exactly `w` bytes.
* `ofBE_toBE`: a value below `256 ^ w` is read back exactly.
* `ofBE_lt`: a `w`-byte reading is below `256 ^ w`.
* `toBE_ofBE`: a byte string is the word of its own reading.
-/

namespace BigEndian

/-- The low `w` bytes of `n`, most significant first; what does not fit is dropped, as
a narrowing cast drops it. -/
def toBE : ℕ → ℕ → List UInt8
  | 0, _ => []
  | w + 1, n => toBE w (n / 256) ++ [UInt8.ofNat n]

/-- The number a byte string denotes, most significant byte first. -/
def ofBE (bytes : List UInt8) : ℕ :=
  bytes.foldl (fun acc b => acc * 256 + b.toNat) 0

/-- A word of width `w` occupies exactly `w` bytes. -/
@[simp] theorem length_toBE (w n : ℕ) : (toBE w n).length = w := by
  induction w generalizing n with
  | zero => rfl
  | succ w ih => simp [toBE, ih]

/-- Appending a byte shifts the reading by one place. -/
theorem ofBE_concat (bytes : List UInt8) (b : UInt8) :
    ofBE (bytes ++ [b]) = ofBE bytes * 256 + b.toNat := by
  simp [ofBE]

/-- **Reading inverts writing** on every value that fits the width. -/
theorem ofBE_toBE {w n : ℕ} (h : n < 256 ^ w) : ofBE (toBE w n) = n := by
  induction w generalizing n with
  | zero =>
      have hn : n = 0 := by simpa using h
      subst hn
      rfl
  | succ w ih =>
      have hq : n / 256 < 256 ^ w := by
        rw [Nat.div_lt_iff_lt_mul (by decide)]
        calc n < 256 ^ (w + 1) := h
          _ = 256 ^ w * 256 := pow_succ 256 w
      rw [toBE, ofBE_concat, ih hq, UInt8.toNat_ofNat']
      omega

/-- A `w`-byte reading is below `256 ^ w`. -/
theorem ofBE_lt (bytes : List UInt8) : ofBE bytes < 256 ^ bytes.length := by
  induction bytes using List.reverseRecOn with
  | nil => simp [ofBE]
  | append_singleton bytes b ih =>
      have hb : b.toNat < 256 := b.toNat_lt
      have hpow : 256 ^ (bytes ++ [b]).length = 256 ^ bytes.length * 256 := by
        rw [List.length_append, List.length_singleton, pow_succ]
      rw [ofBE_concat, hpow]
      omega

/-- **Writing inverts reading**: every byte string is the word of its own reading. -/
theorem toBE_ofBE (bytes : List UInt8) : toBE bytes.length (ofBE bytes) = bytes := by
  induction bytes using List.reverseRecOn with
  | nil => rfl
  | append_singleton bytes b ih =>
      have hb : b.toNat < 256 := b.toNat_lt
      have hq : (ofBE bytes * 256 + b.toNat) / 256 = ofBE bytes := by omega
      have hr : UInt8.ofNat (ofBE bytes * 256 + b.toNat) = b := by
        apply UInt8.toNat_inj.mp
        rw [UInt8.toNat_ofNat']
        omega
      rw [List.length_append, List.length_singleton, toBE, ofBE_concat, hq, ih, hr]

end BigEndian
