import Tradr.RelPath

/-!
# Base64 for URLs

Unpadded base64 in the alphabet for URLs: four digits for three bytes, and as many as needed for
the bytes that are left.

## Main results

* `utf8Len_base64`: how long a text is.
-/

namespace Tradr

/-- A digit of base64 for URLs. -/
def digit64 (n : ℕ) : Char :=
  if n < 26 then Char.ofNat (n + 65) else if n < 52 then Char.ofNat (n + 71)
  else if n < 62 then Char.ofNat (n - 4) else if n = 62 then '-' else '_'

/-- Base64 for URLs, without padding. -/
def base64 : List UInt8 → Text
  | a :: b :: e :: rest =>
    let n := a.toNat * 65536 + b.toNat * 256 + e.toNat
    digit64 (n / 262144) :: digit64 (n / 4096 % 64) :: digit64 (n / 64 % 64) :: digit64 (n % 64) ::
      base64 rest
  | [a, b] =>
    let n := a.toNat * 65536 + b.toNat * 256
    [digit64 (n / 262144), digit64 (n / 4096 % 64), digit64 (n / 64 % 64)]
  | [a] => [digit64 (a.toNat / 4), digit64 (a.toNat * 16 % 64)]
  | [] => []

/-- The characters of the base64 of so many bytes. -/
def base64Chars (n : ℕ) : ℕ := (4 * n + 2) / 3

/-- A digit is one byte of text. -/
theorem utf8Size_digit64 (n : ℕ) : (digit64 n).utf8Size = 1 := by
  have hall : ∀ m < 64, (digit64 m).utf8Size = 1 := by decide
  by_cases h : n < 64
  · exact hall n h
  · unfold digit64
    rw [if_neg (by omega), if_neg (by omega), if_neg (by omega), if_neg (by omega)]
    rfl

/-- **A base64 text has four digits for three bytes.** -/
theorem utf8Len_base64 (bytes : List UInt8) : utf8Len (base64 bytes) = base64Chars bytes.length := by
  unfold utf8Len base64Chars
  induction bytes using base64.induct with
  | case1 a b e rest ih =>
      simp only [base64, List.map_cons, List.sum_cons, utf8Size_digit64, List.length_cons, ih]
      omega
  | case2 a b =>
      simp [base64, utf8Size_digit64]
  | case3 a =>
      simp [base64, utf8Size_digit64]
  | case4 => rfl

end Tradr
