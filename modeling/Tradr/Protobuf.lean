import Mathlib.Data.List.Basic

/-!
# Protobuf Fields

The wire format of protobuf as a canonical writer fills it in: a varint is seven bits a byte, a
field is its number and kind, and what has its default value is left out.

## Main results

* `varintLen_eq_one`, `varintLen_eq_two`, `varintLen_le`: how long a varint is.
* `length_bytesField`, `length_messageField`, `length_intField`: how long a field is.
* `messageSize_mono`: a longer message makes a longer field.
-/

namespace Protobuf

/-- Seven bits a byte, the least significant first, in at most `fuel` bytes. -/
def varintWithin : ℕ → ℕ → List UInt8
  | 0, _ => []
  | fuel + 1, n =>
    if n < 128 then [UInt8.ofNat n]
    else UInt8.ofNat (n % 128 + 128) :: varintWithin fuel (n / 128)

/-- A number of 64 bits as a varint. -/
def varint (n : ℕ) : List UInt8 := varintWithin 10 n

/-- The bytes of a varint. -/
def varintLen (n : ℕ) : ℕ := (varint n).length

theorem length_varintWithin_le (fuel n : ℕ) : (varintWithin fuel n).length ≤ fuel := by
  induction fuel generalizing n with
  | zero => exact Nat.le_refl _
  | succ fuel ih =>
      rw [varintWithin]
      split_ifs
      · exact Nat.succ_le_succ (Nat.zero_le fuel)
      · exact Nat.succ_le_succ (ih (n / 128))

theorem length_varintWithin_mono (fuel : ℕ) {m n : ℕ} (h : m ≤ n) :
    (varintWithin fuel m).length ≤ (varintWithin fuel n).length := by
  induction fuel generalizing m n with
  | zero => exact Nat.le_refl _
  | succ fuel ih =>
      rw [varintWithin, varintWithin]
      split_ifs
      · exact Nat.le_refl _
      · exact Nat.succ_le_succ (Nat.zero_le _)
      · omega
      · exact Nat.succ_le_succ (ih (Nat.div_le_div_right h))

/-- At most ten bytes. -/
theorem varintLen_le (n : ℕ) : varintLen n ≤ 10 := length_varintWithin_le 10 n

/-- A greater number takes at least as many bytes. -/
theorem varintLen_mono {m n : ℕ} (h : m ≤ n) : varintLen m ≤ varintLen n :=
  length_varintWithin_mono 10 h

/-- One byte for seven bits. -/
theorem varintLen_eq_one {n : ℕ} (h : n < 128) : varintLen n = 1 := by
  rw [varintLen, varint, varintWithin, if_pos h]
  rfl

/-- Two bytes for fourteen bits. -/
theorem varintLen_eq_two {n : ℕ} (hge : 128 ≤ n) (hlt : n < 16384) : varintLen n = 2 := by
  rw [varintLen, varint, varintWithin, if_neg (by omega), varintWithin, if_pos (by omega)]
  rfl

/-! ### Fields -/

/-- Bytes or a text under a field number below sixteen; the empty ones are left out. -/
def bytesField (number : ℕ) (bytes : List UInt8) : List UInt8 :=
  if bytes = [] then [] else UInt8.ofNat (number * 8 + 2) :: varint bytes.length ++ bytes

/-- A message under a field number below sixteen. -/
def messageField (number : ℕ) (bytes : List UInt8) : List UInt8 :=
  UInt8.ofNat (number * 8 + 2) :: varint bytes.length ++ bytes

/-- A number of 64 bits under a field number below sixteen; zero is left out. -/
def intField (number : ℕ) (value : UInt64) : List UInt8 :=
  if value = 0 then [] else UInt8.ofNat (number * 8) :: varint value.toNat

/-- The size of a field of so many bytes. -/
def bytesSize (n : ℕ) : ℕ := if n = 0 then 0 else 1 + varintLen n + n

/-- The size of a field that is a message of so many bytes. -/
def messageSize (n : ℕ) : ℕ := 1 + varintLen n + n

/-- The size of a field that is a number. -/
def intSize (value : UInt64) : ℕ := if value = 0 then 0 else 1 + varintLen value.toNat

@[simp] theorem length_messageField (number : ℕ) (bytes : List UInt8) :
    (messageField number bytes).length = messageSize bytes.length := by
  rw [messageField, List.length_append, List.length_cons, messageSize, varintLen]
  omega

@[simp] theorem length_bytesField (number : ℕ) (bytes : List UInt8) :
    (bytesField number bytes).length = bytesSize bytes.length := by
  unfold bytesField bytesSize
  split_ifs with hnil hzero hzero
  · rfl
  · exact absurd (List.length_eq_zero_iff.mpr hnil) hzero
  · exact absurd (List.length_eq_zero_iff.mp hzero) hnil
  · exact length_messageField number bytes

@[simp] theorem length_intField (number : ℕ) (value : UInt64) :
    (intField number value).length = intSize value := by
  unfold intField intSize
  split_ifs
  · rfl
  · rw [List.length_cons, varintLen]
    omega

/-- A longer message makes a longer field. -/
theorem messageSize_mono {m n : ℕ} (h : m ≤ n) : messageSize m ≤ messageSize n := by
  have hvarint := varintLen_mono h
  unfold messageSize
  omega

end Protobuf
