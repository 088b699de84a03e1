import Mathlib.Data.List.GetD
import Mathlib.Data.List.TakeDrop
import Mathlib.Order.MinMax

/-!
# Byte-Addressed Files

A file as a list of bytes, written at positions. `overlay c off bs` is the file after
`bs` was written at `off`: a write past the end leaves a gap that reads as zeros, and a
write of nothing changes nothing. `Vouched L c i` says that byte `i` of the file is the
byte that some piece of the log `L` has at that very position.

## Main results

* `length_overlay`, `getElem?_overlay`, `getElem?_overlay_of_notMem`: what a write does.
* `Vouched.overlay`, `vouched_overlay`: writing logged pieces, whole or cut short, keeps
  every vouched byte vouched and vouches for the bytes written.
* `gapless_overlay`: without gaps, every byte of the file stays vouched.
-/

namespace ByteFile

variable {β : Type*} [Zero β]

/-- The file after `bs` was written at `off`. -/
def overlay (c : List β) (off : ℕ) (bs : List β) : List β :=
  if bs = [] then c
  else c.take off ++ List.replicate (off - c.length) 0 ++ bs ++ c.drop (off + bs.length)

@[simp] theorem overlay_nil (c : List β) (off : ℕ) : overlay c off [] = c := by
  simp [overlay]

/-- The part before the write has its full length. -/
theorem length_head (c : List β) (off : ℕ) :
    (c.take off ++ List.replicate (off - c.length) 0).length = off := by
  simp only [List.length_append, List.length_take, List.length_replicate]
  omega

/-- A write reaches to its end, and never shortens the file. -/
theorem length_overlay (c : List β) (off : ℕ) {bs : List β} (h : bs ≠ []) :
    (overlay c off bs).length = max c.length (off + bs.length) := by
  have h1 := length_head c off
  rw [overlay, if_neg h]
  simp only [List.length_append, List.length_drop] at h1 ⊢
  omega

/-- A bound on the length of a file after a write. -/
theorem length_overlay_le {c : List β} {off n : ℕ} {bs : List β} (hc : c.length ≤ n)
    (hb : off + bs.length ≤ n) : (overlay c off bs).length ≤ n := by
  rcases eq_or_ne bs [] with rfl | h
  · simpa using hc
  · rw [length_overlay c off h]
    exact max_le hc hb

/-- The bytes written are read back. -/
theorem getElem?_overlay (c : List β) {off i : ℕ} {bs : List β} (h1 : off ≤ i)
    (h2 : i - off < bs.length) : (overlay c off bs)[i]? = bs[i - off]? := by
  have hne : bs ≠ [] := by
    rintro rfl
    simp at h2
  have hlen := length_head c off
  rw [overlay, if_neg hne, List.append_assoc _ bs, List.getElem?_append_right (by omega), hlen,
    List.getElem?_append_left h2]

/-- The bytes outside a write are as before. -/
theorem getElem?_overlay_of_notMem (c : List β) {off i : ℕ} {bs : List β}
    (hi : i < c.length) (h : i < off ∨ off + bs.length ≤ i) :
    (overlay c off bs)[i]? = (c)[i]? := by
  rcases eq_or_ne bs [] with rfl | hne
  · simp
  · have hlen := length_head c off
    rw [overlay, if_neg hne]
    rcases h with h | h
    · rw [List.append_assoc _ bs, List.getElem?_append_left (by omega),
        List.getElem?_append_left (by simp only [List.length_take]; omega),
        List.getElem?_take_of_lt h]
    · rw [List.getElem?_append_right (by simp only [List.length_append] at hlen ⊢; omega),
        List.getElem?_drop]
      congr 1
      simp only [List.length_append] at hlen ⊢
      omega

/-- A write at the end appends. -/
theorem overlay_length (c bs : List β) : overlay c c.length bs = c ++ bs := by
  rcases eq_or_ne bs [] with rfl | h
  · simp
  · rw [overlay, if_neg h, List.take_length, Nat.sub_self, List.replicate_zero, List.append_nil,
      List.drop_of_length_le (by omega), List.append_nil]

/-- Writing a run in two parts is writing it at once. -/
theorem overlay_overlay (c : List β) (off : ℕ) (a b : List β) :
    overlay (overlay c off a) (off + a.length) b = overlay c off (a ++ b) := by
  rcases eq_or_ne a [] with rfl | ha
  · simp
  rcases eq_or_ne b [] with rfl | hb
  · simp
  have hlen := length_overlay c off ha
  have hgap : off + a.length - (overlay c off a).length = 0 := by omega
  have htake : (overlay c off a).take (off + a.length) =
      c.take off ++ List.replicate (off - c.length) 0 ++ a := by
    rw [overlay, if_neg ha]
    refine List.take_left' ?_
    rw [List.length_append, length_head]
  have hdrop : (overlay c off a).drop (off + a.length + b.length) =
      c.drop (off + (a ++ b).length) := by
    rw [overlay, if_neg ha, ← List.drop_drop, List.drop_left' (by rw [List.length_append, length_head]),
      List.drop_drop, List.length_append, Nat.add_assoc]
  rw [overlay, if_neg hb, hgap, htake, hdrop, overlay, if_neg (by simp [ha])]
  simp [List.append_assoc]

/-! ### Files written from a log -/

variable {L M : List (ℕ × List β)} {c : List β} {off i : ℕ} {bs : List β}

/-- Byte `i` of the file is the byte some logged piece has at that position. -/
def Vouched (L : List (ℕ × List β)) (c : List β) (i : ℕ) : Prop :=
  ∃ p ∈ L, p.1 ≤ i ∧ i - p.1 < p.2.length ∧ (c)[i]? = p.2[i - p.1]?

omit [Zero β] in
/-- A vouched byte lies inside the file. -/
theorem Vouched.lt_length (h : Vouched L c i) : i < c.length := by
  obtain ⟨p, -, -, hlt, heq⟩ := h
  rw [List.getElem?_eq_getElem hlt] at heq
  exact (List.getElem?_eq_some_iff.mp heq).1

omit [Zero β] in
/-- A longer log vouches for as much. -/
theorem Vouched.mono (h : Vouched L c i) (hLM : L ⊆ M) : Vouched M c i := by
  obtain ⟨p, hp, hrest⟩ := h
  exact ⟨p, hLM hp, hrest⟩

/-- The bytes of a logged piece are vouched for where it was written, even if the write
was cut short. -/
theorem vouched_overlay (hmem : (off, bs) ∈ L) {k : ℕ} (h1 : off ≤ i)
    (h2 : i - off < (bs.take k).length) : Vouched L (overlay c off (bs.take k)) i := by
  have hk : i - off < k ∧ i - off < bs.length := by simpa using h2
  refine ⟨(off, bs), hmem, h1, hk.2, ?_⟩
  rw [getElem?_overlay c h1 h2, List.getElem?_take_of_lt hk.1]

/-- Writing a logged piece, or a front part of it, keeps every vouched byte vouched. -/
theorem Vouched.overlay (h : Vouched L c i) (hmem : (off, bs) ∈ L) (k : ℕ) :
    Vouched L (overlay c off (bs.take k)) i := by
  by_cases hin : off ≤ i ∧ i - off < (bs.take k).length
  · exact vouched_overlay hmem hin.1 hin.2
  · obtain ⟨p, hp, h1, h2, heq⟩ := h
    refine ⟨p, hp, h1, h2, ?_⟩
    rw [getElem?_overlay_of_notMem c (Vouched.lt_length ⟨p, hp, h1, h2, heq⟩) (by omega), heq]

/-- Without gaps, every byte of the file stays vouched. -/
theorem gapless_overlay (h : ∀ i < c.length, Vouched L c i) (hmem : (off, bs) ∈ L)
    (hoff : off ≤ c.length) (k : ℕ) :
    ∀ i < (ByteFile.overlay c off (bs.take k)).length,
      Vouched L (ByteFile.overlay c off (bs.take k)) i := by
  intro i hi
  rcases eq_or_ne (bs.take k) [] with hnil | hne
  · rw [hnil, overlay_nil] at hi
    exact (h i hi).overlay hmem k
  · rw [length_overlay c off hne] at hi
    by_cases hin : off ≤ i ∧ i - off < (bs.take k).length
    · exact vouched_overlay hmem hin.1 hin.2
    · exact (h i (by omega)).overlay hmem k

end ByteFile
