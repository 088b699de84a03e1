import Mathlib.Data.List.Nodup
import Tradr.Link

/-!
# The Words of a Fingerprint

Two people who do not want to trust the account service compare twelve words: a device's
key digest is cut into twelve fields of eleven bits, and each field is an index into a
list of `2048` words. The fields straddle the bytes of the digest at every alignment.

The digest is an array that is read with its bounds checked, and each read is logged, so
that a read out of range and a read past a given byte can both be told. The word list is
a vendored file and a parameter here: a `WordList` is `2048` distinct lowercase words.

## Main results

* `BitString.value_inj`: a number determines its binary digits, once their count is fixed.
* `WordIndices.fromKeyDigest_eq`: the loop never reads out of range, reads only the first
  seventeen bytes and leaves the twelve fields of the digest.
* `WordIndices.identifies_prefix`: two digests give the same words, in any rendering, just
  when their leading `132` bits agree.
-/

namespace Tradr

/-! ### Numbers written bit by bit -/

namespace BitString

/-- The number with these binary digits, the most significant one first. -/
def value (bits : List Bool) : ℕ := bits.foldl (fun v b => 2 * v + b.toNat) 0

@[simp] theorem value_nil : value [] = 0 := rfl

@[simp] theorem value_concat (bits : List Bool) (b : Bool) :
    value (bits ++ [b]) = 2 * value bits + b.toNat := by
  rw [value, value, List.foldl_append]
  rfl

/-- A number fits the count of its digits. -/
theorem value_lt (bits : List Bool) : value bits < 2 ^ bits.length := by
  induction bits using List.reverseRecOn with
  | nil => exact Nat.one_pos
  | append_singleton bits b ih =>
      have hb : b.toNat < 2 := Bool.toNat_lt b
      rw [value_concat, List.length_append, List.length_singleton, pow_succ]
      omega

/-- A number and the count of its digits determine the digits. -/
theorem value_inj {bits bits' : List Bool} (hlen : bits.length = bits'.length) :
    value bits = value bits' ↔ bits = bits' := by
  refine ⟨fun h => ?_, congrArg value⟩
  induction bits using List.reverseRecOn generalizing bits' with
  | nil => exact (List.eq_nil_of_length_eq_zero hlen.symm).symm
  | append_singleton bits b ih =>
      rcases List.eq_nil_or_concat' bits' with rfl | ⟨bits₁, b₁, rfl⟩
      · rw [List.length_append] at hlen
        cases hlen
      · rw [List.length_append, List.length_append] at hlen
        rw [value_concat, value_concat] at h
        have hb : b.toNat < 2 := Bool.toNat_lt b
        have hb₁ : b₁.toNat < 2 := Bool.toNat_lt b₁
        have hlast : b.toNat = b₁.toNat := by omega
        have hvalue : value bits = value bits₁ := by omega
        have hb_eq : b = b₁ := by
          cases b <;> cases b₁ <;> first | rfl | cases hlast
        rw [ih (Nat.add_right_cancel hlen) hvalue, hb_eq]

end BitString

/-! ### Reading a digest -/

/-- A computation that reads an array: the positions read so far go through it, and
`none` is the panic of a read out of range. -/
abbrev LoggedReads := StateT (List ℕ) Option

/-- The byte of a digest at position `i`. -/
def readByte (digest : Bytes 32) (i : ℕ) : LoggedReads UInt8 := fun log =>
  digest.val[i]?.map fun byte => (byte, log ++ [i])

/-- One round of the loop: the next bit is shifted into the value. -/
def pushBit (digest : Bytes 32) (start : ℕ) (value : UInt16) (offset : ℕ) :
    LoggedReads UInt16 := do
  let bit := start + offset
  let byte ← readByte digest (bit / 8)
  let set := (byte >>> UInt8.ofNat (7 - bit % 8)) &&& 1
  pure ((value <<< 1) ||| set.toUInt16)

/-- The eleven bits of a digest from bit `start` on, as a 16-bit number. -/
def readBits16 (digest : Bytes 32) (start : ℕ) : LoggedReads UInt16 :=
  (List.range 11).foldlM (pushBit digest start) 0

/-- The number of words of a fingerprint. -/
def fingerprintWordCount : ℕ := 12

/-- The number of rows the words are grouped into. -/
def fingerprintRowCount : ℕ := 3

/-- The number of words in a row. -/
def fingerprintWordsPerRow : ℕ := 4

/-- A fingerprint as the code holds it: twelve 16-bit indices. -/
structure WordIndices where
  indices : Vector UInt16 fingerprintWordCount
  deriving DecidableEq, Repr

/-- One round of the loop over the indices: each starts eleven bits after the one before. -/
def setIndex (digest : Bytes 32) (indices : Vector UInt16 fingerprintWordCount) (i : ℕ) :
    LoggedReads (Vector UInt16 fingerprintWordCount) := do
  let index ← readBits16 digest (i * 11)
  pure (indices.set! i index)

/-- The leading `132` bits of a digest as twelve word indices. -/
def WordIndices.fromKeyDigest (digest : Bytes 32) : LoggedReads WordIndices := do
  let indices ← (List.range fingerprintWordCount).foldlM (setIndex digest)
    (Vector.replicate fingerprintWordCount 0)
  pure ⟨indices⟩

/-- A loop over a range takes one more round. -/
theorem foldlM_range_succ {β : Type} {f : β → ℕ → LoggedReads β} {b c d : β} {n : ℕ}
    {log log' log'' : List ℕ} (h : (List.range n).foldlM f b log = some (c, log'))
    (hstep : f c n log' = some (d, log'')) :
    (List.range (n + 1)).foldlM f b log = some (d, log'') := by
  rw [List.range_succ, List.foldlM_append]
  simp only [StateT.bind, bind, h, Option.bind, List.foldlM_cons, hstep, List.foldlM_nil]
  rfl

/-- Bit `k` of a digest, its bytes read as one big-endian string of bits. -/
def digestBit (digest : Bytes 32) (k : ℕ) : Bool :=
  (digest.val.getD (k / 8) 0).toNat.testBit (7 - k % 8)

/-- Some consecutive bits of a digest, from bit `start` on. -/
def digestBits (digest : Bytes 32) (start n : ℕ) : List Bool :=
  (List.range n).map fun offset => digestBit digest (start + offset)

@[simp] theorem length_digestBits (digest : Bytes 32) (start n : ℕ) :
    (digestBits digest start n).length = n := by
  rw [digestBits, List.length_map, List.length_range]

theorem digestBits_succ (digest : Bytes 32) (start n : ℕ) :
    digestBits digest start (n + 1) =
      digestBits digest start n ++ [digestBit digest (start + n)] := by
  rw [digestBits, List.range_succ, List.map_append]
  rfl

theorem readByte_eq (digest : Bytes 32) {i : ℕ} (h : i < 32) (log : List ℕ) :
    readByte digest i log = some (digest.val.getD i 0, log ++ [i]) := by
  have hi : i < digest.val.length := by rw [digest.property]; exact h
  rw [readByte, List.getElem?_eq_getElem hi, List.getD_eq_getElem _ _ hi]
  rfl

/-- A byte shifted to the right and masked is one of its bits. -/
theorem toNat_shift_mask (byte : UInt8) {s : ℕ} (hs : s < 8) :
    ((byte >>> UInt8.ofNat s) &&& 1).toUInt16.toNat = (byte.toNat.testBit s).toNat := by
  have hs' : (UInt8.ofNat s).toNat = s := UInt8.toNat_ofNat_of_lt' (hs.trans (by decide))
  rw [UInt8.toNat_toUInt16, UInt8.toNat_and, UInt8.toNat_shiftRight, hs', Nat.mod_eq_of_lt hs,
    Nat.toNat_testBit, Nat.shiftRight_eq_div_pow]
  exact Nat.and_one_is_mod _

/-- Below `2 ^ 15` a 16-bit number takes one more bit without losing one. -/
theorem toNat_shiftLeft_or {value set : UInt16} (hvalue : value.toNat < 2 ^ 15)
    (hset : set.toNat < 2) :
    ((value <<< 1) ||| set).toNat = 2 * value.toNat + set.toNat := by
  have hone : (1 : UInt16).toNat % 16 = 1 := rfl
  have hfits : value.toNat <<< 1 % 2 ^ 16 = value.toNat <<< 1 := by
    rw [Nat.shiftLeft_eq]
    omega
  rw [UInt16.toNat_or, UInt16.toNat_shiftLeft, hone, hfits,
    ← Nat.shiftLeft_add_eq_or_of_lt (by simpa using hset), Nat.shiftLeft_eq]
  omega

/-- One round of the loop: it reads the byte of its bit and appends the bit. -/
theorem pushBit_eq (digest : Bytes 32) {start offset : ℕ} (hbit : start + offset < 256)
    {value : UInt16} (hvalue : value.toNat < 2 ^ 15) (log : List ℕ) :
    pushBit digest start value offset log =
      some (UInt16.ofNat (2 * value.toNat + (digestBit digest (start + offset)).toNat),
        log ++ [(start + offset) / 8]) := by
  have hread := readByte_eq digest (i := (start + offset) / 8) (by omega) log
  have hset := toNat_shift_mask (digest.val.getD ((start + offset) / 8) 0)
    (s := 7 - (start + offset) % 8) (by omega)
  have hlt : (digestBit digest (start + offset)).toNat < 2 := Bool.toNat_lt _
  have hnext := toNat_shiftLeft_or hvalue (hset.trans_lt hlt)
  have heq := (UInt16.ofNat_toNat (x := _)).symm.trans (congrArg UInt16.ofNat (hnext.trans
    (congrArg (2 * value.toNat + ·) hset)))
  unfold pushBit
  simp only [StateT.bind, bind, hread]
  exact congrArg (fun v => some (v, log ++ [(start + offset) / 8])) heq

/-- After some rounds of the loop the value is the number of the bits read so far. -/
theorem foldlM_pushBit (digest : Bytes 32) (start : ℕ) (log : List ℕ) (n : ℕ)
    (hn : n ≤ 16) (hbits : start + n ≤ 256) :
    (List.range n).foldlM (pushBit digest start) 0 log =
      some (UInt16.ofNat (BitString.value (digestBits digest start n)),
        log ++ (List.range n).map fun offset => (start + offset) / 8) := by
  induction n with
  | zero => rw [List.range_zero, List.map_nil, List.append_nil]; rfl
  | succ n ih =>
      have hvalue := BitString.value_lt (digestBits digest start n)
      rw [length_digestBits] at hvalue
      have hsmall : BitString.value (digestBits digest start n) < 2 ^ 15 :=
        hvalue.trans_le (Nat.pow_le_pow_right (by omega) (by omega))
      have hnat : (UInt16.ofNat (BitString.value (digestBits digest start n))).toNat =
          BitString.value (digestBits digest start n) :=
        UInt16.toNat_ofNat_of_lt' (hsmall.trans (by decide))
      have hbit : start + n < 256 := by omega
      have hpush := pushBit_eq digest hbit
        (hnat.trans_lt hsmall) (log ++ (List.range n).map fun offset => (start + offset) / 8)
      rw [hnat] at hpush
      rw [foldlM_range_succ (ih (by omega) (by omega)) hpush, digestBits_succ,
        BitString.value_concat, List.range_succ, List.map_append, List.append_assoc]
      rfl

/-- The field of a fingerprint at place `i`: eleven bits of the digest. -/
def field (digest : Bytes 32) (i : ℕ) : ℕ := BitString.value (digestBits digest (i * 11) 11)

theorem field_lt (digest : Bytes 32) (i : ℕ) : field digest i < 2048 := by
  have h := BitString.value_lt (digestBits digest (i * 11) 11)
  rw [length_digestBits] at h
  exact h

/-- The positions of the digest that the first `n` fields lie in, in the order read. -/
def positions (n : ℕ) : List ℕ :=
  (List.range n).flatMap fun i => (List.range 11).map fun offset => (i * 11 + offset) / 8

theorem positions_succ (n : ℕ) :
    positions (n + 1) =
      positions n ++ (List.range 11).map fun offset => (n * 11 + offset) / 8 := by
  rw [positions, List.range_succ (n := n), List.flatMap_append, List.flatMap_singleton]
  rfl

/-- The twelve fields lie in the first seventeen bytes. -/
theorem le_of_mem_positions {p : ℕ} (h : p ∈ positions fingerprintWordCount) : p ≤ 16 := by
  obtain ⟨i, hi, hp⟩ := List.mem_flatMap.mp h
  obtain ⟨offset, hoffset, rfl⟩ := List.mem_map.mp hp
  have hi' : i < 12 := List.mem_range.mp hi
  have hoffset' := List.mem_range.mp hoffset
  omega

/-- After some rounds the indices in front are the fields, and the others are still zero. -/
theorem foldlM_setIndex (digest : Bytes 32) (log : List ℕ) (n : ℕ)
    (hn : n ≤ fingerprintWordCount) :
    (List.range n).foldlM (setIndex digest) (Vector.replicate fingerprintWordCount 0) log =
      some (Vector.ofFn fun i => if i.val < n then UInt16.ofNat (field digest i) else 0,
        log ++ positions n) := by
  induction n with
  | zero =>
      refine congrArg some (Prod.ext ?_ (List.append_nil log).symm)
      ext i hi
      simp
  | succ n ih =>
      have hn' : n < 12 := hn
      have hread := foldlM_pushBit digest (n * 11) (log ++ positions n) 11 (by omega) (by omega)
      have hset : setIndex digest
          (Vector.ofFn fun i => if i.val < n then UInt16.ofNat (field digest i) else 0) n
          (log ++ positions n) =
          some ((Vector.ofFn fun i => if i.val < n then UInt16.ofNat (field digest i)
              else 0).set! n (UInt16.ofNat (field digest n)),
            log ++ positions n ++ (List.range 11).map fun offset => (n * 11 + offset) / 8) := by
        simp only [setIndex, readBits16, StateT.bind, bind, hread, Option.bind]
        rfl
      rw [foldlM_range_succ (ih (Nat.le_of_succ_le hn)) hset]
      refine congrArg some (Prod.ext ?_ ?_)
      · refine Vector.ext fun i hi => ?_
        rw [Vector.set!_eq_setIfInBounds, Vector.getElem_setIfInBounds hi, Vector.getElem_ofFn,
          Vector.getElem_ofFn]
        rcases Nat.lt_trichotomy i n with hlt | rfl | hgt
        · rw [if_neg hlt.ne', if_pos hlt, if_pos (Nat.lt_succ_of_lt hlt)]
        · rw [if_pos rfl, if_pos (Nat.lt_succ_self i)]
        · rw [if_neg hgt.ne, if_neg hgt.not_gt, if_neg (Nat.not_lt.mpr (Nat.succ_le_of_lt hgt))]
      · rw [positions_succ, ← List.append_assoc]

/-- The fingerprint whose indices are the fields of a digest. -/
def WordIndices.ofDigest (digest : Bytes 32) : WordIndices :=
  ⟨Vector.ofFn fun i => UInt16.ofNat (field digest i)⟩

/-- A digest's fingerprint is its twelve fields; the reads are those of the fields' bytes. -/
theorem WordIndices.fromKeyDigest_eq (digest : Bytes 32) (log : List ℕ) :
    fromKeyDigest digest log =
      some (ofDigest digest, log ++ positions fingerprintWordCount) := by
  have h := foldlM_setIndex digest log fingerprintWordCount le_rfl
  unfold fromKeyDigest
  simp only [StateT.bind, bind, h, Option.bind]
  refine congrArg some (Prod.ext (congrArg WordIndices.mk ?_) rfl)
  ext i hi
  simp

/-! ### The words -/

/-- The vendored word list: `2048` distinct words of lowercase ASCII letters. -/
structure WordList where
  words : List Text
  count : words.length = 2048
  nodup : words.Nodup
  lowercase : ∀ word ∈ words, ∀ c ∈ word, 'a' ≤ c ∧ c ≤ 'z'

/-- A word of three letters that spells a number in base `26`. -/
def spelled (i : ℕ) : Text :=
  [i / 676, i / 26 % 26, i % 26].map fun digit => Char.ofNat (97 + digit)

/-- The number that a word spells. -/
def spelledNumber (word : Text) : ℕ := word.foldl (fun n c => 26 * n + (c.toNat - 97)) 0

theorem letter_eq : ∀ digit < 26, (Char.ofNat (97 + digit)).toNat - 97 = digit ∧
    'a' ≤ Char.ofNat (97 + digit) ∧ Char.ofNat (97 + digit) ≤ 'z' := by
  decide +kernel

theorem spelledNumber_spelled {i : ℕ} (hi : i < 2048) : spelledNumber (spelled i) = i := by
  have h₁ := (letter_eq (i / 676) (by omega)).1
  have h₂ := (letter_eq (i / 26 % 26) (by omega)).1
  have h₃ := (letter_eq (i % 26) (by omega)).1
  simp only [spelledNumber, spelled, List.map_cons, List.map_nil, List.foldl_cons,
    List.foldl_nil, h₁, h₂, h₃]
  omega

/-- There are lists of `2048` distinct words. -/
instance : Nonempty WordList :=
  ⟨{ words := (List.range 2048).map spelled
     count := by rw [List.length_map, List.length_range]
     nodup := (List.nodup_range).map_on fun i hi j hj h => by
       rw [← spelledNumber_spelled (List.mem_range.mp hi), h,
         spelledNumber_spelled (List.mem_range.mp hj)]
     lowercase := fun word hword c hc => by
       obtain ⟨i, hi, rfl⟩ := List.mem_map.mp hword
       obtain ⟨digit, hdigit, rfl⟩ := List.mem_map.mp hc
       refine (letter_eq digit ?_).2
       have hi' := List.mem_range.mp hi
       simp only [List.mem_cons, List.not_mem_nil, or_false] at hdigit
       omega }⟩

namespace WordIndices

/-- The twelve words in order. -/
def words (list : WordList) (f : WordIndices) : Option (List Text) :=
  f.indices.toList.mapM fun index => list.words[index.toNat]?

/-- The words in three rows of four. -/
def rows (list : WordList) (f : WordIndices) : Option (List (List Text)) := do
  let words ← f.words list
  (List.range fingerprintRowCount).mapM fun row =>
    (List.range fingerprintWordsPerRow).mapM fun col =>
      words[row * fingerprintWordsPerRow + col]?

/-- The words in one line, a blank before each but the first. -/
def display (list : WordList) (f : WordIndices) : Option Text := do
  let words ← f.words list
  pure (words.zipIdx.foldl
    (fun out word => (if word.2 > 0 then out ++ [' '] else out) ++ word.1) [])

@[simp] theorem toNat_field (digest : Bytes 32) (i : ℕ) :
    (UInt16.ofNat (field digest i)).toNat = field digest i :=
  UInt16.toNat_ofNat_of_lt' ((field_lt digest i).trans (by decide))

theorem toNat_indices_ofDigest (digest : Bytes 32) :
    (ofDigest digest).indices.toList.map UInt16.toNat =
      (List.range fingerprintWordCount).map (field digest) := by
  refine List.ext_getElem (by simp) fun i hi hi' => ?_
  rw [List.getElem_map, List.getElem_map, List.getElem_range, Vector.getElem_toList]
  exact (congrArg UInt16.toNat (Vector.getElem_ofFn _)).trans (toNat_field digest i)

/-- The indices are those of the fingerprint that a link's two sides compare. -/
theorem fromKeyDigest_indices (digest : Bytes 32) :
    (Fingerprint.fromKeyDigest digest).indices =
      (ofDigest digest).indices.toList.map UInt16.toNat := by
  rw [toNat_indices_ofDigest, Fingerprint.fromKeyDigest]
  refine List.map_congr_left fun i _ => ?_
  rw [readBits, field, BitString.value, digestBits, List.foldl_map]
  refine congrArg (fun f => (List.range 11).foldl f 0) (funext₂ fun value offset => ?_)
  dsimp only
  rw [digestBit, Nat.toNat_testBit, Nat.shiftRight_eq_div_pow, Nat.mul_comm]

/-- Every index is an index into the word list. -/
theorem index_lt {digest : Bytes 32} {index : UInt16}
    (h : index ∈ (ofDigest digest).indices.toList) : index.toNat < 2048 := by
  have hmem := List.mem_map_of_mem (f := UInt16.toNat) h
  rw [toNat_indices_ofDigest] at hmem
  obtain ⟨i, -, hi⟩ := List.mem_map.mp hmem
  exact hi ▸ field_lt digest i

/-- Two digests agree on their leading `132` bits. -/
def SamePrefix (d d' : Bytes 32) : Prop := ∀ k < 132, digestBit d k = digestBit d' k

/-- A field determines its eleven bits. -/
theorem field_eq_iff {d d' : Bytes 32} {i : ℕ} :
    field d i = field d' i ↔
      ∀ offset < 11, digestBit d (i * 11 + offset) = digestBit d' (i * 11 + offset) := by
  rw [field, field, BitString.value_inj (by simp), digestBits, digestBits, List.map_inj_left]
  exact forall_congr' fun offset => by rw [List.mem_range]

/-- The twelve fields lie side by side: together they determine the leading bits. -/
theorem samePrefix_iff {d d' : Bytes 32} :
    SamePrefix d d' ↔ ∀ i < fingerprintWordCount, field d i = field d' i := by
  refine ⟨fun h i hi => field_eq_iff.mpr fun offset hoffset => h _ ?_, fun h k hk => ?_⟩
  · have hi' : i < 12 := hi
    omega
  · have hi : k / 11 < 12 := by omega
    have hbit := field_eq_iff.mp (h (k / 11) hi) (k % 11) (Nat.mod_lt k (by omega))
    rwa [Nat.div_add_mod'] at hbit

/-- Equal fingerprints mean equal leading bits, and the other way round. -/
theorem ofDigest_inj {d d' : Bytes 32} : ofDigest d = ofDigest d' ↔ SamePrefix d d' := by
  rw [samePrefix_iff]
  constructor
  · intro h i hi
    have hlists := congrArg (fun f => f.indices.toList.map UInt16.toNat) h
    simp only [toNat_indices_ofDigest] at hlists
    exact List.map_inj_left.mp hlists i (List.mem_range.mpr hi)
  · intro h
    refine congrArg WordIndices.mk (Vector.ext fun i hi => ?_)
    rw [Vector.getElem_ofFn, Vector.getElem_ofFn, h i hi]

/-! ### The renderings -/

end WordIndices

/-- A loop in which no element fails. -/
theorem mapM_eq_some_map {α β : Type} {f : α → Option β} {g : α → β} {l : List α}
    (h : ∀ a ∈ l, f a = some (g a)) : l.mapM f = some (l.map g) := by
  induction l with
  | nil => rfl
  | cons a l ih =>
      rw [List.mapM_cons, h a List.mem_cons_self,
        ih fun b hb => h b (List.mem_cons_of_mem _ hb)]
      rfl

namespace WordList

variable (list : WordList)

/-- The word at a place of the list. -/
def word (i : ℕ) : Text := list.words.getD i []

theorem getElem?_eq {i : ℕ} (h : i < 2048) : list.words[i]? = some (list.word i) := by
  have hi : i < list.words.length := list.count.symm ▸ h
  rw [word, List.getElem?_eq_getElem hi, List.getD_eq_getElem _ _ hi]

/-- Different places hold different words. -/
theorem word_inj {i j : ℕ} (hi : i < 2048) (hj : j < 2048) :
    list.word i = list.word j ↔ i = j := by
  have hi' : i < list.words.length := list.count.symm ▸ hi
  have hj' : j < list.words.length := list.count.symm ▸ hj
  rw [word, word, List.getD_eq_getElem _ _ hi', List.getD_eq_getElem _ _ hj']
  exact List.Nodup.getElem_inj_iff list.nodup

/-- No word has a blank. -/
theorem blank_not_mem_word {i : ℕ} (h : i < 2048) : ' ' ∉ list.word i := by
  intro hblank
  have hi : i < list.words.length := list.count.symm ▸ h
  rw [word, List.getD_eq_getElem _ _ hi] at hblank
  exact absurd (list.lowercase _ (List.getElem_mem hi) ' ' hblank).1 (by decide)

end WordList

namespace WordIndices

variable (list : WordList)

/-- The words of a digest are in range: they are the words at its twelve fields. -/
theorem words_ofDigest (d : Bytes 32) :
    (ofDigest d).words list =
      some ((List.range fingerprintWordCount).map fun i => list.word (field d i)) := by
  have hwords := mapM_eq_some_map (l := (ofDigest d).indices.toList)
    fun index h => list.getElem?_eq (index_lt h)
  have hmap := congrArg (List.map list.word) (toNat_indices_ofDigest d)
  rw [List.map_map, List.map_map] at hmap
  exact hwords.trans (congrArg some hmap)

/-- The rows of a digest are in range: they are the words in their order. -/
theorem rows_ofDigest (d : Bytes 32) :
    (ofDigest d).rows list =
      some ((List.range fingerprintRowCount).map fun row =>
        (List.range fingerprintWordsPerRow).map fun col =>
          list.word (field d (row * fingerprintWordsPerRow + col))) := by
  have hcell : ∀ row ∈ List.range fingerprintRowCount,
      ∀ col ∈ List.range fingerprintWordsPerRow,
      ((List.range fingerprintWordCount).map fun i =>
          list.word (field d i))[row * fingerprintWordsPerRow + col]? =
        some (list.word (field d (row * fingerprintWordsPerRow + col))) := by
    intro row hrow col hcol
    have hrow' : row < 3 := List.mem_range.mp hrow
    have hcol' : col < 4 := List.mem_range.mp hcol
    have hplace : row * fingerprintWordsPerRow + col < fingerprintWordCount := by
      rw [fingerprintWordsPerRow, fingerprintWordCount]
      omega
    rw [List.getElem?_map, List.getElem?_range hplace]
    rfl
  simp only [rows, words_ofDigest, Option.bind_eq_bind, Option.bind_some]
  exact mapM_eq_some_map fun row hrow => mapM_eq_some_map (hcell row hrow)

/-- The loop that writes the words leaves a blank between each two. -/
theorem foldl_display (words : List Text) {n : ℕ} (hn : 0 < n) (out : Text) :
    (words.zipIdx n).foldl
        (fun out word => (if word.2 > 0 then out ++ [' '] else out) ++ word.1) out =
      out ++ words.flatMap fun word => ' ' :: word := by
  induction words generalizing n out with
  | nil => rw [List.zipIdx_nil, List.flatMap_nil, List.append_nil]; rfl
  | cons word words ih =>
      rw [List.zipIdx_cons, List.foldl_cons, if_pos hn, ih (Nat.succ_pos n),
        List.flatMap_cons, List.append_assoc, List.append_assoc]
      rfl

/-- A digest's line is its words joined by blanks. -/
theorem display_ofDigest (d : Bytes 32) :
    (ofDigest d).display list =
      some ([' '].intercalate
        ((List.range fingerprintWordCount).map fun i => list.word (field d i))) := by
  rw [display, words_ofDigest]
  generalize (List.range fingerprintWordCount).map (fun i => list.word (field d i)) = words
  refine congrArg some ?_
  cases words with
  | nil => rfl
  | cons word words =>
      rw [List.zipIdx_cons, List.foldl_cons, foldl_display words (Nat.succ_pos 0)]
      induction words generalizing word with
      | nil => simp
      | cons next words ih =>
          rw [List.intercalate_cons_cons, ← ih, List.flatMap_cons]
          simp

/-- The words determine the fields. -/
theorem words_inj {d d' : Bytes 32} :
    (List.range fingerprintWordCount).map (fun i => list.word (field d i)) =
        (List.range fingerprintWordCount).map (fun i => list.word (field d' i)) ↔
      SamePrefix d d' := by
  rw [samePrefix_iff, List.map_inj_left]
  refine forall_congr' fun i => ?_
  rw [List.mem_range, list.word_inj (field_lt d i) (field_lt d' i)]

/-- The rows determine the fields. -/
theorem rows_inj {d d' : Bytes 32} :
    (ofDigest d).rows list = (ofDigest d').rows list ↔ SamePrefix d d' := by
  refine ⟨fun h => ?_, fun h => by rw [ofDigest_inj.mpr h]⟩
  rw [rows_ofDigest, rows_ofDigest] at h
  refine samePrefix_iff.mpr fun i hi => ?_
  have hi' : i < 12 := hi
  have hrow := List.map_inj_left.mp (Option.some.inj h) (i / 4)
    (List.mem_range.mpr (show i / 4 < 3 by omega))
  have hword := List.map_inj_left.mp hrow (i % 4)
    (List.mem_range.mpr (Nat.mod_lt i (show 0 < 4 by omega)))
  have hplace : i / 4 * fingerprintWordsPerRow + i % 4 = i := Nat.div_add_mod' i 4
  rw [hplace] at hword
  exact (list.word_inj (field_lt d i) (field_lt d' i)).mp hword

/-- The line determines the words, for no word has a blank. -/
theorem display_inj {d d' : Bytes 32} :
    (ofDigest d).display list = (ofDigest d').display list ↔ SamePrefix d d' := by
  refine ⟨fun h => ?_, fun h => by rw [ofDigest_inj.mpr h]⟩
  rw [display_ofDigest, display_ofDigest] at h
  refine (words_inj list).mp ?_
  have hsplit : ∀ e : Bytes 32, ([' '].intercalate
      ((List.range fingerprintWordCount).map fun i => list.word (field e i))).splitOn ' ' =
        (List.range fingerprintWordCount).map fun i => list.word (field e i) := by
    intro e
    refine List.splitOn_intercalate ' ' (fun word hword => ?_) (List.cons_ne_nil _ _)
    obtain ⟨i, -, rfl⟩ := List.mem_map.mp hword
    exact list.blank_not_mem_word (field_lt e i)
  rw [← hsplit d, ← hsplit d', Option.some.inj h]

/-- A digest's fingerprint as its leading `132` bits: the loop reads within its bounds and
no byte past the seventeenth, every index is one of the word list, and two digests have
the same indices, words, rows or line just when those bits agree. -/
theorem identifies_prefix (d d' : Bytes 32) :
    ∃ f f' log log', fromKeyDigest d [] = some (f, log) ∧
      fromKeyDigest d' [] = some (f', log') ∧
      (∀ p ∈ log, p ≤ 16) ∧ (∀ index ∈ f.indices.toList, index.toNat < 2048) ∧
      (f = f' ↔ SamePrefix d d') ∧
      (∃ words rows line, f.words list = some words ∧ f.rows list = some rows ∧
        f.display list = some line) ∧
      (f.words list = f'.words list ↔ SamePrefix d d') ∧
      (f.rows list = f'.rows list ↔ SamePrefix d d') ∧
      (f.display list = f'.display list ↔ SamePrefix d d') := by
  refine ⟨ofDigest d, ofDigest d', _, _, fromKeyDigest_eq d [], fromKeyDigest_eq d' [],
    fun p hp => le_of_mem_positions ?_, fun index h => index_lt h, ofDigest_inj,
    ⟨_, _, _, words_ofDigest list d, rows_ofDigest list d, display_ofDigest list d⟩, ?_,
    rows_inj list, display_inj list⟩
  · rwa [List.nil_append] at hp
  · rw [words_ofDigest, words_ofDigest, Option.some_inj]
    exact words_inj list

end WordIndices

end Tradr
