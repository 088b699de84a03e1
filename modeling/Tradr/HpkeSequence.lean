import Mathlib.Data.List.Nodup
import Tradr.EnvelopeIntegrity

/-!
# The Sequence Numbers of a Context

A context is used for many messages. This module follows it through whole runs of calls,
in any order of calls that go through and calls that fail, and through the limit of its
counter: the message with the last number goes through the cipher, but what the cipher
answers is dropped, the context is marked as used up and the call fails.

Each call leaves a record: its arguments, the nonce under which the cipher answered, if it
was asked and did answer, and the call's result. The nonce is recorded whether or not the
answer was handed out, so a ciphertext that was computed and dropped counts.

## Main results

* `HpkeRun.Numbered.call`: each call either fails and leaves the number as it is, or takes
  the next one.
* `HpkeRun.seals_never_repeat`: the nonces of all ciphertexts ever computed are pairwise
  distinct, and after the last one every call fails.
* `HpkeRun.opens_in_step`: a receiver opens the sender's messages one after the other, in
  the sender's order, whatever else it is given in between.
-/

open Fallible

namespace Tradr

/-! ### One call -/

namespace HpkeContext

/-- What a call does with a context, by the cipher's answer under the context's next nonce:
the nonce under which there was an answer, the result and the context afterwards. -/
inductive MessageOutcome (ctx : HpkeContext) (failure : HpkeError) :
    Option (List UInt8) → Option (Bytes 12) → Except HpkeError (List UInt8) → HpkeContext → Prop
  /-- The context is used up: the cipher is not asked. -/
  | spent {answer} (h : ctx.overflowed = true) :
      MessageOutcome ctx failure answer none (.error .messageLimitReached) ctx
  /-- The cipher refuses. -/
  | refused (h : ctx.overflowed = false) :
      MessageOutcome ctx failure none none (.error failure) ctx
  /-- The cipher answers for the last number: the answer is dropped. -/
  | last {out} (h : ctx.overflowed = false) (hseq : ctx.seq.toNat = 2 ^ 64 - 1) :
      MessageOutcome ctx failure (some out) (some (nonceOf ctx.baseNonce ctx.seq))
        (.error .messageLimitReached) { ctx with overflowed := true }
  /-- The cipher answers and the context goes on to the next number. -/
  | passed {out} (h : ctx.overflowed = false) (hseq : ctx.seq.toNat ≠ 2 ^ 64 - 1) :
      MessageOutcome ctx failure (some out) (some (nonceOf ctx.baseNonce ctx.seq)) (.ok out)
        { ctx with seq := ctx.seq + 1 }

/-- The nonce under which a call's cipher answers, if it is asked and does. -/
def nonceUsed (ctx : HpkeContext) (cipher : Bytes 32 → Bytes 12 → Option (List UInt8)) :
    Option (Bytes 12) :=
  match ctx.computeNonce with
  | .error _ => none
  | .ok nonce => (cipher ctx.key nonce).map fun _ => nonce

/-- Every call has one of the four outcomes. -/
theorem message_outcome (ctx : HpkeContext)
    (cipher : Bytes 32 → Bytes 12 → Option (List UInt8)) (failure : HpkeError) :
    MessageOutcome ctx failure (cipher ctx.key (nonceOf ctx.baseNonce ctx.seq))
      (ctx.nonceUsed cipher) (ctx.message cipher failure).1 (ctx.message cipher failure).2 := by
  unfold nonceUsed message computeNonce incrementSeq
  rcases Bool.eq_false_or_eq_true ctx.overflowed with ho | ho
  · simp only [ho, if_true]
    exact .spent ho
  · rcases hc : cipher ctx.key (nonceOf ctx.baseNonce ctx.seq) with _ | out
    · simp only [ho, hc, Bool.false_eq_true, if_false, Option.map_none]
      exact .refused ho
    · by_cases hseq : ctx.seq.toNat = 2 ^ 64 - 1
      · simp only [ho, hc, Bool.false_eq_true, if_false, hseq, if_true, Option.map_some]
        exact .last ho hseq
      · simp only [ho, hc, Bool.false_eq_true, if_false, hseq, Option.map_some]
        have hpassed : MessageOutcome ctx failure (some out)
            (some (nonceOf ctx.baseNonce ctx.seq)) (.ok out) { ctx with seq := ctx.seq + 1 } :=
          .passed ho hseq
        rwa [ho] at hpassed

/-- The number of a context is a number of the code, so it never wraps around. -/
theorem toNat_seq_succ {ctx : HpkeContext} (h : ctx.seq.toNat ≠ 2 ^ 64 - 1) :
    (ctx.seq + 1).toNat = ctx.seq.toNat + 1 := by
  have hlt := ctx.seq.toNat_lt
  rw [UInt64.toNat_add]
  exact Nat.mod_eq_of_lt (by change ctx.seq.toNat + 1 < _; omega)

/-- **A call that fails** leaves the number as it is. -/
theorem seq_of_error {ctx : HpkeContext} {cipher : Bytes 32 → Bytes 12 → Option (List UInt8)}
    {failure e : HpkeError} (h : (ctx.message cipher failure).1 = .error e) :
    (ctx.message cipher failure).2.seq = ctx.seq := by
  have hout := message_outcome ctx cipher failure
  rw [h] at hout
  generalize ctx.nonceUsed cipher = used, (ctx.message cipher failure).2 = ctx',
    cipher ctx.key (nonceOf ctx.baseNonce ctx.seq) = answer at hout
  cases hout with
  | spent | refused | last => rfl

/-- **A used up context** stays as it is, and every call fails. -/
theorem message_of_overflowed {ctx : HpkeContext} (h : ctx.overflowed = true)
    (cipher : Bytes 32 → Bytes 12 → Option (List UInt8)) (failure : HpkeError) :
    ctx.message cipher failure = (.error .messageLimitReached, ctx) := by
  rw [message, if_pos h]

/-- The nonce of the message with number `k`. -/
def nonceAt (baseNonce : Bytes 12) (k : ℕ) : Bytes 12 := nonceOf baseNonce (UInt64.ofNat k)

theorem nonceAt_toNat (baseNonce : Bytes 12) (seq : UInt64) :
    nonceAt baseNonce seq.toNat = nonceOf baseNonce seq := by
  rw [nonceAt, UInt64.ofNat_toNat]

/-- As far as the counter goes, different numbers give different nonces. -/
theorem nonceAt_inj {baseNonce : Bytes 12} {i j : ℕ} (hi : i < 2 ^ 64) (hj : j < 2 ^ 64)
    (h : nonceAt baseNonce i = nonceAt baseNonce j) : i = j := by
  have hseq := congrArg UInt64.toNat (nonceOf_inj h)
  rwa [UInt64.toNat_ofNat_of_lt' hi, UInt64.toNat_ofNat_of_lt' hj] at hseq

end HpkeContext

/-! ### Runs of calls -/

/-- A call and what became of it. -/
structure CallRecord where
  aad : List UInt8
  text : List UInt8
  /-- The nonce under which the cipher answered. -/
  nonce : Option (Bytes 12)
  result : Except HpkeError (List UInt8)

/-- A message that went through: its nonce, its associated data, what was given and what
came out. -/
structure PassedText where
  nonce : Bytes 12
  aad : List UInt8
  text : List UInt8
  out : List UInt8
  deriving DecidableEq

/-- The message of a call that succeeded. -/
def CallRecord.passed? (c : CallRecord) : Option PassedText :=
  match c.nonce, c.result with
  | some nonce, .ok out => some ⟨nonce, c.aad, c.text, out⟩
  | _, _ => none

@[simp] theorem CallRecord.passed?_error (aad text : List UInt8) (nonce : Option (Bytes 12))
    (e : HpkeError) : passed? ⟨aad, text, nonce, .error e⟩ = none := by
  cases nonce <;> rfl

@[simp] theorem CallRecord.passed?_ok (aad text out : List UInt8) (nonce : Bytes 12) :
    passed? ⟨aad, text, some nonce, .ok out⟩ = some ⟨nonce, aad, text, out⟩ := rfl

/-- A context and the calls it has served, the first one first. -/
structure HpkeRun where
  ctx : HpkeContext
  records : List CallRecord

namespace HpkeRun

/-- The nonces under which the cipher answered. -/
def nonces (r : HpkeRun) : List (Bytes 12) := r.records.filterMap CallRecord.nonce

/-- The messages that went through. -/
def passed (r : HpkeRun) : List PassedText := r.records.filterMap CallRecord.passed?

/-- A run of no calls. -/
def start (ctx : HpkeContext) : HpkeRun := ⟨ctx, []⟩

/-- What a cipher does with a key, a nonce, associated data and a text. -/
abbrev Cipher := Bytes 32 → Bytes 12 → List UInt8 → List UInt8 → Option (List UInt8)

section Calls

variable (cipher : Cipher) (failure : HpkeError)

/-- One more call. -/
def call (r : HpkeRun) (arg : List UInt8 × List UInt8) : HpkeRun :=
  let use : Bytes 32 → Bytes 12 → Option (List UInt8) := fun key nonce =>
    cipher key nonce arg.1 arg.2
  let answer := r.ctx.message use failure
  ⟨answer.2, r.records ++ [⟨arg.1, arg.2, r.ctx.nonceUsed use, answer.1⟩]⟩

/-- Calls one after the other. -/
def calls (r : HpkeRun) (args : List (List UInt8 × List UInt8)) : HpkeRun :=
  args.foldl (call cipher failure) r

end Calls

/-- A sender's calls of `seal`. -/
def seals (suite : HpkeSuite) (ctx : SenderContext) (args : List (List UInt8 × List UInt8)) :
    HpkeRun :=
  calls suite.encrypt .sealFailed (start ctx) args

/-- A receiver's calls of `open`. -/
def opens (suite : HpkeSuite) (ctx : ReceiverContext)
    (args : List (List UInt8 × List UInt8)) : HpkeRun :=
  calls suite.decrypt .openFailed (start ctx) args

/-! ### What a run keeps -/

section Numbered

variable {cipher : Cipher} {failure : HpkeError} {key : Bytes 32} {baseNonce : Bytes 12}

/-- What holds after any calls of a context that started with the number zero: the nonces
used so far are those of the first numbers, each once, and the `k`-th message that went
through did so under the `k`-th nonce. -/
structure Numbered (cipher : Cipher) (key : Bytes 32) (baseNonce : Bytes 12) (r : HpkeRun) :
    Prop where
  key_eq : r.ctx.key = key
  baseNonce_eq : r.ctx.baseNonce = baseNonce
  seq_of_overflowed : r.ctx.overflowed = true → r.ctx.seq.toNat = 2 ^ 64 - 1
  nonces_eq : r.nonces = (List.range (r.ctx.seq.toNat + r.ctx.overflowed.toNat)).map
    (HpkeContext.nonceAt baseNonce)
  length_passed : r.passed.length = r.ctx.seq.toNat
  passed_eq : ∀ k m, r.passed[k]? = some m →
    m.nonce = HpkeContext.nonceAt baseNonce k ∧ cipher key m.nonce m.aad m.text = some m.out
  limit_iff : (∃ c ∈ r.records, c.result = .error .messageLimitReached) ↔
    r.ctx.overflowed = true

/-- A context as the key schedule leaves it. -/
def fresh (key : Bytes 32) (baseNonce : Bytes 12) (exporterSecret : Bytes 32) : HpkeContext :=
  ⟨key, baseNonce, 0, exporterSecret, false⟩

/-- The contexts that the setup yields are fresh, on either side. -/
theorem eq_fresh_of_contextOf {suite : HpkeSuite} {dh : List UInt8} {enc : Bytes 65}
    {pkR : PublicKeyPoint} {info : List UInt8} {ctx : HpkeContext}
    (h : contextOf suite dh enc pkR info = .ok ctx) :
    ctx = fresh ctx.key ctx.baseNonce ctx.exporterSecret := by
  obtain ⟨secret, -, h⟩ := bind_eq_ok.mp h
  obtain ⟨material, -, h⟩ := bind_eq_ok.mp h
  obtain rfl := Except.ok.inj h
  rfl

/-- Before the first call nothing was used. -/
theorem Numbered.fresh (key : Bytes 32) (baseNonce : Bytes 12) (exporterSecret : Bytes 32) :
    Numbered cipher key baseNonce (start (fresh key baseNonce exporterSecret)) where
  key_eq := rfl
  baseNonce_eq := rfl
  seq_of_overflowed h := by cases h
  nonces_eq := rfl
  length_passed := rfl
  passed_eq k m h := by cases h
  limit_iff := by simp [start, HpkeRun.fresh]

@[simp] theorem nonces_concat (ctx : HpkeContext) (records : List CallRecord)
    (c : CallRecord) :
    nonces ⟨ctx, records ++ [c]⟩ = nonces ⟨ctx, records⟩ ++ c.nonce.toList := by
  rw [nonces, List.filterMap_append, List.filterMap_cons]
  rcases hn : c.nonce with _ | nonce <;> rfl

@[simp] theorem passed_concat (ctx : HpkeContext) (records : List CallRecord)
    (c : CallRecord) :
    passed ⟨ctx, records ++ [c]⟩ = passed ⟨ctx, records⟩ ++ c.passed?.toList := by
  rw [passed, List.filterMap_append, List.filterMap_cons]
  rcases hp : c.passed? with _ | m <;> rfl

/-- A call without an answer of the cipher keeps the numbering. -/
theorem Numbered.unanswered {ctx : HpkeContext} {records : List CallRecord}
    (h : Numbered cipher key baseNonce ⟨ctx, records⟩) {e : HpkeError}
    (he : e = .messageLimitReached → ctx.overflowed = true) (aad text : List UInt8) :
    Numbered cipher key baseNonce ⟨ctx, records ++ [⟨aad, text, none, .error e⟩]⟩ := by
  obtain ⟨hkey, hbase, hover, hnonces, hlength, hpassed, hlimit⟩ := h
  refine ⟨hkey, hbase, hover, ?_, ?_, ?_, ?_⟩
  · rwa [nonces_concat, Option.toList_none, List.append_nil]
  · rwa [passed_concat, CallRecord.passed?_error, Option.toList_none, List.append_nil]
  · rwa [passed_concat, CallRecord.passed?_error, Option.toList_none, List.append_nil]
  · dsimp only at hlimit ⊢
    rw [← hlimit]
    constructor
    · rintro ⟨c, hc, hresult⟩
      rcases List.mem_append.mp hc with hc | hc
      · exact ⟨c, hc, hresult⟩
      · obtain rfl := List.mem_singleton.mp hc
        exact hlimit.mpr (he (Except.error.inj hresult))
    · rintro ⟨c, hc, hresult⟩
      exact ⟨c, List.mem_append_left _ hc, hresult⟩

/-- **One more call** keeps the numbering: a call that fails leaves the number as it is,
and one that succeeds takes the next. -/
theorem Numbered.call {r : HpkeRun} (h : Numbered cipher key baseNonce r)
    (hfailure : failure ≠ .messageLimitReached) (arg : List UInt8 × List UInt8) :
    Numbered cipher key baseNonce (r.call cipher failure arg) := by
  obtain ⟨ctx, records⟩ := r
  have hout := HpkeContext.message_outcome ctx
    (fun key nonce => cipher key nonce arg.1 arg.2) failure
  unfold HpkeRun.call
  dsimp only at hout ⊢
  generalize ctx.nonceUsed (fun key nonce => cipher key nonce arg.1 arg.2) = used at hout ⊢
  generalize ctx.message (fun key nonce => cipher key nonce arg.1 arg.2) failure = answer
    at hout ⊢
  obtain ⟨result, ctx'⟩ := answer
  generalize hcipher : cipher ctx.key (HpkeContext.nonceOf ctx.baseNonce ctx.seq) arg.1 arg.2 =
    found at hout
  dsimp only at hout ⊢
  cases hout with
  | spent ho => exact h.unanswered (fun _ => ho) arg.1 arg.2
  | refused ho => exact h.unanswered (fun he => absurd he hfailure) arg.1 arg.2
  | last ho hseq =>
      obtain ⟨rfl, rfl, -, hnonces, hlength, hpassed, -⟩ := h
      refine ⟨rfl, rfl, fun _ => hseq, ?_, ?_, ?_, ?_⟩
      · rw [nonces_concat]
        change nonces ⟨ctx, records⟩ ++ _ = _
        rw [hnonces]
        dsimp only
        rw [ho, Bool.toNat_false, Bool.toNat_true, List.range_succ, List.map_append,
          List.map_singleton, HpkeContext.nonceAt_toNat]
        rfl
      · rwa [passed_concat, CallRecord.passed?_error, Option.toList_none, List.append_nil]
      · rwa [passed_concat, CallRecord.passed?_error, Option.toList_none, List.append_nil]
      · exact iff_of_true ⟨_, List.mem_append_right _ (List.mem_singleton.mpr rfl), rfl⟩ rfl
  | passed ho hseq =>
      rename_i out
      obtain ⟨rfl, rfl, -, hnonces, hlength, hpassed, hlimit⟩ := h
      dsimp only at hnonces hlength hpassed hlimit
      have hsucc := HpkeContext.toNat_seq_succ hseq
      refine ⟨rfl, rfl, fun h => ?_, ?_, ?_, ?_, ?_⟩
      · rw [ho] at h
        cases h
      · rw [nonces_concat]
        change nonces ⟨ctx, records⟩ ++ _ = _
        rw [hnonces]
        dsimp only
        rw [hsucc, ho, Bool.toNat_false, Nat.add_zero, Nat.add_zero, List.range_succ,
          List.map_append, List.map_singleton, HpkeContext.nonceAt_toNat]
        rfl
      · rw [passed_concat, CallRecord.passed?_ok, List.length_append]
        exact (congrArg (· + 1) hlength).trans hsucc.symm
      · intro k m hm
        rw [passed_concat, CallRecord.passed?_ok, Option.toList_some] at hm
        change (passed ⟨ctx, records⟩ ++ _)[k]? = _ at hm
        rcases Nat.lt_or_ge k (passed ⟨ctx, records⟩).length with hk | hk
        · rw [List.getElem?_append_left hk] at hm
          exact hpassed k m hm
        · rw [List.getElem?_append_right hk, List.getElem?_singleton] at hm
          split_ifs at hm with hzero
          obtain rfl := Option.some.inj hm
          have hk' : k = ctx.seq.toNat := by
            rw [← hlength]
            omega
          rw [hk', HpkeContext.nonceAt_toNat]
          exact ⟨rfl, hcipher⟩
      · dsimp only
        rw [ho]
        refine iff_of_false ?_ Bool.false_ne_true
        rintro ⟨c, hc, hresult⟩
        rcases List.mem_append.mp hc with hc | hc
        · exact absurd (hlimit.mp ⟨c, hc, hresult⟩) (by rw [ho]; exact Bool.false_ne_true)
        · obtain rfl := List.mem_singleton.mp hc
          cases hresult

/-- **Any calls** keep the numbering. -/
theorem Numbered.calls {r : HpkeRun} (h : Numbered cipher key baseNonce r)
    (hfailure : failure ≠ .messageLimitReached) (args : List (List UInt8 × List UInt8)) :
    Numbered cipher key baseNonce (r.calls cipher failure args) := by
  induction args generalizing r with
  | nil => exact h
  | cons arg args ih => exact ih (h.call hfailure arg)

/-- As many nonces were used as the counter has numbers just when it is used up. -/
theorem Numbered.length_nonces_iff {r : HpkeRun} (h : Numbered cipher key baseNonce r) :
    r.nonces.length = 2 ^ 64 ↔ r.ctx.overflowed = true := by
  rw [h.nonces_eq, List.length_map, List.length_range]
  have hlt := r.ctx.seq.toNat_lt
  rcases Bool.eq_false_or_eq_true r.ctx.overflowed with ho | ho
  · rw [ho, h.seq_of_overflowed ho]
    exact iff_of_true rfl rfl
  · rw [ho, Bool.toNat_false, Nat.add_zero]
    exact iff_of_false hlt.ne Bool.false_ne_true

/-- No nonce is used twice. -/
theorem Numbered.nodup_nonces {r : HpkeRun} (h : Numbered cipher key baseNonce r) :
    r.nonces.Nodup := by
  have hle : r.ctx.seq.toNat + r.ctx.overflowed.toNat ≤ 2 ^ 64 := by
    have hlt := r.ctx.seq.toNat_lt
    have hover := Bool.toNat_lt r.ctx.overflowed
    omega
  rw [h.nonces_eq]
  refine (List.nodup_range).map_on fun i hi j hj hij => ?_
  exact HpkeContext.nonceAt_inj ((List.mem_range.mp hi).trans_le hle)
    ((List.mem_range.mp hj).trans_le hle) hij

/-- Each number up to the counter's has its message. -/
theorem Numbered.lt_of_passed {r : HpkeRun} (h : Numbered cipher key baseNonce r) {k : ℕ}
    {m : PassedText} (hm : r.passed[k]? = some m) : k < r.ctx.seq.toNat := by
  rw [← h.length_passed]
  exact (List.getElem?_eq_some_iff.mp hm).1

/-- **A used up context** answers every further call with the limit. -/
theorem calls_of_overflowed {r : HpkeRun} (h : r.ctx.overflowed = true)
    (args : List (List UInt8 × List UInt8)) :
    ∃ after, (r.calls cipher failure args).records = r.records ++ after ∧
      after.length = args.length ∧ ∀ c ∈ after, c.result = .error .messageLimitReached := by
  induction args generalizing r with
  | nil => exact ⟨[], (List.append_nil _).symm, rfl, fun c hc => absurd hc List.not_mem_nil⟩
  | cons arg args ih =>
      have hanswer := HpkeContext.message_of_overflowed h
        (fun key nonce => cipher key nonce arg.1 arg.2) failure
      have hnext : (r.call cipher failure arg).ctx.overflowed = true := by
        rw [HpkeRun.call, hanswer]
        exact h
      obtain ⟨after, hrecords, hlength, hresults⟩ := ih hnext
      refine ⟨_ :: after, hrecords.trans (List.append_assoc _ _ _),
        congrArg (· + 1) hlength, fun c hc => ?_⟩
      rcases List.mem_cons.mp hc with rfl | hc
      · exact congrArg Prod.fst hanswer
      · exact hresults c hc

end Numbered

/-! ### The sender -/

variable {suite : HpkeSuite} (key : Bytes 32) (baseNonce : Bytes 12)
  (exporterSecret : Bytes 32)

theorem seals_numbered (suite : HpkeSuite) (args : List (List UInt8 × List UInt8)) :
    Numbered suite.encrypt key baseNonce
      (seals suite (fresh key baseNonce exporterSecret) args) := by
  have hfailure : HpkeError.sealFailed ≠ .messageLimitReached := by decide
  exact (Numbered.fresh key baseNonce exporterSecret).calls hfailure args

theorem opens_numbered (suite : HpkeSuite) (args : List (List UInt8 × List UInt8)) :
    Numbered suite.decrypt key baseNonce
      (opens suite (fresh key baseNonce exporterSecret) args) := by
  have hfailure : HpkeError.openFailed ≠ .messageLimitReached := by decide
  exact (Numbered.fresh key baseNonce exporterSecret).calls hfailure args

/-- **No two ciphertexts share a nonce**, whether they were handed out or not; the limit is
reported once all numbers are used, and by every call after that. -/
theorem seals_never_repeat (suite : HpkeSuite) (args later : List (List UInt8 × List UInt8)) :
    let r := seals suite (fresh key baseNonce exporterSecret) args
    r.nonces.Nodup ∧
      ((∃ c ∈ r.records, c.result = .error .messageLimitReached) ↔ r.nonces.length = 2 ^ 64) ∧
      (r.nonces.length = 2 ^ 64 → ∃ after,
        (seals suite (fresh key baseNonce exporterSecret) (args ++ later)).records =
          r.records ++ after ∧ after.length = later.length ∧
        ∀ c ∈ after, c.result = .error .messageLimitReached) := by
  intro r
  have h := seals_numbered key baseNonce exporterSecret suite args
  refine ⟨h.nodup_nonces, h.limit_iff.trans h.length_nonces_iff.symm, fun hall => ?_⟩
  have hmore : seals suite (fresh key baseNonce exporterSecret) (args ++ later) =
      r.calls suite.encrypt .sealFailed later := List.foldl_append
  rw [hmore]
  exact calls_of_overflowed (h.length_nonces_iff.mp hall) later

/-! ### The receiver -/

/-- An ideal AEAD, as a receiver meets it in one exchange: of what it is given, only what
the sender handed out opens, and only under the nonce it was sealed with; and the sender's
ciphertexts under different nonces differ. -/
structure IdealCipher (suite : HpkeSuite) (sender : HpkeRun)
    (given : List (List UInt8 × List UInt8)) : Prop where
  authentic : ∀ arg ∈ given, ∀ seq pt,
    suite.decrypt sender.ctx.key (HpkeContext.nonceOf sender.ctx.baseNonce seq) arg.1 arg.2 =
      some pt →
    ∃ m ∈ sender.passed, m.nonce = HpkeContext.nonceOf sender.ctx.baseNonce seq ∧
      m.aad = arg.1 ∧ m.out = arg.2
  distinct : ∀ m ∈ sender.passed, ∀ m' ∈ sender.passed,
    m.aad = m'.aad → m.out = m'.out → m.nonce = m'.nonce

/-- A sealed message as the receiver hands it out. -/
def PassedText.opened (m : PassedText) : PassedText := ⟨m.nonce, m.aad, m.out, m.text⟩

section Receiver

variable {key baseNonce exporterSecret} {sealed given : List (List UInt8 × List UInt8)}

/-- What opens in a receiver is the sender's message with the receiver's number. -/
theorem IdealCipher.passed_of_decrypt
    (hideal : IdealCipher suite (seals suite (fresh key baseNonce exporterSecret) sealed) given)
    (hsuite : suite.Lawful) {arg : List UInt8 × List UInt8} (harg : arg ∈ given)
    {seq : UInt64} {pt : List UInt8}
    (h : suite.decrypt key (HpkeContext.nonceOf baseNonce seq) arg.1 arg.2 = some pt) :
    (seals suite (fresh key baseNonce exporterSecret) sealed).passed[seq.toNat]? =
      some ⟨HpkeContext.nonceOf baseNonce seq, arg.1, pt, arg.2⟩ := by
  have hnum := seals_numbered key baseNonce exporterSecret suite sealed
  obtain ⟨⟨nonce, aad, text, out⟩, hm, hnonce, haad, hout⟩ := hideal.authentic arg harg seq pt
    (by rw [hnum.key_eq, hnum.baseNonce_eq]; exact h)
  dsimp only at hnonce haad hout
  obtain rfl := haad
  obtain rfl := hout
  rw [hnum.baseNonce_eq] at hnonce
  obtain rfl := hnonce
  obtain ⟨k, hk⟩ := List.getElem?_of_mem hm
  obtain ⟨hat, hcipher⟩ := hnum.passed_eq k _ hk
  have hlt := (hnum.lt_of_passed hk).trans (UInt64.toNat_lt _)
  rw [← HpkeContext.nonceAt_toNat] at hat
  obtain rfl := HpkeContext.nonceAt_inj seq.toNat_lt hlt hat
  have hback := hsuite.decrypt_encrypt _ _ _ _ _ hcipher
  dsimp only at hback
  rw [hback] at h
  obtain rfl := Option.some.inj h
  exact hk

/-- What a receiver opened it was given. -/
theorem mem_of_passed {cipher : Cipher} {failure : HpkeError} {ctx : HpkeContext}
    {args : List (List UInt8 × List UInt8)} {m : PassedText}
    (h : m ∈ (calls cipher failure (start ctx) args).passed) : (m.aad, m.text) ∈ args := by
  have hargs : ∀ (r : HpkeRun) (args : List (List UInt8 × List UInt8)),
      ((r.calls cipher failure args).records.map fun c => (c.aad, c.text)) =
        (r.records.map fun c => (c.aad, c.text)) ++ args := by
    intro r args
    induction args generalizing r with
    | nil => exact (List.append_nil _).symm
    | cons arg args ih =>
        refine (ih (r.call cipher failure arg)).trans ?_
        rw [HpkeRun.call, List.map_append, List.append_assoc]
        rfl
  obtain ⟨c, hc, hpassed⟩ := List.mem_filterMap.mp h
  have hmem : (c.aad, c.text) ∈ args := by
    rw [← List.nil_append args]
    exact hargs (start ctx) args ▸ List.mem_map_of_mem hc
  obtain ⟨aad, text, nonce, result⟩ := c
  rcases nonce with _ | nonce
  · cases hpassed
  · rcases result with e | out
    · cases hpassed
    · obtain rfl := Option.some.inj hpassed
      exact hmem

/-- **What has opened is the sender's first messages**, in the sender's order. -/
theorem passed_opens
    (hideal : IdealCipher suite (seals suite (fresh key baseNonce exporterSecret) sealed) given)
    (hsuite : suite.Lawful) {before : List (List UInt8 × List UInt8)} (hbefore : before ⊆ given) :
    let r := opens suite (fresh key baseNonce exporterSecret) before
    r.passed = ((seals suite (fresh key baseNonce exporterSecret) sealed).passed.take
      r.passed.length).map PassedText.opened := by
  intro r
  have hnum : Numbered suite.decrypt key baseNonce r :=
    opens_numbered key baseNonce exporterSecret suite before
  refine List.ext_getElem? fun j => ?_
  rw [List.getElem?_map]
  rcases Nat.lt_or_ge j r.passed.length with hj | hj
  · obtain ⟨m, hm⟩ : ∃ m, r.passed[j]? = some m := ⟨_, List.getElem?_eq_getElem hj⟩
    obtain ⟨hnonce, hdec⟩ := hnum.passed_eq j m hm
    have hsmall : j < 2 ^ 64 := (hnum.lt_of_passed hm).trans (UInt64.toNat_lt _)
    rw [hnonce, HpkeContext.nonceAt] at hdec
    have hgiven := hbefore (mem_of_passed (List.mem_of_getElem? hm))
    have hsent := hideal.passed_of_decrypt hsuite hgiven hdec
    rw [UInt64.toNat_ofNat_of_lt' hsmall] at hsent
    rw [hm, List.getElem?_take_of_lt hj, hsent]
    refine congrArg some ?_
    obtain ⟨nonce, aad, text, out⟩ := m
    exact congrArg (PassedText.mk · aad text out) hnonce
  · rw [List.getElem?_eq_none hj, List.getElem?_eq_none (by
      rw [List.length_take]
      exact (min_le_left _ _).trans hj)]
    rfl

/-- **A receiver stays in step.** Whatever it has been given, a call that fails leaves its
number as it is, and the sender's `k`-th ciphertext opens just when `k` have opened, which
are the `k` before it. -/
theorem opens_in_step
    (hideal : IdealCipher suite (seals suite (fresh key baseNonce exporterSecret) sealed) given)
    (hsuite : suite.Lawful) {before after : List (List UInt8 × List UInt8)}
    {arg : List UInt8 × List UInt8} (hgiven : given = before ++ arg :: after) :
    let sender := seals suite (fresh key baseNonce exporterSecret) sealed
    let r := opens suite (fresh key baseNonce exporterSecret) before
    let next := ReceiverContext.openMessage suite r.ctx arg.1 arg.2
    (opens suite (fresh key baseNonce exporterSecret) (before ++ [arg])).ctx = next.2 ∧
      (∀ e, next.1 = .error e → next.2.seq = r.ctx.seq) ∧
      r.passed = (sender.passed.take r.passed.length).map PassedText.opened ∧
      ∀ k m, sender.passed[k]? = some m → arg = (m.aad, m.out) →
        (next.1 = .ok m.text ↔ r.passed.length = k) ∧
        ((∃ pt, next.1 = .ok pt) ↔ r.passed.length = k) := by
  intro sender r next
  have hsent : Numbered suite.encrypt key baseNonce sender :=
    seals_numbered key baseNonce exporterSecret suite sealed
  have hnum : Numbered suite.decrypt key baseNonce r :=
    opens_numbered key baseNonce exporterSecret suite before
  have harg : arg ∈ given := hgiven ▸ List.mem_append_right _ List.mem_cons_self
  have hbefore : before ⊆ given := hgiven ▸ List.subset_append_left _ _
  refine ⟨congrArg HpkeRun.ctx List.foldl_append, fun e he => HpkeContext.seq_of_error he,
    passed_opens hideal hsuite hbefore, fun k m hm hargm => ?_⟩
  obtain rfl := hargm
  obtain ⟨hnonce, hcipher⟩ := hsent.passed_eq k m hm
  have hk : k < 2 ^ 64 - 1 :=
    (hsent.lt_of_passed hm).trans_le (Nat.le_sub_one_of_lt (UInt64.toNat_lt _))
  have hforward : ∀ pt, next.1 = .ok pt → r.passed.length = k := by
    intro pt hpt
    have hnext : next = (.ok pt, next.2) := Prod.ext hpt rfl
    obtain ⟨-, hdec, -, -⟩ := HpkeContext.message_eq_ok_iff.mp hnext
    rw [hnum.key_eq, hnum.baseNonce_eq] at hdec
    have hat := hideal.passed_of_decrypt hsuite harg hdec
    have hsame := hideal.distinct _ (List.mem_of_getElem? hat) _ (List.mem_of_getElem? hm) rfl rfl
    rw [hnonce, ← HpkeContext.nonceAt_toNat] at hsame
    rw [hnum.length_passed]
    exact HpkeContext.nonceAt_inj (UInt64.toNat_lt _) (by omega) hsame
  have hback : r.passed.length = k → next.1 = .ok m.text := by
    intro hlength
    rw [hnum.length_passed] at hlength
    have hover : r.ctx.overflowed = false := by
      by_contra ho
      have hlast := hnum.seq_of_overflowed (Bool.not_eq_false _ ▸ ho)
      omega
    have hdec := hsuite.decrypt_encrypt _ _ _ _ _ hcipher
    rw [hnonce, ← hlength, HpkeContext.nonceAt_toNat, ← hnum.baseNonce_eq, ← hnum.key_eq] at hdec
    exact congrArg Prod.fst (HpkeContext.message_eq_ok_iff.mpr ⟨hover, hdec, by omega, rfl⟩)
  exact ⟨⟨hforward _, hback⟩, fun ⟨pt, hpt⟩ => hforward pt hpt, fun h => ⟨_, hback h⟩⟩

end Receiver

/-- **The numbers of a context.** On the sending side no nonce is ever used for two
ciphertexts, and past the last number every call fails; on the receiving side, under an
ideal AEAD, a call that fails leaves the number as it is and the sender's `k`-th ciphertext
opens just when the `k` before it have opened. -/
theorem numbers_in_step {suite : HpkeSuite} (hsuite : suite.Lawful) (key : Bytes 32)
    (baseNonce : Bytes 12) (exporterSecret : Bytes 32)
    (sealed later given : List (List UInt8 × List UInt8))
    (hideal :
      IdealCipher suite (seals suite (fresh key baseNonce exporterSecret) sealed) given) :
    let ctx := fresh key baseNonce exporterSecret
    let sender := seals suite ctx sealed
    (sender.nonces.Nodup ∧
      ((∃ c ∈ sender.records, c.result = .error .messageLimitReached) ↔
        sender.nonces.length = 2 ^ 64) ∧
      (sender.nonces.length = 2 ^ 64 → ∃ after,
        (seals suite ctx (sealed ++ later)).records = sender.records ++ after ∧
        after.length = later.length ∧
        ∀ c ∈ after, c.result = .error .messageLimitReached)) ∧
    ∀ before arg after, given = before ++ arg :: after →
      let r := opens suite ctx before
      let next := ReceiverContext.openMessage suite r.ctx arg.1 arg.2
      (opens suite ctx (before ++ [arg])).ctx = next.2 ∧
        (∀ e, next.1 = .error e → next.2.seq = r.ctx.seq) ∧
        r.passed = (sender.passed.take r.passed.length).map PassedText.opened ∧
        ∀ k m, sender.passed[k]? = some m → arg = (m.aad, m.out) →
          (next.1 = .ok m.text ↔ r.passed.length = k) ∧
          ((∃ pt, next.1 = .ok pt) ↔ r.passed.length = k) :=
  ⟨seals_never_repeat key baseNonce exporterSecret suite sealed later,
    fun _ _ _ hgiven => opens_in_step hideal hsuite hgiven⟩

end HpkeRun

/-! ### Two messages, one of them twice -/

namespace HpkeSequenceSample

open HiTxt HpkeRun

/-- What is sealed: the associated data and the plaintext of two messages. -/
def sealed : List (List UInt8 × List UInt8) :=
  [(makeAad 0 false, json), (makeAad 1 true, ascii "hi")]

/-- What is opened: nothing of the sender's, the second message too early, the first, the
first again and the second. -/
def given : List (List UInt8 × List UInt8) :=
  [([], ascii "nothing"), (makeAad 1 true, sealedContentBytes),
    (makeAad 0 false, sealedManifestBytes), (makeAad 0 false, sealedManifestBytes),
    (makeAad 1 true, sealedContentBytes)]

/-- The two messages as they went out. -/
theorem passed_seals : (seals boundSuite (fresh key baseNonce exporterSecret) sealed).passed =
    sealedMessages.map fun m => ⟨m.1, m.2.1, m.2.2.1, m.2.2.2⟩ := by
  decide +kernel

/-- Nothing opens but the two messages, each under its own nonce. -/
theorem idealCipher : IdealCipher boundSuite
    (seals boundSuite (fresh key baseNonce exporterSecret) sealed) given where
  authentic arg _ seq pt h := by
    have hnum := seals_numbered key baseNonce exporterSecret boundSuite sealed
    rw [hnum.key_eq, hnum.baseNonce_eq] at h
    obtain ⟨-, m, hm, hnonce, haad, hct⟩ := mem_of_decrypt h
    rw [passed_seals, hnum.baseNonce_eq]
    exact ⟨_, List.mem_map_of_mem hm, hnonce, haad, hct⟩
  distinct := by
    rw [passed_seals]
    decide +kernel

end HpkeSequenceSample

open HpkeSequenceSample HpkeRun HiTxt in
/-- The two messages have nonces of their own, and the second opens once the first has,
in spite of the calls that failed. -/
theorem numbers_in_step_of_two :
    (seals boundSuite (fresh key baseNonce exporterSecret) sealed).nonces.Nodup ∧
      (ReceiverContext.openMessage boundSuite
        (opens boundSuite (fresh key baseNonce exporterSecret) given.dropLast).ctx
        (makeAad 1 true) sealedContentBytes).1 = .ok (ascii "hi") := by
  obtain ⟨⟨hnodup, -, -⟩, hopens⟩ := numbers_in_step bound_lawful key baseNonce exporterSecret
    sealed [] given idealCipher
  obtain ⟨-, -, -, hkth⟩ := hopens given.dropLast (makeAad 1 true, sealedContentBytes) [] rfl
  have hsecond : (seals boundSuite (fresh key baseNonce exporterSecret) sealed).passed[1]? =
      some ⟨HpkeContext.nonceOf baseNonce 1, makeAad 1 true, ascii "hi", sealedContentBytes⟩ := by
    rw [passed_seals]
    rfl
  have hone : (opens boundSuite (fresh key baseNonce exporterSecret)
      given.dropLast).passed.length = 1 := by
    decide +kernel
  exact ⟨hnodup, (hkth 1 _ hsecond rfl).1.mpr hone⟩

end Tradr
