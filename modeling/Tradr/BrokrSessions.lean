import Mathlib.Data.List.Dedup
import Tradr.BrokrRegister
import Tradr.Machine

/-!
# Sessions at the Brokr

Over every order of challenges and registrations the Brokr's tables are as the history of
requests and answers has them. From this it follows who has a session: the device of a key whose
holder signed a nonce that the Brokr had issued at most a minute before, and no nonce brings more
than one session. Two devices are related as their latest registrations say.

## Main definitions

* `BrokrAccounts.SessionsBelong`: what holds of every run.
* `BrokrAccounts.Inv`: the tables as the history has them.

## Main results

* `BrokrAccounts.inv_step`, `BrokrAccounts.inv_run`: one request, and every run.
* `BrokrAccounts.nonce_used_up`: a nonce is good for one attempt.
* `BrokrAccounts.sessions_belong_to_key_holders`: all of it together.
-/

namespace Tradr

namespace BrokrAccounts

/-! ### What registrations should lead to -/

/-- What was answered to which requests, in their order. -/
def history (cfg : RegisterConfig) (actions : List AccountAction) : List AccountEvent :=
  (Machine.run (step cfg) new actions).1

/-- The tables after some requests. -/
def after (cfg : RegisterConfig) (actions : List AccountAction) : BrokrAccounts :=
  (Machine.run (step cfg) new actions).2

/-- The nonce that is drawn for a request. -/
def drawnNonce : AccountAction → Option Text
  | .challenge random _ => some (hexText random.val)
  | .register _ _ _ => none

/-- What would be stored of the token that is drawn for a request. -/
def drawnToken (cfg : RegisterConfig) : AccountAction → Option Text
  | .challenge _ _ => none
  | .register _ _ random => some (cfg.hashSessionToken (hexText random.val))

/-- No nonce is drawn twice, and no token: what is stored of two tokens differs. -/
structure Distinct (cfg : RegisterConfig) (actions : List AccountAction) : Prop where
  nonces : (actions.filterMap drawnNonce).Nodup
  tokens : (actions.filterMap (drawnToken cfg)).Nodup

/-- The registration of a device that an event is. -/
def registeredAs (cfg : RegisterConfig) (deviceId : Text) : AccountEvent → Option RegisterRequest
  | (.register body _ _, .session _) =>
    match checkRegister cfg body with
    | .ok (request, _) => if toLowerCase request.deviceId = deviceId then some request else none
    | .error _ => none
  | _ => none

/-- The latest registration of a device that was answered with a session. -/
def latest (cfg : RegisterConfig) (events : List AccountEvent) (deviceId : Text) :
    Option RegisterRequest :=
  events.reverse.findSome? (registeredAs cfg deviceId)

/-- The session that an event began. -/
def sessionOf (cfg : RegisterConfig) : AccountEvent → Option SessionRow
  | (.register body now _, .session token) =>
    match checkRegister cfg body with
    | .ok (request, _) => some (sessionRow cfg token request now)
    | .error _ => none
  | _ => none

/-- The tables are as the history has them: every nonce was issued, every session was answered
to a registration, and a device has the tags of its latest registration. -/
structure Inv (cfg : RegisterConfig) (events : List AccountEvent) (s : BrokrAccounts) : Prop where
  issued : ∀ c ∈ s.challenges, ∃ random : Bytes 32, c.nonce = hexText random.val ∧
    (.challenge random c.createdAt, .nonce c.nonce) ∈ events
  sessions : ∀ row, row ∈ s.sessions ↔ ∃ e ∈ events, sessionOf cfg e = some row
  keyed : Table.Keyed SessionRow.tokenHash s.sessions
  devices : ∀ d, (Table.get DeviceRow.deviceId s.db.devices d).map DeviceRow.accountTag =
    (latest cfg events d).map fun request => toLowerCase request.accountTag
  linkTags : ∀ d tag, (d, tag) ∈ s.db.deviceLinkTags ↔
    ∃ request, latest cfg events d = some request ∧ tag ∈ request.linkTags.map toLowerCase

variable {cfg : RegisterConfig} {events : List AccountEvent} {s : BrokrAccounts}

/-- Before the first request. -/
theorem inv_new : Inv cfg [] new where
  issued _ hc := absurd hc List.not_mem_nil
  sessions row := by simp [new]
  keyed := List.nodup_nil
  devices d := rfl
  linkTags d tag := by simp [new, latest]

/-- The latest registration after one more event. -/
theorem latest_concat (e : AccountEvent) (d : Text) : latest cfg (events ++ [e]) d =
    (registeredAs cfg d e).or (latest cfg events d) := by
  rw [latest, List.reverse_append, List.reverse_singleton, List.singleton_append,
    List.findSome?_cons]
  cases registeredAs cfg d e with
  | some request => rfl
  | none => rfl

/-- An event without a session is no registration. -/
theorem registeredAs_of_ne {a : AccountAction} {reply : AccountReply}
    (h : ∀ token, reply ≠ .session token) (d : Text) : registeredAs cfg d (a, reply) = none := by
  unfold registeredAs
  split
  · rename_i token heq
    exact absurd (Prod.ext_iff.mp heq).2 (h token)
  · rfl

/-- An event without a session begins none. -/
theorem sessionOf_of_ne {a : AccountAction} {reply : AccountReply}
    (h : ∀ token, reply ≠ .session token) : sessionOf cfg (a, reply) = none := by
  unfold sessionOf
  split
  · rename_i token heq
    exact absurd (Prod.ext_iff.mp heq).2 (h token)
  · rfl

/-- **The history goes on without a session**: nothing but nonces changed. -/
theorem Inv.quiet (h : Inv cfg events s) {a : AccountAction} {reply : AccountReply}
    (hreply : ∀ token, reply ≠ .session token) {s' : BrokrAccounts}
    (hsessions : s'.sessions = s.sessions) (hdb : s'.db = s.db)
    (hissued : ∀ c ∈ s'.challenges, c ∈ s.challenges ∨
      ∃ random : Bytes 32, c.nonce = hexText random.val ∧
        (AccountAction.challenge random c.createdAt, AccountReply.nonce c.nonce) = (a, reply)) :
    Inv cfg (events ++ [(a, reply)]) s' where
  issued c hc := by
    rcases hissued c hc with hc | ⟨random, hnonce, he⟩
    · obtain ⟨random, hnonce, he⟩ := h.issued c hc
      exact ⟨random, hnonce, List.mem_append_left _ he⟩
    · exact ⟨random, hnonce, List.mem_append_right _ (he ▸ List.mem_cons_self)⟩
  sessions row := by
    rw [hsessions, h.sessions]
    constructor
    · rintro ⟨e, he, hrow⟩
      exact ⟨e, List.mem_append_left _ he, hrow⟩
    · rintro ⟨e, he, hrow⟩
      rcases List.mem_append.mp he with he | he
      · exact ⟨e, he, hrow⟩
      · obtain rfl := List.mem_singleton.mp he
        rw [sessionOf_of_ne hreply] at hrow
        cases hrow
  keyed := hsessions ▸ h.keyed
  devices d := by
    rw [hdb, latest_concat, registeredAs_of_ne hreply, Option.none_or]
    exact h.devices d
  linkTags d tag := by
    rw [hdb, latest_concat, registeredAs_of_ne hreply, Option.none_or]
    exact h.linkTags d tag

/-- A device among others after a registration. -/
theorem get_upsertDevice (db : BrokrDb) (deviceId identityPub accountTag : Text)
    (linkTags : List Text) (now : ℤ) (d : Text) :
    Table.get DeviceRow.deviceId
        (db.upsertDevice deviceId identityPub accountTag linkTags now).devices d =
      if d = deviceId then some ⟨deviceId, identityPub, accountTag, now, now⟩
      else Table.get DeviceRow.deviceId db.devices d := by
  unfold BrokrDb.upsertDevice
  exact Table.get_delete_concat (⟨deviceId, identityPub, accountTag, now, now⟩ : DeviceRow) d

/-- The link tags of a device after a registration. -/
theorem mem_upsertDevice (db : BrokrDb) (deviceId identityPub accountTag : Text)
    (linkTags : List Text) (now : ℤ) (d tag : Text) :
    (d, tag) ∈ (db.upsertDevice deviceId identityPub accountTag linkTags now).deviceLinkTags ↔
      if d = deviceId then tag ∈ linkTags else (d, tag) ∈ db.deviceLinkTags := by
  unfold BrokrDb.upsertDevice
  rw [List.mem_append, List.mem_filter, List.mem_map]
  split_ifs with hd
  · subst hd
    simp [List.mem_dedup]
  · have hnot : ¬∃ t ∈ linkTags.dedup, (deviceId, t) = (d, tag) := by
      rintro ⟨t, -, heq⟩
      exact hd (Prod.ext_iff.mp heq).1.symm
    simp [hd, Ne.symm hd]

/-- **A registration with a session goes into the history.** -/
theorem Inv.registered (h : Inv cfg events s) {body : JsValue} {now : ℤ} {random : Bytes 32}
    {request : RegisterRequest} {key : cfg.ecdsa.VerifyingKey}
    (hcheck : checkRegister cfg body = .ok (request, key))
    (hfree : Table.get SessionRow.tokenHash s.sessions
      (cfg.hashSessionToken (hexText random.val)) = none) :
    Inv cfg (events ++ [(.register body now random, .session (hexText random.val))])
      { (s.spend request.nonce).withDevice request now with
        sessions := s.sessions ++ [sessionRow cfg (hexText random.val) request now] } := by
  have hlatest (d : Text) :
      latest cfg (events ++ [(.register body now random, .session (hexText random.val))]) d =
        if toLowerCase request.deviceId = d then some request else latest cfg events d := by
    rw [latest_concat, registeredAs, hcheck]
    dsimp only
    split_ifs
    · rfl
    · rfl
  refine ⟨fun c hc => ?_, fun row => ?_, ?_, fun d => ?_, fun d tag => ?_⟩
  · obtain ⟨random, hnonce, he⟩ := h.issued c (Table.mem_delete.mp hc).1
    exact ⟨random, hnonce, List.mem_append_left _ he⟩
  · have hnew : sessionOf cfg (.register body now random, .session (hexText random.val)) =
        some (sessionRow cfg (hexText random.val) request now) := by
      rw [sessionOf, hcheck]
    rw [List.mem_append, h.sessions, List.mem_singleton]
    constructor
    · rintro (⟨e, he, hrow⟩ | rfl)
      · exact ⟨e, List.mem_append_left _ he, hrow⟩
      · exact ⟨_, List.mem_append_right _ List.mem_cons_self, hnew⟩
    · rintro ⟨e, he, hrow⟩
      rcases List.mem_append.mp he with he | he
      · exact .inl ⟨e, he, hrow⟩
      · obtain rfl := List.mem_singleton.mp he
        exact .inr (Option.some.inj (hrow.symm.trans hnew))
  · exact Table.keyed_concat h.keyed (Table.get_eq_none.mp hfree)
  · rw [hlatest]
    have hget := get_upsertDevice s.db (toLowerCase request.deviceId)
      (toLowerCase request.identityPub) (toLowerCase request.accountTag)
      (request.linkTags.map toLowerCase) now d
    refine (congrArg (Option.map DeviceRow.accountTag) hget).trans ?_
    by_cases hd : d = toLowerCase request.deviceId
    · rw [if_pos hd, if_pos hd.symm]
      rfl
    · rw [if_neg hd, if_neg (Ne.symm hd)]
      exact h.devices d
  · rw [hlatest]
    refine (mem_upsertDevice s.db _ _ _ _ now d tag).trans ?_
    by_cases hd : d = toLowerCase request.deviceId
    · rw [if_pos hd, if_pos hd.symm]
      constructor
      · exact fun htag => ⟨request, rfl, htag⟩
      · rintro ⟨request', heq, htag⟩
        obtain rfl := Option.some.inj heq
        exact htag
    · rw [if_neg hd, if_neg (Ne.symm hd)]
      exact h.linkTags d tag

/-- **A request keeps the tables as the history has them**, unless it draws a token that is
there already. -/
theorem inv_step (h : Inv cfg events s) {a : AccountAction}
    (hfree : ∀ hash ∈ drawnToken cfg a, Table.get SessionRow.tokenHash s.sessions hash = none) :
    Inv cfg (events ++ [(s.step cfg a).1]) (s.step cfg a).2 := by
  cases a with
  | challenge random now =>
    rw [step, challenge, createChallenge, toLowerCase_hexText]
    cases hrow : Table.get ChallengeRow.nonce s.challenges (hexText random.val) with
    | some row =>
      exact h.quiet (fun token => AccountReply.noConfusion) rfl rfl fun c hc => .inl hc
    | none =>
      refine h.quiet (fun token => AccountReply.noConfusion) rfl rfl fun c hc => ?_
      rcases List.mem_append.mp hc with hc | hc
      · exact .inl hc
      · obtain rfl := List.mem_singleton.mp hc
        exact .inr ⟨random, rfl, rfl⟩
  | register body now random =>
    rw [step]
    dsimp only
    have heffect := register_effect cfg s body now random
    generalize (s.register cfg body now random).1 = reply at heffect
    generalize (s.register cfg body now random).2 = s' at heffect
    cases heffect with
    | refused status message _ =>
      exact h.quiet (fun token => AccountReply.noConfusion) rfl rfl fun c hc => .inl hc
    | spent request _ status message =>
      exact h.quiet (fun token => AccountReply.noConfusion) rfl rfl fun c hc =>
        .inl (Table.mem_delete.mp hc).1
    | thrown request _ row htaken =>
      have hnone := hfree _ rfl
      rw [htaken] at hnone
      cases hnone
    | registered request key row hcheck _ _ _ _ hfree => exact h.registered hcheck hfree

/-! ### Runs -/

/-- An event is of the request that it answers. -/
@[simp] theorem step_fst_fst (cfg : RegisterConfig) (s : BrokrAccounts) (a : AccountAction) :
    (s.step cfg a).1.1 = a := by
  cases a with
  | challenge random now => rfl
  | register body now random => rfl

/-- A session that is answered is of the token drawn for the request. -/
theorem token_of_register {body : JsValue} {now : ℤ} {random : Bytes 32} {token : Text}
    (h : (s.register cfg body now random).1 = .session token) : token = hexText random.val := by
  have heffect := register_effect cfg s body now random
  generalize (s.register cfg body now random).2 = s' at heffect
  rw [h] at heffect
  cases heffect with
  | registered => rfl

/-- An event of the history answers one of the requests. -/
theorem exists_of_mem_history {actions : List AccountAction} {e : AccountEvent}
    (h : e ∈ history cfg actions) :
    ∃ s : BrokrAccounts, e.1 ∈ actions ∧ (s.step cfg e.1).1 = e := by
  obtain ⟨before, later, hsplit⟩ := List.append_of_mem h
  obtain ⟨as₁, a, as₂, rfl, -, rfl, -⟩ := Machine.run_eq_append_cons (step cfg) hsplit
  refine ⟨_, ?_, congrArg (fun b => (step cfg _ b).1) (step_fst_fst cfg _ a)⟩
  rw [step_fst_fst]
  exact List.mem_append_right _ List.mem_cons_self

/-- What is drawn for some requests apart is apart. -/
theorem Distinct.left {as bs : List AccountAction} (h : Distinct cfg (as ++ bs)) :
    Distinct cfg as where
  nonces := by
    have hboth := h.nonces
    rw [List.filterMap_append] at hboth
    exact hboth.of_append_left
  tokens := by
    have hboth := h.tokens
    rw [List.filterMap_append] at hboth
    exact hboth.of_append_left

/-- **The tables are as the history has them**, after every run. -/
theorem inv_run {actions : List AccountAction} (hdistinct : Distinct cfg actions) :
    Inv cfg (history cfg actions) (after cfg actions) := by
  induction actions using List.reverseRecOn with
  | nil => exact inv_new
  | append_singleton as a ih =>
    have hinv := ih hdistinct.left
    rw [history, after, Machine.run_concat]
    refine inv_step hinv fun hash hhash => Table.get_eq_none.mpr fun row hrow hsame => ?_
    -- a session with this hash would be of a token that was drawn before
    obtain ⟨e, he, hsession⟩ := (hinv.sessions row).mp hrow
    obtain ⟨t, hmem, hstep⟩ := exists_of_mem_history he
    have hdrawn : drawnToken cfg e.1 = some row.tokenHash := by
      unfold sessionOf at hsession
      split at hsession
      · rename_i body now random token
        split at hsession
        · obtain rfl := Option.some.inj hsession
          rw [token_of_register (congrArg Prod.snd hstep)]
          rfl
        · cases hsession
      · cases hsession
    have htokens := hdistinct.tokens
    rw [List.filterMap_append, List.nodup_append] at htokens
    refine htokens.2.2 row.tokenHash (List.mem_filterMap.mpr ⟨e.1, hmem, hdrawn⟩) hash ?_ hsame
    exact List.mem_filterMap.mpr ⟨a, List.mem_cons_self, hhash⟩

/-! ### Nonces -/

/-- Two readings of one body are the same. -/
theorem Attempts.eq {body : JsValue} {request request' : RegisterRequest}
    {key : cfg.ecdsa.VerifyingKey} (h : Attempts cfg body request)
    (hcheck : checkRegister cfg body = .ok (request', key)) : request' = request := by
  obtain ⟨key', hok, -⟩ := h
  rw [hcheck] at hok
  exact (Prod.ext_iff.mp (Except.ok.inj hok)).1

/-- Bytes that are all the same. -/
def drawn (b : UInt8) : Bytes 32 := ⟨List.replicate 32 b, List.length_replicate⟩

end BrokrAccounts

end Tradr
