import Tradr.Mailbox
import Tradr.Triple

/-!
# Deliveries Arrive Once

A delivery that is placed and whose acknowledgement is lost would be downloaded again and placed a
second time. The journal prevents this: its identifier is written there before anything else, and
dropped only when the Brokr no longer lists it, or has been told. So over any passes, with any calls
lost, refused or failed, a delivery arrives once at most, and nothing is downloaded after that. And
none is lost: what the Brokr notes as collected has arrived, or was given up.

## Main definitions

* `LawfulJournal`: a file of the journal that is replaced at once or not at all.
* `Orderly`: what a log of passes looks like.
* `CollectContext.Sound`: journal, mailbox and log fit together.

## Main results

* `CollectContext.collectDelivery_spec`: what collecting a delivery keeps.
* `CollectContext.collectOnce_spec`: and what a pass keeps, and settles.
-/

namespace Tradr

/-! ### The journal -/

/-- A file of the journal that is replaced at once or not at all, and from which the identifiers are
read that were written. -/
structure LawfulJournal {J : Type} (file : PlacedFile J) (json : IdsJson) where
  content : J → Option (List UInt8)
  content_read : ∀ j, content (file.read j).2 = content j
  read_ok : ∀ {j bytes}, (file.read j).1 = .ok bytes → bytes = content j
  write_ok : ∀ {j bytes}, (file.writeAtomic j bytes).1 = .ok () →
    content (file.writeAtomic j bytes).2 = some bytes
  write_error : ∀ {j bytes e}, (file.writeAtomic j bytes).1 = .error e →
    content (file.writeAtomic j bytes).2 = content j
  round_trip : ∀ {ids bytes}, json.toVec ids = .ok bytes → json.fromSlice bytes = .ok ids

namespace LawfulJournal

open Eff (Triple)

variable {J : Type} {file : PlacedFile J} {json : IdsJson} (L : LawfulJournal file json)

/-- The journal holds these identifiers: it is not there yet, or they are what it is read as. -/
def Holds (ids : List Text) (j : J) : Prop :=
  L.content j = none ∧ ids = [] ∨
    ∃ bytes, L.content j = some bytes ∧ json.fromSlice bytes = .ok ids

variable {L} {ids : List Text}

/-- Only the content matters. -/
theorem Holds.of_content {j j' : J} (h : L.Holds ids j) (heq : L.content j' = L.content j) :
    L.Holds ids j' := by
  unfold Holds at h ⊢
  rwa [heq]

theorem readIds_spec : Triple (L.Holds ids) (PlacedDeliveries.readIds file json)
    (fun r j => r = ids ∧ L.Holds ids j) (L.Holds ids) := by
  intro j hj
  have hcontent := L.content_read j
  rcases hread : file.read j with ⟨e | bytes, j'⟩
  · rw [hread] at hcontent
    have hrun : PlacedDeliveries.readIds file json j = (.error (.io e), j') := by
      rw [PlacedDeliveries.readIds, hread]
    rw [hrun]
    exact ⟨nofun, fun _ _ => hj.of_content hcontent⟩
  · have hbytes := L.read_ok (congrArg Prod.fst hread)
    rw [hread] at hcontent
    have hj' := hj.of_content hcontent
    rcases hj with ⟨hnone, rfl⟩ | ⟨written, hsome, hparse⟩
    · have hrun : PlacedDeliveries.readIds file json j = (.ok [], j') := by
        rw [PlacedDeliveries.readIds, hread, hbytes, hnone]
      rw [hrun]
      exact ⟨fun r hr => ⟨(Except.ok.inj hr).symm, hj'⟩, nofun⟩
    · have hrun : PlacedDeliveries.readIds file json j = (.ok ids, j') := by
        rw [PlacedDeliveries.readIds, hread, hbytes, hsome]
        dsimp only
        rw [hparse]
      rw [hrun]
      exact ⟨fun r hr => ⟨(Except.ok.inj hr).symm, hj'⟩, nofun⟩

theorem writeIds_spec (ids' : List Text) : Triple (L.Holds ids)
    (PlacedDeliveries.writeIds file json ids') (fun _ => L.Holds ids') (L.Holds ids) := by
  intro j hj
  rcases hjson : json.toVec ids' with e | bytes
  · have hrun : PlacedDeliveries.writeIds file json ids' j = (.error (.malformed e), j) := by
      rw [PlacedDeliveries.writeIds, hjson]
    rw [hrun]
    exact ⟨nofun, fun _ _ => hj⟩
  · have hok := @L.write_ok j bytes
    have herror := @L.write_error j bytes
    rcases hwrite : file.writeAtomic j bytes with ⟨e | u, j'⟩
    · have hrun : PlacedDeliveries.writeIds file json ids' j = (.error (.io e), j') := by
        rw [PlacedDeliveries.writeIds, hjson]
        dsimp only
        rw [hwrite]
      rw [hwrite] at herror
      rw [hrun]
      exact ⟨nofun, fun _ _ => hj.of_content (herror rfl)⟩
    · have hrun : PlacedDeliveries.writeIds file json ids' j = (.ok (), j') := by
        rw [PlacedDeliveries.writeIds, hjson]
        dsimp only
        rw [hwrite]
      rw [hwrite] at hok
      rw [hrun]
      exact ⟨fun _ _ => .inr ⟨bytes, hok rfl, L.round_trip hjson⟩, nofun⟩

/-- Looking for an identifier. -/
theorem contains_spec (id : Text) : Triple (L.Holds ids) (PlacedDeliveries.contains file json id)
    (fun found j => L.Holds ids j ∧ (found = true ↔ id ∈ ids)) (L.Holds ids) :=
  readIds_spec.bind_eq (Triple.pure.pre fun _ hj => ⟨hj, by simp⟩)

/-- **Noting an identifier**, unless this fails and nothing changes. -/
theorem remember_spec (id : Text) : Triple (L.Holds ids) (PlacedDeliveries.remember file json id)
    (fun _ j => ∃ ids', L.Holds ids' j ∧ ∀ x, x ∈ ids' ↔ x ∈ ids ∨ x = id) (L.Holds ids) := by
  refine readIds_spec.bind_eq ?_
  split_ifs with hfound
  · have hmem : id ∈ ids := by simpa using hfound
    refine Triple.pure.pre fun j hj => ⟨ids, hj, fun x => ⟨.inl, ?_⟩⟩
    rintro (hx | rfl)
    · exact hx
    · exact hmem
  · exact (writeIds_spec _).post fun _ j hj => ⟨_, hj, fun x => by simp⟩

/-- Keeping some of the identifiers, unless this fails and nothing changes. -/
theorem keep_spec (kept : Text → Bool) :
    Triple (L.Holds ids) (PlacedDeliveries.keep file json kept)
    (fun _ j => ∃ ids', L.Holds ids' j ∧ ∀ x, x ∈ ids' ↔ x ∈ ids ∧ kept x = true) (L.Holds ids) := by
  refine readIds_spec.bind_eq ?_
  split_ifs with hall
  · have hkept := List.length_filter_eq_length_iff.mp hall
    exact Triple.pure.pre fun j hj => ⟨ids, hj, fun x => ⟨fun hx => ⟨hx, hkept x hx⟩, And.left⟩⟩
  · exact (writeIds_spec _).post fun _ j hj => ⟨_, hj, fun x => List.mem_filter⟩

end LawfulJournal

/-! ### The log -/

section Log

variable {σ : Type}

/-- A delivery has arrived. -/
def Arrived (log : List (CollectEvent σ)) (id : Text) : Prop :=
  ∃ sender placed store, .arrived id sender placed store ∈ log

/-- What may come after a log: a delivery that has arrived is not downloaded, does not arrive again
and is not given up; and no other is acknowledged as delivered. -/
def MayFollow (log : List (CollectEvent σ)) : CollectEvent σ → Prop
  | .downloading id _ _ => ¬Arrived log id
  | .arrived id _ _ _ => ¬Arrived log id
  | .acknowledging id none => Arrived log id
  | .acknowledging id (some _) => ¬Arrived log id

/-- A log whose events all may follow what is before them. -/
def Orderly (log : List (CollectEvent σ)) : Prop :=
  ∀ before event after, log = before ++ event :: after → MayFollow before event

variable {log : List (CollectEvent σ)} {event : CollectEvent σ}

theorem orderly_nil : Orderly ([] : List (CollectEvent σ)) := fun before event after h => by
  simp at h

/-- Another event that may follow. -/
theorem Orderly.concat (h : Orderly log) (hevent : MayFollow log event) :
    Orderly (log ++ [event]) := by
  intro before event' after heq
  rcases List.eq_nil_or_concat after with rfl | ⟨after', last, rfl⟩
  · obtain ⟨rfl, hlast⟩ := List.append_inj' heq rfl
    obtain rfl := List.singleton_inj.mp hlast
    exact hevent
  · rw [List.concat_eq_append, ← List.cons_append, ← List.append_assoc] at heq
    exact h before event' after' (List.append_inj' heq rfl).1

/-- Only an arrival makes a delivery arrive. -/
theorem arrived_concat {id : Text} : Arrived (log ++ [event]) id ↔
    Arrived log id ∨ ∃ sender placed store, event = .arrived id sender placed store := by
  simp only [Arrived, List.mem_append, List.mem_singleton]
  constructor
  · rintro ⟨sender, placed, store, h | h⟩
    · exact .inl ⟨sender, placed, store, h⟩
    · exact .inr ⟨sender, placed, store, h.symm⟩
  · rintro (⟨sender, placed, store, h⟩ | ⟨sender, placed, store, h⟩)
    · exact ⟨sender, placed, store, .inl h⟩
    · exact ⟨sender, placed, store, .inr h.symm⟩

/-- The Brokr was told that it may forget a delivery. -/
def Told (log : List (CollectEvent σ)) (id : Text) : Prop :=
  ∃ refused, .acknowledging id refused ∈ log

theorem Told.concat {id : Text} (h : Told log id) : Told (log ++ [event]) id :=
  ⟨h.choose, List.mem_append_left _ h.choose_spec⟩

end Log

namespace CollectContext

open Eff (Triple)

variable {σ H B J A : Type} {ctx : CollectContext σ H B J} (M : Mailbox ctx.api)
  (L : LawfulJournal ctx.file ctx.json)

/-- What the journal says of the deliveries that have arrived: they are noted there until they wait
no more, and those of a pass under way in any case. -/
structure Remembers (pending : List Text) (w : Collecting σ B J) (ids : List Text) : Prop where
  known : ∀ id, Arrived w.log id → M.Known w.brokr id
  kept : ∀ id, Arrived w.log id → id ∈ ids ∨ M.Gone w.brokr id
  pending : ∀ id ∈ pending, Arrived w.log id → id ∈ ids
  arrived : ∀ id ∈ ids, Arrived w.log id

/-- Journal, mailbox and log fit together, while some deliveries are pending and others wait no
more. -/
structure Sound (pending : List Text) (ended : Text → Prop) (w : Collecting σ B J) : Prop where
  valid : M.Valid w.brokr
  journal : ∃ ids, L.Holds ids w.journal ∧ Remembers M pending w ids
  pending : ∀ id ∈ pending, M.Known w.brokr id
  ended : ∀ id, ended id → M.Gone w.brokr id
  orderly : Orderly w.log
  collected : ∀ id, M.Collected w.brokr id → Told w.log id

namespace Sound

variable {M L} {pending pending' : List Text} {ended ended' : Text → Prop} {w : Collecting σ B J}

/-- Less may be pending, and over. -/
theorem mono (h : Sound M L pending ended w) (hpending : pending' ⊆ pending)
    (hover : ∀ id, ended' id → ended id) : Sound M L pending' ended' w := by
  obtain ⟨ids, hids, hr⟩ := h.journal
  exact ⟨h.valid, ⟨ids, hids, hr.known, hr.kept, fun id hid => hr.pending id (hpending hid),
    hr.arrived⟩, fun id hid => h.pending id (hpending hid), fun id hid => h.ended id (hover id hid),
    h.orderly, h.collected⟩

/-- A pass may stop at any time. -/
theorem stops (h : Sound M L pending ended w) : Sound M L [] ended w :=
  h.mono (List.nil_subset _) fun _ hid => hid

/-- The files of the root do not matter. -/
theorem store (h : Sound M L pending ended w) (s : σ) :
    Sound M L pending ended { w with store := s } :=
  ⟨h.valid, h.journal.imp fun _ h => ⟨h.1, h.2.known, h.2.kept, h.2.pending, h.2.arrived⟩,
    h.pending, h.ended, h.orderly, h.collected⟩

/-- A call on the Brokr that acknowledges what was told. -/
theorem brokr (h : Sound M L pending ended w) {b : B} (hlater : M.Later (Told w.log) w.brokr b) :
    Sound M L pending ended { w with brokr := b } where
  valid := hlater.valid
  journal := h.journal.imp fun _ h => ⟨h.1, fun id hid => hlater.known id (h.2.known id hid),
    fun id hid => (h.2.kept id hid).imp_right (hlater.gone id), h.2.pending, h.2.arrived⟩
  pending id hid := hlater.known id (h.pending id hid)
  ended id hid := hlater.gone id (h.ended id hid)
  orderly := h.orderly
  collected id hid := (hlater.collected id hid).elim (h.collected id) fun h => h

/-- Another event, not an arrival. -/
theorem note (h : Sound M L pending ended w) {event : CollectEvent σ}
    (hevent : MayFollow w.log event)
    (hnot : ∀ id sender placed store, event ≠ .arrived id sender placed store) :
    Sound M L pending ended { w with log := w.log ++ [event] } := by
  have harrived : ∀ id, Arrived (w.log ++ [event]) id ↔ Arrived w.log id := fun id => by
    rw [arrived_concat, or_iff_left]
    rintro ⟨sender, placed, store, heq⟩
    exact hnot id sender placed store heq
  obtain ⟨ids, hids, hr⟩ := h.journal
  refine ⟨h.valid, ⟨ids, hids, ?_⟩, h.pending, h.ended, h.orderly.concat hevent,
    fun id hid => (h.collected id hid).concat⟩
  exact ⟨fun id hid => hr.known id ((harrived id).mp hid),
    fun id hid => hr.kept id ((harrived id).mp hid),
    fun id hid hin => hr.pending id hid ((harrived id).mp hin),
    fun id hid => (harrived id).mpr (hr.arrived id hid)⟩

/-- Another journal. -/
theorem withJournal (h : Sound M L pending ended w) (hsub : pending' ⊆ pending) {ids : List Text}
    {j : J} (hids : L.Holds ids j) (hr : Remembers M pending' w ids) :
    Sound M L pending' ended { w with journal := j } :=
  ⟨h.valid, ⟨ids, hids, hr.known, hr.kept, hr.pending, hr.arrived⟩,
    fun id hid => h.pending id (hsub hid), h.ended, h.orderly, h.collected⟩

/-- A pending delivery arrives, and its identifier is noted. -/
theorem arrive (h : Sound M L pending ended w) {id : Text} (hid : id ∈ pending)
    (hnot : ¬Arrived w.log id) {ids ids' : List Text} {j : J} (hids' : L.Holds ids' j)
    (hr : Remembers M pending w ids) (hmem : ∀ x, x ∈ ids' ↔ x ∈ ids ∨ x = id)
    (sender : DeviceId) (placed : List RelPath) (s : σ) :
    Sound M L pending ended
      { w with journal := j, log := w.log ++ [.arrived id sender placed s] } := by
  have harrived : ∀ x, Arrived (w.log ++ [.arrived id sender placed s]) x ↔
      Arrived w.log x ∨ x = id := fun x => by
    rw [arrived_concat]
    refine or_congr_right ⟨?_, fun hx => hx ▸ ⟨sender, placed, s, rfl⟩⟩
    rintro ⟨sender', placed', s', heq⟩
    cases heq
    rfl
  refine ⟨h.valid, ⟨ids', hids', ⟨fun x hx => ?_, fun x hx => ?_, fun x hx hin => ?_,
    fun x hx => ?_⟩⟩, h.pending, h.ended, h.orderly.concat hnot,
    fun x hx => (h.collected x hx).concat⟩
  · rcases (harrived x).mp hx with hx | rfl
    · exact hr.known x hx
    · exact h.pending x hid
  · rcases (harrived x).mp hx with hx | rfl
    · exact (hr.kept x hx).imp_left fun hin => (hmem x).mpr (.inl hin)
    · exact .inl ((hmem x).mpr (.inr rfl))
  · rcases (harrived x).mp hin with hin | rfl
    · exact (hmem x).mpr (.inl (hr.pending x hx hin))
    · exact (hmem x).mpr (.inr rfl)
  · exact (harrived x).mpr (((hmem x).mp hx).imp_left (hr.arrived x))

/-- The journal is cleared of what waits no more, or is not pending. -/
theorem retain (h : Sound M L pending ended w) (hsub : pending' ⊆ pending) {ids ids' : List Text}
    {j : J} (hids' : L.Holds ids' j) (hr : Remembers M pending w ids) {kept : Text → Prop}
    (hmem : ∀ x, x ∈ ids' ↔ x ∈ ids ∧ kept x) (hpending : ∀ x ∈ pending', kept x)
    (hgone : ∀ x, ¬kept x → Arrived w.log x → M.Gone w.brokr x) :
    Sound M L pending' ended { w with journal := j } := by
  refine h.withJournal hsub hids' ⟨hr.known, fun x hx => ?_, fun x hx hin => ?_, fun x hx => ?_⟩
  · by_cases hkept : kept x
    · exact (hr.kept x hx).imp_left fun hin => (hmem x).mpr ⟨hin, hkept⟩
    · exact .inr (hgone x hkept hx)
  · exact (hmem x).mpr ⟨hr.pending x (hsub hx) hin, hpending x hx⟩
  · exact hr.arrived x ((hmem x).mp hx).1

end Sound

/-! ### The calls of a pass -/

section Calls

variable {M L} {P : Collecting σ B J → Prop} {Q : A → Collecting σ B J → Prop}
  {X : Collecting σ B J → Prop}

theorem onStore_spec {E : Type} {m : Eff σ E A} (hP : ∀ w s, P w → P { w with store := s }) :
    Triple P (onStore (B := B) (J := J) m) (fun _ => P) P :=
  fun w hw => ⟨fun _ _ => hP w _ hw, fun _ _ => hP w _ hw⟩

theorem onBrokr_spec {m : Eff B BrokrError A}
    (hok : ∀ w, P w → ∀ a, (m w.brokr).1 = .ok a → Q a { w with brokr := (m w.brokr).2 })
    (herror : ∀ w, P w → X { w with brokr := (m w.brokr).2 }) :
    Triple P (onBrokr (σ := σ) (J := J) m) Q X := fun w hw =>
  ⟨fun a ha => hok w hw a (Fallible.mapError_eq_ok.mp ha), fun _ _ => herror w hw⟩

theorem onJournal_spec {m : Eff J PlacedError A}
    (hm : ∀ w, P w → Triple (· = w.journal) m (fun a j => Q a { w with journal := j })
      fun j => X { w with journal := j }) :
    Triple P (onJournal (σ := σ) (B := B) m) Q X := by
  refine fun w hw => ⟨fun a ha => ?_, fun e he => ?_⟩
  · exact (hm w hw w.journal rfl).1 a (Fallible.mapError_eq_ok.mp ha)
  · obtain ⟨e', he', -⟩ := Fallible.mapError_eq_error.mp he
    exact (hm w hw w.journal rfl).2 e' he'

theorem note_spec {event : Collecting σ B J → CollectEvent σ} :
    Triple (fun w => P { w with log := w.log ++ [event w] }) (note event) (fun _ => P) X :=
  Triple.modify (Q := fun _ => P)

end Calls

/-! ### A delivery -/

section Delivery

variable {M L} {pending : List Text} {ended : Text → Prop} {id : Text}

/-- A sound state in which a delivery has not arrived. -/
def Awaiting (M : Mailbox ctx.api) (L : LawfulJournal ctx.file ctx.json) (pending : List Text)
    (ended : Text → Prop) (id : Text) (w : Collecting σ B J) : Prop :=
  Sound M L pending ended w ∧ ¬Arrived w.log id

/-- A sound state in which a delivery has arrived. -/
def HasArrived (M : Mailbox ctx.api) (L : LawfulJournal ctx.file ctx.json) (pending : List Text)
    (ended : Text → Prop) (id : Text) (w : Collecting σ B J) : Prop :=
  Sound M L pending ended w ∧ Arrived w.log id

theorem onStore_awaiting {E : Type} (m : Eff σ E A) :
    Triple (Awaiting M L pending ended id) (onStore m) (fun _ => Awaiting M L pending ended id)
      (Awaiting M L pending ended id) :=
  onStore_spec fun _ s h => ⟨h.1.store s, h.2⟩

/-- **A download keeps journal, mailbox and log together**, and nothing arrives in it. -/
theorem attempt_spec (now : UnixTime) (trust : SenderTrust) (dir : RelPath) :
    Triple (Awaiting M L pending ended id) (ctx.attempt now trust id dir)
      (fun _ => Awaiting M L pending ended id) (Awaiting M L pending ended id) := by
  refine (onStore_awaiting _).bind fun _ => ?_
  refine Triple.bind (Q := fun _ => Awaiting M L pending ended id) ?_ fun _ => ?_
  · refine note_spec.pre fun w h => ⟨h.1.note h.2 nofun, ?_⟩
    rw [arrived_concat, not_or]
    exact ⟨h.2, nofun⟩
  · refine Triple.bind (Q := fun _ => Awaiting M L pending ended id) ?_ fun _ => onStore_awaiting _
    have hlater : ∀ w : Collecting σ B J, Awaiting M L pending ended id w →
        Awaiting M L pending ended id { w with brokr := (ctx.api.download w.brokr id).2 } :=
      fun w h => ⟨h.1.brokr ((M.download_later id h.1.valid).mono fun _ => False.elim), h.2⟩
    exact onBrokr_spec (fun w h _ _ => hlater w h) hlater

/-- **Telling the Brokr** that a delivery may be forgotten. -/
theorem acknowledge_spec (refused : Option RefusedReason) :
    Triple (fun w => Sound M L pending ended w ∧ M.Known w.brokr id ∧
        MayFollow w.log (.acknowledging id refused))
      (ctx.acknowledge id refused)
      (fun _ w => Sound M L pending ended w ∧ M.Gone w.brokr id) (Sound M L pending ended) := by
  refine Triple.bind (Q := fun _ w => Sound M L pending ended w ∧ M.Known w.brokr id ∧
    Told w.log id) ?_ fun _ => ?_
  · refine note_spec.pre fun w h => ⟨h.1.note h.2.2 nofun, h.2.1, refused, ?_⟩
    exact List.mem_append_right _ (List.mem_singleton_self _)
  · have hlater : ∀ w : Collecting σ B J, Sound M L pending ended w → Told w.log id →
        Sound M L pending ended { w with brokr := (ctx.api.acknowledge w.brokr id).2 } :=
      fun w h htold => h.brokr ((M.acknowledge_later id h.valid).mono fun _ heq => heq ▸ htold)
    refine onBrokr_spec (fun w h u hu => ⟨hlater w h.1 h.2.2, ?_⟩) fun w h => hlater w h.1 h.2.2
    exact M.acknowledge_gone h.1.valid h.2.1 hu

/-- Looking in the journal tells whether a delivery that is pending has arrived. -/
theorem contains_spec (hid : id ∈ pending) : Triple (Sound M L pending ended)
    (onJournal (PlacedDeliveries.contains ctx.file ctx.json id))
    (fun found w => Sound M L pending ended w ∧ (found = true ↔ Arrived w.log id))
    (Sound M L pending ended) := by
  refine onJournal_spec fun w h => ?_
  obtain ⟨ids, hids, hr⟩ := h.journal
  refine (L.contains_spec id).mono (fun j hj => hj ▸ hids) ?_
    (fun j hj => h.withJournal (List.Subset.refl _) hj hr)
  rintro found j ⟨hj, hfound⟩
  exact ⟨h.withJournal (List.Subset.refl _) hj hr,
    hfound.trans ⟨hr.arrived id, hr.pending id hid⟩⟩

/-- **Once it is noted in the journal** a delivery may be noted as arrived. -/
theorem remember_spec (hid : id ∈ pending) (sender : DeviceId) (placed : List RelPath) :
    Triple (Awaiting M L pending ended id)
      (onJournal (PlacedDeliveries.remember ctx.file ctx.json id))
      (fun _ w => HasArrived M L pending ended id
        { w with log := w.log ++ [.arrived id sender placed w.store] })
      (Sound M L pending ended) := by
  refine onJournal_spec fun w ⟨h, hnot⟩ => ?_
  obtain ⟨ids, hids, hr⟩ := h.journal
  refine (L.remember_spec id).mono (fun j hj => hj ▸ hids) ?_
    (fun j hj => h.withJournal (List.Subset.refl _) hj hr)
  rintro _ j ⟨ids', hids', hmem⟩
  refine ⟨h.arrive hid hnot hids' hr hmem sender placed w.store, arrived_concat.mpr (.inr ?_)⟩
  exact ⟨sender, placed, w.store, rfl⟩

/-- Dropping a delivery that waits no more from the journal. -/
theorem forget_spec (hid : id ∉ pending) : Triple
    (fun w => Sound M L (id :: pending) ended w ∧ M.Gone w.brokr id)
    (onJournal (PlacedDeliveries.forget ctx.file ctx.json id))
    (fun _ w => Sound M L pending ended w ∧ M.Gone w.brokr id) (Sound M L pending ended) := by
  refine onJournal_spec fun w ⟨h, hgone⟩ => ?_
  obtain ⟨ids, hids, hr⟩ := h.journal
  have hsub := List.subset_cons_self id pending
  refine (L.keep_spec _).mono (fun j hj => hj ▸ hids) ?_
    (fun j hj => (h.withJournal (List.Subset.refl _) hj hr).mono hsub fun _ h => h)
  rintro _ j ⟨ids', hids', hmem⟩
  refine ⟨h.retain hsub hids' hr hmem (fun x hx => ?_) fun x hx _ => ?_, hgone⟩
  · exact decide_eq_true fun heq => hid (heq ▸ hx)
  · rw [decide_eq_true_eq, not_not] at hx
    exact hx ▸ hgone

/-- **What has arrived is acknowledged**, and then dropped from the journal. -/
theorem settle_spec (hid : id ∉ pending) (dir : RelPath) : Triple
    (HasArrived M L (id :: pending) ended id)
    (do
      onStore (ctx.removePartial dir)
      ctx.acknowledge id none
      onJournal (PlacedDeliveries.forget ctx.file ctx.json id)
      return (none : Option RefusedReason))
    (fun _ w => Sound M L pending ended w ∧ M.Gone w.brokr id) (Sound M L [] ended) := by
  refine Triple.bind (Q := fun _ => HasArrived M L (id :: pending) ended id) ?_ fun _ => ?_
  · exact (onStore_spec fun w s h => ⟨h.1.store s, h.2⟩).fails fun w h => h.1.stops
  refine Triple.bind (Q := fun _ w => Sound M L (id :: pending) ended w ∧ M.Gone w.brokr id) ?_
    fun _ => ?_
  · refine ((acknowledge_spec none).fails fun w h => h.stops).pre fun w h => ?_
    exact ⟨h.1, h.1.pending id List.mem_cons_self, h.2⟩
  · exact ((forget_spec hid).fails fun w h => h.stops).bind fun _ => Triple.pure.pre fun _ h => h

/-- What comes after the downloads: a delivery is settled, or is still pending. -/
theorem conclude_spec (hid : id ∉ pending) (dir : RelPath) (outcome : Except PassStop CollectStep) :
    Triple (Awaiting M L (id :: pending) ended id) (ctx.conclude id dir outcome)
      (fun _ w => Sound M L pending ended w ∧ M.Gone w.brokr id) (Sound M L [] ended) := by
  have hstops : ∀ w, Awaiting M L (id :: pending) ended id w → Sound M L [] ended w :=
    fun w h => h.1.stops
  rcases outcome with (e | _) | (⟨sender, placed⟩ | why | uri)
  · exact ((onStore_awaiting _).fails hstops).bind fun _ => Triple.fail.pre hstops
  · exact Triple.fail.pre hstops
  · refine Triple.bind (((remember_spec List.mem_cons_self sender placed)).fails fun w h => h.stops)
      fun _ => ?_
    exact Triple.bind note_spec fun _ => settle_spec hid dir
  · refine ((onStore_awaiting _).fails hstops).bind fun _ => ?_
    refine Triple.bind (Q := fun _ w => Sound M L (id :: pending) ended w ∧ M.Gone w.brokr id) ?_
      fun _ => Triple.pure.pre fun w h => ⟨h.1.mono (List.subset_cons_self _ _) fun _ h => h, h.2⟩
    refine ((acknowledge_spec (some why)).fails fun w h => h.stops).pre fun w h => ?_
    exact ⟨h.1, h.1.pending id List.mem_cons_self, h.2⟩
  · exact Triple.fail.pre hstops

/-- **Collecting a delivery** keeps journal, mailbox and log together, and settles it when its
identifier is one. -/
theorem collectDelivery_spec (hid : id ∉ pending) (c : Circumstances) :
    Triple (Sound M L (id :: pending) ended) (ctx.collectDelivery c id)
      (fun _ w => Sound M L pending ended w ∧ (isDeliveryId id = true → M.Gone w.brokr id))
      (Sound M L [] ended) := by
  have hstops : ∀ w, Awaiting M L (id :: pending) ended id w → Sound M L [] ended w :=
    fun w h => h.1.stops
  unfold collectDelivery
  split_ifs with hhex
  · refine Triple.pure.pre fun w h => ⟨h.mono (List.subset_cons_self _ _) fun _ h => h, fun h => ?_⟩
    rw [h] at hhex
    cases hhex
  refine Triple.bind (Q := fun _ => Sound M L (id :: pending) ended) ?_ fun dir => ?_
  · exact (onStore_spec fun w s h => h.store s).fails fun w h => h.stops
  refine Triple.bind ((contains_spec List.mem_cons_self).fails fun w h => h.stops) fun found => ?_
  rcases found with _ | _
  · have hattempt : ∀ now trust, Triple (Awaiting M L (id :: pending) ended id)
        (Eff.attempt (F := PassStop) (ctx.attempt now trust id dir))
        (fun _ => Awaiting M L (id :: pending) ended id) (Sound M L [] ended) := fun now trust =>
      (attempt_spec now trust dir).attempt.post fun r w h => by
        rcases r with e | step
        · exact h.2 e rfl
        · exact h.1 step rfl
    have hconclude : ∀ outcome, Triple (Awaiting M L (id :: pending) ended id)
        (ctx.conclude id dir outcome)
        (fun _ w => Sound M L pending ended w ∧ (isDeliveryId id = true → M.Gone w.brokr id))
        (Sound M L [] ended) := fun outcome =>
      (conclude_spec hid dir outcome).post fun _ w h => ⟨h.1, fun _ => h.2⟩
    refine Triple.pre ?_ fun w (h : Sound M L (id :: pending) ended w ∧ _) =>
      (⟨h.1, fun harrived => Bool.false_ne_true (h.2.mpr harrived)⟩ :
        Awaiting M L (id :: pending) ended id w)
    refine (hattempt c.now c.trust).bind fun first => ?_
    split
    · split
      · exact Triple.fail.pre hstops
      · exact (hattempt c.laterNow c.laterTrust).bind fun again => hconclude _
    · exact hconclude _
  · have hsettle : Triple (HasArrived M L (id :: pending) ended id) _ _ (Sound M L [] ended) :=
      settle_spec hid dir
    exact hsettle.mono (fun w h => ⟨h.1, h.2.mp rfl⟩) (fun _ w h => ⟨h.1, fun _ => h.2⟩)
      fun _ h => h

end Delivery

/-! ### A pass -/

section Pass

variable {M L} {ended : Text → Prop}

/-- The deliveries of a listing, one after the other. -/
theorem collectEntries_spec (c : ℕ → Circumstances) (i : ℕ) (entries : List InboxEntry)
    (hnodup : (entries.map InboxEntry.id).Nodup) (report : CollectReport) :
    Triple (Sound M L (entries.map InboxEntry.id) ended) (ctx.collectEntries c i entries report)
      (fun _ => Sound M L [] fun id =>
        ended id ∨ id ∈ entries.map InboxEntry.id ∧ isDeliveryId id = true)
      (Sound M L [] ended) := by
  induction entries generalizing i report ended with
  | nil =>
      exact Triple.pure.pre fun w h => h.mono (List.Subset.refl _) fun id hid => by simpa using hid
  | cons entry rest ih =>
      obtain ⟨hentry, hrest⟩ := List.nodup_cons.mp hnodup
      have hnext : ∀ j report, Triple
          (fun w => Sound M L (rest.map InboxEntry.id) ended w ∧
            (isDeliveryId entry.id = true → M.Gone w.brokr entry.id))
          (ctx.collectEntries c j rest report)
          (fun _ => Sound M L [] fun id =>
            ended id ∨ id ∈ (entry :: rest).map InboxEntry.id ∧ isDeliveryId id = true)
          (Sound M L [] ended) := by
        intro j report
        have hih : Triple (Sound M L (rest.map InboxEntry.id) fun id =>
            ended id ∨ id = entry.id ∧ isDeliveryId id = true) _ _ _ := ih j hrest report
        refine hih.mono ?_ ?_ ?_
        · rintro w ⟨h, hgone⟩
          refine ⟨h.valid, h.journal, h.pending, ?_, h.orderly, h.collected⟩
          rintro id (hid | ⟨rfl, hid⟩)
          · exact h.ended id hid
          · exact hgone hid
        · refine fun _ w h => h.mono (List.Subset.refl _) fun id hid => ?_
          rw [List.map_cons, List.mem_cons] at hid
          tauto
        · exact fun w h => h.mono (List.Subset.refl _) fun id => .inl
      refine (collectDelivery_spec hentry (c i)).bind fun answer => ?_
      rcases answer with _ | why
      · exact hnext _ _
      · exact hnext _ _

/-- The journal is cleared of what is not listed. -/
theorem retainListed_spec (known : Text → Prop) (ids : List Text) : Triple
    (fun w => Sound M L [] (fun _ => False) w ∧ (∀ id, known id → M.Known w.brokr id) ∧
      M.Lists w.brokr ids)
    (onJournal (PlacedDeliveries.retainListed ctx.file ctx.json ids))
    (fun _ => Sound M L ids fun id => known id ∧ id ∉ ids) (Sound M L [] fun _ => False) := by
  refine onJournal_spec fun w ⟨h, hknown, hlists⟩ => ?_
  obtain ⟨noted, hnoted, hr⟩ := h.journal
  refine (L.keep_spec _).mono (fun j hj => hj ▸ hnoted) ?_
    (fun j hj => h.withJournal (List.Subset.refl _) hj hr)
  rintro _ j ⟨noted', hnoted', hmem⟩
  have hr' : Remembers M ids w noted := ⟨hr.known, hr.kept, fun id hid harrived =>
    (hr.kept id harrived).resolve_right (hlists.waiting id hid), hr.arrived⟩
  have hlisted : Sound M L ids (fun id => known id ∧ id ∉ ids) w :=
    ⟨h.valid, ⟨noted, hnoted, hr'⟩, hlists.known,
      fun id hid => hlists.unlisted id (hknown id hid.1) hid.2, h.orderly, h.collected⟩
  have hany : ∀ x, (ids.any fun id => id = x) = true ↔ x ∈ ids := fun x => by simp
  have hmem' : ∀ x, x ∈ noted' ↔ x ∈ noted ∧ x ∈ ids := fun x => by rw [hmem x, hany]
  exact hlisted.retain (List.Subset.refl _) hnoted' hr' hmem' (fun x hx => hx)
    fun x hx harrived => hlists.unlisted x (hr.known x harrived) hx

/-- **A pass keeps journal, mailbox and log together**, and one that ends in a report has settled
whatever was recorded before it. -/
theorem collectOnce_spec (c : ℕ → Circumstances) (known : Text → Prop) :
    Triple (fun w => Sound M L [] (fun _ => False) w ∧ ∀ id, known id → M.Known w.brokr id)
      (ctx.collectOnce c)
      (fun _ => Sound M L [] fun id => known id ∧ isDeliveryId id = true)
      (Sound M L [] fun _ => False) := by
  refine Triple.bind (Q := fun listed w => Sound M L [] (fun _ => False) w ∧
    (∀ id, known id → M.Known w.brokr id) ∧ M.Lists w.brokr (listed.map InboxEntry.id))
    ?_ fun listed => ?_
  · have hlater : ∀ w : Collecting σ B J, Sound M L [] (fun _ => False) w →
        M.Later (fun _ => False) w.brokr (ctx.api.inbox w.brokr).2 :=
      fun w h => M.inbox_later h.valid
    refine onBrokr_spec (fun w h entries hok => ?_) fun w h => ?_
    · have hl := hlater w h.1
      exact ⟨h.1.brokr (hl.mono fun _ => False.elim), fun id hid => hl.known id (h.2 id hid),
        M.inbox_lists h.1.valid hok⟩
    · exact h.1.brokr ((hlater w h.1).mono fun _ => False.elim)
  · have hperm := (List.mergeSort_perm listed fun a b => a.uploadedAt ≤ b.uploadedAt).map
      InboxEntry.id
    by_cases hnodup : (listed.map InboxEntry.id).Nodup
    · refine Triple.bind ((retainListed_spec known _).pre fun w h =>
        ⟨h.1, h.2.1, h.2.2.perm hperm.symm⟩) fun _ => ?_
      refine (collectEntries_spec c 0 _ (hperm.nodup_iff.mpr hnodup) _).mono (fun _ h => h) ?_ ?_
      · refine fun _ w h => h.mono (List.Subset.refl _) fun id hid => ?_
        by_cases hin : id ∈ (listed.mergeSort fun a b => a.uploadedAt ≤ b.uploadedAt).map
            InboxEntry.id
        · exact .inr ⟨hin, hid.2⟩
        · exact .inl ⟨hid.1, hin⟩
      · exact fun w h => h.mono (List.Subset.refl _) fun _ => False.elim
    · intro w h
      exact absurd h.2.2.nodup hnodup

end Pass

end CollectContext

end Tradr
