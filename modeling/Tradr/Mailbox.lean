import Tradr.Collect

/-!
# Mailboxes

What a device relies on when it collects from a Brokr: a delivery that waits no more never waits
again, nothing is collected but what the device acknowledges, and the inbox lists what waits.

## Main definitions

* `MailboxView`: what a state of a Brokr shows of the deliveries to a device.
* `Mailbox`: a Brokr whose calls keep to this.
-/

namespace Tradr

/-- What a state of a Brokr shows of the deliveries to a device: whether the state is sound, which
deliveries were recorded, which of them wait no more, and which were collected. -/
structure MailboxView (B : Type) where
  Valid : B → Prop
  Known : B → Text → Prop
  Gone : B → Text → Prop
  Collected : B → Text → Prop

namespace MailboxView

variable {B : Type} (v : MailboxView B)

/-- A sound state that may follow another, when no delivery was acknowledged but those `told`. -/
structure Later (told : Text → Prop) (b b' : B) : Prop where
  valid : v.Valid b'
  known : ∀ id, v.Known b id → v.Known b' id
  gone : ∀ id, v.Gone b id → v.Gone b' id
  collected : ∀ id, v.Collected b' id → v.Collected b id ∨ told id

/-- The identifiers are those of the deliveries that wait. -/
structure Lists (b : B) (ids : List Text) : Prop where
  nodup : ids.Nodup
  known : ∀ id ∈ ids, v.Known b id
  waiting : ∀ id ∈ ids, ¬v.Gone b id
  unlisted : ∀ id, v.Known b id → id ∉ ids → v.Gone b id

variable {v} {told told' : Text → Prop} {b b' b'' : B}

theorem Later.refl (h : v.Valid b) : v.Later told b b :=
  ⟨h, fun _ => id, fun _ => id, fun _ => .inl⟩

theorem Later.trans (h : v.Later told b b') (h' : v.Later told b' b'') : v.Later told b b'' where
  valid := h'.valid
  known id hid := h'.known id (h.known id hid)
  gone id hid := h'.gone id (h.gone id hid)
  collected id hid := (h'.collected id hid).elim (h.collected id) .inr

/-- More may have been acknowledged. -/
theorem Later.mono (h : v.Later told b b') (hle : ∀ id, told id → told' id) : v.Later told' b b' :=
  ⟨h.valid, h.known, h.gone, fun id hid => (h.collected id hid).imp_right (hle id)⟩

/-- The order in which deliveries are listed does not matter. -/
theorem Lists.perm {ids ids' : List Text} (h : v.Lists b ids) (hperm : ids.Perm ids') :
    v.Lists b ids' where
  nodup := hperm.nodup h.nodup
  known id hid := h.known id (hperm.mem_iff.mpr hid)
  waiting id hid := h.waiting id (hperm.mem_iff.mpr hid)
  unlisted id hid hnot := h.unlisted id hid fun hmem => hnot (hperm.mem_iff.mp hmem)

end MailboxView

/-- A Brokr that keeps to what a device relies on. -/
structure Mailbox {B : Type} (api : BrokrApi B) extends MailboxView B where
  inbox_later : ∀ {b}, Valid b → toMailboxView.Later (fun _ => False) b (api.inbox b).2
  download_later : ∀ {b} id, Valid b →
    toMailboxView.Later (fun _ => False) b (api.download b id).2
  acknowledge_later : ∀ {b} id, Valid b → toMailboxView.Later (· = id) b (api.acknowledge b id).2
  inbox_lists : ∀ {b entries}, Valid b → (api.inbox b).1 = .ok entries →
    toMailboxView.Lists (api.inbox b).2 (entries.map InboxEntry.id)
  acknowledge_gone : ∀ {b id}, Valid b → Known b id → (api.acknowledge b id).1 = .ok () →
    Gone (api.acknowledge b id).2 id

end Tradr
