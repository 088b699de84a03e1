import Mathlib.Data.Nat.Notation

/-!
# A One-Way Byte Pipe

One direction of a connection, without saying how it is carried: what the sender has
handed over and whether it has closed, the items in transit, what has arrived and was
not taken yet, whether the close has arrived, and what the reader has taken.

`Pipe.Inv` says that nothing is lost, repeated or reordered, and that a close travels
behind everything written before it. Every operation of a sender, of the carrier and of
a reader keeps it.

## Main results

* `Inv.taken_isPrefixOf`: the reader has a prefix of what was written.
* `Inv.complete`: a reader that sees the end has all of it.
-/

/-- What travels: a slice of bytes, or the close of the sender's half. -/
inductive Pipe.Item (α : Type*)
  | data (bytes : List α)
  | fin

/-- One direction of a connection. -/
structure Pipe (α : Type*) where
  written : List α
  closed : Bool
  transit : List (Pipe.Item α)
  buffered : List α
  ended : Bool
  taken : List α

namespace Pipe

variable {α : Type*}

/-- The bytes an item carries. -/
def Item.bytes : Item α → List α
  | .data bytes => bytes
  | .fin => []

/-- A pipe nothing has happened on. -/
def empty : Pipe α :=
  ⟨[], false, [], [], false, []⟩

/-- The invariant: conservation of bytes, and the close behind everything written. -/
structure Inv (p : Pipe α) : Prop where
  conserve : p.written = p.taken ++ p.buffered ++ p.transit.flatMap Item.bytes
  shape : ∃ chunks : List (List α),
    p.transit = chunks.map Item.data ++ if p.closed && !p.ended then [Item.fin] else []
  ended : p.ended = true → p.closed = true ∧ p.transit = []

/-- The empty pipe keeps the invariant. -/
theorem inv_empty : (empty : Pipe α).Inv :=
  ⟨rfl, ⟨[], rfl⟩, fun h => by cases h⟩

/-- The bytes of a list of chunks in transit. -/
theorem flatMap_bytes_data (chunks : List (List α)) :
    (chunks.map Item.data).flatMap Item.bytes = chunks.flatten := by
  induction chunks with
  | nil => rfl
  | cons c chunks ih =>
      rw [List.map_cons, List.flatMap_cons, ih]
      rfl

/-- An open pipe has not ended. -/
theorem Inv.not_ended {p : Pipe α} (h : p.Inv) (hc : p.closed = false) :
    p.ended = false := by
  cases he : p.ended with
  | false => rfl
  | true =>
      rw [(h.ended he).1] at hc
      cases hc

/-- The sender writes, in any chunks. -/
theorem Inv.write {p : Pipe α} (h : p.Inv) (hc : p.closed = false)
    (chunks : List (List α)) :
    ({ p with
      written := p.written ++ chunks.flatten
      transit := p.transit ++ chunks.map Item.data } : Pipe α).Inv := by
  obtain ⟨old, hold⟩ := h.shape
  refine ⟨?_, ⟨old ++ chunks, ?_⟩, fun he => ?_⟩
  · simp only [List.flatMap_append, flatMap_bytes_data, h.conserve, List.append_assoc]
  · simp [hold, hc]
  · rw [h.not_ended hc] at he
    cases he

/-- The sender closes its half. -/
theorem Inv.close {p : Pipe α} (h : p.Inv) (hc : p.closed = false) :
    ({ p with closed := true, transit := p.transit ++ [Item.fin] } : Pipe α).Inv := by
  obtain ⟨old, hold⟩ := h.shape
  refine ⟨?_, ⟨old, ?_⟩, fun he => ?_⟩
  · simp [List.flatMap_append, h.conserve, Item.bytes]
  · simp [hold, hc, h.not_ended hc]
  · rw [h.not_ended hc] at he
    cases he

/-- Nothing arrives after the end. -/
theorem Inv.not_ended_of_transit {p : Pipe α} (h : p.Inv) {i : Item α}
    {rest : List (Item α)} (ht : p.transit = i :: rest) : p.ended = false := by
  cases he : p.ended with
  | false => rfl
  | true =>
      rw [(h.ended he).2] at ht
      cases ht

/-- Bytes arrive. -/
theorem Inv.arrive_data {p : Pipe α} (h : p.Inv) {bytes : List α} {rest : List (Item α)}
    (ht : p.transit = Item.data bytes :: rest) :
    ({ p with transit := rest, buffered := p.buffered ++ bytes } : Pipe α).Inv := by
  have he := h.not_ended_of_transit ht
  obtain ⟨chunks, hshape⟩ := h.shape
  refine ⟨?_, ?_, fun he' => ?_⟩
  · simp [h.conserve, ht, Item.bytes]
  · rw [ht, he] at hshape
    cases chunks with
    | nil =>
        cases hc : p.closed <;> simp [hc] at hshape
    | cons c chunks =>
        rw [List.map_cons, List.cons_append] at hshape
        refine ⟨chunks, ?_⟩
        rw [(List.cons.inj hshape).2, he]
  · rw [he] at he'
    cases he'

/-- The close arrives: nothing is behind it. -/
theorem Inv.arrive_fin {p : Pipe α} (h : p.Inv) {rest : List (Item α)}
    (ht : p.transit = Item.fin :: rest) :
    ({ p with transit := rest, ended := true } : Pipe α).Inv := by
  have he := h.not_ended_of_transit ht
  obtain ⟨chunks, hshape⟩ := h.shape
  rw [ht, he] at hshape
  cases chunks with
  | cons c chunks => simp at hshape
  | nil =>
      cases hc : p.closed with
      | false => simp [hc] at hshape
      | true =>
          simp only [hc, List.map_nil, List.nil_append, Bool.not_false, Bool.and_self, if_true,
            List.cons.injEq, true_and] at hshape
          subst hshape
          refine ⟨?_, ⟨[], by simp⟩, fun _ => ⟨rfl, rfl⟩⟩
          simp [h.conserve, ht, Item.bytes]

/-- The reader takes some of what has arrived. -/
theorem Inv.take {p : Pipe α} (h : p.Inv) (n : ℕ) :
    ({ p with
      taken := p.taken ++ p.buffered.take n
      buffered := p.buffered.drop n } : Pipe α).Inv := by
  refine ⟨?_, h.shape, h.ended⟩
  simp only [h.conserve, List.append_assoc]
  rw [← List.append_assoc (p.buffered.take n), List.take_append_drop]

/-- **The reader has a prefix of what was written.** -/
theorem Inv.taken_isPrefixOf {p : Pipe α} (h : p.Inv) : p.taken <+: p.written := by
  rw [h.conserve, List.append_assoc]
  exact List.prefix_append _ _

/-- **A reader that sees the end has everything**, and the sender has closed. -/
theorem Inv.complete {p : Pipe α} (h : p.Inv) (he : p.ended = true)
    (hb : p.buffered = []) : p.closed = true ∧ p.taken = p.written := by
  obtain ⟨hc, ht⟩ := h.ended he
  refine ⟨hc, ?_⟩
  rw [h.conserve, hb, ht]
  simp

end Pipe
