import Mathlib.Data.List.Basic
import Mathlib.Data.List.Infix
import Mathlib.Algebra.Order.BigOperators.Group.List
import Mathlib.Algebra.Order.Group.Nat

/-!
# Channels: what was sent, what was received, what is pending

A first-in first-out channel is described by three lists in the order of sending:
everything ever `sent`, everything ever `received`, and what is `pending`.

* `Lossless` — nothing is missing: what was received, then what is pending, is
  what was sent.
* `DropOldest` — messages may get lost, but only from the old end of what is
  pending and never the newest one.

A channel that transmits messages in parts is lossless as a channel of their elements;
`flatMap_parts_eq_iff` says when the messages have arrived.

Each notion has one lemma per operation of a channel (`send`, `receive` and, for
the lossy one, `drop`); the consequences are read off at the end.
-/

namespace Channel

universe u

variable {α : Type u} {sent received pending : List α} {x : α}

/-! ## Channels that lose nothing -/

/-- What was received, then what is pending, is exactly what was sent. -/
def Lossless (sent received pending : List α) : Prop :=
  received ++ pending = sent

namespace Lossless

theorem empty : Lossless ([] : List α) [] [] := rfl

/-- Several messages may be sent at once. -/
theorem send (h : Lossless sent received pending) (xs : List α) :
    Lossless (sent ++ xs) received (pending ++ xs) := by
  rw [Lossless, ← List.append_assoc, h]

/-- Several messages may be received at once. -/
theorem receive (h : Lossless sent received pending) (n : ℕ) :
    Lossless sent (received ++ pending.take n) (pending.drop n) := by
  rw [Lossless, List.append_assoc, List.take_append_drop]
  exact h

/-- When nothing is pending, everything has been received. -/
theorem received_eq (h : Lossless sent received []) : received = sent :=
  (List.append_nil received).symm.trans h

/-- The receiver has seen an initial part of what was sent. -/
theorem received_initial (h : Lossless sent received pending) : received <+: sent :=
  ⟨pending, h⟩

end Lossless

/-! ## Messages sent in parts -/

/-- If of each message only an initial part is passed on, what is passed on altogether is
the messages altogether exactly if each part is the whole message. -/
theorem flatMap_parts_eq_iff {ι : Type u} {part whole : ι → List α} {l : List ι}
    (h : ∀ i ∈ l, part i <+: whole i) :
    l.flatMap part = l.flatMap whole ↔ ∀ i ∈ l, part i = whole i := by
  refine ⟨fun heq => ?_, fun hall => List.flatMap_congr hall⟩
  induction l with
  | nil => nofun
  | cons i l ih =>
    obtain ⟨hi, hl⟩ := List.forall_mem_cons.mp h
    -- neither the first part nor the rest can make up for something missing in the other
    have hlen : (l.flatMap part).length ≤ (l.flatMap whole).length := by
      rw [List.length_flatMap, List.length_flatMap]
      exact List.sum_le_sum fun j hj => (hl j hj).length_le
    rw [List.flatMap_cons, List.flatMap_cons] at heq
    have htotal := congrArg List.length heq
    rw [List.length_append, List.length_append] at htotal
    have hfirst := hi.length_le
    obtain ⟨heq₁, heq₂⟩ := List.append_inj heq (by omega)
    exact List.forall_mem_cons.mpr ⟨heq₁, ih hl heq₂⟩

/-! ## Channels that may drop their oldest message -/

/-- **Loss at the old end only.** What was sent splits into messages that are gone
and the pending ones; the received messages are among those gone, in order. The
newest message sent is still there, pending or received. -/
structure DropOldest (sent received pending : List α) : Prop where
  /-- Pending messages are the most recent ones, received ones older, in order. -/
  split : ∃ gone, sent = gone ++ pending ∧ received.Sublist gone
  /-- The newest message has not been lost. -/
  newest : (received ++ pending).getLast? = sent.getLast?

namespace DropOldest

theorem empty : DropOldest ([] : List α) [] [] :=
  ⟨⟨[], rfl, .slnil⟩, rfl⟩

theorem send (h : DropOldest sent received pending) (x : α) :
    DropOldest (sent ++ [x]) received (pending ++ [x]) := by
  obtain ⟨⟨gone, rfl, hsub⟩, -⟩ := h
  refine ⟨⟨gone, List.append_assoc .., hsub⟩, ?_⟩
  rw [← List.append_assoc, List.getLast?_concat, List.getLast?_concat]

theorem receive (h : DropOldest sent received (x :: pending)) :
    DropOldest sent (received ++ [x]) pending := by
  obtain ⟨⟨gone, rfl, hsub⟩, hnew⟩ := h
  refine ⟨⟨gone ++ [x], ?_, hsub.append (.refl _)⟩, ?_⟩
  · rw [List.append_cons]
  · rw [← List.append_cons]
    exact hnew

/-- Dropping the oldest pending message is harmless while another one is pending. -/
theorem drop (h : DropOldest sent received (x :: pending)) (hne : pending ≠ []) :
    DropOldest sent received pending := by
  obtain ⟨⟨gone, rfl, hsub⟩, hnew⟩ := h
  refine ⟨⟨gone ++ [x], ?_, hsub.trans (List.sublist_append_left ..)⟩, ?_⟩
  · rw [List.append_cons]
  · rw [← hnew, List.append_cons received x pending, List.getLast?_append_of_ne_nil _ hne,
      List.getLast?_append_of_ne_nil _ hne]

/-- Received and pending messages together are a subsequence of what was sent. -/
theorem sublist (h : DropOldest sent received pending) :
    (received ++ pending).Sublist sent := by
  obtain ⟨⟨gone, rfl, hsub⟩, -⟩ := h
  exact hsub.append (.refl _)

/-- The pending messages are the most recent ones. -/
theorem pending_suffix (h : DropOldest sent received pending) : pending <:+ sent := by
  obtain ⟨⟨gone, rfl, -⟩, -⟩ := h
  exact List.suffix_append ..

end DropOldest

end Channel
