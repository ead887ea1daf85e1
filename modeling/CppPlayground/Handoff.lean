import Mathlib.Order.Basic
import Mathlib.Data.Nat.Basic

/-!
# Handing over the newest value through one slot and one flag

The abstract protocol behind a triple buffer, with values reduced to their
numbers. A writer puts ever newer numbers into a *ready* slot and announces them
by clearing a flag; a reader that finds the flag clear sets it and exchanges the
slot for the number it *has seen*. Each side does its part in two operations:

* the writer *publishes* from the moment the number is in the slot (`publish`) to
  the moment the flag is cleared (`clear`);
* the reader *swaps* from the moment it found the flag clear (`take`) to the
  exchange (`swap`).

`Fresh` is the meaning the flag is supposed to have. It survives exactly the
operations that keep the two sections apart (`Apart`), and from a fresh state the
reader's number never goes down.
-/

namespace Handoff

/-- The shared slot and flag, the sections the two sides are in, and the newest
number published so far. -/
structure State : Type where
  /-- the writer has published and not yet cleared the flag -/
  publishing : Bool
  /-- the reader has found the flag clear and not yet exchanged -/
  swapping : Bool
  /-- the flag: set means nothing new has been announced -/
  stale : Bool
  /-- the number in the slot -/
  ready : ℕ
  /-- the number the reader has -/
  seen : ℕ
  /-- the newest number published -/
  newest : ℕ
  deriving DecidableEq, Repr

/-- The operations on the slot and the flag. -/
inductive Event : Type where
  /-- put a newer number into the slot -/
  | publish (n : ℕ) : Event
  /-- announce it -/
  | clear : Event
  /-- find the flag clear, and set it -/
  | take : Event
  /-- exchange the slot for the reader's number -/
  | swap : Event
  deriving DecidableEq, Repr

/-- One operation; `none` if the side it belongs to is not ready for it. -/
def step (m : State) : Event → Option State
  | .publish n =>
    if m.publishing = false ∧ m.newest ≤ n then
      some { m with publishing := true, ready := n, newest := n }
    else none
  | .clear => if m.publishing then some { m with publishing := false, stale := false } else none
  | .take =>
    if m.swapping = false ∧ m.stale = false then
      some { m with swapping := true, stale := true }
    else none
  | .swap =>
    if m.swapping then some { m with swapping := false, ready := m.seen, seen := m.ready }
    else none

/-- The operation does not make the two sections overlap. -/
def Apart (m : State) : Event → Prop
  | .publish _ => m.swapping = false
  | .take => m.publishing = false
  | .clear | .swap => True

/-- The flag tells the truth about the newest number. -/
structure Fresh (m : State) : Prop where
  /-- the sections do not overlap -/
  apart : m.publishing = true → m.swapping = false
  /-- the flag stays set while the reader swaps -/
  taken : m.swapping = true → m.stale = true
  /-- announced, about to be announced or being fetched: it is in the slot -/
  ready : m.publishing = true ∨ m.stale = false ∨ m.swapping = true → m.ready = m.newest
  /-- otherwise the reader has it -/
  seen : m.publishing = false → m.stale = true → m.swapping = false → m.seen = m.newest

/-- No number is newer than the newest. -/
structure Bounded (m : State) : Prop where
  /-- not the one in the slot -/
  ready : m.ready ≤ m.newest
  /-- and not the reader's -/
  seen : m.seen ≤ m.newest

/-- What an operation can do, once for all the proofs below. -/
theorem step_cases {m m' : State} {e : Event} (h : step m e = some m') :
    (∃ n, e = .publish n ∧ m.publishing = false ∧ m.newest ≤ n ∧
        m' = { m with publishing := true, ready := n, newest := n }) ∨
      (e = .clear ∧ m.publishing = true ∧
        m' = { m with publishing := false, stale := false }) ∨
      (e = .take ∧ m.swapping = false ∧ m.stale = false ∧
        m' = { m with swapping := true, stale := true }) ∨
      (e = .swap ∧ m.swapping = true ∧
        m' = { m with swapping := false, ready := m.seen, seen := m.ready }) := by
  cases e <;> simp only [step, Option.ite_none_right_eq_some, Option.some.injEq] at h
  case publish n => exact .inl ⟨n, rfl, h.1.1, h.1.2, h.2.symm⟩
  case clear => exact .inr (.inl ⟨rfl, h.1, h.2.symm⟩)
  case take => exact .inr (.inr (.inl ⟨rfl, h.1.1, h.1.2, h.2.symm⟩))
  case swap => exact .inr (.inr (.inr ⟨rfl, h.1, h.2.symm⟩))

theorem bounded_step {m m' : State} {e : Event} (h : Bounded m)
    (hstep : step m e = some m') : Bounded m' := by
  obtain ⟨hr, hs⟩ := h
  rcases step_cases hstep with ⟨n, -, -, hn, rfl⟩ | ⟨-, -, rfl⟩ | ⟨-, -, -, rfl⟩ | ⟨-, -, rfl⟩
  · exact ⟨le_refl n, le_trans hs hn⟩
  · exact ⟨hr, hs⟩
  · exact ⟨hr, hs⟩
  · exact ⟨hs, hr⟩

/-- **Publishing starts truthfully**, whatever went before, as long as the reader
is not in the middle of a swap. -/
theorem fresh_publish {m m' : State} {n : ℕ} (hsw : m.swapping = false)
    (hstep : step m (.publish n) = some m') : Fresh m' := by
  simp only [step, Option.ite_none_right_eq_some, Option.some.injEq] at hstep
  obtain ⟨-, rfl⟩ := hstep
  exact ⟨fun _ => hsw, fun h => absurd h (by simp [hsw]), fun _ => rfl, nofun⟩

/-- **Truth is kept** by every operation that keeps the sections apart. -/
theorem fresh_step {m m' : State} {e : Event} (h : Fresh m) (ha : Apart m e)
    (hstep : step m e = some m') : Fresh m' := by
  rcases step_cases hstep with
    ⟨n, rfl, -, -, -⟩ | ⟨-, hpub, rfl⟩ | ⟨rfl, hsw, hst, rfl⟩ | ⟨-, hsw, rfl⟩
  · exact fresh_publish ha hstep
  · -- clear: what was about to be announced is announced
    have hsw := h.apart hpub
    exact ⟨nofun, fun h' => absurd (hsw.symm.trans h') nofun,
      fun _ => h.ready (.inl hpub), fun _ h' => absurd h' nofun⟩
  · -- take: what was announced is being fetched
    have hpub : m.publishing = false := ha
    exact ⟨fun h' => absurd (hpub.symm.trans h') nofun, fun _ => rfl,
      fun _ => h.ready (.inr (.inl hst)), fun _ _ h' => absurd h' nofun⟩
  · -- swap: what was being fetched has been seen
    have hst := h.taken hsw
    refine ⟨fun _ => rfl, nofun, fun h' => ?_, fun _ _ _ => h.ready (.inr (.inr hsw))⟩
    rcases h' with hpub | h' | h'
    · exact absurd ((h.apart hpub).symm.trans hsw) nofun
    · exact absurd (hst.symm.trans h') nofun
    · exact absurd h' nofun

/-- In a fresh state the reader only ever moves on to a newer number. -/
theorem seen_le_of_step {m m' : State} {e : Event} (h : Fresh m) (hb : Bounded m)
    (hstep : step m e = some m') : m.seen ≤ m'.seen := by
  rcases step_cases hstep with ⟨n, -, -, -, rfl⟩ | ⟨-, -, rfl⟩ | ⟨-, -, -, rfl⟩ | ⟨-, hsw, rfl⟩
  · exact le_refl _
  · exact le_refl _
  · exact le_refl _
  · -- only the swap changes it, to the number in the slot, which is the newest
    have hready := h.ready (.inr (.inr hsw))
    exact hready ▸ hb.seen

end Handoff
