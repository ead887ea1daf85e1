import CppPlayground.Handoff
import CppPlayground.TripleBufferStamps

/-!
# What `stale_` says, and when it says the truth

`stale_` is meant to tell the consumer whether *ready* is newer than *present*,
but both sides update it in two operations. The producer *publishes* from its
`ready_.exchange` to its `stale_.clear()`; the consumer *swaps* from the
`test_and_set` that found the flag clear to its own `ready_.exchange`. With
values reduced to their numbers this is the protocol of `Handoff`, and the class
refines it step by step (`handoff_step`).

If the two sections overlap, the consumer carries the new value off and the flag
is left clear over an older one, which the next load swaps back in
(`loads_go_back`). Along runs that keep the sections apart (`Apart`) the flag
tells the truth, and reads never go back in time (`loads_sorted`).
-/

namespace CppPlayground

namespace TripleBuffer

universe u

variable {T : Type u} {val₀ : T}

/-! ## The two critical sections -/

/-- The producer has exchanged and not yet cleared the flag. -/
def State.publishing (s : State T) : Bool :=
  match s.producer with
  | .assign _ | .clear => true
  | _ => false

/-- The consumer has found the flag clear and not yet exchanged. -/
def State.swapping (s : State T) : Bool :=
  match s.consumer with
  | .loadArg _ | .exchange _ _ => true
  | _ => false

/-- The step makes the sections overlap: the producer exchanges while the consumer
is swapping, or the consumer finds the flag clear while the producer is
publishing. -/
def State.overlaps (s : State T) : Action T → Bool
  | .producer =>
    match s.producer with
    | .exchange _ => s.swapping
    | _ => false
  | .consumer =>
    match s.consumer with
    | .testAndSet _ => !s.stale && s.publishing
    | _ => false
  | _ => false

/-- The step keeps the sections apart. -/
def Apart (s : State T) (a : Action T) : Prop := s.overlaps a = false

instance (s : State T) (a : Action T) : Decidable (Apart s a) :=
  inferInstanceAs (Decidable (_ = false))

/-! ## Refinement of the abstract protocol -/

/-- The number of the newest value that has been exchanged into `ready_`. -/
def State.published (s : State T) : ℕ :=
  match s.producer with
  | .idle | .assign _ | .clear => s.stored.length
  | _ => s.stored.length - 1

/-- The number of the value in the consumer's buffer. -/
def State.seen (s : State T) : ℕ := (s.bufs s.consumerBuf).num

/-- The buffer as a handoff of numbers. -/
def State.handoff (s : State T) : Handoff.State where
  publishing := s.publishing
  swapping := s.swapping
  stale := s.stale
  ready := (s.bufs s.ready).num
  seen := s.seen
  newest := s.published

/-- The operation of the abstract protocol a step performs, if any. -/
def event (s : State T) : Action T → Option Handoff.Event
  | .producer =>
    match s.producer with
    | .exchange _ => some (.publish s.stored.length)
    | .clear => some .clear
    | _ => none
  | .consumer =>
    match s.consumer with
    | .testAndSet _ => if s.stale then none else some .take
    | .exchange _ _ => some .swap
    | _ => none
  | _ => none

theorem handoff_apart {s : State T} {a : Action T} {e : Handoff.Event} (ha : Apart s a)
    (he : event s a = some e) : Handoff.Apart s.handoff e := by
  cases a with
  | producer =>
    simp only [event] at he
    split at he <;> cases he
    case h_1 hp =>
      simp only [Apart, State.overlaps, hp] at ha
      exact ha
    case h_2 => trivial
  | consumer =>
    simp only [event] at he
    split at he
    case h_1 hc =>
      simp only [Option.ite_none_left_eq_some, Option.some.injEq] at he
      obtain ⟨hst, rfl⟩ := he
      simp only [Apart, State.overlaps, hc, hst, Bool.not_false, Bool.true_and] at ha
      exact ha
    case h_2 => cases he; trivial
    case h_3 => cases he
  | _ => cases he

/-- A write goes to the producer's buffer, which neither *ready* nor the consumer
sees. -/
theorem Owned.write_other {s : State T} (h : Owned s) {val : T} {p : Buf}
    (hp : s.producer = .write val p) (x : Stamped T) :
    Function.update s.bufs p x s.ready = s.bufs s.ready ∧
      Function.update s.bufs p x s.consumerBuf = s.bufs s.consumerBuf := by
  have hbuf := h.write_eq hp
  refine ⟨Function.update_of_ne ?_ _ _, Function.update_of_ne ?_ _ _⟩
  · rw [hbuf]
    exact h.producer_ne_ready.symm
  · rw [hbuf]
    exact h.producer_ne_consumer.symm

/-- **Refinement.** Every operation of the class is an operation of the abstract
protocol on the numbers, or invisible to it. -/
theorem handoff_step {s s' : State T} {a : Action T} (ho : Owned s) (hs : Stamps val₀ s)
    (ht : Trans s a s') :
    (event s a = none ∧ s'.handoff = s.handoff) ∨
      ∃ e, event s a = some e ∧ Handoff.step s.handoff e = some s'.handoff := by
  cases ht with
  | @publish arg hp =>
    refine .inr ⟨.publish s.stored.length, by simp [event, hp], ?_⟩
    have hnum := hs.producer
    rw [ProducerStamp, hp, ← ho.publish_eq hp] at hnum
    simp [Handoff.step, State.handoff, State.publishing, State.published, hp, hnum,
      State.swapping, State.seen, State.consumerBuf]
  | clear hp =>
    refine .inr ⟨.clear, by simp [event, hp], ?_⟩
    simp [Handoff.step, State.handoff, State.publishing, State.published, hp,
      State.swapping, State.seen, State.consumerBuf]
  | @take hand hc hst =>
    refine .inr ⟨.take, by simp [event, hc, hst], ?_⟩
    simp [Handoff.step, State.handoff, State.swapping, hc, hst, State.seen,
      State.consumerBuf, State.publishing, State.published]
  | @swap hand arg hc =>
    refine .inr ⟨.swap, by simp [event, hc], ?_⟩
    have hbuf := ho.swap_eq hc
    simp [Handoff.step, State.handoff, State.swapping, hc, State.seen,
      State.consumerBuf, State.publishing, State.published] at hbuf ⊢
    rw [hbuf]
  | @write val p hp =>
    obtain ⟨hr, hc⟩ := ho.write_other hp ⟨val, s.stored.length⟩
    refine .inl ⟨by simp [event, hp], ?_⟩
    simp only [State.handoff, State.publishing, State.published, hp, Handoff.State.mk.injEq,
      true_and]
    exact ⟨rfl, congrArg Stamped.num hr, congrArg Stamped.num hc, trivial⟩
  | _ =>
    refine .inl ⟨by simp_all [event], ?_⟩
    simp_all [State.handoff, State.publishing, State.swapping, State.seen, State.published,
      State.consumerBuf, ret]

/-! ## Reads never go back in time -/

/-- What holds at every point of every run: ownership, authentic values, and no
number beyond the newest published one. -/
structure Sound (val₀ : T) (s : State T) : Prop where
  /-- one buffer, one role -/
  owned : Owned s
  /-- values match their numbers -/
  stamps : Stamps val₀ s
  /-- numbers are bounded by the newest -/
  bounded : Handoff.Bounded s.handoff

theorem sound_init (val₀ : T) : Sound val₀ (init val₀) :=
  ⟨owned_init val₀, stamps_init val₀, ⟨le_refl 0, le_refl 0⟩⟩

theorem sound_step {s s' : State T} {a : Action T} (h : Sound val₀ s)
    (hstep : step s a = some s') : Sound val₀ s' := by
  refine ⟨owned_step h.owned hstep, stamps_step h.owned h.stamps hstep, ?_⟩
  rcases handoff_step h.owned h.stamps (step_trans hstep) with ⟨-, heq⟩ | ⟨e, -, he⟩
  · rw [heq]
    exact h.bounded
  · exact Handoff.bounded_step h.bounded he

/-- The flag stays truthful along steps that keep the sections apart. -/
theorem fresh_step {s s' : State T} {a : Action T} (h : Sound val₀ s)
    (hf : Handoff.Fresh s.handoff) (ha : Apart s a) (hstep : step s a = some s') :
    Handoff.Fresh s'.handoff := by
  rcases handoff_step h.owned h.stamps (step_trans hstep) with ⟨-, heq⟩ | ⟨e, hev, he⟩
  · rw [heq]
    exact hf
  · exact Handoff.fresh_step hf (handoff_apart ha hev) he

theorem seen_step {s s' : State T} {a : Action T} (h : Sound val₀ s)
    (hf : Handoff.Fresh s.handoff) (hstep : step s a = some s') : s.seen ≤ s'.seen := by
  rcases handoff_step h.owned h.stamps (step_trans hstep) with ⟨-, heq⟩ | ⟨e, -, he⟩
  · exact le_of_eq (congrArg Handoff.State.seen heq).symm
  · exact Handoff.seen_le_of_step hf h.bounded he

/-- The values returned so far are in order, the one in hand comes after them, and
none is ahead of the consumer's buffer. -/
structure Orderly (s : State T) : Prop where
  /-- the values returned -/
  sorted : (s.loads.map Stamped.num).Pairwise (· ≤ ·)
  /-- are not ahead -/
  loads_le : ∀ y ∈ s.loads, y.num ≤ s.seen
  /-- nor is the value in hand, which comes after them -/
  hand_le : ∀ x, s.consumer.hand = some x → x.num ≤ s.seen ∧ ∀ y ∈ s.loads, y.num ≤ x.num

/-- Steps that return nothing: the value in hand is kept, dropped, or just read
from the consumer's buffer. -/
theorem Orderly.keep {s s' : State T} (h : Orderly s) (hl : s'.loads = s.loads)
    (hseen : s.seen ≤ s'.seen)
    (hh : ∀ x, s'.consumer.hand = some x → s.consumer.hand = some x ∨ x.num = s.seen) :
    Orderly s' where
  sorted := hl ▸ h.sorted
  loads_le y hy := le_trans (h.loads_le y (hl ▸ hy)) hseen
  hand_le x hx := by
    rw [hl]
    rcases hh x hx with hx | hx
    · obtain ⟨hle, hall⟩ := h.hand_le x hx
      exact ⟨le_trans hle hseen, hall⟩
    · exact ⟨hx ▸ hseen, fun y hy => hx ▸ h.loads_le y hy⟩

/-- Steps that return a value which comes after all earlier ones. -/
theorem Orderly.ret {s : State T} (h : Orderly s) {x : Stamped T}
    (hle : x.num ≤ (ret s x).seen) (hall : ∀ y ∈ s.loads, y.num ≤ x.num) :
    Orderly (ret s x) where
  sorted := by
    simp only [TripleBuffer.ret, List.map_append, List.map_cons, List.map_nil]
    refine List.pairwise_append.mpr ⟨h.sorted, List.pairwise_singleton _ _, ?_⟩
    intro n hn m hm
    obtain ⟨y, hy, rfl⟩ := List.mem_map.mp hn
    rw [List.mem_singleton.mp hm]
    exact hall y hy
  loads_le y hy := by
    rcases List.mem_append.mp hy with hy | hy
    · exact le_trans (hall y hy) hle
    · rw [List.mem_singleton.mp hy]
      exact hle
  hand_le := nofun

theorem orderly_step {s s' : State T} {a : Action T} (ho : Owned s) (h : Orderly s)
    (ht : Trans s a s') (hseen : s.seen ≤ s'.seen) : Orderly s' := by
  cases ht with
  | @readWait p hc =>
    have hnum : (s.bufs p).num = s.seen := by rw [State.seen, ← ho.read_eq hc]
    exact h.ret (hnum ▸ hseen) fun y hy => hnum ▸ h.loads_le y hy
  | @readInstant p hc =>
    refine h.keep rfl hseen fun x hx => .inr ?_
    rw [State.seen, ← ho.read_eq hc, ← Option.some.inj hx]
  | @keep val hc hst =>
    obtain ⟨hle, hall⟩ := h.hand_le val (by rw [hc]; rfl)
    exact h.ret (le_trans hle hseen) hall
  | @assignInstant val res hc =>
    obtain ⟨hle, hall⟩ := h.hand_le val (by rw [hc]; rfl)
    have h' : Orderly { s with consumer := .idle, present := res } :=
      h.keep rfl hseen nofun
    exact h'.ret (le_trans hle hseen) hall
  | _ =>
    -- the value in hand stays, or there is none
    refine h.keep rfl hseen fun x hx => .inl ?_
    simp_all [LoadPc.hand]

/-- **Reads never go back in time** along runs that keep the sections apart: the
store numbers of the values returned by successive `wait_load` and `instant_load`
calls form a non-decreasing sequence. -/
theorem loads_sorted {as : List (Action T)} {s : State T}
    (hrun : Machine.run step (init val₀) as = some s)
    (hok : Machine.Along step Apart (init val₀) as) :
    (s.loads.map Stamped.num).Pairwise (· ≤ ·) := by
  have hinv : Sound val₀ s ∧ Handoff.Fresh s.handoff ∧ Orderly s := by
    refine Machine.run_invariant_along
      (I := fun s => Sound val₀ s ∧ Handoff.Fresh s.handoff ∧ Orderly s)
      ?_ ⟨sound_init val₀, ?_, ?_⟩ hok hrun
    · rintro s a s' ⟨hs, hf, ho⟩ ha hstep
      exact ⟨sound_step hs hstep, fresh_step hs hf ha hstep,
        orderly_step hs.owned ho (step_trans hstep) (seen_step hs hf hstep)⟩
    · exact ⟨nofun, nofun, fun _ => rfl, nofun⟩
    · exact ⟨List.Pairwise.nil, nofun, nofun⟩
  exact hinv.2.2.sorted

/-- A store that completes, then two loads: the first swaps, the second returns
the stored value. -/
def storeThenLoads : List (Action ℕ) :=
  [.store 7, .producer, .producer, .producer, .producer, .producer, .producer,
    .instantLoad, .consumer, .consumer, .consumer, .consumer, .consumer, .consumer,
    .instantLoad, .consumer, .consumer, .consumer]

theorem loads_sorted_storeThenLoads :
    ∃ s, Machine.run step (init 0) storeThenLoads = some s ∧
      Machine.Along step Apart (init 0) storeThenLoads ∧
      s.loads = [⟨0, 0⟩, ⟨7, 1⟩] ∧ (s.loads.map Stamped.num).Pairwise (· ≤ ·) := by
  refine ⟨_, rfl, by decide, rfl, ?_⟩
  exact loads_sorted (show Machine.run step (init 0) storeThenLoads = some _ from rfl)
    (by decide)

/-- A load finds the flag clear; before it exchanges, a store exchanges; the load
carries the new value off; the store clears the flag. -/
def overlap : List (Action ℕ) :=
  [.instantLoad, .consumer, .consumer, .consumer,
    .store 7, .producer, .producer, .producer, .producer,
    .consumer, .consumer, .consumer,
    .producer, .producer]

/-- Two further loads, one operation after the other. -/
def twoLoads : List (Action ℕ) :=
  [.instantLoad, .consumer, .consumer, .consumer, .consumer, .consumer, .consumer,
    .instantLoad, .consumer, .consumer, .consumer]

/-- **Reads do go back in time** when the sections overlap: the second load
returns the first store's value, the third the constructor's value again. -/
theorem loads_go_back :
    ∃ s, Machine.run step (init 0) (overlap ++ twoLoads) = some s ∧
      s.loads.map Stamped.num = [0, 1, 0] ∧
      ¬ (s.loads.map Stamped.num).Pairwise (· ≤ ·) :=
  ⟨_, rfl, rfl, by decide⟩

end TripleBuffer

end CppPlayground
