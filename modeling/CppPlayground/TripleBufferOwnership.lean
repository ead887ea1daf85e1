import CppPlayground.TripleBuffer
import Mathlib.Logic.Equiv.Basic

/-!
# Buffer ownership in the triple buffer is a permutation

Between `ready_.exchange(x)` and the assignment of its result, two of the three
pointer members name the same buffer and one buffer is named by none of them. So
ownership is not a statement about the members alone: the buffer *owned* by a
thread is the one its member names, or, in that gap, the exchange's result still
held in a temporary.

Seen this way every operation of either thread acts on the three roles by a
permutation — the identity, or the transposition of *ready* with the thread's own
role — and injectivity of the role assignment is preserved along every run. The
flag `stale_` plays no part in it.
-/

namespace CppPlayground

namespace TripleBuffer

universe u

variable {T : Type u}

/-- The three roles a buffer can play. -/
inductive Role : Type where
  /-- owned by the producer -/
  | producer : Role
  /-- named by `ready_` -/
  | ready : Role
  /-- owned by the consumer -/
  | consumer : Role
  deriving DecidableEq

/-- The buffer the producer owns: `inprogress_`, or the result of its exchange
while that has not been assigned yet. -/
def State.producerBuf (s : State T) : Buf :=
  match s.producer with
  | .assign res => res
  | _ => s.inprogress

/-- The buffer the consumer owns: `present_`, or the result of its exchange while
that has not been assigned yet. -/
def State.consumerBuf (s : State T) : Buf :=
  match s.consumer with
  | .assign _ res => res
  | _ => s.present

/-- Which buffer plays which role. -/
def State.owner (s : State T) : Role → Buf
  | .producer => s.producerBuf
  | .ready => s.ready
  | .consumer => s.consumerBuf

/-! ## Local facts

Only its own thread writes `inprogress_` or `present_`, so a value loaded from
the member is still the owned buffer when it is used. -/

/-- The buffer a producer operation is about to use is the one it owns. -/
def ProducerLocal (s : State T) : Prop :=
  match s.producer with
  | .write _ p => p = s.inprogress
  | .exchange arg => arg = s.inprogress
  | _ => True

/-- The buffer a consumer operation is about to use is the one it owns. -/
def ConsumerLocal (s : State T) : Prop :=
  match s.consumer with
  | .read _ p => p = s.present
  | .exchange _ arg => arg = s.present
  | _ => True

/-- The ownership invariant: both threads' temporaries are current and no buffer
plays two roles. -/
structure Owned (s : State T) : Prop where
  /-- the producer's temporaries -/
  producerLocal : ProducerLocal s
  /-- the consumer's temporaries -/
  consumerLocal : ConsumerLocal s
  /-- one buffer, one role -/
  injective : Function.Injective s.owner

theorem owned_init (val : T) : Owned (init val) where
  producerLocal := trivial
  consumerLocal := trivial
  injective := by
    intro r r' h
    cases r <;> cases r' <;> first
      | rfl
      | simp [init, State.owner, State.producerBuf, State.consumerBuf] at h

theorem Owned.write_eq {s : State T} (h : Owned s) {val : T} {p : Buf}
    (hp : s.producer = .write val p) : p = s.producerBuf := by
  have hl := h.producerLocal
  rw [ProducerLocal, hp] at hl
  rw [State.producerBuf, hp]
  exact hl

theorem Owned.publish_eq {s : State T} (h : Owned s) {arg : Buf}
    (hp : s.producer = .exchange arg) : arg = s.producerBuf := by
  have hl := h.producerLocal
  rw [ProducerLocal, hp] at hl
  rw [State.producerBuf, hp]
  exact hl

theorem Owned.read_eq {s : State T} (h : Owned s) {call : Call} {p : Buf}
    (hc : s.consumer = .read call p) : p = s.consumerBuf := by
  have hl := h.consumerLocal
  rw [ConsumerLocal, hc] at hl
  rw [State.consumerBuf, hc]
  exact hl

theorem Owned.swap_eq {s : State T} (h : Owned s) {hand : Option (Stamped T)} {arg : Buf}
    (hc : s.consumer = .exchange hand arg) : arg = s.consumerBuf := by
  have hl := h.consumerLocal
  rw [ConsumerLocal, hc] at hl
  rw [State.consumerBuf, hc]
  exact hl

theorem Owned.producer_ne_consumer {s : State T} (h : Owned s) :
    s.producerBuf ≠ s.consumerBuf :=
  fun he => Role.noConfusion (@h.injective .producer .consumer he)

theorem Owned.producer_ne_ready {s : State T} (h : Owned s) : s.producerBuf ≠ s.ready :=
  fun he => Role.noConfusion (@h.injective .producer .ready he)

theorem Owned.consumer_ne_ready {s : State T} (h : Owned s) : s.consumerBuf ≠ s.ready :=
  fun he => Role.noConfusion (@h.injective .consumer .ready he)

/-! ## Every operation permutes the roles -/

/-- The roles are untouched when `ready_` and both owned buffers are. -/
theorem owner_congr {s s' : State T} (hp : s'.producerBuf = s.producerBuf)
    (hr : s'.ready = s.ready) (hc : s'.consumerBuf = s.consumerBuf) :
    s'.owner = s.owner := by
  funext r
  cases r with
  | producer => exact hp
  | ready => exact hr
  | consumer => exact hc

/-- An operation that is not an exchange leaves the roles alone; an exchange
transposes *ready* with the role of its thread. -/
theorem owner_step {s s' : State T} {a : Action T} (h : Owned s) (ht : Trans s a s') :
    ∃ σ : Equiv.Perm Role, s'.owner = s.owner ∘ σ := by
  cases ht with
  | @publish arg hp =>
    refine ⟨Equiv.swap .producer .ready, funext fun r => ?_⟩
    cases r with
    | producer => rfl
    | ready => exact h.publish_eq hp
    | consumer => rfl
  | @swap hand arg hc =>
    refine ⟨Equiv.swap .consumer .ready, funext fun r => ?_⟩
    cases r with
    | producer => rfl
    | ready => exact h.swap_eq hc
    | consumer => rfl
  | _ =>
    -- the members or temporaries move, but each role keeps its buffer
    refine ⟨Equiv.refl Role, owner_congr ?_ rfl ?_⟩ <;>
      simp_all [State.producerBuf, State.consumerBuf, ret]

/-- The temporaries stay current: a thread's own operation refreshes them, the
other thread does not touch them. -/
theorem producerLocal_step {s s' : State T} {a : Action T} (h : ProducerLocal s)
    (ht : Trans s a s') : ProducerLocal s' := by
  cases ht <;> simp_all [ProducerLocal, ret]

theorem consumerLocal_step {s s' : State T} {a : Action T} (h : ConsumerLocal s)
    (ht : Trans s a s') : ConsumerLocal s' := by
  cases ht <;> simp_all [ConsumerLocal, ret]

theorem owned_step {s s' : State T} {a : Action T} (h : Owned s)
    (hstep : step s a = some s') : Owned s' := by
  have ht := step_trans hstep
  refine ⟨producerLocal_step h.producerLocal ht, consumerLocal_step h.consumerLocal ht, ?_⟩
  obtain ⟨σ, hσ⟩ := owner_step h ht
  rw [hσ]
  exact h.injective.comp σ.injective

theorem owned_run {s s' : State T} {as : List (Action T)} (h : Owned s)
    (hrun : Machine.run step s as = some s') : Owned s' :=
  Machine.run_invariant owned_step h hrun

/-! ## The theorem -/

/-- **Ownership is a permutation.** In every reachable state the producer's
buffer, the ready buffer and the consumer's buffer are three different elements
of `bufs_`; in particular a buffer that is about to be written is never one that
is about to be read. -/
theorem buffers_distinct {val : T} {as : List (Action T)} {s : State T}
    (hrun : Machine.run step (init val) as = some s) :
    (s.producerBuf ≠ s.ready ∧ s.consumerBuf ≠ s.ready ∧ s.producerBuf ≠ s.consumerBuf) ∧
      ∀ v p call q, s.producer = .write v p → s.consumer = .read call q → p ≠ q := by
  have h := owned_run (owned_init val) hrun
  refine ⟨⟨h.producer_ne_ready, h.consumer_ne_ready, h.producer_ne_consumer⟩, ?_⟩
  intro v p call q hp hc
  rw [h.write_eq hp, h.read_eq hc]
  exact h.producer_ne_consumer

/-- One load that swaps, then a store and a load side by side. -/
def writeBesideRead : List (Action ℕ) :=
  [.instantLoad, .consumer, .consumer, .consumer, .consumer, .consumer, .consumer,
    .store 7, .instantLoad, .producer, .consumer]

/-- The producer is about to write buffer `2` while the consumer, after one
exchange, is about to read buffer `1`. -/
theorem buffers_distinct_writeBesideRead :
    ∃ s, Machine.run step (init 0) writeBesideRead = some s ∧
      s.producer = .write 7 2 ∧ s.consumer = .read .instant 1 ∧
      s.producerBuf ≠ s.consumerBuf ∧ (2 : Buf) ≠ 1 := by
  refine ⟨_, rfl, rfl, rfl, ?_⟩
  have h := buffers_distinct (show Machine.run step (init 0) writeBesideRead = some _ from rfl)
  exact ⟨h.1.2.2, h.2 7 2 .instant 1 rfl rfl⟩

end TripleBuffer

end CppPlayground
