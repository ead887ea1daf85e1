import CppPlayground.Machine
import Mathlib.Logic.Function.Basic

/-!
# The triple buffer with its own threads

`triple_buffer` (`lock_free_structure/include/triple_buffer_so.h`) starts a producer and a
consumer thread in its constructor and ends them in its destructor. The flag `stale` tells the
consumer that there is nothing new: it spins on `test_and_set` until the producer, or the
destructor, clears the flag.

The thread that constructs and destroys the object, the producer and the consumer are modelled by
program counters; one step is one operation on shared memory (sequential consistency), one call
of `produce` or `consume`, or the start or the join of a thread. What `produce` writes is
arbitrary.

From the destructor's `stale.clear()` on, the producer has ended and `stop` is set, so the
consumer finds `stale` clear if it still has to pass the spin loop, and no one else takes that
away from it (`Ending`). Each of its steps then brings it closer to its end
(`consumer_finishes`).
-/

namespace CppPlayground

namespace TripleBufferThreads

universe u

/-! ## Data -/

/-- A pointer to one of the three buffers. -/
inductive Buf
  /-- `&bufs[0]` -/
  | b0
  /-- `&bufs[1]` -/
  | b1
  /-- `&bufs[2]` -/
  | b2
  deriving DecidableEq, Repr

/-- The thread that constructs and destroys the buffer: its next operation. -/
inductive Main
  | startConsumer
  | startProducer
  /-- `stop.store(true)`, the start of the destructor -/
  | storeStop
  /-- `producer_thread.join()` -/
  | joinProducer
  /-- `stale.clear()` -/
  | clearStale
  /-- `consumer_thread.join()` -/
  | joinConsumer
  | destroyed
  deriving DecidableEq, Repr

/-- The next operation of `producer`. -/
inductive Producer
  | notStarted
  /-- `while (!stop)` -/
  | testStop
  /-- `inprogress.load()` -/
  | loadInprogress
  /-- `produce(p)` -/
  | produce (p : Buf)
  /-- load `inprogress` for the exchange -/
  | loadArg
  /-- `ready.exchange(arg)` -/
  | exchange (arg : Buf)
  /-- assign the result to `inprogress` -/
  | assign (res : Buf)
  /-- `stale.clear()` -/
  | clear
  | ended
  deriving DecidableEq, Repr

/-- The next operation of `consumer`. -/
inductive Consumer
  | notStarted
  /-- `while (!stop)` -/
  | testStop
  /-- `present.load()` -/
  | loadPresent
  /-- `consume(p)` -/
  | consume (p : Buf)
  /-- `while (stale.test_and_set())` -/
  | spin
  /-- load `present` for the exchange -/
  | loadArg
  /-- `ready.exchange(arg)` -/
  | exchange (arg : Buf)
  /-- assign the result to `present` -/
  | assign (res : Buf)
  | ended
  deriving DecidableEq, Repr

/-- The buffers, the shared variables, the threads and the history. -/
structure State (B : Type u) : Type u where
  bufs : Buf → B
  present : Buf
  ready : Buf
  inprogress : Buf
  stop : Bool
  stale : Bool
  main : Main
  producer : Producer
  consumer : Consumer
  /-- history: what `consume` was called with -/
  consumed : List B
  /-- history: the number of the consumer's exchanges -/
  swaps : ℕ

/-- Who moves. -/
inductive Action (B : Type u) : Type u
  | main
  /-- the producer; if it calls `produce`, that writes `val` -/
  | producer (val : B)
  | consumer
  deriving DecidableEq, Repr

/-! ## The threads -/

section Code

variable {B : Type u}

/-- Before the threads are started; `produce(present)` has been called. -/
def init (bufs : Buf → B) : State B where
  bufs := bufs
  present := .b0
  ready := .b1
  inprogress := .b2
  stop := false
  stale := true
  main := .startConsumer
  producer := .notStarted
  consumer := .notStarted
  consumed := []
  swaps := 0

/-- The constructor and the destructor. -/
def mainStep (s : State B) : Option (State B) :=
  match s.main with
  | .startConsumer => some { s with consumer := .testStop, main := .startProducer }
  | .startProducer => some { s with producer := .testStop, main := .storeStop }
  | .storeStop => some { s with stop := true, main := .joinProducer }
  | .joinProducer => if s.producer = .ended then some { s with main := .clearStale } else none
  | .clearStale => some { s with stale := false, main := .joinConsumer }
  | .joinConsumer => if s.consumer = .ended then some { s with main := .destroyed } else none
  | .destroyed => none

/-- `producer`. -/
def producerStep (s : State B) (val : B) : Option (State B) :=
  match s.producer with
  | .notStarted => none
  | .testStop => some { s with producer := if s.stop then .ended else .loadInprogress }
  | .loadInprogress => some { s with producer := .produce s.inprogress }
  | .produce p => some { s with bufs := Function.update s.bufs p val, producer := .loadArg }
  | .loadArg => some { s with producer := .exchange s.inprogress }
  | .exchange arg => some { s with ready := arg, producer := .assign s.ready }
  | .assign res => some { s with inprogress := res, producer := .clear }
  | .clear => some { s with stale := false, producer := .testStop }
  | .ended => none

/-- `consumer`. -/
def consumerStep (s : State B) : Option (State B) :=
  match s.consumer with
  | .notStarted => none
  | .testStop => some { s with consumer := if s.stop then .ended else .loadPresent }
  | .loadPresent => some { s with consumer := .consume s.present }
  | .consume p => some { s with consumed := s.consumed ++ [s.bufs p], consumer := .spin }
  | .spin => some { s with stale := true, consumer := if s.stale then .spin else .loadArg }
  | .loadArg => some { s with consumer := .exchange s.present }
  | .exchange arg =>
    some { s with ready := arg, consumer := .assign s.ready, swaps := s.swaps + 1 }
  | .assign res => some { s with present := res, consumer := .testStop }
  | .ended => none

def step (s : State B) : Action B → Option (State B)
  | .main => mainStep s
  | .producer val => producerStep s val
  | .consumer => consumerStep s

end Code

/-! ## What the threads leave alone -/

variable {B : Type u} {s s' : State B}

/-- The producer moves only while it runs, and changes nothing of the consumer and of the main
thread. -/
theorem producerStep_frame {val : B} (h : producerStep s val = some s') :
    s.producer ≠ .notStarted ∧ s.producer ≠ .ended ∧ s'.main = s.main ∧ s'.stop = s.stop ∧
      s'.consumer = s.consumer := by
  unfold producerStep at h
  cases hp : s.producer <;> rw [hp] at h <;> cases h <;> exact ⟨nofun, nofun, rfl, rfl, rfl⟩

/-- The consumer moves only while it runs, and changes nothing of the other threads. -/
theorem consumerStep_frame (h : consumerStep s = some s') :
    s.consumer ≠ .notStarted ∧ s'.consumer ≠ .notStarted ∧ s'.main = s.main ∧
      s'.stop = s.stop ∧ s'.producer = s.producer := by
  unfold consumerStep at h
  cases hc : s.consumer <;> rw [hc] at h <;> cases h <;>
    refine ⟨nofun, ?_, rfl, rfl, rfl⟩ <;> dsimp only <;> (try split) <;> nofun

/-! ## Before the clear -/

/-- Which threads run and whether `stop` is set, by where the main thread is. -/
def PhaseAt (stop : Bool) (producer : Producer) (consumer : Consumer) : Main → Prop
  | .startConsumer => producer = .notStarted ∧ consumer = .notStarted
  | .startProducer => producer = .notStarted ∧ consumer ≠ .notStarted
  | .storeStop => consumer ≠ .notStarted
  | .joinProducer => consumer ≠ .notStarted ∧ stop = true
  | .clearStale | .joinConsumer | .destroyed =>
    consumer ≠ .notStarted ∧ stop = true ∧ producer = .ended

def Phase (s : State B) : Prop :=
  PhaseAt s.stop s.producer s.consumer s.main

theorem phase_init (bufs : Buf → B) : Phase (init bufs) :=
  ⟨rfl, rfl⟩

theorem phase_mainStep (hs : Phase s) (h : mainStep s = some s') : Phase s' := by
  unfold mainStep at h
  unfold Phase at hs
  cases hm : s.main with
  | startConsumer =>
    rw [hm] at h hs
    obtain rfl := Option.some.inj h
    exact ⟨hs.1, nofun⟩
  | startProducer =>
    rw [hm] at h hs
    obtain rfl := Option.some.inj h
    exact hs.2
  | storeStop =>
    rw [hm] at h hs
    obtain rfl := Option.some.inj h
    exact ⟨hs, rfl⟩
  | joinProducer =>
    rw [hm] at h hs
    obtain ⟨hended, h⟩ := Option.ite_none_right_eq_some.mp h
    obtain rfl := Option.some.inj h
    exact ⟨hs.1, hs.2, hended⟩
  | clearStale =>
    rw [hm] at h hs
    obtain rfl := Option.some.inj h
    exact hs
  | joinConsumer =>
    rw [hm] at h hs
    obtain ⟨-, h⟩ := Option.ite_none_right_eq_some.mp h
    obtain rfl := Option.some.inj h
    exact hs
  | destroyed =>
    rw [hm] at h
    cases h

theorem phase_step {action : Action B} (hs : Phase s) (h : step s action = some s') : Phase s' := by
  cases action with
  | main => exact phase_mainStep hs h
  | producer val =>
    obtain ⟨hstarted, hended, hmain, hstop, hconsumer⟩ := producerStep_frame h
    unfold Phase at hs ⊢
    rw [hmain, hstop, hconsumer]
    -- where the producer matters, it does not run
    cases hm : s.main <;> rw [hm] at hs
    · exact absurd hs.1 hstarted
    · exact absurd hs.1 hstarted
    · exact hs
    · exact hs
    all_goals exact absurd hs.2.2 hended
  | consumer =>
    obtain ⟨hstarted, hstarted', hmain, hstop, hproducer⟩ := consumerStep_frame h
    unfold Phase at hs ⊢
    rw [hmain, hstop, hproducer]
    cases hm : s.main <;> rw [hm] at hs
    · exact absurd hs.2 hstarted
    · exact ⟨hs.1, hstarted'⟩
    · exact hstarted'
    all_goals exact ⟨hstarted', hs.2⟩

/-! ## After the clear -/

/-- The consumer still has to pass the spin loop. -/
def Consumer.toSpin : Consumer → Bool
  | .loadPresent | .consume _ | .spin => true
  | .notStarted | .testStop | .loadArg | .exchange _ | .assign _ | .ended => false

/-- How many exchanges the consumer still makes, once `stop` is set. -/
def Consumer.swapsLeft : Consumer → ℕ
  | .loadPresent | .consume _ | .spin | .loadArg | .exchange _ => 1
  | .notStarted | .testStop | .assign _ | .ended => 0

/-- How often the consumer still calls `consume`, once `stop` is set. -/
def Consumer.consumesLeft : Consumer → ℕ
  | .loadPresent | .consume _ => 1
  | .notStarted | .testStop | .spin | .loadArg | .exchange _ | .assign _ | .ended => 0

/-- How many steps the consumer still makes, once `stop` is set and `stale` is clear. -/
def Consumer.stepsLeft : Consumer → ℕ
  | .loadPresent => 7
  | .consume _ => 6
  | .spin => 5
  | .loadArg => 4
  | .exchange _ => 3
  | .assign _ => 2
  | .testStop => 1
  | .notStarted | .ended => 0

/-- The consumer is alone and will not wait. -/
structure Ending (s : State B) : Prop where
  main : s.main = .joinConsumer ∨ s.main = .destroyed
  stop : s.stop = true
  producer : s.producer = .ended
  consumer : s.consumer ≠ .notStarted
  stale : s.consumer.toSpin = true → s.stale = false

/-- The destructor clears `stale`. -/
theorem ending_clearStale (hs : Phase s) (hmain : s.main = .clearStale)
    (h : step s .main = some s') :
    Ending s' ∧ s'.consumer = s.consumer ∧ s'.swaps = s.swaps ∧ s'.consumed = s.consumed := by
  unfold Phase at hs
  rw [hmain] at hs
  simp only [step, mainStep, hmain] at h
  obtain rfl := Option.some.inj h
  exact ⟨⟨.inl rfl, hs.2.1, hs.2.2, hs.1, fun _ => rfl⟩, rfl, rfl, rfl⟩

/-- **A step of the consumer** brings it closer to its end. -/
theorem ending_consumerStep (hs : Ending s) (h : consumerStep s = some s') :
    Ending s' ∧ s'.swaps + s'.consumer.swapsLeft = s.swaps + s.consumer.swapsLeft ∧
      s'.consumed.length + s'.consumer.consumesLeft =
        s.consumed.length + s.consumer.consumesLeft ∧
      s'.consumer.stepsLeft + 1 = s.consumer.stepsLeft := by
  obtain ⟨-, hstarted, hmain, hstop, hproducer⟩ := consumerStep_frame h
  have hend : (s'.consumer.toSpin = true → s'.stale = false) → Ending s' := fun hstale =>
    ⟨hmain ▸ hs.main, hstop.trans hs.stop, hproducer.trans hs.producer, hstarted, hstale⟩
  have hstale := hs.stale
  unfold consumerStep at h
  cases hc : s.consumer with
  | notStarted => exact absurd hc hs.consumer
  | testStop =>
    rw [hc] at h
    obtain rfl := Option.some.inj h
    rw [hs.stop] at hend ⊢
    exact ⟨hend nofun, rfl, rfl, rfl⟩
  | loadPresent =>
    rw [hc] at h hstale
    obtain rfl := Option.some.inj h
    exact ⟨hend fun _ => hstale rfl, rfl, rfl, rfl⟩
  | consume p =>
    rw [hc] at h hstale
    obtain rfl := Option.some.inj h
    exact ⟨hend fun _ => hstale rfl, rfl, by simp [Consumer.consumesLeft], rfl⟩
  | spin =>
    rw [hc] at h hstale
    obtain rfl := Option.some.inj h
    rw [hstale rfl] at hend ⊢
    exact ⟨hend nofun, rfl, rfl, rfl⟩
  | loadArg | exchange arg | assign res =>
    rw [hc] at h
    obtain rfl := Option.some.inj h
    exact ⟨hend nofun, rfl, rfl, rfl⟩
  | ended =>
    rw [hc] at h
    cases h

/-- The other threads have nothing more to do with it. -/
theorem ending_otherStep (hs : Ending s) {action : Action B} (haction : action ≠ .consumer)
    (h : step s action = some s') :
    Ending s' ∧ s'.consumer = s.consumer ∧ s'.swaps = s.swaps ∧ s'.consumed = s.consumed := by
  cases action with
  | main =>
    rcases hs.main with hm | hm
    · simp only [step, mainStep, hm] at h
      obtain ⟨-, h⟩ := Option.ite_none_right_eq_some.mp h
      obtain rfl := Option.some.inj h
      exact ⟨{ hs with main := .inr rfl }, rfl, rfl, rfl⟩
    · simp only [step, mainStep, hm] at h
      cases h
  | producer val =>
    simp only [step, producerStep, hs.producer] at h
    cases h
  | consumer => exact absurd rfl haction

/-- A consumer that has not ended can move. -/
theorem consumerStep_enabled (hs : Ending s) (hended : s.consumer ≠ .ended) :
    ∃ s', step s .consumer = some s' := by
  simp only [step, consumerStep]
  cases hc : s.consumer with
  | notStarted => exact absurd hc hs.consumer
  | ended => exact absurd hc hended
  | _ => exact ⟨_, rfl⟩

def Action.isConsumer : Action B → Bool
  | .consumer => true
  | .main | .producer _ => false

/-- How far the consumer has come in `past`, the steps since the destructor cleared `stale` in
`s₀`. -/
structure Progress (s₀ : State B) (past : List (Action B)) (s : State B) : Prop where
  ending : Ending s
  swaps : s.swaps + s.consumer.swapsLeft ≤ s₀.swaps + 1
  consumed : s.consumed.length + s.consumer.consumesLeft ≤ s₀.consumed.length + 1
  steps : past.countP Action.isConsumer + s.consumer.stepsLeft ≤ 7

theorem progress_clearStale (hs : Phase s) (hmain : s.main = .clearStale)
    (h : step s .main = some s') : Progress s [] s' := by
  obtain ⟨hend, hconsumer, hswaps, hconsumed⟩ := ending_clearStale hs hmain h
  refine ⟨hend, ?_, ?_, ?_⟩
  · rw [hconsumer, hswaps]
    cases s.consumer <;> simp [Consumer.swapsLeft]
  · rw [hconsumer, hconsumed]
    cases s.consumer <;> simp [Consumer.consumesLeft]
  · rw [hconsumer]
    cases s.consumer <;> simp [Consumer.stepsLeft]

theorem progress_step {s₀ : State B} {past : List (Action B)} {action : Action B}
    (hs : Progress s₀ past s) (h : step s action = some s') :
    Progress s₀ (past ++ [action]) s' := by
  obtain ⟨hend, hswaps, hconsumed, hsteps⟩ := hs
  by_cases haction : action = .consumer
  · subst haction
    obtain ⟨hend', hswaps', hconsumed', hsteps'⟩ := ending_consumerStep hend h
    refine ⟨hend', hswaps' ▸ hswaps, hconsumed' ▸ hconsumed, ?_⟩
    have hcount : (past ++ [Action.consumer]).countP Action.isConsumer =
        past.countP Action.isConsumer + 1 := by
      simp [Action.isConsumer]
    omega
  · obtain ⟨hend', hconsumer', hswaps', hconsumed'⟩ := ending_otherStep hend haction h
    have hcount : (past ++ [action]).countP Action.isConsumer = past.countP Action.isConsumer := by
      cases action with
      | consumer => exact absurd rfl haction
      | _ => simp [Action.isConsumer]
    refine ⟨hend', ?_, ?_, ?_⟩
    · rw [hconsumer', hswaps']
      exact hswaps
    · rw [hconsumer', hconsumed']
      exact hconsumed
    · rw [hconsumer', hcount]
      exact hsteps

/-- **The consumer finishes.** After the destructor's `stale.clear()`, the consumer does not find
`stale` set in its spin loop, swaps at most once more and calls `consume` at most once more; it
makes at most seven steps, and until it has ended it can make one. -/
theorem consumer_finishes {bufs : Buf → B} {past as : List (Action B)}
    (hbefore : Machine.run step (init bufs) past = some s) (hmain : s.main = .clearStale)
    (hafter : Machine.run step s (.main :: as) = some s') :
    (s'.consumer = .spin → s'.stale = false) ∧ s'.swaps ≤ s.swaps + 1 ∧
      s'.consumed.length ≤ s.consumed.length + 1 ∧ as.countP Action.isConsumer ≤ 7 ∧
      (s'.consumer = .ended ∨ ∃ s'', step s' .consumer = some s'') := by
  have hphase : Phase s := Machine.run_invariant phase_step (phase_init bufs) hbefore
  obtain ⟨s₁, hclear, hrun⟩ := Machine.run_cons_eq_some hafter
  have hprog : Progress s ([] ++ as) s' := by
    refine Machine.run_invariant_past ?_ (progress_clearStale hphase hmain hclear) hrun
    intro past t action t' ht hstep
    exact progress_step ht hstep
  obtain ⟨hend, hswaps, hconsumed, hsteps⟩ := hprog
  rw [List.nil_append] at hsteps
  refine ⟨fun hspin => hend.stale ?_, by omega, by omega, by omega, ?_⟩
  · rw [hspin]
    rfl
  · by_cases hended : s'.consumer = .ended
    · exact .inl hended
    · exact .inr (consumerStep_enabled hend hended)

/-- The destructor is about to clear `stale`, but the consumer has tested `stop` before it was
set. -/
def lateConsumer : State ℕ :=
  { init (fun _ => 0) with
    stop := true, main := .clearStale, producer := .ended, consumer := .loadPresent }

/-- The consumer consumes once more, takes the last clear of `stale`, swaps once more and ends; then
the destructor returns. -/
theorem consumer_finishes_late :
    Machine.run step (init fun _ => 0) [.main, .main, .consumer, .main, .producer 0, .main] =
        some lateConsumer ∧
      Machine.run step lateConsumer (.main :: (List.replicate 7 .consumer ++ [.main])) =
        some { lateConsumer with
          present := .b1, ready := .b0, stale := true, main := .destroyed, consumer := .ended,
          consumed := [0], swaps := 1 } ∧
      1 ≤ lateConsumer.swaps + 1 ∧ [0].length ≤ lateConsumer.consumed.length + 1 := by
  have hbefore : Machine.run step (init fun _ => 0)
      [.main, .main, .consumer, .main, .producer 0, .main] = some lateConsumer := rfl
  have hafter : Machine.run step lateConsumer (.main :: (List.replicate 7 .consumer ++ [.main])) =
      some { lateConsumer with
        present := .b1, ready := .b0, stale := true, main := .destroyed, consumer := .ended,
        consumed := [0], swaps := 1 } := rfl
  obtain ⟨-, hswaps, hconsumed, -⟩ := consumer_finishes hbefore rfl hafter
  exact ⟨hbefore, hafter, hswaps, hconsumed⟩

end TripleBufferThreads

end CppPlayground
