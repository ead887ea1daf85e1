import CppPlayground.TripleBufferOwnership

/-!
# The triple buffer used as a variable

Stores (`operator=`, `store`) and reads (`operator T`, `instant_load`) of a `TripleBuffer`, one
after the other: every call runs to its end before the next one begins.

`instant_load` reads the buffer before it swaps in the new one. What a read returns is therefore
not the latest value, but the one that was the latest at the read before it, or the initial one
(`Memory`): the first read after a store returns an old value, unless it happens to be the same
(`read_latest_iff`).
-/

namespace CppPlayground

namespace TripleBuffer

universe u

variable {T : Type u}

/-! ## Calls -/

/-- A call. -/
inductive Op (T : Type u) : Type u where
  /-- `store(val)` -/
  | store (val : T) : Op T
  /-- `instant_load()` -/
  | read : Op T
  deriving DecidableEq, Repr

/-- The steps of a call: a read has three more of them if the flag is clear. -/
def callSteps (s : State T) : Op T → List (Action T)
  | .store val => .store val :: List.replicate 6 .producer
  | .read => .instantLoad :: List.replicate (if s.stale then 3 else 6) .consumer

/-- A whole call. -/
def call (s : State T) (op : Op T) : Option (State T) := Machine.run step s (callSteps s op)

/-- What a variable that is read late has to remember. -/
structure Memory (T : Type u) : Type u where
  /-- the value that was the latest at the last read -/
  seen : T
  /-- the value of the last store -/
  latest : T
  deriving DecidableEq, Repr

/-- A call is remembered. -/
def Memory.after (m : Memory T) : Op T → Memory T
  | .store val => ⟨m.seen, val⟩
  | .read => ⟨m.latest, m.latest⟩

/-- What is remembered of some calls. -/
def memory (val : T) (ops : List (Op T)) : Memory T := ops.foldl Memory.after ⟨val, val⟩

/-! ## Between two calls -/

/-- **Between two calls** the present buffer holds what was the latest value at the last read, and
the ready buffer holds the latest one, unless the flag says that there is nothing new. -/
structure Between (m : Memory T) (s : State T) : Prop where
  producer : s.producer = .idle
  consumer : s.consumer = .idle
  owned : Owned s
  present : (s.bufs s.present).val = m.seen
  ready : s.stale = false → (s.bufs s.ready).val = m.latest
  stale : s.stale = true → m.seen = m.latest

variable {m : Memory T} {s : State T}

theorem between_init (val : T) : Between ⟨val, val⟩ (init val) where
  producer := rfl
  consumer := rfl
  owned := owned_init val
  present := rfl
  ready := fun _ => rfl
  stale := fun _ => rfl

/-- `store` between two calls. -/
theorem call_store (hp : s.producer = .idle) (val : T) :
    call s (.store val) = some { s with
      bufs := Function.update s.bufs s.inprogress ⟨val, s.stored.length + 1⟩
      ready := s.inprogress
      inprogress := s.ready
      stale := false
      stored := s.stored ++ [val] } := by
  simp [call, callSteps, Machine.run, List.replicate, step, storeStep, hp]

/-- `instant_load` when there is nothing new. -/
theorem call_read_stale (hc : s.consumer = .idle) (hst : s.stale = true) :
    call s .read = some { s with loads := s.loads ++ [s.bufs s.present] } := by
  simp [call, callSteps, Machine.run, List.replicate, step, loadStep, ret, hc, hst]

/-- `instant_load` when there is something new: it is swapped in after the read. -/
theorem call_read_fresh (hc : s.consumer = .idle) (hst : s.stale = false) :
    call s .read = some { s with
      present := s.ready
      ready := s.present
      stale := true
      loads := s.loads ++ [s.bufs s.present] } := by
  simp [call, callSteps, Machine.run, List.replicate, step, loadStep, ret, hc, hst]

theorem Between.present_ne_inprogress (h : Between m s) : s.present ≠ s.inprogress := by
  have hproducer : s.producerBuf = s.inprogress := by rw [State.producerBuf, h.producer]
  have hconsumer : s.consumerBuf = s.present := by rw [State.consumerBuf, h.consumer]
  rw [← hproducer, ← hconsumer]
  exact h.owned.producer_ne_consumer.symm

theorem Between.store (h : Between m s) (val : T) :
    ∃ s', call s (.store val) = some s' ∧ Between (m.after (.store val)) s' := by
  have hcall := call_store h.producer val
  have hpresent := h.present_ne_inprogress
  refine ⟨_, hcall, h.producer, h.consumer, owned_run h.owned hcall, ?_, ?_, ?_⟩
  · have hkept : Function.update s.bufs s.inprogress ⟨val, s.stored.length + 1⟩ s.present =
        s.bufs s.present := Function.update_of_ne hpresent ..
    exact (congrArg Stamped.val hkept).trans h.present
  · intro _
    have hwritten : Function.update s.bufs s.inprogress ⟨val, s.stored.length + 1⟩ s.inprogress =
        ⟨val, s.stored.length + 1⟩ := Function.update_self ..
    exact congrArg Stamped.val hwritten
  · intro hst
    cases hst

/-- **A read returns what was the latest value at the last read.** -/
theorem Between.read (h : Between m s) :
    ∃ s' val, call s .read = some s' ∧ s'.loads = s.loads ++ [val] ∧ val.val = m.seen ∧
      Between (m.after .read) s' := by
  cases hst : s.stale with
  | true =>
    have hcall := call_read_stale h.consumer hst
    refine ⟨_, s.bufs s.present, hcall, rfl, h.present, h.producer, h.consumer,
      owned_run h.owned hcall, h.present.trans (h.stale hst), ?_, fun _ => rfl⟩
    intro hst'
    rw [hst] at hst'
    cases hst'
  | false =>
    have hcall := call_read_fresh h.consumer hst
    refine ⟨_, s.bufs s.present, hcall, rfl, h.present, h.producer, h.consumer,
      owned_run h.owned hcall, h.ready hst, ?_, fun _ => rfl⟩
    intro hst'
    cases hst'

/-! ## Sequences of calls -/

theorem Between.call (h : Between m s) (op : Op T) :
    ∃ s', call s op = some s' ∧ Between (m.after op) s' := by
  cases op with
  | store val => exact h.store val
  | read =>
    obtain ⟨s', -, hcall, -, -, h'⟩ := h.read
    exact ⟨s', hcall, h'⟩

/-- All calls return. -/
theorem Between.run (ops : List (Op T)) : ∀ {m : Memory T} {s : State T}, Between m s →
    ∃ s', Machine.run TripleBuffer.call s ops = some s' ∧ Between (ops.foldl Memory.after m) s' := by
  induction ops with
  | nil =>
    intro m s h
    exact ⟨s, rfl, h⟩
  | cons op ops ih =>
    intro m s h
    obtain ⟨s₁, hcall, h₁⟩ := h.call op
    obtain ⟨s', hrun, h'⟩ := ih h₁
    exact ⟨s', (Machine.run_cons_some hcall).trans hrun, h'⟩

/-- **A read returns the latest value** exactly if that is the value that was the latest at the
read before, or the initial value if there was none. -/
theorem read_latest_iff (val : T) (ops : List (Op T)) :
    ∃ s s' result, Machine.run call (init val) ops = some s ∧ call s .read = some s' ∧
      s'.loads = s.loads ++ [result] ∧
      (result.val = (memory val ops).latest ↔
        (memory val ops).seen = (memory val ops).latest) := by
  obtain ⟨s, hrun, h⟩ := Between.run ops (between_init val)
  obtain ⟨s', result, hcall, hloads, hresult, -⟩ := h.read
  refine ⟨s, s', result, hrun, hcall, hloads, ?_⟩
  rw [hresult]
  rfl

/-- After `store(7)` the first read returns the initial value. -/
theorem read_late : ∃ s s' result, Machine.run call (init 0) [.store 7] = some s ∧
    call s .read = some s' ∧ s'.loads = s.loads ++ [result] ∧
    result.val ≠ (memory 0 [.store 7]).latest :=
  ⟨_, _, ⟨0, 0⟩, rfl, rfl, rfl, by decide⟩

end TripleBuffer

end CppPlayground
