import CppPlayground.RealtimeExecutor

/-!
# Shutting the executor down

`stop` and the destructor clear `keep_running_`, but nothing wakes a worker that waits
in `waitAndPop`; only a `push` does. So the worker is *stranded* if it waits on an empty
queue, the flag is clear and nobody is going to call `execute` any more, and a
destructor that polls `is_running_` then polls for ever (`destructor_hangs`).

This is the only way it can go wrong. The worker gets into `waitAndPop` only while the
flag is set, so what matters is the moment the flag is cleared: if at that moment the
worker is not waiting without prospect (`Hopeless`), it is never stranded, and the
destructor can always run to its end (`worker_released`). The latter is shown by a
measure, the number of steps the worker still has to take plus the number of `execute`
calls to come.
-/

namespace CppPlayground

namespace RealtimeExecutor

universe u

variable {D : Type u}

/-! ## Being stranded -/

/-- No `execute` call is pending or to come. -/
def NoCalls (s : State D) : Prop := ∀ c ∈ s.callers, c = []

/-- The worker is inside `waitAndPop`. -/
def WorkerPc.waiting : WorkerPc D → Bool
  | waitAndPop | blocked => true
  | _ => false

/-- The worker waits for a value, there is none and there will be none. -/
def Hopeless (s : State D) : Prop :=
  s.worker.waiting = true ∧ s.queue = [] ∧ NoCalls s

/-- The worker is blocked on an empty queue although it should stop, and no call to
`execute` is left that could wake it. -/
def Stranded (s : State D) : Prop :=
  s.keepRunning = false ∧ NoCalls s ∧ s.worker = .blocked ∧ s.queue = []

/-- The action clears `keep_running_`: a `stop`, or the first step of the destructor. -/
def clears (s : State D) : Action → Bool
  | .stop => true
  | .owner => s.owner = .live
  | _ => false

/-- `keep_running_` is not cleared while the worker waits without prospect. -/
def ClearedInTime (s : State D) (a : Action) : Prop := clears s a = true → ¬ Hopeless s

instance decidableNoCalls [DecidableEq D] (s : State D) : Decidable (NoCalls s) :=
  inferInstanceAs (Decidable (∀ c ∈ s.callers, c = []))

instance decidableHopeless [DecidableEq D] (s : State D) : Decidable (Hopeless s) :=
  inferInstanceAs (Decidable (_ ∧ _ ∧ _))

instance decidableStranded [DecidableEq D] (s : State D) : Decidable (Stranded s) :=
  inferInstanceAs (Decidable (_ ∧ _ ∧ _ ∧ _))

instance decidableClearedInTime [DecidableEq D] (s : State D) (a : Action) :
    Decidable (ClearedInTime s a) :=
  inferInstanceAs (Decidable (_ → _))

theorem Stranded.hopeless {s : State D} (h : Stranded s) : Hopeless s := by
  obtain ⟨-, hcalls, hw, hq⟩ := h
  exact ⟨by rw [hw]; rfl, hq, hcalls⟩

variable {p : QueuePolicy} {s s' : State D} {a : Action}

/-! ## A timely shutdown -/

/-- Once the flag is clear, the worker does not wait without prospect. Before the thread
starts the flag may hold anything, and the worker does not wait. -/
def Released (s : State D) : Prop := s.keepRunning = false → ¬ Hopeless s

theorem released_init (keepRunning isRunning : Bool) (callers : List (List D)) :
    Released (init keepRunning isRunning callers) :=
  fun _ h => absurd h.1 nofun

theorem not_hopeless_execute (s : State D) (data : D) : ¬ Hopeless (execute p s data) := by
  rintro ⟨-, hq, -⟩
  exact Queue.push_ne_nil _ _ _ hq

/-- Only clearing the flag can leave the worker without prospect: the loop enters
`waitAndPop` with the flag set, and a `push` gives the worker something to pop. -/
theorem released_step (hs : Released s) (hok : ClearedInTime s a) (h : step p s a = some s') :
    Released s' := by
  intro hk
  cases step_trans h with
  | setKeepRunning ho => cases hk
  | destroy ho => exact hok (decide_eq_true ho)
  | stop ho => exact hok rfl
  | execute ho hi => exact not_hopeless_execute _ _
  | loop hw hk' => exact absurd (hk.symm.trans hk') nofun
  | block hw hq =>
    rintro ⟨-, hempty, hcalls⟩
    exact hs hk ⟨by rw [hw]; rfl, hempty, hcalls⟩
  | spurious hw =>
    rintro ⟨-, hempty, hcalls⟩
    exact hs hk ⟨by rw [hw]; rfl, hempty, hcalls⟩
  | pollAgain | pollDone | join => exact hs hk
  | _ => exact fun hopeless => absurd hopeless.1 nofun

/-! ## The destructor comes to its end -/

/-- How many steps the worker has to take to its end once the flag is clear. -/
def WorkerPc.rank : WorkerPc D → ℕ
  | unborn => 0
  | blocked => 7
  | waitAndPop => 6
  | call _ => 5
  | running => 4
  | enter => 4
  | test => 3
  | leave => 2
  | done => 1

/-- How many steps the destructor has to take to its end once the worker is done. -/
def OwnerPc.rank : OwnerPc → ℕ
  | poll => 2
  | join => 1
  | _ => 0

/-- All that has to happen before the destructor returns. -/
def rank (s : State D) : ℕ :=
  s.worker.rank + s.callers.flatten.length + s.owner.rank

theorem flatten_set_length {α : Type u} {l : List (List α)} {i : ℕ} {x : α} {xs : List α}
    (h : l[i]? = some (x :: xs)) : (l.set i xs).flatten.length < l.flatten.length := by
  induction l generalizing i with
  | nil => cases h
  | cons y ys ih =>
    cases i with
    | zero =>
      obtain rfl : y = x :: xs := Option.some.inj h
      simp
    | succ i =>
      have hlt := ih (i := i) h
      simp only [List.set_cons_succ, List.flatten_cons, List.length_append]
      omega

theorem exists_call_of_not_noCalls (h : ¬ NoCalls s) :
    ∃ (i : ℕ) (data : D) (rest : List D), s.callers[i]? = some (data :: rest) := by
  simp only [NoCalls, not_forall] at h
  obtain ⟨c, hmem, hne⟩ := h
  obtain ⟨i, hi⟩ := List.getElem?_of_mem hmem
  obtain ⟨data, rest, rfl⟩ := List.exists_cons_of_ne_nil hne
  exact ⟨i, data, rest, hi⟩

theorem rank_notified_le (w : WorkerPc D) : w.notified.rank ≤ w.rank := by
  cases w <;> simp [WorkerPc.notified, WorkerPc.rank]

theorem alive_of_destroying {o : OwnerPc} (hd : o.destroying = true) (hgone : o ≠ .gone) :
    o.alive = true := by
  cases o <;> first | rfl | exact absurd rfl hgone | cases hd

/-- The states of a destructor at work. -/
structure Finishing (s : State D) : Prop where
  lifecycle : Lifecycle s
  released : Released s
  destroying : s.owner.destroying = true

theorem destroying_step (hd : s.owner.destroying = true) (h : step p s a = some s') :
    s'.owner.destroying = true := by
  cases step_trans h with
  | setKeepRunning ho | startThread ho => rw [ho] at hd; cases hd
  | destroy | pollDone | join => rfl
  | _ => exact hd

theorem finishing_step (hs : Finishing s) (h : step p s a = some s') : Finishing s' := by
  obtain ⟨hl, hr, hd⟩ := hs
  refine ⟨lifecycle_step hl h, released_step hr ?_ h, destroying_step hd h⟩
  exact fun _ => hr (hl.cleared hd)

/-- A step that brings the destructor closer to its end. -/
def Advances (p : QueuePolicy) (s : State D) : Prop :=
  ∃ a s', step p s a = some s' ∧ rank s' < rank s

/-- If the worker waits on an empty queue, some caller has a call left. -/
theorem advances_execute (hs : Finishing s) (hgone : s.owner ≠ .gone)
    (hw : s.worker.waiting = true) (hq : s.queue = []) : Advances p s := by
  obtain ⟨hl, hr, hd⟩ := hs
  have hcalls : ¬ NoCalls s := fun hc => hr (hl.cleared hd) ⟨hw, hq, hc⟩
  obtain ⟨i, data, rest, hi⟩ := exists_call_of_not_noCalls hcalls
  have halive := alive_of_destroying hd hgone
  refine ⟨.execute i, _, step_iff_trans.mpr (.execute halive hi), ?_⟩
  have hlt := flatten_set_length hi
  have hle := rank_notified_le s.worker
  simp only [rank, execute]
  omega

/-- A worker that has ended lets the poll and then the join succeed. -/
theorem advances_owner (hs : Finishing s) (hw : s.worker = .done) (hgone : s.owner ≠ .gone) :
    Advances p s := by
  obtain ⟨hl, -, hd⟩ := hs
  cases ho : s.owner with
  | setKeepRunning | startThread | live => rw [ho] at hd; cases hd
  | poll =>
    refine ⟨.owner, _, step_iff_trans.mpr (.pollDone ho (hl.done hw)), ?_⟩
    simp [rank, OwnerPc.rank, ho]
  | join =>
    refine ⟨.owner, _, step_iff_trans.mpr (.join ho hw), ?_⟩
    simp [rank, OwnerPc.rank, ho]
  | gone => exact absurd ho hgone

/-- **Progress.** While the destructor is at work some step brings it closer to its end:
the worker's, or, if the worker waits on an empty queue, a caller's, or its own. -/
theorem advances (hs : Finishing s) (hgone : s.owner ≠ .gone) : Advances p s := by
  have ⟨hl, _, hd⟩ := hs
  have hworker : ∀ {s'}, Trans p s .worker s' → rank s' < rank s → Advances p s :=
    fun ht hlt => ⟨.worker, _, step_iff_trans.mpr ht, hlt⟩
  cases hw : s.worker with
  | unborn => rcases hl.unborn.mp hw with ho | ho <;> rw [ho] at hd <;> cases hd
  | enter => exact hworker (.enter hw) (by simp [rank, WorkerPc.rank, hw])
  | test => exact hworker (.exit hw (hl.cleared hd)) (by simp [rank, WorkerPc.rank, hw])
  | waitAndPop =>
    cases hq : s.queue with
    | nil => exact advances_execute hs hgone (by rw [hw]; rfl) hq
    | cons res queue => exact hworker (.pop hw hq) (by simp [rank, WorkerPc.rank, hw])
  | blocked => exact advances_execute hs hgone (by rw [hw]; rfl) (hl.blocked hw)
  | call data => exact hworker (.call hw) (by simp [rank, WorkerPc.rank, hw])
  | running => exact hworker (.ret hw) (by simp [rank, WorkerPc.rank, hw])
  | leave => exact hworker (.leave hw) (by simp [rank, WorkerPc.rank, hw])
  | done => exact advances_owner hs hw hgone

theorem finishing_canReach (hs : Finishing s) :
    Machine.CanReach (step p) (fun t => t.owner = .gone) s := by
  refine Machine.canReach_of_measure (I := Finishing) rank ?_ hs
  intro t ht hgone
  obtain ⟨a, t', hstep, hlt⟩ := advances ht hgone
  exact ⟨a, t', hstep, finishing_step ht hstep, hlt⟩

/-- **A timely shutdown strands nobody.** In every run that clears `keep_running_` only
when the worker does not wait without prospect, the worker is never stranded, and once
the destructor has begun it can run to its end. -/
theorem worker_released (p : QueuePolicy) (keepRunning isRunning : Bool)
    (callers : List (List D)) {as : List Action} {s : State D}
    (hok : Machine.Along (step p) ClearedInTime (init keepRunning isRunning callers) as)
    (hrun : Machine.run (step p) (init keepRunning isRunning callers) as = some s) :
    ¬ Stranded s ∧
    (s.owner.destroying = true → Machine.CanReach (step p) (fun t => t.owner = .gone) s) := by
  have hrel : Released s := by
    refine Machine.run_invariant_along (I := Released) ?_ (released_init _ _ callers) hok hrun
    intro t a t' ht hta hstep
    exact released_step ht hta hstep
  refine ⟨fun hstr => hrel hstr.1 hstr.hopeless, fun hd => ?_⟩
  exact finishing_canReach ⟨lifecycle_run hrun, hrel, hd⟩

/-- A `stop` while the worker is inside `f`, then the destructor. -/
def stopDuringCall : List Action :=
  [.owner, .owner, .execute 0, .worker, .worker, .worker, .worker, .stop, .worker, .owner]

theorem worker_released_stopDuringCall :
    Machine.Along (step .withoutQueue) ClearedInTime (init false false [[7]]) stopDuringCall ∧
    ∃ s : State ℕ,
      Machine.run (step .withoutQueue) (init false false [[7]]) stopDuringCall = some s ∧
      s.owner.destroying = true ∧
      Machine.CanReach (step .withoutQueue) (fun t => t.owner = .gone) s := by
  have hok : Machine.Along (step .withoutQueue) ClearedInTime
      (init false false [[7]]) stopDuringCall := by decide
  refine ⟨hok, _, rfl, rfl, ?_⟩
  exact (worker_released .withoutQueue false false [[7]] hok rfl).2 rfl

/-! ## A shutdown that hangs -/

/-- **The condition is the weakest one**: clearing the flag too late can strand the
worker, at once or with its next step. -/
theorem late_clear_strands (hlate : ¬ ClearedInTime s a) (h : step p s a = some s') :
    Machine.CanReach (step p) Stranded s' := by
  obtain ⟨hclears, hopeless⟩ := Classical.not_imp.mp hlate
  obtain ⟨hw, hq, hcalls⟩ := Classical.not_not.mp hopeless
  -- clearing the flag changes nothing else that matters
  have hs' : s'.keepRunning = false ∧ s'.worker = s.worker ∧ s'.queue = s.queue ∧
      s'.callers = s.callers := by
    cases step_trans h with
    | setKeepRunning ho | startThread ho | pollAgain ho | pollDone ho | join ho =>
      simp [clears, ho] at hclears
    | destroy | stop => exact ⟨rfl, rfl, rfl, rfl⟩
    | _ => cases hclears
  obtain ⟨hk, hworker, hqueue, hcallers⟩ := hs'
  have hcalls' : NoCalls s' := by rw [NoCalls, hcallers]; exact hcalls
  rw [← hworker] at hw
  rw [← hqueue] at hq
  cases hw' : s'.worker with
  | blocked => exact .here ⟨hk, hcalls', hw', hq⟩
  | waitAndPop =>
    exact .next (step_iff_trans.mpr (.block hw' hq)) (.here ⟨hk, hcalls', rfl, hq⟩)
  | _ => rw [hw'] at hw; cases hw

/-- The worker waits without prospect while the owner has at most got to its poll. -/
structure Hanging (s : State D) : Prop where
  hopeless : Hopeless s
  running : s.isRunning = true
  owner : s.owner = .live ∨ s.owner = .poll

/-- Nothing that can happen gets the system out of this. -/
theorem hanging_step (hs : Hanging s) (h : step p s a = some s') : Hanging s' := by
  obtain ⟨⟨hw, hq, hcalls⟩, hr, ho⟩ := hs
  cases step_trans h with
  | setKeepRunning ho' | startThread ho' | join ho' => rw [ho'] at ho; simp at ho
  | destroy => exact ⟨⟨hw, hq, hcalls⟩, hr, .inr rfl⟩
  | pollAgain => exact ⟨⟨hw, hq, hcalls⟩, hr, ho⟩
  | pollDone ho' hr' => rw [hr] at hr'; cases hr'
  | execute ho' hi => exact absurd (hcalls _ (List.mem_of_getElem? hi)) nofun
  | stop => exact ⟨⟨hw, hq, hcalls⟩, hr, ho⟩
  | block => exact ⟨⟨rfl, hq, hcalls⟩, hr, ho⟩
  | pop hw' hq' => rw [hq] at hq'; cases hq'
  | spurious => exact ⟨⟨rfl, hq, hcalls⟩, hr, ho⟩
  | enter hw' | loop hw' | exit hw' | call hw' | ret hw' | leave hw' =>
    rw [hw'] at hw
    cases hw

/-- **The destructor hangs** in every continuation. -/
theorem destructor_hangs (hs : Hanging s) {as : List Action}
    (hrun : Machine.run (step p) s as = some s') : s'.owner ≠ .gone := by
  obtain ⟨-, -, ho⟩ : Hanging s' := Machine.run_invariant hanging_step hs hrun
  rcases ho with ho | ho <;> rw [ho] <;> nofun

/-- Construct; a caller executes `7`; the worker starts, pops it, calls `f` and waits for
more; the owner destroys the executor. -/
def destroyIdle : List Action :=
  [.owner, .owner, .execute 0, .worker, .worker, .worker, .worker, .worker, .worker, .worker,
    .owner]

/-- **A stranded worker.** After `destroyIdle` the worker is stranded, and the destructor
never returns whatever happens then. -/
theorem destroyIdle_strands :
    ∃ s : State ℕ,
      Machine.run (step .withoutQueue) (init false false [[7]]) destroyIdle = some s ∧
      Stranded s ∧
      ∀ as s', Machine.run (step .withoutQueue) s as = some s' → s'.owner ≠ .gone := by
  refine ⟨_, rfl, by decide, fun as s' hrun => destructor_hangs ?_ hrun⟩
  exact ⟨by decide, rfl, .inr rfl⟩

end RealtimeExecutor

end CppPlayground
