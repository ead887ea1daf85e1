import CppPlayground.RealtimeExecutor

/-!
# What the executor calls `f` with

Seen from its queue, the executor is just a client of `Queue`: an `execute` is a `push`,
the worker's pop is a `waitAndPop`, and every other step leaves the queue alone
(`queue_step`). The values popped so far are the arguments of `f` so far and the value
the worker has in hand. So what is known of the queue and its history carries over.

What is left is the worker's loop. It tests `keep_running_` before it pops, hence once
the flag is clear at most one more call is under way (`called_le_of_stopped`).
-/

namespace CppPlayground

namespace RealtimeExecutor

universe u

variable {D : Type u} {p : QueuePolicy} {s s' : State D} {a : Action}

/-! ## The executor as a client of the queue -/

/-- The popped value `f` has not been called with yet. -/
def WorkerPc.hand : WorkerPc D → List D
  | call data => [data]
  | _ => []

@[simp] theorem hand_notified (w : WorkerPc D) : w.notified.hand = w.hand := by
  cases w <;> rfl

/-- The queue of the executor and its history. -/
def queueOf (s : State D) : Queue.State D where
  q := s.queue
  pushed := s.pushed
  popped := s.called ++ s.worker.hand

/-- **The executor refines its queue**: a step is an operation of the queue or does not
concern it. -/
theorem queue_step (hl : Lifecycle s) (h : step p s a = some s') :
    queueOf s' = queueOf s ∨ ∃ op, Queue.step p.queueSize (queueOf s) op = some (queueOf s') := by
  cases step_trans h with
  | @execute i data rest ho hi =>
    refine .inr ⟨.push data, ?_⟩
    simp [Queue.step, queueOf, execute]
  | pop hw hq =>
    refine .inr ⟨.waitAndPop, ?_⟩
    simp [Queue.step, Queue.waitAndPop, queueOf, hw, hq, WorkerPc.hand]
  | startThread ho =>
    have hw := hl.unborn.mpr (.inr ho)
    exact .inl (by simp [queueOf, hw, WorkerPc.hand])
  | call hw | enter hw | loop hw | exit hw | block hw | ret hw | leave hw | spurious hw =>
    exact .inl (by simp [queueOf, hw, WorkerPc.hand])
  | _ => exact .inl rfl

/-- So the queue's invariant is one of the executor. -/
theorem queueInv_run {keepRunning isRunning : Bool} {callers : List (List D)}
    {as : List Action}
    (hrun : Machine.run (step p) (init keepRunning isRunning callers) as = some s) :
    Queue.Inv p.queueSize (queueOf s) := by
  refine (Machine.run_invariant
    (I := fun t => Lifecycle t ∧ Queue.Inv p.queueSize (queueOf t)) ?_
    ⟨lifecycle_init keepRunning isRunning callers, Queue.inv_init⟩ hrun).2
  rintro t a t' ⟨hl, hi⟩ hstep
  refine ⟨lifecycle_step hl hstep, ?_⟩
  rcases queue_step hl hstep with heq | ⟨op, hop⟩
  · rw [heq]
    exact hi
  · exact Queue.inv_step hi hop

/-- The arguments of `f` are a subsequence of what was pushed. -/
theorem called_sublist (hi : Queue.Inv p.queueSize (queueOf s)) :
    s.called.Sublist s.pushed := by
  have hall : (s.called ++ s.worker.hand ++ s.queue).Sublist s.pushed := hi.channel.sublist
  rw [List.append_assoc] at hall
  exact (List.sublist_append_left ..).trans hall

/-- With an unbounded queue they are an initial part of it. -/
theorem called_initial (hi : Queue.Inv p.queueSize (queueOf s)) (hp : p = .withQueue) :
    s.called <+: s.pushed := by
  subst hp
  have hpopped : s.called ++ s.worker.hand <+: s.pushed := (hi.lossless rfl).received_initial
  exact (List.prefix_append ..).trans hpopped

/-- A queue of size one holds the newest datum only. -/
theorem newest_of_pop (hi : Queue.Inv p.queueSize (queueOf s)) (hp : p = .withoutQueue)
    {res : D} {queue : List D} (hq : s.queue = res :: queue) :
    s.pushed.getLast? = some res := by
  subst hp
  obtain ⟨hb, hc, -⟩ := hi
  have hlen : s.queue.length ≤ 1 := hb.resolve_left nofun
  obtain rfl : queue = [] := by
    rw [hq, List.length_cons] at hlen
    exact List.length_eq_zero_iff.mp (by omega)
  have hnew : (s.called ++ s.worker.hand ++ s.queue).getLast? = s.pushed.getLast? := hc.newest
  rw [← hnew, hq, List.getLast?_concat]

/-! ## Calls after `stop` -/

/-- The calls the worker makes without looking at `keep_running_` again. -/
def WorkerPc.underWay : WorkerPc D → ℕ
  | waitAndPop | blocked | call _ => 1
  | _ => 0

@[simp] theorem underWay_notified (w : WorkerPc D) : w.notified.underWay = w.underWay := by
  cases w <;> rfl

theorem underWay_le_one (w : WorkerPc D) : w.underWay ≤ 1 := by
  cases w <;> simp [WorkerPc.underWay]

/-- The constructor is over, the flag is clear, and `n` bounds the calls of `f` made and
under way. -/
structure Stopped (n : ℕ) (s : State D) : Prop where
  constructed : s.owner ≠ .setKeepRunning ∧ s.owner ≠ .startThread
  cleared : s.keepRunning = false
  calls : s.called.length + s.worker.underWay ≤ n

/-- A clear flag stays clear, and the loop starts no further round. -/
theorem stopped_step {n : ℕ} (hs : Stopped n s) (h : step p s a = some s') :
    Stopped n s' := by
  obtain ⟨hc, hk, hn⟩ := hs
  cases step_trans h with
  | setKeepRunning ho => exact absurd ho hc.1
  | startThread ho => exact absurd ho hc.2
  | destroy => exact ⟨⟨nofun, nofun⟩, rfl, hn⟩
  | pollDone | join => exact ⟨⟨nofun, nofun⟩, hk, hn⟩
  | pollAgain => exact ⟨hc, hk, hn⟩
  | stop => exact ⟨hc, rfl, hn⟩
  | execute => exact ⟨hc, hk, by simpa [execute] using hn⟩
  | loop hw hk' => rw [hk] at hk'; cases hk'
  | enter hw | exit hw | block hw | pop hw | call hw | ret hw | leave hw | spurious hw =>
    exact ⟨hc, hk, by simpa [WorkerPc.underWay, hw] using hn⟩

/-- After a `stop`, however the run goes on, `f` is called at most once more. -/
theorem called_le_of_stopped (hstop : step p s .stop = some s') {as : List Action}
    {s'' : State D} (hrun : Machine.run (step p) s' as = some s'') :
    s''.called.length ≤ s.called.length + 1 := by
  cases step_trans hstop with
  | stop ho =>
    have hn := underWay_le_one s.worker
    have hstopped : Stopped (s.called.length + 1) { s with keepRunning := false } := by
      refine ⟨⟨?_, ?_⟩, rfl, by simpa using hn⟩ <;>
      · intro ho'
        rw [ho'] at ho
        cases ho
    obtain ⟨-, -, hcalls⟩ : Stopped (s.called.length + 1) s'' :=
      Machine.run_invariant stopped_step hstopped hrun
    omega

/-! ## The whole story -/

/-- **What `f` is called with.** At any time the arguments of `f` are a subsequence of the
data handed to `execute`, under `with_queue` an initial part of it; under
`without_queue` a pop gives the newest datum; and after `stop` there is at most one more
call. -/
theorem calls_of_executor (p : QueuePolicy) (keepRunning isRunning : Bool)
    (callers : List (List D)) {as : List Action} {s : State D}
    (hrun : Machine.run (step p) (init keepRunning isRunning callers) as = some s) :
    s.called.Sublist s.pushed ∧
    (p = .withQueue → s.called <+: s.pushed) ∧
    (p = .withoutQueue → ∀ s' data, s.worker = .waitAndPop → step p s .worker = some s' →
      s'.worker = .call data → s.pushed.getLast? = some data) ∧
    (∀ s', step p s .stop = some s' → ∀ bs s'', Machine.run (step p) s' bs = some s'' →
      s''.called.length ≤ s.called.length + 1) := by
  have hi := queueInv_run hrun
  refine ⟨called_sublist hi, called_initial hi, ?_, fun s' hstop bs s'' =>
    called_le_of_stopped hstop⟩
  intro hp s' data hw hstep hcall
  cases step_trans hstep with
  | block => cases hcall
  | pop hw' hq =>
    cases hcall
    exact newest_of_pop hi hp hq
  | enter hw' | loop hw' | exit hw' | call hw' | ret hw' | leave hw' =>
    rw [hw] at hw'
    cases hw'

/-- Two threads hand over `1` and `2`; the worker, late, gets only the second. -/
def twoExecutes : List Action :=
  [.owner, .owner, .execute 0, .execute 1, .worker, .worker, .worker, .worker]

theorem calls_of_executor_twoExecutes :
    ∃ s : State ℕ,
      Machine.run (step .withoutQueue) (init false false [[1], [2]]) twoExecutes = some s ∧
      s.called = [2] ∧ s.pushed = [1, 2] ∧ s.called.Sublist s.pushed := by
  refine ⟨_, rfl, rfl, rfl, ?_⟩
  exact (calls_of_executor .withoutQueue false false [[1], [2]]
    (show Machine.run (step .withoutQueue) _ twoExecutes = some _ from rfl)).1

end RealtimeExecutor

end CppPlayground
