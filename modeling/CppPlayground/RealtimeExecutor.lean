import CppPlayground.Queue

/-!
# The realtime executor: owner, worker and callers

`RealtimeExecutor<DataT, QueuePolicy>` (`realtime_executor/include/realtime_executor.h`)
runs a function `f` on its own thread, on the data that other threads hand to
`execute`. Three kinds of threads meet:

* the *owner* constructs the object (set `keep_running_`, start the thread) and later
  destroys it (clear `keep_running_`, poll `is_running_`, join the thread);
* the *worker* runs `execution_loop`: while `keep_running_` it pops a value, waiting for
  one if need be, and calls `f` with it;
* *callers* on any threads call `execute`, and anybody may call `stop`.

A step is one access to a flag, one queue operation (atomic under the queue's mutex) or
one call or return of `f`. `c_.wait` tests its condition under the mutex and, if the
queue is empty, blocks in the same step; a notification or a spurious wake-up makes it
test again. Threads start and `f` returns without throwing.

What the callers still have to do is part of the state: for each of them the data it is
going to hand to `execute`, so that it makes sense to say that no call is pending or to
come. Two histories are kept beside: the data pushed and the arguments of `f`.
-/

namespace CppPlayground

namespace RealtimeExecutor

universe u

/-! ## Data -/

/-- The policy classes `with_queue` and `without_queue`. -/
inductive QueuePolicy : Type where
  | withQueue : QueuePolicy
  | withoutQueue : QueuePolicy
  deriving DecidableEq, Repr

namespace QueuePolicy

/-- `static constexpr bool value`. -/
def value : QueuePolicy → Bool
  | withQueue => false
  | withoutQueue => true

/-- The template argument of the member `Queue<DataT, QueuePolicy::value>`: the `bool`,
converted to `size_t`. -/
def queueSize (p : QueuePolicy) : ℕ := p.value.toNat

end QueuePolicy

/-- Where the owner is; each constructor names what it does next. -/
inductive OwnerPc : Type where
  /-- constructor: `keep_running_ = true` -/
  | setKeepRunning : OwnerPc
  /-- constructor: `thread_ = std::thread(..)` -/
  | startThread : OwnerPc
  /-- between constructor and destructor; next is the destructor's `keep_running_ = false` -/
  | live : OwnerPc
  /-- destructor: `while (is_running_) sleep` -/
  | poll : OwnerPc
  /-- destructor: `thread_.join()` -/
  | join : OwnerPc
  /-- the object is destroyed -/
  | gone : OwnerPc
  deriving DecidableEq, Repr

/-- The object's member functions may be called. -/
def OwnerPc.alive : OwnerPc → Bool
  | live | poll | join => true
  | _ => false

/-- The destructor has begun. -/
def OwnerPc.destroying : OwnerPc → Bool
  | poll | join | gone => true
  | _ => false

/-- Where the worker is in `execution_loop`. -/
inductive WorkerPc (D : Type u) : Type u where
  /-- the thread is not started yet -/
  | unborn : WorkerPc D
  /-- `is_running_ = true` -/
  | enter : WorkerPc D
  /-- the loop's test of `keep_running_` -/
  | test : WorkerPc D
  /-- in `waitAndPop`, about to test the queue under the mutex -/
  | waitAndPop : WorkerPc D
  /-- in `waitAndPop`, blocked on the condition variable -/
  | blocked : WorkerPc D
  /-- about to call `f` with the popped value -/
  | call (data : D) : WorkerPc D
  /-- inside `f` -/
  | running : WorkerPc D
  /-- `is_running_ = false` -/
  | leave : WorkerPc D
  /-- the thread has ended -/
  | done : WorkerPc D
  deriving DecidableEq, Repr

/-- `c_.notify_all()` makes a blocked worker test its condition again. -/
def WorkerPc.notified {D : Type u} : WorkerPc D → WorkerPc D
  | blocked => waitAndPop
  | w => w

/-- The members of the class, the threads, and the histories. -/
structure State (D : Type u) : Type u where
  /-- the flag `keep_running_` -/
  keepRunning : Bool
  /-- the flag `is_running_` -/
  isRunning : Bool
  /-- the contents of `data_queue_` -/
  queue : List D
  /-- the thread that constructs and destroys the object -/
  owner : OwnerPc
  /-- the thread `thread_` -/
  worker : WorkerPc D
  /-- for each calling thread, the arguments of its `execute` calls to come -/
  callers : List (List D)
  /-- history: everything pushed into `data_queue_` -/
  pushed : List D
  /-- history: the arguments of all calls of `f` -/
  called : List D
  deriving DecidableEq

/-- What the scheduler may do next. -/
inductive Action : Type where
  /-- the owner's next step -/
  | owner : Action
  /-- caller `i` performs its next `execute` -/
  | execute (i : ℕ) : Action
  /-- some thread calls `stop()` -/
  | stop : Action
  /-- the worker's next step -/
  | worker : Action
  /-- the worker, blocked, wakes up for no reason -/
  | spurious : Action
  deriving DecidableEq, Repr

variable {D : Type u}

/-! ## The operations -/

/-- Before the constructor. Neither flag is initialised, so each may hold anything. -/
def init (keepRunning isRunning : Bool) (callers : List (List D)) : State D where
  keepRunning := keepRunning
  isRunning := isRunning
  queue := []
  owner := .setKeepRunning
  worker := .unborn
  callers := callers
  pushed := []
  called := []

/-- The owner's next step, in the constructor or the destructor. -/
def ownerStep (s : State D) : Option (State D) :=
  match s.owner with
  | .setKeepRunning => some { s with keepRunning := true, owner := .startThread }
  | .startThread => some { s with worker := .enter, owner := .live }
  | .live => some { s with keepRunning := false, owner := .poll }
  | .poll => if s.isRunning then some s else some { s with owner := .join }
  | .join =>
    match s.worker with
    | .done => some { s with owner := .gone }
    | _ => none
  | .gone => none

/-- `execute(data)`: push, and wake the worker. -/
def execute (p : QueuePolicy) (s : State D) (data : D) : State D :=
  { s with
    queue := Queue.push p.queueSize s.queue data
    worker := s.worker.notified
    pushed := s.pushed ++ [data] }

/-- The worker's next step in `execution_loop`. -/
def workerStep (s : State D) : Option (State D) :=
  match s.worker with
  | .unborn => none
  | .enter => some { s with isRunning := true, worker := .test }
  | .test =>
    if s.keepRunning then some { s with worker := .waitAndPop }
    else some { s with worker := .leave }
  | .waitAndPop =>
    match Queue.waitAndPop s.queue with
    | none => some { s with worker := .blocked }
    | some (res, queue) => some { s with queue := queue, worker := .call res }
  | .blocked => none
  | .call data => some { s with worker := .running, called := s.called ++ [data] }
  | .running => some { s with worker := .test }
  | .leave => some { s with isRunning := false, worker := .done }
  | .done => none

/-- One step of the system; `none` if the action is not enabled. -/
def step (p : QueuePolicy) (s : State D) : Action → Option (State D)
  | .owner => ownerStep s
  | .execute i =>
    match s.owner.alive, s.callers[i]? with
    | true, some (data :: rest) =>
      some (execute p { s with callers := s.callers.set i rest } data)
    | _, _ => none
  | .stop => if s.owner.alive then some { s with keepRunning := false } else none
  | .worker => workerStep s
  | .spurious =>
    match s.worker with
    | .blocked => some { s with worker := .waitAndPop }
    | _ => none

/-! ## What a step can do -/

/-- The transitions of the system, one constructor per outcome. -/
inductive Trans (p : QueuePolicy) (s : State D) : Action → State D → Prop where
  | setKeepRunning (ho : s.owner = .setKeepRunning) : Trans p s .owner
      { s with keepRunning := true, owner := .startThread }
  | startThread (ho : s.owner = .startThread) : Trans p s .owner
      { s with worker := .enter, owner := .live }
  | destroy (ho : s.owner = .live) : Trans p s .owner
      { s with keepRunning := false, owner := .poll }
  | pollAgain (ho : s.owner = .poll) (hr : s.isRunning = true) : Trans p s .owner s
  | pollDone (ho : s.owner = .poll) (hr : s.isRunning = false) : Trans p s .owner
      { s with owner := .join }
  | join (ho : s.owner = .join) (hw : s.worker = .done) : Trans p s .owner
      { s with owner := .gone }
  | execute {i : ℕ} {data : D} {rest : List D} (ho : s.owner.alive = true)
      (hi : s.callers[i]? = some (data :: rest)) : Trans p s (.execute i)
      (execute p { s with callers := s.callers.set i rest } data)
  | stop (ho : s.owner.alive = true) : Trans p s .stop { s with keepRunning := false }
  | enter (hw : s.worker = .enter) : Trans p s .worker
      { s with isRunning := true, worker := .test }
  | loop (hw : s.worker = .test) (hk : s.keepRunning = true) : Trans p s .worker
      { s with worker := .waitAndPop }
  | exit (hw : s.worker = .test) (hk : s.keepRunning = false) : Trans p s .worker
      { s with worker := .leave }
  | block (hw : s.worker = .waitAndPop) (hq : s.queue = []) : Trans p s .worker
      { s with worker := .blocked }
  | pop {res : D} {queue : List D} (hw : s.worker = .waitAndPop)
      (hq : s.queue = res :: queue) : Trans p s .worker
      { s with queue := queue, worker := .call res }
  | call {data : D} (hw : s.worker = .call data) : Trans p s .worker
      { s with worker := .running, called := s.called ++ [data] }
  | ret (hw : s.worker = .running) : Trans p s .worker { s with worker := .test }
  | leave (hw : s.worker = .leave) : Trans p s .worker
      { s with isRunning := false, worker := .done }
  | spurious (hw : s.worker = .blocked) : Trans p s .spurious
      { s with worker := .waitAndPop }

variable {p : QueuePolicy} {s s' : State D}

theorem ownerStep_trans (h : ownerStep s = some s') : Trans p s .owner s' := by
  unfold ownerStep at h
  split at h
  case h_1 ho => cases h; exact .setKeepRunning ho
  case h_2 ho => cases h; exact .startThread ho
  case h_3 ho => cases h; exact .destroy ho
  case h_4 ho =>
    split at h <;> cases h
    case isTrue hr => exact .pollAgain ho hr
    case isFalse hr => exact .pollDone ho (by simpa using hr)
  case h_5 ho =>
    split at h <;> cases h
    case h_1 hw => exact .join ho hw
  case h_6 => cases h

theorem workerStep_trans (h : workerStep s = some s') : Trans p s .worker s' := by
  unfold workerStep at h
  split at h
  case h_1 => cases h
  case h_2 hw => cases h; exact .enter hw
  case h_3 hw =>
    split at h <;> cases h
    case isTrue hk => exact .loop hw hk
    case isFalse hk => exact .exit hw (by simpa using hk)
  case h_4 hw =>
    split at h <;> cases h
    case h_1 hq => exact .block hw (Queue.waitAndPop_eq_none hq)
    case h_2 hq => exact .pop hw (Queue.waitAndPop_eq_some hq)
  case h_5 => cases h
  case h_6 hw => cases h; exact .call hw
  case h_7 hw => cases h; exact .ret hw
  case h_8 hw => cases h; exact .leave hw
  case h_9 => cases h

theorem step_trans {a : Action} (h : step p s a = some s') : Trans p s a s' := by
  cases a with
  | owner => exact ownerStep_trans h
  | execute i =>
    simp only [step] at h
    split at h <;> cases h
    case h_1 ho hi => exact .execute ho hi
  | stop =>
    simp only [step] at h
    split at h
    case isTrue ho => cases h; exact .stop ho
    case isFalse => cases h
  | worker => exact workerStep_trans h
  | spurious =>
    simp only [step] at h
    split at h <;> cases h
    case h_1 hw => exact .spurious hw

/-- The transitions are exactly the steps. -/
theorem step_iff_trans {a : Action} : step p s a = some s' ↔ Trans p s a s' := by
  refine ⟨step_trans, fun h => ?_⟩
  cases h <;> simp_all [step, ownerStep, workerStep, Queue.waitAndPop]

/-! ## The life of the threads

These facts hold in every run. -/

/-- How the two threads and their flags go together. -/
structure Lifecycle (s : State D) : Prop where
  /-- the worker is started by the constructor's last step -/
  unborn : s.worker = .unborn ↔ s.owner = .setKeepRunning ∨ s.owner = .startThread
  /-- the destructor has cleared the flag, and nobody sets it again -/
  cleared : s.owner.destroying = true → s.keepRunning = false
  /-- the worker's last step is to clear `is_running_` -/
  done : s.worker = .done → s.isRunning = false
  /-- a blocked worker has nothing to pop: a `push` would have woken it -/
  blocked : s.worker = .blocked → s.queue = []

theorem lifecycle_init (keepRunning isRunning : Bool) (callers : List (List D)) :
    Lifecycle (init keepRunning isRunning callers) where
  unborn := by simp [init]
  cleared := nofun
  done := nofun
  blocked := nofun

theorem notified_eq_unborn {w : WorkerPc D} : w.notified = .unborn ↔ w = .unborn := by
  cases w <;> simp [WorkerPc.notified]

theorem notified_eq_done {w : WorkerPc D} : w.notified = .done ↔ w = .done := by
  cases w <;> simp [WorkerPc.notified]

theorem notified_ne_blocked (w : WorkerPc D) : w.notified ≠ .blocked := by
  cases w <;> simp [WorkerPc.notified]

theorem Lifecycle.execute (hl : Lifecycle s) (callers : List (List D)) (data : D) :
    Lifecycle (execute p { s with callers := callers } data) where
  unborn := notified_eq_unborn.trans hl.unborn
  cleared := hl.cleared
  done := fun hw => hl.done (notified_eq_done.mp hw)
  blocked := fun hw => absurd hw (notified_ne_blocked _)

theorem lifecycle_step {a : Action} (hl : Lifecycle s) (h : step p s a = some s') :
    Lifecycle s' := by
  have ⟨hunborn, hcleared, hdone, hblocked⟩ := hl
  cases step_trans h with
  | execute ho hi => exact hl.execute _ _
  | _ => constructor <;> simp_all [OwnerPc.destroying, OwnerPc.alive]

theorem lifecycle_run {keepRunning isRunning : Bool} {callers : List (List D)}
    {as : List Action}
    (hrun : Machine.run (step p) (init keepRunning isRunning callers) as = some s) :
    Lifecycle s :=
  Machine.run_invariant lifecycle_step (lifecycle_init ..) hrun

end RealtimeExecutor

end CppPlayground
