import CppPlayground.Machine
import Mathlib.Data.Int.Notation

/-!
# Two workers and two barriers

`worker_a` and `worker_b` (`barrier_examples/src/simple_barrier.cpp`) count a shared `state`
up and down in turns. Each of the four sections is under the mutex; two of them first wait,
on one condition variable, for a flag that the other worker sets.

A step is a section, a `notify_one` or the end of a wait. A worker that finds its flag clear
blocks; it goes on when it is notified, or spuriously, and then tests the flag again. A
failed assertion aborts the program.

The sections are executed in a cycle (`Op.next`). What the flags, `state` and the workers
look like depends on which section is due (`Inv`), and with the section that is due they go
round in the same cycle. As a worker that blocks is notified only after its flag is set,
both flags being clear is no deadlock: one of the workers is then about to enter a section
that does not wait.
-/

namespace CppPlayground

namespace SimpleBarrier

/-! ## Data -/

/-- The four sections. -/
inductive Op
  /-- `worker_a`, *First ++* -/
  | firstInc
  /-- `worker_b`, *First --* -/
  | firstDec
  /-- `worker_b`, *Second --* -/
  | secondDec
  /-- `worker_a`, *Second ++* -/
  | secondInc
  deriving DecidableEq, Repr

/-- Where `worker_a` is. -/
inductive WorkerA
  | firstInc
  /-- `workflow_cv.notify_one()` -/
  | notify
  /-- *Second ++*, about to test `barrier2` -/
  | secondInc
  /-- *Second ++*, blocked in `wait` -/
  | waiting
  deriving DecidableEq, Repr

/-- Where `worker_b` is. -/
inductive WorkerB
  /-- *First --*, about to test `barrier1` -/
  | firstDec
  /-- *First --*, blocked in `wait` -/
  | waiting
  | secondDec
  /-- `workflow_cv.notify_one()` -/
  | notify
  deriving DecidableEq, Repr

/-- The shared variables, the workers and the history. -/
structure State where
  state : ℤ
  barrier1 : Bool
  barrier2 : Bool
  a : WorkerA
  b : WorkerB
  /-- an assertion has failed -/
  aborted : Bool
  /-- history: the sections executed, with the values of `state` they assert about -/
  history : List (Op × ℤ)
  deriving DecidableEq, Repr

/-- Who moves. -/
inductive Action
  | a
  | b
  /-- a spurious wake-up of `worker_a` -/
  | wakeA
  /-- a spurious wake-up of `worker_b` -/
  | wakeB
  deriving DecidableEq, Repr

/-! ## The workers -/

/-- What a section adds to `state`. -/
def Op.delta : Op → ℤ
  | firstInc | secondInc => 1
  | firstDec | secondDec => -1

/-- The value a section asserts `state` to have. -/
def Op.asserted : Op → ℤ
  | firstInc => 1
  | firstDec => 0
  | secondDec => -1
  | secondInc => 0

def init : State := ⟨0, false, false, .firstInc, .firstDec, false, []⟩

/-- `state++` or `state--`, and the assertion. -/
def count (op : Op) (s : State) : State :=
  { s with
    state := s.state + op.delta
    aborted := s.state + op.delta ≠ op.asserted
    history := s.history ++ [(op, s.state + op.delta)] }

/-- A step of `worker_a`. -/
def stepA (s : State) : Option State :=
  match s.a with
  | .firstInc => some { count .firstInc s with barrier1 := true, a := .notify }
  | .notify =>
    match s.b with
    | .waiting => some { s with a := .secondInc, b := .firstDec }
    | _ => some { s with a := .secondInc }
  | .secondInc =>
    if s.barrier2 then some { count .secondInc s with barrier2 := false, a := .firstInc }
    else some { s with a := .waiting }
  | .waiting => none

/-- A step of `worker_b`. -/
def stepB (s : State) : Option State :=
  match s.b with
  | .firstDec =>
    if s.barrier1 then some { count .firstDec s with barrier1 := false, b := .secondDec }
    else some { s with b := .waiting }
  | .secondDec => some { count .secondDec s with barrier2 := true, b := .notify }
  | .notify =>
    match s.a with
    | .waiting => some { s with b := .firstDec, a := .secondInc }
    | _ => some { s with b := .firstDec }
  | .waiting => none

/-- One step of the system; `none` if the action is not enabled. -/
def step (s : State) (action : Action) : Option State :=
  if s.aborted then none
  else
    match action with
    | .a => stepA s
    | .b => stepB s
    | .wakeA =>
      match s.a with
      | .waiting => some { s with a := .secondInc }
      | _ => none
    | .wakeB =>
      match s.b with
      | .waiting => some { s with b := .firstDec }
      | _ => none

/-! ## The cycle -/

/-- The section after this one. -/
def Op.next : Op → Op
  | firstInc => firstDec
  | firstDec => secondDec
  | secondDec => secondInc
  | secondInc => firstInc

/-- The section that is executed as number `n`. -/
def opAt : ℕ → Op
  | 0 => .firstInc
  | n + 1 => (opAt n).next

/-- The value of `state` before a section. -/
def Op.before : Op → ℤ
  | firstInc => 0
  | firstDec => 1
  | secondDec => 0
  | secondInc => -1

/-- The first `n` sections with their values: 1, 0, -1, 0, and again. -/
def rounds (n : ℕ) : List (Op × ℤ) :=
  (List.range n).map fun i => (opAt i, (opAt i).asserted)

theorem before_add_delta (op : Op) : op.before + op.delta = op.asserted := by
  cases op <;> rfl

theorem before_next (op : Op) : op.next.before = op.asserted := by
  cases op <;> rfl

theorem rounds_succ (n : ℕ) : rounds (n + 1) = rounds n ++ [(opAt n, (opAt n).asserted)] := by
  rw [rounds, List.range_succ, List.map_append]
  rfl

/-- A section finds the value that the one before it has asserted, the first one zero. -/
theorem getLastD_rounds (n : ℕ) : ((rounds n).map Prod.snd).getLastD 0 = (opAt n).before := by
  cases n with
  | zero => rfl
  | succ n => simp [rounds_succ, opAt, before_next]

/-! ## The invariant -/

/-- What holds when the section `due` is to be executed next. -/
structure Inv (s : State) (due : Op) : Prop where
  running : s.aborted = false
  state : s.state = due.before
  barrier1 : s.barrier1 = decide (due = .firstDec)
  barrier2 : s.barrier2 = decide (due = .secondInc)
  /-- `worker_a` is at its first section when that is due, and only then -/
  a : s.a = .firstInc ↔ due = .firstInc
  /-- `worker_b` is at its second section when that is due, and only then -/
  b : s.b = .secondDec ↔ due = .secondDec
  /-- a blocked `worker_b` whose flag is set is about to be notified -/
  wakeB : due = .firstDec → s.b = .waiting → s.a = .notify
  /-- a blocked `worker_a` whose flag is set is about to be notified -/
  wakeA : due = .secondInc → s.a = .waiting → s.b = .notify

theorem inv_init : Inv init .firstInc :=
  ⟨rfl, rfl, rfl, rfl, by simp [init], by simp [init], nofun, nofun⟩

variable {s s' : State} {due : Op}

/-- `worker_a` moves outside its first section. -/
theorem Inv.moveA (hs : Inv s due) (pc : WorkerA) (hfrom : s.a ≠ .firstInc)
    (hto : pc ≠ .firstInc) (hwakeB : due = .firstDec → s.b = .waiting → pc = .notify)
    (hwakeA : due = .secondInc → pc = .waiting → s.b = .notify) : Inv { s with a := pc } due where
  running := hs.running
  state := hs.state
  barrier1 := hs.barrier1
  barrier2 := hs.barrier2
  a := ⟨fun h => absurd h hto, fun h => absurd (hs.a.mpr h) hfrom⟩
  b := hs.b
  wakeB := hwakeB
  wakeA := hwakeA

/-- `worker_b` moves outside its second section. -/
theorem Inv.moveB (hs : Inv s due) (pc : WorkerB) (hfrom : s.b ≠ .secondDec)
    (hto : pc ≠ .secondDec) (hwakeB : due = .firstDec → pc = .waiting → s.a = .notify)
    (hwakeA : due = .secondInc → s.a = .waiting → pc = .notify) : Inv { s with b := pc } due where
  running := hs.running
  state := hs.state
  barrier1 := hs.barrier1
  barrier2 := hs.barrier2
  a := hs.a
  b := ⟨fun h => absurd h hto, fun h => absurd (hs.b.mpr h) hfrom⟩
  wakeB := hwakeB
  wakeA := hwakeA

/-- The assertion of the section that is due holds. -/
theorem Inv.asserted (hs : Inv s due) : s.state + due.delta = due.asserted := by
  rw [hs.state, before_add_delta]

/-- A step executes the section that is due, or no section at all. -/
def Follows (s s' : State) (due : Op) : Prop :=
  (Inv s' due.next ∧ s'.history = s.history ++ [(due, due.asserted)]) ∨
    (Inv s' due ∧ s'.history = s.history)

/-- The section that is due is executed: `state` and the history are as they should be, and
what remains is to say where the flags and the workers are then. -/
theorem Inv.execute (hs : Inv s due) {barrier1 barrier2 : Bool} {a : WorkerA} {b : WorkerB}
    (h1 : barrier1 = decide (due.next = .firstDec))
    (h2 : barrier2 = decide (due.next = .secondInc))
    (ha : a = .firstInc ↔ due.next = .firstInc) (hb : b = .secondDec ↔ due.next = .secondDec)
    (hwakeB : due.next = .firstDec → b = .waiting → a = .notify)
    (hwakeA : due.next = .secondInc → a = .waiting → b = .notify) :
    Follows s { count due s with barrier1, barrier2, a, b } due := by
  refine .inl ⟨⟨?_, ?_, h1, h2, ha, hb, hwakeB, hwakeA⟩, ?_⟩
  · simp [count, hs.asserted]
  · simp [count, hs.asserted, before_next]
  · simp [count, hs.asserted]

theorem stepA_follows (hs : Inv s due) (h : stepA s = some s') : Follows s s' due := by
  unfold stepA at h
  split at h
  case h_1 ha =>
    -- First ++
    cases h
    obtain rfl := hs.a.mp ha
    have hb : s.b ≠ .secondDec := fun hb => nomatch hs.b.mp hb
    exact hs.execute rfl hs.barrier2 (by simp [Op.next]) (by simp [Op.next, count, hb])
      (fun _ _ => rfl) nofun
  case h_2 ha =>
    -- notify_one
    have hfrom : s.a ≠ .firstInc := by simp [ha]
    split at h <;> cases h
    next hb =>
      have hwoken := hs.moveB .firstDec (by simp [hb]) nofun nofun (by simp [ha])
      exact .inr ⟨hwoken.moveA .secondInc hfrom nofun nofun nofun, rfl⟩
    next hb =>
      exact .inr ⟨hs.moveA .secondInc hfrom nofun (fun _ hb' => absurd hb' hb) nofun, rfl⟩
  case h_3 ha =>
    -- Second ++
    split at h <;> cases h
    next hset =>
      obtain rfl : due = .secondInc := by simpa [hs.barrier2] using hset
      have hb : s.b ≠ .secondDec := fun hb => nomatch hs.b.mp hb
      exact hs.execute hs.barrier1 rfl (by simp [Op.next]) (by simp [Op.next, count, hb]) nofun
        nofun
    next hclear =>
      have hdue : due ≠ .secondInc := by simpa [hs.barrier2] using hclear
      refine .inr ⟨hs.moveA .waiting (by simp [ha]) nofun (fun hd hb => ?_)
        fun hd => absurd hd hdue, rfl⟩
      -- a blocked `worker_b` with its flag set would not have been notified yet
      exact nomatch ha.symm.trans (hs.wakeB hd hb)
  case h_4 => cases h

theorem stepB_follows (hs : Inv s due) (h : stepB s = some s') : Follows s s' due := by
  unfold stepB at h
  split at h
  case h_1 hb =>
    -- First --
    split at h <;> cases h
    next hset =>
      obtain rfl : due = .firstDec := by simpa [hs.barrier1] using hset
      have ha : s.a ≠ .firstInc := fun ha => nomatch hs.a.mp ha
      exact hs.execute rfl hs.barrier2 (by simp [Op.next, count, ha]) (by simp [Op.next]) nofun
        nofun
    next hclear =>
      have hdue : due ≠ .firstDec := by simpa [hs.barrier1] using hclear
      refine .inr ⟨hs.moveB .waiting (by simp [hb]) nofun (fun hd => absurd hd hdue)
        fun hd ha => ?_, rfl⟩
      exact nomatch hb.symm.trans (hs.wakeA hd ha)
  case h_2 hb =>
    -- Second --
    cases h
    obtain rfl := hs.b.mp hb
    have ha : s.a ≠ .firstInc := fun ha => nomatch hs.a.mp ha
    exact hs.execute hs.barrier1 rfl (by simp [Op.next, count, ha]) (by simp [Op.next]) nofun
      fun _ _ => rfl
  case h_3 hb =>
    -- notify_one
    have hfrom : s.b ≠ .secondDec := by simp [hb]
    split at h <;> cases h
    next ha =>
      have hwoken := hs.moveA .secondInc (by simp [ha]) nofun (by simp [hb]) nofun
      exact .inr ⟨hwoken.moveB .firstDec hfrom nofun nofun nofun, rfl⟩
    next ha =>
      exact .inr ⟨hs.moveB .firstDec hfrom nofun nofun fun _ ha' => absurd ha' ha, rfl⟩
  case h_4 => cases h

theorem step_follows {action : Action} (hs : Inv s due) (h : step s action = some s') :
    Follows s s' due := by
  unfold step at h
  rw [if_neg (by simp [hs.running])] at h
  cases action with
  | a => exact stepA_follows hs h
  | b => exact stepB_follows hs h
  | wakeA =>
    dsimp only at h
    split at h <;> cases h
    next ha =>
      refine .inr ⟨hs.moveA .secondInc (by simp [ha]) nofun (fun hd hb => ?_) nofun, rfl⟩
      exact nomatch ha.symm.trans (hs.wakeB hd hb)
  | wakeB =>
    dsimp only at h
    split at h <;> cases h
    next hb =>
      refine .inr ⟨hs.moveB .firstDec (by simp [hb]) nofun nofun fun hd ha => ?_, rfl⟩
      exact nomatch hb.symm.trans (hs.wakeA hd ha)

/-! ## All runs -/

/-- What has been executed is so many rounds of the cycle, and the next section is due. -/
def InStep (s : State) : Prop :=
  s.history = rounds s.history.length ∧ Inv s (opAt s.history.length)

theorem inStep_step {action : Action} (hs : InStep s) (h : step s action = some s') :
    InStep s' := by
  obtain ⟨hrounds, hinv⟩ := hs
  rcases step_follows hinv h with ⟨hinv', hhistory⟩ | ⟨hinv', hhistory⟩
  · have hlen : s'.history.length = s.history.length + 1 := by
      rw [hhistory, List.length_append, List.length_singleton]
    rw [InStep, hlen, rounds_succ, ← hrounds]
    exact ⟨hhistory, hinv'⟩
  · rw [InStep, hhistory]
    exact ⟨hrounds, hinv'⟩

theorem inStep_run {actions : List Action} (hrun : Machine.run step init actions = some s) :
    InStep s := by
  refine Machine.run_invariant (I := InStep) ?_ ⟨rfl, inv_init⟩ hrun
  intro t action t' ht hstep
  exact inStep_step ht hstep

/-- When both workers are blocked no section is due. -/
theorem Inv.not_both_waiting (hs : Inv s due) : ¬ (s.a = .waiting ∧ s.b = .waiting) := by
  rintro ⟨ha, hb⟩
  cases due with
  | firstInc => exact nomatch ha.symm.trans (hs.a.mpr rfl)
  | firstDec => exact nomatch ha.symm.trans (hs.wakeB rfl hb)
  | secondDec => exact nomatch hb.symm.trans (hs.b.mpr rfl)
  | secondInc => exact nomatch hb.symm.trans (hs.wakeA rfl ha)

theorem stepA_isSome (ha : s.a ≠ .waiting) : (stepA s).isSome := by
  unfold stepA
  split
  · rfl
  · split <;> rfl
  · split <;> rfl
  · contradiction

theorem stepB_isSome (hb : s.b ≠ .waiting) : (stepB s).isSome := by
  unfold stepB
  split
  · split <;> rfl
  · rfl
  · split <;> rfl
  · contradiction

/-- One of the workers can go on. -/
theorem Inv.enabled (hs : Inv s due) : (step s .a).isSome ∨ (step s .b).isSome := by
  simp only [step, hs.running]
  by_cases ha : s.a = .waiting
  · exact .inr (stepB_isSome fun hb => hs.not_both_waiting ⟨ha, hb⟩)
  · exact .inl (stepA_isSome ha)

/-- **The workers alternate as drawn.** In every state of every run: no assertion has
failed; the sections executed so far are `first_inc`, `first_dec`, `second_dec`,
`second_inc` in this cyclic order, with the values 1, 0, -1, 0 of `state`; `state` is the
last of these values, and zero before the first; and the workers are not both blocked: one of
them can take its next step. -/
theorem workers_alternate {actions : List Action} {s : State}
    (hrun : Machine.run step init actions = some s) :
    s.aborted = false ∧ s.history = rounds s.history.length ∧
      s.state = (s.history.map Prod.snd).getLastD 0 ∧
      ¬ (s.a = .waiting ∧ s.b = .waiting) ∧
      ((step s .a).isSome ∨ (step s .b).isSome) := by
  obtain ⟨hrounds, hinv⟩ := inStep_run hrun
  have hstate : s.state = (s.history.map Prod.snd).getLastD 0 := by
    rw [hinv.state, ← getLastD_rounds, ← hrounds]
  exact ⟨hinv.running, hrounds, hstate, hinv.not_both_waiting, hinv.enabled⟩

/-- `worker_b` blocks, is woken for nothing and blocks again; `worker_a` then runs ahead
into its wait, and is woken by a late `notify_one` when it has gone on to the next round. -/
def runAhead : List Action :=
  [.b, .wakeB, .b, .a, .a, .a, .b, .b, .wakeA, .a, .a, .b, .a]

theorem workers_alternate_runAhead :
    ∃ s, Machine.run step init runAhead = some s ∧
      s.history = [(.firstInc, 1), (.firstDec, 0), (.secondDec, -1), (.secondInc, 0),
        (.firstInc, 1)] ∧
      s.aborted = false := by
  have hrun : Machine.run step init runAhead = some _ := rfl
  exact ⟨_, hrun, rfl, (workers_alternate hrun).1⟩

end SimpleBarrier

end CppPlayground
