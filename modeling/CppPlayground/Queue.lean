import CppPlayground.Channel
import CppPlayground.Machine

/-!
# `Queue<T, queue_size>`: a queue that drops its oldest value

`realtime_executor/include/queue.h`. A `push` appends under the mutex and then
calls `pop_if_needed`, of which the compiler picks one of two variants by the value
of `queue_size`; `waitAndPop` takes the front value once there is one. Every
operation runs under the mutex, so the callers' operations on one queue form a
sequence, and that sequence is what a run of `step` is. A `waitAndPop` that has to
wait is not a step yet: the waiting itself is modelled with the executor.

The queue is an instance of a channel that drops its oldest message, and for
`queue_size == 0` of one that loses nothing.
-/

namespace CppPlayground.Queue

universe u

variable {T : Type u}

/-! ## The operations

A `std::queue` is the list of its values, front first. -/

/-- `pop_if_needed` for `queue_size == 0`: the empty function. -/
def popIfNeededUnbounded (q : List T) : List T := q

/-- `pop_if_needed` for `queue_size != 0`. The queue that is popped is not empty,
its size being greater than `queueSize`. -/
def popIfNeededBounded (queueSize : ℕ) (q : List T) : List T :=
  if q.length > queueSize then q.tail else q

/-- The choice `std::enable_if_t` makes between the two. -/
def popIfNeeded (queueSize : ℕ) (q : List T) : List T :=
  if queueSize = 0 then popIfNeededUnbounded q else popIfNeededBounded queueSize q

/-- `push`, without the notification. -/
def push (queueSize : ℕ) (q : List T) (msg : T) : List T :=
  popIfNeeded queueSize (q ++ [msg])

/-- `waitAndPop` once the condition `!q_.empty()` has been tested; `none` when the
test fails, so that the caller has to wait. -/
def waitAndPop : List T → Option (T × List T)
  | [] => none
  | res :: q => some (res, q)

/-! ### What they do -/

theorem push_unbounded (q : List T) (msg : T) : push 0 q msg = q ++ [msg] := rfl

/-- Below its bound the queue just grows. -/
theorem push_of_lt {queueSize : ℕ} {q : List T} (h : q.length < queueSize) (msg : T) :
    push queueSize q msg = q ++ [msg] := by
  have hne : queueSize ≠ 0 := by omega
  have hle : ¬ (q ++ [msg]).length > queueSize := by
    rw [List.length_append, List.length_singleton]
    omega
  rw [push, popIfNeeded, if_neg hne, popIfNeededBounded, if_neg hle]

/-- At its bound the queue loses its front value. -/
theorem push_of_eq (oldest : T) (rest : List T) (msg : T) :
    push (oldest :: rest).length (oldest :: rest) msg = rest ++ [msg] := by
  have hgt : ((oldest :: rest) ++ [msg]).length > (oldest :: rest).length := by
    rw [List.length_append, List.length_singleton]
    omega
  have hne : (oldest :: rest).length ≠ 0 := Nat.succ_ne_zero _
  rw [push, popIfNeeded, if_neg hne, popIfNeededBounded, if_pos hgt, List.cons_append,
    List.tail_cons]

theorem push_ne_nil (queueSize : ℕ) (q : List T) (msg : T) : push queueSize q msg ≠ [] := by
  simp only [push, popIfNeeded, popIfNeededUnbounded, popIfNeededBounded]
  split
  · exact List.concat_ne_nil msg q
  · split
    case isTrue hlen =>
      intro hnil
      have hzero := congrArg List.length hnil
      rw [List.length_tail, List.length_nil] at hzero
      omega
    case isFalse => exact List.concat_ne_nil msg q

theorem waitAndPop_eq_none {q : List T} (h : waitAndPop q = none) : q = [] := by
  cases q with
  | nil => rfl
  | cons => cases h

theorem waitAndPop_eq_some {res : T} {q q' : List T} (h : waitAndPop q = some (res, q')) :
    q = res :: q' := by
  cases q with
  | nil => cases h
  | cons => cases h; rfl

/-- `q` respects the bound; the bound 0 stands for none. -/
def Bounded (queueSize : ℕ) (q : List T) : Prop :=
  queueSize = 0 ∨ q.length ≤ queueSize

/-- **The two outcomes of a `push`** on a queue that respects its bound: append, or,
when the bound is reached, append and lose the oldest value. -/
theorem push_cases {queueSize : ℕ} {q : List T} (hq : Bounded queueSize q) (msg : T) :
    ((queueSize = 0 ∨ q.length < queueSize) ∧ push queueSize q msg = q ++ [msg]) ∨
    ∃ oldest rest, q = oldest :: rest ∧ q.length = queueSize ∧
      push queueSize q msg = rest ++ [msg] := by
  rcases hq with rfl | hle
  · exact .inl ⟨.inl rfl, push_unbounded q msg⟩
  · rcases Nat.lt_or_eq_of_le hle with hlt | rfl
    · exact .inl ⟨.inr hlt, push_of_lt hlt msg⟩
    · cases q with
      | nil => exact .inl ⟨.inl rfl, push_unbounded [] msg⟩
      | cons oldest rest => exact .inr ⟨oldest, rest, rfl, rfl, push_of_eq oldest rest msg⟩

theorem bounded_push {queueSize : ℕ} {q : List T} (hq : Bounded queueSize q) (msg : T) :
    Bounded queueSize (push queueSize q msg) := by
  rcases push_cases hq msg with ⟨h0 | hlt, hpush⟩ | ⟨oldest, rest, rfl, hlen, hpush⟩
  · exact .inl h0
  · rw [hpush]
    refine .inr ?_
    rw [List.length_append, List.length_singleton]
    omega
  · rw [hpush]
    refine .inr ?_
    rw [List.length_append, List.length_singleton, ← hlen, List.length_cons]

theorem bounded_tail {queueSize : ℕ} {x : T} {q : List T} (hq : Bounded queueSize (x :: q)) :
    Bounded queueSize q := by
  rcases hq with h0 | hle
  · exact .inl h0
  · rw [List.length_cons] at hle
    exact .inr (by omega)

/-! ## The queue as a channel -/

open Channel

variable {queueSize : ℕ} {sent received q : List T}

/-- **A `push` sends.** What it may lose is the oldest value, and not the only one. -/
theorem dropOldest_push (hq : Bounded queueSize q) (h : DropOldest sent received q) (msg : T) :
    DropOldest (sent ++ [msg]) received (push queueSize q msg) := by
  rcases push_cases hq msg with ⟨-, hpush⟩ | ⟨oldest, rest, rfl, -, hpush⟩
  · rw [hpush]
    exact h.send msg
  · rw [hpush]
    have hsent := h.send msg
    rw [List.cons_append] at hsent
    exact hsent.drop (List.concat_ne_nil msg rest)

theorem lossless_push (h : Lossless sent received q) (msg : T) :
    Lossless (sent ++ [msg]) received (push 0 q msg) := by
  rw [push_unbounded]
  exact h.send [msg]

/-! ## Sequences of operations -/

/-- The queue together with its history. -/
structure State (T : Type u) where
  /-- The values in the queue, front first. -/
  q : List T
  /-- The arguments of all `push` calls so far. -/
  pushed : List T
  /-- The results of all `waitAndPop` calls so far. -/
  popped : List T
deriving DecidableEq

/-- An operation gets the mutex. -/
inductive Op (T : Type u)
  | push (msg : T)
  | waitAndPop
deriving DecidableEq

/-- A queue after its constructor. -/
def init : State T := ⟨[], [], []⟩

/-- One operation; a `waitAndPop` is not enabled on an empty queue. -/
def step (queueSize : ℕ) (s : State T) : Op T → Option (State T)
  | .push msg =>
    some { s with q := push queueSize s.q msg, pushed := s.pushed ++ [msg] }
  | .waitAndPop => (waitAndPop s.q).map fun (res, q) =>
    { s with q := q, popped := s.popped ++ [res] }

/-- Everything an operation can do. -/
theorem step_cases {s s' : State T} {op : Op T} (h : step queueSize s op = some s') :
    (∃ msg, op = .push msg ∧
      s' = { s with q := push queueSize s.q msg, pushed := s.pushed ++ [msg] }) ∨
    ∃ res q, op = .waitAndPop ∧ s.q = res :: q ∧
      s' = { s with q := q, popped := s.popped ++ [res] } := by
  cases op with
  | push msg => exact .inl ⟨msg, rfl, (Option.some.inj h).symm⟩
  | waitAndPop =>
    obtain ⟨⟨res, q⟩, hq, hs⟩ := Option.map_eq_some_iff.mp h
    exact .inr ⟨res, q, rfl, waitAndPop_eq_some hq, hs.symm⟩

/-- What holds of a queue and its history at all times. -/
structure Inv (queueSize : ℕ) (s : State T) : Prop where
  bounded : Bounded queueSize s.q
  channel : DropOldest s.pushed s.popped s.q
  lossless : queueSize = 0 → Lossless s.pushed s.popped s.q

theorem inv_init : Inv queueSize (init : State T) :=
  ⟨.inr (Nat.zero_le _), .empty, fun _ => rfl⟩

theorem inv_step {s s' : State T} {op : Op T} (hi : Inv queueSize s)
    (h : step queueSize s op = some s') : Inv queueSize s' := by
  obtain ⟨hb, hc, hl⟩ := hi
  rcases step_cases h with ⟨msg, rfl, rfl⟩ | ⟨res, q, rfl, hq, rfl⟩
  · refine ⟨bounded_push hb msg, dropOldest_push hb hc msg, ?_⟩
    rintro rfl
    exact lossless_push (hl rfl) msg
  · rw [hq] at hb hc hl
    exact ⟨bounded_tail hb, hc.receive, fun h0 => (hl h0).receive 1⟩

theorem inv_run {s : State T} {ops : List (Op T)}
    (hrun : Machine.run (step queueSize) init ops = some s) : Inv queueSize s :=
  Machine.run_invariant inv_step inv_init hrun

/-- **The queue is a drop-oldest FIFO.** After any sequence of operations, the popped
values followed by the contents are a subsequence of the pushed ones, the contents are
the most recent of those, and the newest pushed value is the last of what was popped or
is queued. A bounded queue respects its bound, and its next `push` loses a value exactly
when the bound is reached, namely the front one; an unbounded queue never loses any. -/
theorem fifo_dropOldest (queueSize : ℕ) {ops : List (Op T)} {s : State T}
    (hrun : Machine.run (step queueSize) init ops = some s) :
    (s.popped ++ s.q).Sublist s.pushed ∧
    s.q <:+ s.pushed ∧
    (s.popped ++ s.q).getLast? = s.pushed.getLast? ∧
    (0 < queueSize → s.q.length ≤ queueSize) ∧
    (∀ msg, 0 < queueSize → s.q.length = queueSize →
      ∃ oldest rest, s.q = oldest :: rest ∧ push queueSize s.q msg = rest ++ [msg]) ∧
    (∀ msg, queueSize = 0 ∨ s.q.length ≠ queueSize →
      push queueSize s.q msg = s.q ++ [msg]) ∧
    (queueSize = 0 → s.popped ++ s.q = s.pushed) := by
  obtain ⟨hb, hc, hl⟩ := inv_run hrun
  refine ⟨hc.sublist, hc.pending_suffix, hc.newest, ?_, ?_, ?_, hl⟩
  · intro hpos
    exact hb.resolve_left (by omega)
  · intro msg hpos hlen
    rcases push_cases hb msg with ⟨hlt, -⟩ | ⟨oldest, rest, hq, -, hpush⟩
    · omega
    · exact ⟨oldest, rest, hq, hpush⟩
  · intro msg hroom
    rcases push_cases hb msg with ⟨-, hpush⟩ | ⟨oldest, rest, hq, hlen, hpush⟩
    · exact hpush
    · rw [hq, List.length_cons] at hlen hroom
      omega

/-- Three pushes and a pop on a queue of size 2: the first value is lost. -/
theorem fifo_dropOldest_three :
    Machine.run (step 2) init [.push 1, .push 2, .push 3, .waitAndPop] =
        some ⟨[3], [1, 2, 3], [2]⟩ ∧
      [2, 3].Sublist [1, 2, 3] :=
  have hrun : Machine.run (step 2) init [.push 1, .push 2, .push 3, .waitAndPop] =
      some ⟨[3], [1, 2, 3], [2]⟩ := by decide
  ⟨hrun, (fifo_dropOldest 2 hrun).1⟩

end CppPlayground.Queue
