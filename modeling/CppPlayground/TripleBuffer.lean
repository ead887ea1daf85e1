import CppPlayground.Machine
import Mathlib.Logic.Function.Basic
import Mathlib.Data.Fin.Basic

/-!
# The lock-free triple buffer, one atomic operation at a time

`TripleBuffer<T>` (`lock_free_structure/include/triple_buffer.h`) hands values
from one producer to one consumer through three buffers whose roles
(*inprogress*, *ready*, *present*) rotate by pointer exchanges; the flag
`stale_` is meant to say whether *ready* is newer than *present*.

The two threads are modelled by explicit program counters, and one step is one
operation on shared memory, in any order the scheduler likes (sequential
consistency):

* `store` — load `inprogress_`, write the buffer, load `inprogress_` again as
  the argument, `ready_.exchange`, assign the result to `inprogress_`,
  `stale_.clear()`;
* `instant_load` — load `present_`, read the buffer, `stale_.test_and_set()`,
  and if it was clear, load `present_`, `ready_.exchange`, assign to `present_`;
* `wait_load` — spin on `stale_.test_and_set()`, then the same swap, then load
  `present_` and read the buffer.

Two history variables are carried along and never looked at by the code: the
values handed to `store` so far, and the values the consumer calls have
returned. Each buffer remembers the *number* of the store that wrote it (`0` for
the constructor's value).
-/

namespace CppPlayground

namespace TripleBuffer

universe u

/-! ## Data -/

/-- One of the three elements of `bufs_`; a pointer member names one of them. -/
abbrev Buf : Type := Fin 3

/-- A value together with the number of the store that produced it. -/
structure Stamped (T : Type u) : Type u where
  /-- the value itself -/
  val : T
  /-- which store it comes from; `0` is the constructor -/
  num : ℕ
  deriving DecidableEq, Repr

/-- Where the producer is inside `store`; each constructor is the operation it
performs next. -/
inductive StorePc (T : Type u) : Type u where
  /-- between two calls -/
  | idle : StorePc T
  /-- `inprogress_.load()`, to be written through -/
  | loadInprogress (val : T) : StorePc T
  /-- `*p = std::move(val)` -/
  | write (val : T) (p : Buf) : StorePc T
  /-- load of `inprogress_` as the argument of the exchange -/
  | loadArg : StorePc T
  /-- `ready_.exchange(arg)` -/
  | exchange (arg : Buf) : StorePc T
  /-- assignment of the exchange's result to `inprogress_` -/
  | assign (res : Buf) : StorePc T
  /-- `stale_.clear()` -/
  | clear : StorePc T
  deriving DecidableEq, Repr

/-- Which of the two consumer functions a buffer read belongs to. -/
inductive Call : Type where
  /-- `wait_load`: the read is its last operation -/
  | wait : Call
  /-- `instant_load`: the read comes before the test of `stale_` -/
  | instant : Call
  deriving DecidableEq, Repr

/-- Where the consumer is inside `wait_load` or `instant_load`. The swap that both
contain is shared: `hand` is the local `val`, which `instant_load` has already
read when it gets there (`some`) and `wait_load` has not (`none`). -/
inductive LoadPc (T : Type u) : Type u where
  /-- between two calls -/
  | idle : LoadPc T
  /-- `present_.load()`, to be read through -/
  | load (call : Call) : LoadPc T
  /-- `val = *p` -/
  | read (call : Call) (p : Buf) : LoadPc T
  /-- `stale_.test_and_set()` -/
  | testAndSet (hand : Option (Stamped T)) : LoadPc T
  /-- load of `present_` as the argument of the exchange -/
  | loadArg (hand : Option (Stamped T)) : LoadPc T
  /-- `ready_.exchange(arg)` -/
  | exchange (hand : Option (Stamped T)) (arg : Buf) : LoadPc T
  /-- assignment of the exchange's result to `present_` -/
  | assign (hand : Option (Stamped T)) (res : Buf) : LoadPc T
  deriving DecidableEq, Repr

/-- The members of the class, the two program counters and the two histories. -/
structure State (T : Type u) : Type u where
  /-- the array `bufs_` -/
  bufs : Buf → Stamped T
  /-- the pointer `present_` -/
  present : Buf
  /-- the pointer `ready_` -/
  ready : Buf
  /-- the pointer `inprogress_` -/
  inprogress : Buf
  /-- the flag `stale_` -/
  stale : Bool
  /-- the producer thread -/
  producer : StorePc T
  /-- the consumer thread -/
  consumer : LoadPc T
  /-- history: the arguments of all `store` calls begun, oldest first -/
  stored : List T
  /-- history: the results of all consumer calls completed, oldest first -/
  loads : List (Stamped T)

/-- What the scheduler may do next. The choice of the calls and of the stored
values is the environment's. -/
inductive Action (T : Type u) : Type u where
  /-- the idle producer calls `store(val)` -/
  | store (val : T) : Action T
  /-- the producer performs its next operation -/
  | producer : Action T
  /-- the idle consumer calls `wait_load()` -/
  | waitLoad : Action T
  /-- the idle consumer calls `instant_load()` -/
  | instantLoad : Action T
  /-- the consumer performs its next operation -/
  | consumer : Action T
  deriving DecidableEq, Repr

variable {T : Type u}

/-! ## The operations -/

/-- The constructor `TripleBuffer(const T& val)`: three copies of `val`, a cleared
flag. (The default constructor does the same with `T{}`.) -/
def init (val : T) : State T where
  bufs := fun _ => ⟨val, 0⟩
  present := 0
  ready := 1
  inprogress := 2
  stale := false
  producer := .idle
  consumer := .idle
  stored := []
  loads := []

/-- The next operation of the producer inside `store`. -/
def storeStep (s : State T) : Option (State T) :=
  match s.producer with
  | .idle => none
  | .loadInprogress val => some { s with producer := .write val s.inprogress }
  | .write val p =>
    some { s with bufs := Function.update s.bufs p ⟨val, s.stored.length⟩,
                  producer := .loadArg }
  | .loadArg => some { s with producer := .exchange s.inprogress }
  | .exchange arg => some { s with ready := arg, producer := .assign s.ready }
  | .assign res => some { s with inprogress := res, producer := .clear }
  | .clear => some { s with stale := false, producer := .idle }

/-- The consumer call in progress returns `val`. -/
def ret (s : State T) (val : Stamped T) : State T :=
  { s with consumer := .idle, loads := s.loads ++ [val] }

/-- The next operation of the consumer inside `wait_load` or `instant_load`. -/
def loadStep (s : State T) : Option (State T) :=
  match s.consumer with
  | .idle => none
  | .load call => some { s with consumer := .read call s.present }
  | .read .wait p => some (ret s (s.bufs p))
  | .read .instant p => some { s with consumer := .testAndSet (some (s.bufs p)) }
  | .testAndSet hand =>
    if s.stale then
      match hand with
      | none => some s -- `wait_load` spins
      | some val => some (ret s val)
    else some { s with stale := true, consumer := .loadArg hand }
  | .loadArg hand => some { s with consumer := .exchange hand s.present }
  | .exchange hand arg => some { s with ready := arg, consumer := .assign hand s.ready }
  | .assign none res => some { s with present := res, consumer := .load .wait }
  | .assign (some val) res => some (ret { s with present := res } val)

/-- One step of the system; `none` if the action is not enabled. -/
def step (s : State T) : Action T → Option (State T)
  | .store val =>
    match s.producer with
    | .idle => some { s with producer := .loadInprogress val, stored := s.stored ++ [val] }
    | _ => none
  | .producer => storeStep s
  | .waitLoad =>
    match s.consumer with
    | .idle => some { s with consumer := .testAndSet none }
    | _ => none
  | .instantLoad =>
    match s.consumer with
    | .idle => some { s with consumer := .load .instant }
    | _ => none
  | .consumer => loadStep s

/-! ## What a step can do

Every later proof goes through this one inversion: a transition is one of the
operations, with the program counter it needs. -/

/-- The transitions of the system, one constructor per operation. -/
inductive Trans (s : State T) : Action T → State T → Prop where
  | store {val : T} (hp : s.producer = .idle) : Trans s (.store val)
      { s with producer := .loadInprogress val, stored := s.stored ++ [val] }
  | loadInprogress {val : T} (hp : s.producer = .loadInprogress val) : Trans s .producer
      { s with producer := .write val s.inprogress }
  | write {val : T} {p : Buf} (hp : s.producer = .write val p) : Trans s .producer
      { s with bufs := Function.update s.bufs p ⟨val, s.stored.length⟩,
               producer := .loadArg }
  | storeArg (hp : s.producer = .loadArg) : Trans s .producer
      { s with producer := .exchange s.inprogress }
  | publish {arg : Buf} (hp : s.producer = .exchange arg) : Trans s .producer
      { s with ready := arg, producer := .assign s.ready }
  | assignInprogress {res : Buf} (hp : s.producer = .assign res) : Trans s .producer
      { s with inprogress := res, producer := .clear }
  | clear (hp : s.producer = .clear) : Trans s .producer
      { s with stale := false, producer := .idle }
  | waitLoad (hc : s.consumer = .idle) : Trans s .waitLoad
      { s with consumer := .testAndSet none }
  | instantLoad (hc : s.consumer = .idle) : Trans s .instantLoad
      { s with consumer := .load .instant }
  | loadPresent {call : Call} (hc : s.consumer = .load call) : Trans s .consumer
      { s with consumer := .read call s.present }
  | readWait {p : Buf} (hc : s.consumer = .read .wait p) : Trans s .consumer
      (ret s (s.bufs p))
  | readInstant {p : Buf} (hc : s.consumer = .read .instant p) : Trans s .consumer
      { s with consumer := .testAndSet (some (s.bufs p)) }
  | spin (hc : s.consumer = .testAndSet none) (hst : s.stale = true) : Trans s .consumer s
  | keep {val : Stamped T} (hc : s.consumer = .testAndSet (some val))
      (hst : s.stale = true) : Trans s .consumer (ret s val)
  | take {hand : Option (Stamped T)} (hc : s.consumer = .testAndSet hand)
      (hst : s.stale = false) : Trans s .consumer
      { s with stale := true, consumer := .loadArg hand }
  | swapArg {hand : Option (Stamped T)} (hc : s.consumer = .loadArg hand) :
      Trans s .consumer { s with consumer := .exchange hand s.present }
  | swap {hand : Option (Stamped T)} {arg : Buf} (hc : s.consumer = .exchange hand arg) :
      Trans s .consumer { s with ready := arg, consumer := .assign hand s.ready }
  | assignWait {res : Buf} (hc : s.consumer = .assign none res) : Trans s .consumer
      { s with present := res, consumer := .load .wait }
  | assignInstant {val : Stamped T} {res : Buf}
      (hc : s.consumer = .assign (some val) res) : Trans s .consumer
      (ret { s with present := res } val)

theorem storeStep_trans {s s' : State T} (h : storeStep s = some s') :
    Trans s .producer s' := by
  unfold storeStep at h
  split at h <;> cases h
  case h_2 hp => exact .loadInprogress hp
  case h_3 hp => exact .write hp
  case h_4 hp => exact .storeArg hp
  case h_5 hp => exact .publish hp
  case h_6 hp => exact .assignInprogress hp
  case h_7 hp => exact .clear hp

theorem loadStep_trans {s s' : State T} (h : loadStep s = some s') :
    Trans s .consumer s' := by
  unfold loadStep at h
  split at h
  case h_1 => cases h
  case h_2 hc => cases h; exact .loadPresent hc
  case h_3 hc => cases h; exact .readWait hc
  case h_4 hc => cases h; exact .readInstant hc
  case h_5 hand hc =>
    -- the only operation whose effect depends on the shared flag
    split at h
    case isTrue hst =>
      rcases hand with _ | val <;> cases h
      · exact .spin hc hst
      · exact .keep hc hst
    case isFalse hst => cases h; exact .take hc (by simpa using hst)
  case h_6 hc => cases h; exact .swapArg hc
  case h_7 hc => cases h; exact .swap hc
  case h_8 hc => cases h; exact .assignWait hc
  case h_9 hc => cases h; exact .assignInstant hc

theorem step_trans {s s' : State T} {a : Action T} (h : step s a = some s') :
    Trans s a s' := by
  cases a with
  | store val =>
    simp only [step] at h
    split at h <;> cases h
    case h_1 hp => exact .store hp
  | producer => exact storeStep_trans h
  | waitLoad =>
    simp only [step] at h
    split at h <;> cases h
    case h_1 hc => exact .waitLoad hc
  | instantLoad =>
    simp only [step] at h
    split at h <;> cases h
    case h_1 hc => exact .instantLoad hc
  | consumer => exact loadStep_trans h

end TripleBuffer

end CppPlayground
