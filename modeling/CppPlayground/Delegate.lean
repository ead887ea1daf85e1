import CppPlayground.Machine
import CppPlayground.Lifetimes
import Mathlib.Data.Finset.Card

/-!
# Delegates: functors in shared storage

A `delegate` (`tricks/include/delegate.h`) keeps its functor in a block of storage that it
may share with copies of itself: `store_` is a `shared_ptr<void>` to the block. The functor
is destroyed in two ways: by the block's own deleter, `functor_deleter<T>`, when the last
owner is gone; and by the member `deleter_`, `deleter_stub<T>`, when a functor assignment
puts a new functor into the same block.

Functor types are arbitrary; all that is known of one is its size. A block has its size,
the type its deleter was made for, and the functor that lives in it, which is known by the
number it was placed as. The number of owners of a block is that of the delegates whose
`store_` points to it. The history tells which destructors ran on which functors.

A functor assignment that reuses storage the delegate does not have destroys and constructs
at a null pointer; the state is then `undefined`.
-/

namespace CppPlayground

namespace Delegate

universe u

/-! ## Data -/

/-- A block of storage. -/
structure Block (T : Type u) : Type u where
  size : ℕ
  /-- the type that the shared deleter destroys -/
  deleter : T
  /-- the functor in it, if one has been constructed -/
  functor : Option ℕ
  deriving DecidableEq, Repr

/-- The members of a delegate. -/
structure Members (T : Type u) : Type u where
  /-- `object_ptr_`, if it points to a block -/
  objectPtr : Option ℕ
  /-- the type of `stub_ptr_`, a `functor_stub` -/
  stubPtr : Option T
  /-- the type that `deleter_` destroys -/
  deleter : T
  /-- `store_` -/
  store : Option ℕ
  /-- `store_size_` -/
  storeSize : ℕ
  deriving DecidableEq, Repr

/-- All delegates and blocks, and the history. -/
structure State (T : Type u) : Type u where
  /-- the delegates there are -/
  delegates : ℕ → Option (Members T)
  /-- the name of the next delegate -/
  nextDelegate : ℕ
  /-- the blocks that are allocated -/
  blocks : ℕ → Option (Block T)
  /-- the address of the next block -/
  nextBlock : ℕ
  /-- history: the types of the functors that were constructed -/
  placed : List T
  /-- history: the functors that were destroyed, and the types of the destructors -/
  destroyed : List (ℕ × T)
  /-- a null pointer has been used -/
  undefined : Bool

/-- An operation on delegates. A constructor makes a delegate with a new name. -/
inductive Action (T : Type u) : Type u
  /-- `delegate()`, which leaves `deleter_` and `store_size_` as they are -/
  | default (deleter : T) (storeSize : ℕ)
  /-- `delegate(T&&)` -/
  | construct (type : T)
  /-- `operator=(T&&)` -/
  | assign (i : ℕ) (type : T)
  /-- `delegate(delegate const&)` -/
  | copyConstruct (j : ℕ)
  /-- `delegate(delegate&&)` -/
  | moveConstruct (j : ℕ)
  /-- `operator=(delegate const&)` -/
  | copyAssign (i j : ℕ)
  /-- `operator=(delegate&&)` -/
  | moveAssign (i j : ℕ)
  | reset (i : ℕ)
  /-- `reset_stub()` -/
  | resetStub (i : ℕ)
  /-- the implicit destructor -/
  | destroy (i : ℕ)
  deriving DecidableEq, Repr

variable {T : Type u}

/-! ## Storage -/

def init : State T where
  delegates := fun _ => none
  nextDelegate := 0
  blocks := fun _ => none
  nextBlock := 0
  placed := []
  destroyed := []
  undefined := false

namespace State

/-- The block a delegate owns. -/
def storeOf (s : State T) (i : ℕ) : Option ℕ :=
  (s.delegates i).bind Members.store

/-- `use_count()` of a pointer to a block. -/
def useCount (s : State T) (b : ℕ) : ℕ :=
  ((Finset.range s.nextDelegate).filter fun i => s.storeOf i = some b).card

def setDelegate (s : State T) (i : ℕ) (m : Option (Members T)) : State T :=
  { s with delegates := Function.update s.delegates i m }

def setBlock (s : State T) (b : ℕ) (block : Option (Block T)) : State T :=
  { s with blocks := Function.update s.blocks b block }

/-- A new delegate. -/
def addDelegate (s : State T) (m : Members T) : State T :=
  { s.setDelegate s.nextDelegate (some m) with nextDelegate := s.nextDelegate + 1 }

/-- `operator new`, and a `shared_ptr` with `functor_deleter<type>`. -/
def allocate (s : State T) (size : ℕ) (type : T) : State T :=
  { s.setBlock s.nextBlock (some ⟨size, type, none⟩) with nextBlock := s.nextBlock + 1 }

/-- Call the destructor of `type` on the functor in block `b`. -/
def destruct (s : State T) (b : ℕ) (type : T) : State T :=
  match s.blocks b with
  | some block =>
    match block.functor with
    | some id =>
      { s.setBlock b (some { block with functor := none }) with
        destroyed := s.destroyed ++ [(id, type)] }
    | none => { s with undefined := true }
  | none => { s with undefined := true }

/-- Construct a functor of `type` in block `b`. -/
def place (s : State T) (b : ℕ) (type : T) : State T :=
  match s.blocks b with
  | some block =>
    { s.setBlock b (some { block with functor := some s.placed.length }) with
      placed := s.placed ++ [type] }
  | none => { s with undefined := true }

/-- A `shared_ptr` to block `b` is gone: the last one calls the deleter. -/
def release (s : State T) (b : ℕ) : State T :=
  if s.useCount b = 0 then
    match s.blocks b with
    | some block => (s.destruct b block.deleter).setBlock b none
    | none => { s with undefined := true }
  else s

/-- A `shared_ptr` is gone. -/
def releaseStore (s : State T) : Option ℕ → State T
  | some b => s.release b
  | none => s

end State

/-! ## The operations -/

section Operations

variable (size : T → ℕ)

/-- The members of a delegate whose functor of `type` is in block `b`. -/
def owning (b : ℕ) (type : T) (storeSize : ℕ) : Members T where
  objectPtr := some b
  stubPtr := some type
  deleter := type
  store := some b
  storeSize := storeSize

/-- `delegate(T&&)`. The constructor of the functor is taken not to throw. -/
def construct (s : State T) (type : T) : State T :=
  ((s.allocate (size type) type).place s.nextBlock type).addDelegate
    (owning s.nextBlock type (size type))

/-- `use_count()` of `store_`. -/
def storeCount (s : State T) (m : Members T) : ℕ :=
  match m.store with
  | some b => s.useCount b
  | none => 0

/-- The test of `operator=(T&&)`: does the functor get a block of its own? -/
def reallocates (s : State T) (m : Members T) (type : T) : Bool :=
  size type > m.storeSize || storeCount s m > 1

/-- `operator=(T&&)`. The constructor of the functor is taken not to throw, here after the
functor before it has been destroyed. -/
def assign (s : State T) (i : ℕ) (m : Members T) (type : T) : State T :=
  if reallocates size s m type then
    -- `store_.reset(..)` lets go of the former block before the functor is constructed
    (((s.allocate (size type) type).setDelegate i
      (some (owning s.nextBlock type (size type)))).releaseStore m.store).place s.nextBlock type
  else
    match m.store with
    | some b =>
      ((s.destruct b m.deleter).place b type).setDelegate i (some (owning b type m.storeSize))
    | none => { s with undefined := true }

/-- One operation; `none` if a delegate it uses does not exist. -/
def perform (s : State T) : Action T → Option (State T)
  | .default deleter storeSize => some (s.addDelegate ⟨none, none, deleter, none, storeSize⟩)
  | .construct type => some (construct size s type)
  | .assign i type => (s.delegates i).map fun m => assign size s i m type
  | .copyConstruct j => (s.delegates j).map fun m => s.addDelegate m
  | .moveConstruct j => (s.delegates j).map fun m =>
      (s.setDelegate j (some { m with store := none })).addDelegate m
  | .copyAssign i j => (s.delegates i).bind fun m => (s.delegates j).map fun m' =>
      (s.setDelegate i (some m')).releaseStore m.store
  | .moveAssign i j => (s.delegates i).bind fun m => (s.delegates j).map fun m' =>
      if i = j then s
      else ((s.setDelegate j (some { m' with store := none })).setDelegate i
        (some m')).releaseStore m.store
  | .reset i => (s.delegates i).map fun m =>
      (s.setDelegate i (some { m with stubPtr := none, store := none })).releaseStore m.store
  | .resetStub i => (s.delegates i).map fun m =>
      s.setDelegate i (some { m with stubPtr := none })
  | .destroy i => (s.delegates i).map fun m => (s.setDelegate i none).releaseStore m.store

/-- One operation, unless a null pointer has been used. -/
def step (s : State T) (action : Action T) : Option (State T) :=
  if s.undefined then none else perform size s action

theorem step_of_defined {s : State T} (h : s.undefined = false) (action : Action T) :
    step size s action = perform size s action := by
  rw [step, h, if_neg Bool.false_ne_true]

end Operations

end Delegate

end CppPlayground
