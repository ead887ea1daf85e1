import CppPlayground.ForLoop
import Mathlib.Logic.Function.Basic

/-!
# Expression templates: lazy array arithmetic over references

`expression_templates/include` builds the right-hand side of `x = 1.2 * x + x * y`
as a tree of references and evaluates it element by element, inside the loop of
`Array::operator=` that overwrites `x`. Nothing is copied while the tree is built:

* an array leaf is a `const SArray<T>&`;
* a scalar leaf is a `Scaler<T>`, which holds a `const T&` — to a temporary or a
  variable, but just as well to an *element of an array*, such as `x[0]` in
  `x = x[0] * x`;
* an inner node is a `BinaryOperator` over references to its operands.

So the tree is modelled by names of storage, and only meets values when it is
evaluated in a memory. Every `assert` of the source is a check that can fail, and
an access outside an array's storage, which the source does not check, is a fault
of its own.

`Expr.eager` is what the assignment is *for*: the value of the right-hand side
with every operator applied to whole arrays, in the memory before the assignment.
-/

namespace CppPlayground

namespace ExpressionTemplates

universe u

open ForLoop

/-! ## Memory -/

/-- The name of an `SArray` object. -/
abbrev ArrayId : Type := ℕ

/-- What the `const T&` inside a `Scaler` refers to. -/
inductive ScalarRef : Type where
  /-- an object of its own: a temporary or a variable -/
  | object (k : ℕ) : ScalarRef
  /-- the element `a[idx]` of an array -/
  | elem (a : ArrayId) (idx : ℕ) : ScalarRef
  deriving DecidableEq, Repr

/-- The storage the references point into. -/
structure Mem (T : Type u) : Type u where
  /-- the elements of each array; `storage_size` is the length -/
  arrays : ArrayId → List T
  /-- the scalar objects that are not array elements -/
  objects : ℕ → T

/-- What can go wrong. -/
inductive Fault : Type where
  /-- an `assert` of the source fails -/
  | assertion : Fault
  /-- `storage[idx]` is accessed outside the array -/
  | outOfBounds : Fault
  deriving DecidableEq, Repr

variable {T : Type u}

/-- Replace the contents of one array. -/
def Mem.setArray (m : Mem T) (x : ArrayId) (ys : List T) : Mem T :=
  { m with arrays := Function.update m.arrays x ys }

@[simp] theorem Mem.setArray_self (m : Mem T) (x : ArrayId) (ys : List T) :
    (m.setArray x ys).arrays x = ys := Function.update_self ..

theorem Mem.setArray_ne (m : Mem T) {x a : ArrayId} (h : a ≠ x) (ys : List T) :
    (m.setArray x ys).arrays a = m.arrays a := Function.update_of_ne h ..

@[simp] theorem Mem.setArray_setArray (m : Mem T) (x : ArrayId) (ys zs : List T) :
    (m.setArray x ys).setArray x zs = m.setArray x zs := by
  simp [Mem.setArray]

@[simp] theorem Mem.setArray_arrays (m : Mem T) (x : ArrayId) :
    m.setArray x (m.arrays x) = m := by
  simp [Mem.setArray]

/-- `SArray::operator[]`, reading. -/
def Mem.get (m : Mem T) (a : ArrayId) (idx : ℕ) : Except Fault T :=
  match (m.arrays a)[idx]? with
  | some v => .ok v
  | none => .error .outOfBounds

/-- Read through the reference of a `Scaler`. -/
def Mem.deref (m : Mem T) : ScalarRef → Except Fault T
  | .object k => .ok (m.objects k)
  | .elem a idx => m.get a idx

/-! ## The expression tree -/

/-- `std::plus<T>` or `std::multiplies<T>`. -/
inductive FunctionOP : Type where
  /-- `std::plus<T>` -/
  | plus : FunctionOP
  /-- `std::multiplies<T>` -/
  | multiplies : FunctionOP
  deriving DecidableEq, Repr

/-- Apply the operator. -/
def FunctionOP.apply [Add T] [Mul T] : FunctionOP → T → T → T
  | .plus, a, b => a + b
  | .multiplies, a, b => a * b

/-- The representation an `Array<T, Rep>` wraps: an `SArray`, a `Scaler` or a
`BinaryOperator`. The operands of a `BinaryOperator` are references to temporaries of the full
expression, and are taken to be alive: `x = e` is evaluated within the full expression that
builds `e`. A tree that is kept, as in `auto e = x + y;`, outlives them and is not modelled. -/
inductive Rep : Type where
  /-- `const SArray<T>&` -/
  | sarray (a : ArrayId) : Rep
  /-- `Scaler<T>` -/
  | scaler (ref : ScalarRef) : Rep
  /-- `BinaryOperator<T, OP1, OP2, FunctionOP>` -/
  | binaryOperator (f : FunctionOP) (op1 op2 : Rep) : Rep
  deriving DecidableEq, Repr

/-- `size()`; the size `0` of a `Scaler` marks it as one. `BinaryOperator::size`
asserts `op1.size() == 0 || op2.size() || op1.size() == op2.size()` first. -/
def Rep.size (m : Mem T) : Rep → Except Fault ℕ
  | .sarray a => .ok (m.arrays a).length
  | .scaler _ => .ok 0
  | .binaryOperator _ op1 op2 =>
    (op1.size m).bind fun n1 =>
      if n1 = 0 then op2.size m
      else (op2.size m).bind fun n2 =>
        if n2 ≠ 0 ∨ n1 = n2 then .ok n1 else .error .assertion

/-- `operator[]` of the representations. -/
def Rep.get [Add T] [Mul T] (m : Mem T) : Rep → ℕ → Except Fault T
  | .sarray a, idx => m.get a idx
  | .scaler ref, _ => m.deref ref
  | .binaryOperator f op1 op2, idx =>
    (op1.get m idx).bind fun v1 => (op2.get m idx).map fun v2 => f.apply v1 v2

/-- `Array::operator[](idx) const`: asserts `idx < size()` and asks the
representation. -/
def Rep.index [Add T] [Mul T] (m : Mem T) (rep : Rep) (idx : ℕ) : Except Fault T :=
  (rep.size m).bind fun n => if idx < n then rep.get m idx else .error .assertion

/-- The expressions the four operators can be applied to and yield. -/
inductive Expr : Type where
  /-- an `Array<T>` -/
  | array (a : ArrayId) : Expr
  /-- `scalar + E` and `scalar * E` -/
  | scalarOp (f : FunctionOP) (lhs : ScalarRef) (rhs : Expr) : Expr
  /-- `E + E` and `E * E` -/
  | arrayOp (f : FunctionOP) (lhs rhs : Expr) : Expr
  deriving DecidableEq, Repr

/-- The representation the operators build. -/
def Expr.rep : Expr → Rep
  | .array a => .sarray a
  | .scalarOp f lhs rhs => .binaryOperator f (.scaler lhs) rhs.rep
  | .arrayOp f lhs rhs => .binaryOperator f lhs.rep rhs.rep

/-- The array leaves. -/
def Expr.leaves : Expr → List ArrayId
  | .array a => [a]
  | .scalarOp _ _ rhs => rhs.leaves
  | .arrayOp _ lhs rhs => lhs.leaves ++ rhs.leaves

/-- What the scalar operands refer to. -/
def Expr.scalars : Expr → List ScalarRef
  | .array _ => []
  | .scalarOp _ lhs rhs => lhs :: rhs.scalars
  | .arrayOp _ lhs rhs => lhs.scalars ++ rhs.scalars

/-! ## Assignment -/

/-- `Array::operator=(const Array<T, Expr2>&)`: assert equal sizes, then
`rep_[idx] = rhs[idx]` for each `idx` below `size()`. The loop writes `x` while `rhs`
still refers to it. -/
def assignExpr [Add T] [Mul T] (m : Mem T) (x : ArrayId) (rhs : Rep) : Except Fault (Mem T) :=
  (rhs.size m).bind fun n =>
    if (m.arrays x).length = n then
      forLoop (fun idx m' => (rhs.index m' idx).map fun v =>
        m'.setArray x ((m'.arrays x).set idx v)) (m.arrays x).length 0 m
    else .error .assertion

/-- `Array::operator=(const Array&)`: assert equal sizes, do nothing on
self-assignment, else `SArray::operator=`, which copies element by element. -/
def assignArray (m : Mem T) (x y : ArrayId) : Except Fault (Mem T) :=
  if (m.arrays x).length = (m.arrays y).length then
    if x = y then .ok m
    else forLoop (fun idx m' => (m'.get y idx).map fun v =>
      m'.setArray x ((m'.arrays x).set idx v)) (m.arrays x).length 0 m
  else .error .assertion

/-- `x = e`: overload resolution takes the copy assignment for a plain array and
the element loop for everything else. -/
def assign [Add T] [Mul T] (m : Mem T) (x : ArrayId) : Expr → Except Fault (Mem T)
  | .array y => assignArray m x y
  | e => assignExpr m x e.rep

/-! ## What the assignment is for -/

/-- Eager evaluation: every operator yields a whole array of values. -/
def Expr.eager [Add T] [Mul T] (m : Mem T) : Expr → Except Fault (List T)
  | .array a => .ok (m.arrays a)
  | .scalarOp f lhs rhs =>
    (m.deref lhs).bind fun c => (rhs.eager m).map fun vs => vs.map (f.apply c)
  | .arrayOp f lhs rhs =>
    (lhs.eager m).bind fun us => (rhs.eager m).map fun vs => List.zipWith f.apply us vs

/-- The assignment succeeds, leaves in `x` the eager value of `e` in the memory
before it, and changes nothing else. -/
def AgreesEager [Add T] [Mul T] (m : Mem T) (x : ArrayId) (e : Expr) : Prop :=
  ∃ vs, e.eager m = .ok vs ∧ vs.length = (m.arrays x).length ∧
    assign m x e = .ok (m.setArray x vs)

end ExpressionTemplates

end CppPlayground
