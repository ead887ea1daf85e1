import Mathlib.Data.List.Basic

/-!
# Flattening tuple types

`flatten_tuple` (`tricks/src/flatten_tuple.cpp`, and again in `sml_examples/src/dump_uml.cpp`)
turns a nested tuple type into one without nesting. Its helper wraps every type that is no tuple
into one and concatenates the results for the elements of a tuple; the outermost type is left
alone if it is no tuple.

A type is a tuple of types, or it is opaque. The helper collects the opaque types from left to
right (`flattenTupleHelper_eq`), whatever the nesting is.
-/

namespace CppPlayground

namespace FlattenTuple

universe u

/-! ## The source -/

/-- A type: an instance of `std::tuple` with its element types, or some other type. -/
inductive Ty (L : Type u) : Type u where
  | leaf (t : L) : Ty L
  | tuple (ts : List (Ty L)) : Ty L

variable {L : Type u}

/-- The element types of `decltype(std::tuple_cat(..))`, from those of the arguments. -/
def tupleCat (tuples : List (List (Ty L))) : List (Ty L) := tuples.flatten

mutual

/-- `flatten_tuple_helper_t<T>`, a tuple in any case: its element types. -/
def flattenTupleHelper : Ty L → List (Ty L)
  | .leaf t => [.leaf t]
  | .tuple ts => tupleCat (flattenTupleHelpers ts)

/-- The pack `flatten_tuple_helper_t<Ts>...`. -/
def flattenTupleHelpers : List (Ty L) → List (List (Ty L))
  | [] => []
  | t :: ts => flattenTupleHelper t :: flattenTupleHelpers ts

end

/-- `flatten_tuple_t<T>`. -/
def flattenTuple : Ty L → Ty L
  | .leaf t => .leaf t
  | .tuple ts => .tuple (flattenTupleHelper (.tuple ts))

/-! ## The leaves -/

mutual

/-- The types in a type that are no tuples, from left to right. -/
def leaves : Ty L → List L
  | .leaf t => [t]
  | .tuple ts => leavesList ts

/-- Those of the elements of a tuple. -/
def leavesList : List (Ty L) → List L
  | [] => []
  | t :: ts => leaves t ++ leavesList ts

end

theorem leavesList_map_leaf (ls : List L) : leavesList (ls.map .leaf) = ls := by
  induction ls with
  | nil => rfl
  | cons l ls ih =>
    rw [List.map_cons, leavesList, ih]
    rfl

mutual

/-- **The helper collects the leaves.** -/
theorem flattenTupleHelper_eq : ∀ ty : Ty L, flattenTupleHelper ty = (leaves ty).map .leaf
  | .leaf t => rfl
  | .tuple ts => by
    rw [flattenTupleHelper, leaves, tupleCat]
    exact flattenTupleHelpers_flatten ts

theorem flattenTupleHelpers_flatten :
    ∀ ts : List (Ty L), (flattenTupleHelpers ts).flatten = (leavesList ts).map .leaf
  | [] => rfl
  | t :: ts => by
    rw [flattenTupleHelpers, List.flatten_cons, leavesList, List.map_append,
      flattenTupleHelper_eq t, flattenTupleHelpers_flatten ts]

end

theorem flattenTuple_tuple_eq (ts : List (Ty L)) :
    flattenTuple (.tuple ts) = .tuple ((leaves (.tuple ts)).map .leaf) := by
  rw [flattenTuple, flattenTupleHelper_eq]

/-- **A type is flattened completely and in order.** A tuple becomes the tuple of its leaves,
another type stays as it is, and flattening twice is flattening once. -/
theorem flattenTuple_spec :
    (∀ ts : List (Ty L), flattenTuple (.tuple ts) = .tuple ((leaves (.tuple ts)).map .leaf)) ∧
    (∀ t : L, flattenTuple (.leaf t) = .leaf t) ∧
    ∀ ty : Ty L, flattenTuple (flattenTuple ty) = flattenTuple ty := by
  refine ⟨flattenTuple_tuple_eq, fun t => rfl, ?_⟩
  intro ty
  cases ty with
  | leaf t => rfl
  | tuple ts =>
    rw [flattenTuple_tuple_eq, flattenTuple_tuple_eq]
    congr 2
    exact leavesList_map_leaf _

/-- The first `static_assert` of the example, with an empty tuple added. -/
example : flattenTuple (.tuple [.leaf 6, .leaf 5, .tuple [.leaf 4, .tuple [.leaf 3], .leaf 2],
    .tuple [], .leaf 1]) = .tuple [.leaf 6, .leaf 5, .leaf 4, .leaf 3, .leaf 2, .leaf 1] := rfl

end FlattenTuple

end CppPlayground
