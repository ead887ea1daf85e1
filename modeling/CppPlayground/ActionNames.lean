import CppPlayground.FlattenTuple
import Mathlib.Algebra.Order.BigOperators.Group.List
import Mathlib.Algebra.Order.Ring.Nat
import Mathlib.Data.List.DropRight

/-!
# The names of actions

`dump_transition` (`sml_examples/src/dump_uml.cpp`) prints the actions of a transition. An
action is a leaf, or a `seq_` of two actions, which `operator,` makes. `clean_action_name`
turns a sequence into a tuple, `flatten_tuple` flattens that, and `tuple_types_to_string` joins
the base names of the elements.

The first operand of a sequence is cleaned, the second one is not: it is an element of the tuple
as it is. What is printed are the names of the leaves exactly if no second operand is a sequence
(`printedActions_eq_iff`). Otherwise the full name of a `seq_` is printed, which is longer than
the names of the leaves in it (`weight_le`).
-/

namespace CppPlayground

namespace ActionNames

open FlattenTuple (Ty flattenTuple flattenTuple_tuple_eq leaves leavesList)

universe u

/-! ## Types and their names -/

/-- The type of an action. The operands of `seq_` are wrapped in `zero_wrapper`. -/
inductive Action (L : Type u) : Type u where
  | leaf (l : L) : Action L
  | seq (first last : Action L) : Action L
  deriving DecidableEq, Repr

variable {L : Type u}

def joined (names : List (List Char)) : List Char := [',', ' '].intercalate names

/-- The name of an instance of a class template as it is demangled. -/
def instanceName (template : List Char) (args : List (List Char)) : List Char :=
  template ++ ['<'] ++ joined args ++
    -- two closing brackets are kept apart
    (if (joined args).getLast? = some '>' then [' ', '>'] else ['>'])

def zeroWrapper (name : List Char) : List Char :=
  instanceName "boost::ext::sml::v1_1_3::aux::zero_wrapper".toList [name, "void".toList]

def seqName (first last : List Char) : List Char :=
  instanceName "boost::ext::sml::v1_1_3::front::seq_".toList [zeroWrapper first, zeroWrapper last]

section Names

-- the full names of the leaves
variable (leafName : L → List Char)

/-- `name<T>()` for the type of an action. -/
def Action.name : Action L → List Char
  | .leaf l => leafName l
  | .seq first last => seqName first.name last.name

mutual

/-- `name<T>()`. -/
def typeName : Ty (Action L) → List Char
  | .leaf a => a.name leafName
  | .tuple ts => instanceName "std::tuple".toList (typeNames ts)

def typeNames : List (Ty (Action L)) → List (List Char)
  | [] => []
  | t :: ts => typeName t :: typeNames ts

end

/-- `base_name<T>()`, from the full name. -/
def baseName (fullName : List Char) : List Char :=
  if fullName.getLast? ≠ some '>' then fullName.rtakeWhile (· ≠ ':') else fullName

/-! ## The source -/

/-- `clean_action_name_t<T>`. -/
def cleanActionName : Action L → Ty (Action L)
  | .leaf l => .leaf (.leaf l)
  | .seq rest last => .tuple [cleanActionName rest, .leaf last]

/-- `tuple_types_to_string<T>::value()`. -/
def tupleTypesToString : Ty (Action L) → List Char
  | .leaf a => baseName (a.name leafName)
  | .tuple ts => joined (ts.map fun t => baseName (typeName leafName t))

/-- What `dump_transition` prints for an action. -/
def printedActions (a : Action L) : List Char :=
  tupleTypesToString leafName (flattenTuple (cleanActionName a))

end Names

/-- The leaf actions in the order in which `seq_` calls them. -/
def executed : Action L → List L
  | .leaf l => [l]
  | .seq first last => executed first ++ executed last

/-- What should be printed. -/
def actionList (leafName : L → List Char) (a : Action L) : List Char :=
  joined ((executed a).map fun l => baseName (leafName l))

/-! ## What is printed -/

/-- The elements of the flattened tuple. -/
def elements : Action L → List (Action L)
  | .leaf l => [.leaf l]
  | .seq rest last => elements rest ++ [last]

theorem leaves_cleanActionName (a : Action L) : leaves (cleanActionName a) = elements a := by
  induction a with
  | leaf l => rfl
  | seq rest last ihrest _ =>
    rw [cleanActionName, leaves, leavesList, ihrest]
    rfl

variable {leafName : L → List Char}

theorem printedActions_eq (a : Action L) : printedActions leafName a =
    joined ((elements a).map fun e => baseName (e.name leafName)) := by
  cases a with
  | leaf l => exact (List.intercalate_singleton ..).symm
  | seq rest last =>
    have hclean : cleanActionName (.seq rest last) =
        .tuple [cleanActionName rest, .leaf last] := rfl
    rw [printedActions, hclean, flattenTuple_tuple_eq, ← hclean, leaves_cleanActionName,
      tupleTypesToString, List.map_map]
    rfl

/-- No second operand is a sequence. -/
def LeftNested : Action L → Prop
  | .leaf _ => True
  | .seq _ (.seq _ _) => False
  | .seq first (.leaf _) => LeftNested first

/-- The elements of a tuple are the leaves if no second operand is a sequence. -/
theorem elements_of_leftNested :
    ∀ {a : Action L}, LeftNested a → elements a = (executed a).map .leaf
  | .leaf l, _ => rfl
  | .seq first (.leaf l), h => by
    rw [elements, elements_of_leftNested (show LeftNested first from h), executed,
      List.map_append]
    rfl

/-- Otherwise one of them is a sequence. -/
theorem exists_seq_of_not_leftNested :
    ∀ {a : Action L}, ¬ LeftNested a → ∃ first last, .seq first last ∈ elements a
  | .leaf l, h => absurd trivial h
  | .seq rest (.seq first last), _ =>
    ⟨first, last, List.mem_append_right _ (List.mem_singleton_self _)⟩
  | .seq rest (.leaf l), h => by
    obtain ⟨first, last, hmem⟩ :=
      exists_seq_of_not_leftNested (show ¬ LeftNested rest from h)
    exact ⟨first, last, List.mem_append_left _ hmem⟩

/-! ## How long it is -/

/-- The length of some joined names and a separator after them. -/
def width (names : List (List Char)) : ℕ := (names.map fun n => n.length + 2).sum

theorem length_joined {names : List (List Char)} (h : names ≠ []) :
    (joined names).length + 2 = width names := by
  induction names with
  | nil => exact absurd rfl h
  | cons n names ih =>
    cases names with
    | nil => simp [joined, width]
    | cons m names =>
      have ih := ih (List.cons_ne_nil _ _)
      rw [joined, List.intercalate_cons_cons, List.length_append, List.length_append]
      rw [joined] at ih
      rw [width, List.map_cons, List.sum_cons, ← width, ← ih, List.length_cons,
        List.length_singleton]
      omega

theorem length_baseName_le (fullName : List Char) :
    (baseName fullName).length ≤ fullName.length := by
  rw [baseName]
  split
  · exact (List.rtakeWhile_suffix ..).length_le
  · exact le_rfl

theorem length_seqName (first last : List Char) :
    first.length + last.length + 3 ≤ (seqName first last).length := by
  simp only [seqName, zeroWrapper, instanceName, joined, List.length_append,
    List.intercalate_cons_cons, List.intercalate_singleton, List.length_cons, List.length_nil]
  omega

theorem baseName_seqName (first last : List Char) :
    baseName (seqName first last) = seqName first last := by
  have hend : (seqName first last).getLast? = some '>' := by
    rw [seqName, instanceName]
    split
    · exact List.getLast?_append_of_ne_nil _ (List.cons_ne_nil _ _)
    · exact List.getLast?_append_of_ne_nil _ (List.cons_ne_nil _ _)
  rw [baseName, if_neg (not_not.mpr hend)]

/-- The width of the base names of the leaves of an action. -/
def weight (leafName : L → List Char) (a : Action L) : ℕ :=
  width ((executed a).map fun l => baseName (leafName l))

theorem weight_seq (first last : Action L) :
    weight leafName (.seq first last) = weight leafName first + weight leafName last := by
  simp only [weight, width, executed, List.map_append, List.sum_append]

/-- The full name of an action has room for the base names of its leaves. -/
theorem weight_le (leafName : L → List Char) (a : Action L) :
    weight leafName a ≤ (a.name leafName).length + 2 := by
  induction a with
  | leaf l =>
    have h := length_baseName_le (leafName l)
    simp only [weight, width, executed, List.map_cons, List.map_nil, List.sum_cons,
      List.sum_nil, Action.name]
    omega
  | seq first last ihfirst ihlast =>
    have h := length_seqName (first.name leafName) (last.name leafName)
    rw [weight_seq, Action.name]
    omega

/-- An element of the tuple is printed at least as wide as its leaves, and wider if it is a
sequence. -/
theorem weight_element (e : Action L) :
    weight leafName e ≤ (baseName (e.name leafName)).length + 2 ∧
      ∀ first last, e = .seq first last →
        weight leafName e < (baseName (e.name leafName)).length + 2 := by
  cases e with
  | leaf l =>
    refine ⟨?_, fun _ _ h => by cases h⟩
    simp [weight, width, executed, Action.name]
  | seq first last =>
    have hlt : weight leafName (.seq first last) <
        (baseName ((Action.seq first last).name leafName)).length + 2 := by
      have h := length_seqName (first.name leafName) (last.name leafName)
      have hfirst := weight_le leafName first
      have hlast := weight_le leafName last
      rw [Action.name, baseName_seqName, weight_seq]
      omega
    exact ⟨hlt.le, fun _ _ _ => hlt⟩

theorem width_elements (a : Action L) :
    ((elements a).map (weight leafName)).sum = weight leafName a := by
  induction a with
  | leaf l => rw [elements, List.map_singleton, List.sum_singleton]
  | seq rest last ihrest _ =>
    rw [elements, List.map_append, List.sum_append, ihrest, List.map_singleton,
      List.sum_singleton, weight_seq]

theorem executed_ne_nil (a : Action L) : executed a ≠ [] := by
  induction a with
  | leaf l => exact List.cons_ne_nil _ _
  | seq first last ihfirst _ => exact List.append_ne_nil_of_left_ne_nil ihfirst _

theorem elements_ne_nil (a : Action L) : elements a ≠ [] := by
  cases a with
  | leaf l => exact List.cons_ne_nil _ _
  | seq rest last => exact List.append_ne_nil_of_right_ne_nil _ (List.cons_ne_nil _ _)

/-- If a second operand is a sequence, too much is printed. -/
theorem length_printedActions (leafName : L → List Char) {a : Action L} (h : ¬ LeftNested a) :
    (actionList leafName a).length < (printedActions leafName a).length := by
  obtain ⟨first, last, hmem⟩ := exists_seq_of_not_leftNested h
  have hsum : ((elements a).map (weight leafName)).sum <
      width ((elements a).map fun e => baseName (e.name leafName)) := by
    rw [width, List.map_map]
    apply List.sum_lt_sum
    · intro e _
      exact (weight_element e).1
    · exact ⟨_, hmem, (weight_element _).2 first last rfl⟩
  have hprinted : (joined ((elements a).map fun e => baseName (e.name leafName))).length + 2 = _ :=
    length_joined (by simpa using elements_ne_nil a)
  have hlist : (joined ((executed a).map fun l => baseName (leafName l))).length + 2 = _ :=
    length_joined (by simpa using executed_ne_nil a)
  rw [width_elements, weight] at hsum
  rw [printedActions_eq, actionList]
  omega

/-- **The actions that are executed are printed** exactly if no second operand of a sequence is
a sequence. -/
theorem printedActions_eq_iff (leafName : L → List Char) (a : Action L) :
    printedActions leafName a = actionList leafName a ↔ LeftNested a := by
  constructor
  · intro heq
    by_contra h
    have hlt := length_printedActions leafName h
    rw [heq] at hlt
    exact lt_irrefl _ hlt
  · intro h
    rw [printedActions_eq, elements_of_leftNested h, List.map_map]
    rfl

/-- `(a, (b, c))`: the name of a `seq_` is printed. -/
theorem rightNested_printed :
    printedActions (fun c : Char => [c]) (.seq (.leaf 'a') (.seq (.leaf 'b') (.leaf 'c'))) ≠
      actionList (fun c : Char => [c]) (.seq (.leaf 'a') (.seq (.leaf 'b') (.leaf 'c'))) := by
  decide +kernel

end ActionNames

end CppPlayground
