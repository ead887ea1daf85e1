import Mathlib.Data.List.Dedup

/-!
# Unique types of a type list

`unique_type_list` (`nameof/src/nameof_example.cpp`) takes repeated types out of a type list,
such as an instance of `std::tuple`. It goes through the list from the right and prepends each
type to the result with `concat`, unless the type comes again later.

`concat` has three partial specialisations: it appends types to a list, prepends a type to a
list, or joins two lists. Which one is meant depends on whether the arguments are instances of
class templates, so that a type that is an instance itself is taken for a list. Joining is more
specialised than the other two; between these there is no order, and a use that both match is
ambiguous. The result is what it should be exactly if no type in the list is an instance
(`uniqueTypeList_eq_iff`).
-/

namespace CppPlayground

namespace UniqueTypes

universe u v

/-! ## Types -/

/-- A type: an instance of a class template all of whose parameters are types, or some other
type. A template that is used as a list takes any number of types, as `std::tuple` does: for
one that does not, such as `std::pair`, most of the instances here do not exist. -/
inductive Ty (τ : Type u) (β : Type v) : Type (max u v) where
  | plain (b : β) : Ty τ β
  | inst (template : τ) (args : List (Ty τ β)) : Ty τ β

variable {τ : Type u} {β : Type v}

section DecidableEq

variable [DecidableEq τ] [DecidableEq β]

mutual

def decideEq : (t t' : Ty τ β) → Decidable (t = t')
  | .plain b, .plain b' => decidable_of_iff (b = b') (by rw [Ty.plain.injEq])
  | .plain _, .inst _ _ => isFalse nofun
  | .inst _ _, .plain _ => isFalse nofun
  | .inst m ts, .inst m' ts' =>
    have := decideEqList ts ts'
    decidable_of_iff (m = m' ∧ ts = ts') (by rw [Ty.inst.injEq])

def decideEqList : (ts ts' : List (Ty τ β)) → Decidable (ts = ts')
  | [], [] => isTrue rfl
  | [], _ :: _ => isFalse nofun
  | _ :: _, [] => isFalse nofun
  | t :: ts, t' :: ts' =>
    have := decideEq t t'
    have := decideEqList ts ts'
    decidable_of_iff (t = t' ∧ ts = ts') (by rw [List.cons.injEq])

end

instance : DecidableEq (Ty τ β) := decideEq

end DecidableEq

/-! ## Types and arguments -/

/-- What can be in the list: plain types that were in it before, and the arguments of instances of
the list's template that were. -/
def From (list : τ) (ts : List (Ty τ β)) (t : Ty τ β) : Prop :=
  (∃ b, t = .plain b) ∨ ∃ args, .inst list args ∈ ts ∧ t ∈ args

theorem From.cons {list : τ} {ts : List (Ty τ β)} {t : Ty τ β} (h : From list ts t)
    (t' : Ty τ β) : From list (t' :: ts) t := by
  rcases h with h | ⟨args, hargs, ht⟩
  · exact .inl h
  · exact .inr ⟨args, List.mem_cons_of_mem _ hargs, ht⟩

/-- Types do not go on growing: if every instance in a list is an argument of another one, there is
none. -/
theorem no_instances {list : τ} {ts : List (Ty τ β)}
    (h : ∀ m args, Ty.inst m args ∈ ts → From list ts (.inst m args)) :
    ∀ m args, Ty.inst m args ∉ ts := by
  -- induction on how much smaller the instance is than the whole list
  suffices hsize : ∀ k m args, Ty.inst m args ∈ ts → k + sizeOf (Ty.inst m args) ≠ sizeOf ts by
    intro m args hmem
    have hlt := List.sizeOf_lt_of_mem hmem
    exact hsize _ m args hmem (Nat.sub_add_cancel (Nat.le_of_lt hlt))
  intro k
  induction k using Nat.strongRecOn with
  | ind k ih =>
    intro m args hmem heq
    rcases h m args hmem with ⟨b, hb⟩ | ⟨args', hmem', harg⟩
    · cases hb
    · have hlt : sizeOf (Ty.inst m args) < sizeOf (Ty.inst list args') := by
        have := List.sizeOf_lt_of_mem harg
        rw [Ty.inst.sizeOf_spec list args']
        omega
      have hle := List.sizeOf_lt_of_mem hmem'
      exact ih (sizeOf ts - sizeOf (Ty.inst list args')) (by omega) list args' hmem'
        (Nat.sub_add_cancel (Nat.le_of_lt hle))

/-! ## The source -/

/-- `concat<TypeList<Ts...>, TsNew...>`. -/
def concatAppend : List (Ty τ β) → Option (Ty τ β)
  | .inst list ts :: new => some (.inst list (ts ++ new))
  | _ => none

/-- `concat<T, TypeList<Ts...>>`. -/
def concatPrepend : List (Ty τ β) → Option (Ty τ β)
  | [t, .inst list ts] => some (.inst list (t :: ts))
  | _ => none

variable [DecidableEq τ]

/-- `concat<TypeList<T1s...>, TypeList<T2s...>>`. -/
def concatJoin : List (Ty τ β) → Option (Ty τ β)
  | [.inst list ts, .inst list' ts'] => if list = list' then some (.inst list (ts ++ ts')) else none
  | _ => none

/-- `concat<..>::type`, by the most specialised of the specialisations that match; `none` if there
is none. -/
def concat (args : List (Ty τ β)) : Option (Ty τ β) :=
  match concatJoin args with
  | some t => some t
  | none =>
    match concatAppend args, concatPrepend args with
    | some _, some _ => none -- ambiguous
    | some t, none => some t
    | none, some t => some t
    | none, none => none -- the primary template is not defined

/-! ## Prepending a type -/

theorem concat_plain (b : β) (list : τ) (ts : List (Ty τ β)) :
    concat [.plain b, .inst list ts] = some (.inst list (.plain b :: ts)) :=
  rfl

/-- An instance of the list's own template is joined to the list. -/
theorem concat_self (list : τ) (args ts : List (Ty τ β)) :
    concat [.inst list args, .inst list ts] = some (.inst list (args ++ ts)) := by
  rw [concat, concatJoin, if_pos rfl]

/-- With an instance of another template the use is ambiguous. -/
theorem concat_ne {m list : τ} (h : m ≠ list) (args ts : List (Ty τ β)) :
    concat [.inst m args, .inst list ts] = none := by
  rw [concat, concatJoin, if_neg h]
  rfl

/-- One type is prepended. -/
theorem concat_from {list : τ} {t : Ty τ β} {us ts : List (Ty τ β)} {longer : Ty τ β}
    (hus : ∀ x ∈ us, From list ts x) (h : concat [t, .inst list us] = some longer) :
    ∃ vs, longer = .inst list vs ∧ ∀ x ∈ vs, From list (t :: ts) x := by
  cases t with
  | plain b =>
    rw [concat_plain, Option.some_inj] at h
    refine ⟨_, h.symm, ?_⟩
    intro x hx
    rcases List.mem_cons.mp hx with rfl | hx
    · exact .inl ⟨b, rfl⟩
    · exact (hus x hx).cons _
  | inst m args =>
    by_cases hm : m = list
    · subst hm
      rw [concat_self, Option.some_inj] at h
      refine ⟨_, h.symm, ?_⟩
      intro x hx
      rcases List.mem_append.mp hx with hx | hx
      · exact .inr ⟨args, List.mem_cons_self .., hx⟩
      · exact (hus x hx).cons _
    · rw [concat_ne hm] at h
      cases h

/-! ## The loop over the types -/

variable [DecidableEq β]

/-- `type_in_list<T, Ts...>::value`. -/
def typeInList (t : Ty τ β) (ts : List (Ty τ β)) : Bool :=
  decide (ts.length ≠ 0) && ts.any fun t' => t = t'

/-- `unique_types<Tlist<Ts...>>::type`. Both alternatives of the condition have to be defined. -/
def uniqueTypes (list : τ) : List (Ty τ β) → Option (Ty τ β)
  | [] => some (.inst list [])
  | t :: rest => do
    let unique ← uniqueTypes list rest
    let longer ← concat [t, unique]
    some (if typeInList t rest then unique else longer)

/-- `unique_type_list<T>::type`. -/
def uniqueTypeList : Ty τ β → Option (Ty τ β)
  | .inst list ts => uniqueTypes list ts
  | .plain _ => none

theorem typeInList_iff {t : Ty τ β} {ts : List (Ty τ β)} : typeInList t ts = true ↔ t ∈ ts := by
  cases ts with
  | nil => simp [typeInList]
  | cons t' ts => simp [typeInList]

/-! ## The list that comes out -/

theorem uniqueTypes_from {list : τ} {ts : List (Ty τ β)} :
    ∀ {unique : Ty τ β}, uniqueTypes list ts = some unique →
      ∃ us, unique = .inst list us ∧ ∀ x ∈ us, From list ts x := by
  induction ts with
  | nil =>
    intro unique h
    cases h
    exact ⟨[], rfl, fun x hx => absurd hx List.not_mem_nil⟩
  | cons t rest ih =>
    intro unique h
    simp only [uniqueTypes, Option.bind_eq_bind, Option.bind_eq_some_iff, Option.some_inj] at h
    obtain ⟨shorter, hshorter, longer, hlonger, hunique⟩ := h
    obtain ⟨us, rfl, hus⟩ := ih hshorter
    split at hunique
    · exact ⟨us, hunique.symm, fun x hx => (hus x hx).cons _⟩
    · rw [← hunique]
      exact concat_from hus hlonger

/-- If no type is an instance, exactly the repeated types go away. -/
theorem uniqueTypes_plain {list : τ} {ts : List (Ty τ β)} (h : ∀ t ∈ ts, ∃ b, t = .plain b) :
    uniqueTypes list ts = some (.inst list ts.dedup) := by
  induction ts with
  | nil => rfl
  | cons t rest ih =>
    obtain ⟨b, rfl⟩ := h t (List.mem_cons_self ..)
    have hrest := ih fun t' ht' => h t' (List.mem_cons_of_mem _ ht')
    rw [uniqueTypes, hrest, Option.bind_eq_bind, Option.bind_some, concat_plain, Option.bind_some]
    by_cases hmem : Ty.plain b ∈ rest
    · rw [if_pos (typeInList_iff.mpr hmem), List.dedup_cons_of_mem hmem]
    · rw [if_neg (mt typeInList_iff.mp hmem), List.dedup_cons_of_notMem hmem]

/-- **Exactly the repeated types go away**, and the others keep the order of their last
occurrences, if and only if no type in the list is an instance of a class template. -/
theorem uniqueTypeList_eq_iff (list : τ) (ts : List (Ty τ β)) :
    uniqueTypeList (.inst list ts) = some (.inst list ts.dedup) ↔
      ∀ t ∈ ts, ∃ b, t = .plain b := by
  constructor
  · intro h t ht
    obtain ⟨us, hus, hfrom⟩ := uniqueTypes_from h
    obtain rfl : ts.dedup = us := by cases hus; rfl
    cases t with
    | plain b => exact ⟨b, rfl⟩
    | inst m args =>
      have hnone : ∀ m args, Ty.inst m args ∉ ts :=
        no_instances fun m args hmem => hfrom _ (List.mem_dedup.mpr hmem)
      exact absurd ht (hnone m args)
  · intro h
    exact uniqueTypes_plain h

/-- `std::tuple<std::tuple<int>, double>` loses the inner tuple, and
`std::tuple<std::vector<int>>` is ambiguous. -/
theorem instances_spliced :
    uniqueTypeList (.inst 0 [.inst 0 [.plain "int"], .plain "double"]) =
        some (.inst 0 [.plain "int", .plain "double"]) ∧
      uniqueTypeList (.inst 0 [.inst 0 [.plain "int"], .plain "double"]) ≠
        some (.inst 0 [.inst 0 [.plain "int"], .plain "double"].dedup) ∧
      uniqueTypeList (.inst 0 [.inst 1 [.plain "int"]]) = (none : Option (Ty ℕ String)) := by
  decide

end UniqueTypes

end CppPlayground
