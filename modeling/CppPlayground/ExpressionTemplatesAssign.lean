import CppPlayground.ExpressionTemplates

/-!
# When lazy in-place evaluation agrees with eager evaluation

The tree reads every array leaf at the index that is being written and nowhere
else, so overwriting `x` behind the loop index does no harm: the arrays of the
right-hand side may alias the target as often as they like.

The scalar operands are another matter. A `Scaler` keeps a reference, and a
reference to `x[j]` sees the *new* `x[j]` from round `j + 1` on. The assignment
agrees with eager evaluation, for every element type and all contents, exactly
when no scalar operand refers to an element `x[j]` that is followed by another
(`assign_agrees_iff`); `x = x[0] * x` is the smallest case in which it does not
(`assign_scalar_alias`).
-/

namespace CppPlayground

namespace ExpressionTemplates

universe u

open ForLoop

variable {T : Type u} {m : Mem T} {x : ArrayId} {e : Expr} {n : ℕ}

/-! ## The checks pass -/

/-- When all array leaves have size `n`, so has the tree, and no assertion of
`BinaryOperator::size` fails on the way. -/
theorem size_rep (hleaf : ∀ a ∈ e.leaves, (m.arrays a).length = n) : e.rep.size m = .ok n := by
  induction e with
  | array a =>
    have ha := hleaf a (by simp [Expr.leaves])
    simp [Expr.rep, Rep.size, ha]
  | scalarOp f lhs rhs ih =>
    -- a scalar counts as size `0` and leaves the size to its sibling
    simp [Expr.rep, Rep.size, Except.bind, ih hleaf]
  | arrayOp f lhs rhs ih₁ ih₂ =>
    have h₁ := ih₁ fun a ha => hleaf a (by simp [Expr.leaves, ha])
    have h₂ := ih₂ fun a ha => hleaf a (by simp [Expr.leaves, ha])
    by_cases hn : n = 0
    · simp [Expr.rep, Rep.size, Except.bind, h₁, h₂, hn]
    · simp [Expr.rep, Rep.size, Except.bind, h₁, h₂, hn]

theorem get_eq_ok {a : ArrayId} {i : ℕ} (hi : i < (m.arrays a).length) :
    m.get a i = .ok (m.arrays a)[i] := by
  simp [Mem.get, List.getElem?_eq_getElem hi]

/-- A scalar operand refers to something: an object, or an element inside its
array. -/
def ScalarsInBounds (m : Mem T) (e : Expr) : Prop :=
  ∀ a j, .elem a j ∈ e.scalars → j < (m.arrays a).length

theorem deref_ok (hscal : ScalarsInBounds m e) {c : ScalarRef} (hc : c ∈ e.scalars) :
    ∃ v, m.deref c = .ok v := by
  cases c with
  | object k => exact ⟨m.objects k, rfl⟩
  | elem a j => exact ⟨_, get_eq_ok (hscal a j hc)⟩

/-! ## The loop as an in-place update -/

/-- Overwriting `x` with an array of the same length keeps all sizes. -/
theorem length_setArray {ys : List T} (hys : ys.length = (m.arrays x).length) (a : ArrayId) :
    ((m.setArray x ys).arrays a).length = (m.arrays a).length := by
  by_cases ha : a = x
  · rw [ha, Mem.setArray_self, hys]
  · rw [Mem.setArray_ne m ha]

/-- A loop `x[idx] = g(idx)` over memory only touches the elements of `x`. -/
theorem forLoop_setArray (g : Mem T → ℕ → Except Fault T) :
    forLoop (fun idx m' => (g m' idx).map fun v => m'.setArray x ((m'.arrays x).set idx v))
        (m.arrays x).length 0 m =
      (inPlace (fun ys i => g (m.setArray x ys) i) (m.arrays x)).map (m.setArray x) := by
  have hmap := forLoop_map (m.setArray x)
    (fun i ys => (g (m.setArray x ys) i).map fun v => ys.set i v)
    (fun idx m' => (g m' idx).map fun v => m'.setArray x ((m'.arrays x).set idx v))
    (fun i ys => by cases g (m.setArray x ys) i <;> simp [Except.map])
    (m.arrays x).length 0 (m.arrays x)
  rw [Mem.setArray_arrays] at hmap
  exact hmap

/-- In the memory with a mixed `x`, a read at or after the boundary, or of another
array, is a read of the old memory. -/
theorem get_mixed {vs : List T} {a : ArrayId} {i j : ℕ} (hi : i ≤ vs.length)
    (hj : a = x → i ≤ j) :
    (m.setArray x (vs.take i ++ (m.arrays x).drop i)).get a j = m.get a j := by
  by_cases ha : a = x
  · subst ha
    simp only [Mem.get, Mem.setArray_self, getElem?_mixed_of_le hi (hj rfl)]
  · simp only [Mem.get, Mem.setArray_ne m ha]

section

variable [Add T] [Mul T]

/-- Eager evaluation succeeds, and agrees index by index with the lazy tree in the
same memory. -/
theorem eager_ok (hleaf : ∀ a ∈ e.leaves, (m.arrays a).length = n)
    (hscal : ScalarsInBounds m e) :
    ∃ vs, e.eager m = .ok vs ∧ vs.length = n ∧
      ∀ (i : ℕ) (hi : i < vs.length), e.rep.get m i = .ok vs[i] := by
  induction e with
  | array a =>
    have ha := hleaf a (by simp [Expr.leaves])
    exact ⟨m.arrays a, rfl, ha, fun i hi => get_eq_ok hi⟩
  | scalarOp f lhs rhs ih =>
    obtain ⟨c, hc⟩ := deref_ok hscal (c := lhs) (by simp [Expr.scalars])
    obtain ⟨vs, hvs, hlen, hget⟩ := ih hleaf fun a j h => hscal a j (by simp [Expr.scalars, h])
    refine ⟨vs.map (f.apply c), ?_, by simp [hlen], fun i hi => ?_⟩
    · simp [Expr.eager, hc, hvs, Except.bind, Except.map]
    · rw [List.length_map] at hi
      simp [Expr.rep, Rep.get, hc, hget i hi, Except.bind, Except.map]
  | arrayOp f lhs rhs ih₁ ih₂ =>
    obtain ⟨us, hus, hlen₁, hget₁⟩ := ih₁ (fun a ha => hleaf a (by simp [Expr.leaves, ha]))
      fun a j h => hscal a j (by simp [Expr.scalars, h])
    obtain ⟨vs, hvs, hlen₂, hget₂⟩ := ih₂ (fun a ha => hleaf a (by simp [Expr.leaves, ha]))
      fun a j h => hscal a j (by simp [Expr.scalars, h])
    refine ⟨List.zipWith f.apply us vs, ?_, by simp [hlen₁, hlen₂], fun i hi => ?_⟩
    · simp [Expr.eager, hus, hvs, Except.bind, Except.map]
    · rw [List.length_zipWith] at hi
      simp [Expr.rep, Rep.get, hget₁ i (by omega), hget₂ i (by omega), Except.bind, Except.map]

/-- The tree evaluated at `i` only looks at index `i` of its leaves and at its
scalars. -/
theorem get_congr {m' : Mem T} {i : ℕ} (hleaf : ∀ a ∈ e.leaves, m'.get a i = m.get a i)
    (hscal : ∀ c ∈ e.scalars, m'.deref c = m.deref c) :
    e.rep.get m' i = e.rep.get m i := by
  induction e with
  | array a => exact hleaf a (by simp [Expr.leaves])
  | scalarOp f lhs rhs ih =>
    have hc := hscal lhs (by simp [Expr.scalars])
    have hr := ih hleaf fun c h => hscal c (by simp [Expr.scalars, h])
    simp [Expr.rep, Rep.get, hc, hr]
  | arrayOp f lhs rhs ih₁ ih₂ =>
    have h₁ := ih₁ (fun a ha => hleaf a (by simp [Expr.leaves, ha]))
      fun c h => hscal c (by simp [Expr.scalars, h])
    have h₂ := ih₂ (fun a ha => hleaf a (by simp [Expr.leaves, ha]))
      fun c h => hscal c (by simp [Expr.scalars, h])
    simp [Expr.rep, Rep.get, h₁, h₂]

/-- Neither the leaves nor the harmless scalars notice that `x` has been
overwritten below `i`. -/
theorem index_mixed {vs : List T} {i : ℕ}
    (hleaf : ∀ a ∈ e.leaves, (m.arrays a).length = (m.arrays x).length)
    (hsafe : ∀ j, .elem x j ∈ e.scalars → (m.arrays x).length ≤ j + 1)
    (hlen : vs.length = (m.arrays x).length) (hi : i < (m.arrays x).length) :
    e.rep.index (m.setArray x (vs.take i ++ (m.arrays x).drop i)) i = e.rep.get m i := by
  have hmix : (vs.take i ++ (m.arrays x).drop i).length = (m.arrays x).length := by
    simp only [List.length_append, List.length_take, List.length_drop]
    omega
  have hsize := size_rep (m := m.setArray x (vs.take i ++ (m.arrays x).drop i)) fun a ha =>
    (length_setArray hmix a).trans (hleaf a ha)
  rw [Rep.index, hsize]
  simp only [Except.bind, if_pos hi]
  refine get_congr (fun a _ => get_mixed (by omega) fun _ => Nat.le_refl i) fun c hc => ?_
  cases c with
  | object k => rfl
  | elem a j =>
    refine get_mixed (by omega) fun ha => ?_
    subst ha
    have := hsafe j hc
    omega

/-- **Aliasing by leaves is harmless.** If no scalar operand refers to an element
of `x` that is followed by another, the assignment agrees with eager evaluation,
however often `x` itself occurs in the expression. -/
theorem agrees_of_safe
    (hleaf : ∀ a ∈ e.leaves, (m.arrays a).length = (m.arrays x).length)
    (hscal : ScalarsInBounds m e)
    (hsafe : ∀ j, .elem x j ∈ e.scalars → (m.arrays x).length ≤ j + 1) :
    AgreesEager m x e := by
  obtain ⟨vs, hvs, hlen, hget⟩ := eager_ok hleaf hscal
  refine ⟨vs, hvs, hlen, ?_⟩
  have hexpr : assignExpr m x e.rep = .ok (m.setArray x vs) := by
    rw [assignExpr, size_rep hleaf]
    simp only [Except.bind, if_true]
    rw [forLoop_setArray fun m' idx => e.rep.index m' idx, inPlace_eq hlen fun i hi => ?_]
    · rfl
    · exact (index_mixed hleaf hsafe hlen (hlen ▸ hi)).trans (hget i hi)
  cases e with
  | scalarOp f lhs rhs => exact hexpr
  | arrayOp f lhs rhs => exact hexpr
  | array y =>
    -- the copy assignment
    obtain rfl : m.arrays y = vs := Except.ok.inj hvs
    by_cases hxy : x = y
    · subst hxy
      simp [assign, assignArray]
    · rw [assign, assignArray, if_pos hlen.symm, if_neg hxy,
        forLoop_setArray fun m' idx => m'.get y idx, inPlace_eq hlen fun i hi => ?_]
      · rfl
      · rw [get_mixed (by omega) fun h => absurd h.symm hxy]
        exact get_eq_ok hi

end

/-! ## Aliasing by scalars is not

To see that the condition cannot be relaxed, evaluate over formal terms: every
cell of memory holds its own name, so a value tells where it comes from. -/

/-- Formal values: names of cells and the operations applied to them. -/
inductive Term : Type where
  /-- the initial value of a scalar object -/
  | object (k : ℕ) : Term
  /-- the initial value of an array element -/
  | elem (a : ArrayId) (idx : ℕ) : Term
  /-- a sum -/
  | plus (s t : Term) : Term
  /-- a product -/
  | multiplies (s t : Term) : Term
  deriving DecidableEq

instance : Add Term := ⟨Term.plus⟩

instance : Mul Term := ⟨Term.multiplies⟩

/-- The memory with arrays of the given sizes in which every cell holds its own
name. -/
def Mem.symbolic (sz : ArrayId → ℕ) : Mem Term where
  arrays a := (List.range (sz a)).map (Term.elem a)
  objects := Term.object

@[simp] theorem symbolic_length (sz : ArrayId → ℕ) (a : ArrayId) :
    ((Mem.symbolic sz).arrays a).length = sz a := by
  simp [Mem.symbolic]

theorem symbolic_get {sz : ArrayId → ℕ} {a : ArrayId} {j : ℕ} (hj : j < sz a) :
    (Mem.symbolic sz).get a j = .ok (.elem a j) := by
  simp [Mem.get, Mem.symbolic, hj]

theorem apply_inj {f : FunctionOP} {a b a' b' : Term} (h : f.apply a b = f.apply a' b') :
    a = a' ∧ b = b' := by
  cases f with
  | plus => exact ⟨(Term.plus.inj h).1, (Term.plus.inj h).2⟩
  | multiplies => exact ⟨(Term.multiplies.inj h).1, (Term.multiplies.inj h).2⟩

/-- Inversion for the value of an operator node. -/
theorem get_binaryOperator [Add T] [Mul T] {f : FunctionOP} {op1 op2 : Rep} {i : ℕ} {v : T}
    (h : (Rep.binaryOperator f op1 op2).get m i = .ok v) :
    ∃ v1 v2, op1.get m i = .ok v1 ∧ op2.get m i = .ok v2 ∧ v = f.apply v1 v2 := by
  obtain ⟨v1, h1, h⟩ := bind_eq_ok h
  cases h2 : op2.get m i with
  | error err => rw [h2] at h; cases h
  | ok v2 =>
    rw [h2] at h
    exact ⟨v1, v2, h1, rfl, (Except.ok.inj h).symm⟩

/-- Over formal terms the value of a tree determines the values of its scalars. -/
theorem deref_eq_of_get_eq {m m' : Mem Term} {i : ℕ} :
    ∀ {e : Expr} {t : Term}, e.rep.get m i = .ok t → e.rep.get m' i = .ok t →
      ∀ c ∈ e.scalars, m.deref c = m'.deref c := by
  intro e
  induction e with
  | array a =>
    intro t _ _ c hc
    cases hc
  | scalarOp f lhs rhs ih =>
    intro t h h' c hc
    obtain ⟨v1, v2, h1, h2, rfl⟩ := get_binaryOperator h
    obtain ⟨w1, w2, h1', h2', heq⟩ := get_binaryOperator h'
    obtain ⟨rfl, rfl⟩ := apply_inj heq
    rcases List.mem_cons.mp hc with rfl | hc
    · exact h1.trans h1'.symm
    · exact ih h2 h2' c hc
  | arrayOp f lhs rhs ih₁ ih₂ =>
    intro t h h' c hc
    obtain ⟨v1, v2, h1, h2, rfl⟩ := get_binaryOperator h
    obtain ⟨w1, w2, h1', h2', heq⟩ := get_binaryOperator h'
    obtain ⟨rfl, rfl⟩ := apply_inj heq
    rcases List.mem_append.mp hc with hc | hc
    · exact ih₁ h1 h1' c hc
    · exact ih₂ h2 h2' c hc

/-- An expression with a scalar operand is an operation, not a cell. -/
theorem get_ne_elem {m : Mem Term} {e : Expr} {c : ScalarRef} (hc : c ∈ e.scalars) {i j : ℕ}
    {a : ArrayId} : e.rep.get m i ≠ .ok (.elem a j) := by
  intro h
  cases e with
  | array b => cases hc
  | scalarOp f lhs rhs =>
    obtain ⟨v1, v2, -, -, heq⟩ := get_binaryOperator h
    cases f <;> cases heq
  | arrayOp f lhs rhs =>
    obtain ⟨v1, v2, -, -, heq⟩ := get_binaryOperator h
    cases f <;> cases heq

/-- A scalar operand that refers to an element of `x` followed by another sees the
overwritten element in the last round. -/
theorem safe_of_agrees {sz : ArrayId → ℕ} {x : ArrayId} {e : Expr}
    (hleaf : ∀ a ∈ e.leaves, sz a = sz x)
    (hscal : ∀ a j, .elem a j ∈ e.scalars → j < sz a)
    (h : AgreesEager (Mem.symbolic sz) x e) (j : ℕ) (hj : .elem x j ∈ e.scalars) :
    sz x ≤ j + 1 := by
  by_contra hlt
  set m := Mem.symbolic sz with hm
  have hleaf' : ∀ a ∈ e.leaves, (m.arrays a).length = (m.arrays x).length := by
    intro a ha
    rw [hm, symbolic_length, symbolic_length, hleaf a ha]
  have hscal' : ScalarsInBounds m e := by
    intro a k hk
    rw [hm, symbolic_length]
    exact hscal a k hk
  have hlenx : (m.arrays x).length = sz x := symbolic_length sz x
  obtain ⟨vs, hvs, hlen, hassign⟩ := h
  obtain ⟨vs', hvs', -, hget⟩ := eager_ok hleaf' hscal'
  obtain rfl : vs = vs' := Except.ok.inj (hvs.symm.trans hvs')
  -- the element loop has run, and its result is the eager value
  have hloop : inPlace (fun ys i => e.rep.index (m.setArray x ys) i) (m.arrays x) = .ok vs := by
    have hexpr : assignExpr m x e.rep = .ok (m.setArray x vs) := by
      cases e with
      | array a => cases hj
      | scalarOp f lhs rhs => exact hassign
      | arrayOp f lhs rhs => exact hassign
    rw [assignExpr, size_rep hleaf'] at hexpr
    simp only [Except.bind, if_true] at hexpr
    rw [forLoop_setArray fun m' idx => e.rep.index m' idx] at hexpr
    cases hin : inPlace (fun ys i => e.rep.index (m.setArray x ys) i) (m.arrays x) with
    | error err => rw [hin] at hexpr; cases hexpr
    | ok zs =>
      rw [hin] at hexpr
      have hz := congrArg (fun m' : Mem Term => m'.arrays x) (Except.ok.inj hexpr)
      simpa using hz
  obtain ⟨-, hspec⟩ := inPlace_spec hloop
  -- look at the last round
  have hlast : sz x - 1 < vs.length := by omega
  have hmix := hspec (sz x - 1) hlast
  have hmix' : e.rep.get (m.setArray x (vs.take (sz x - 1) ++ (m.arrays x).drop (sz x - 1)))
      (sz x - 1) = .ok vs[sz x - 1] := by
    rw [Rep.index] at hmix
    obtain ⟨k, -, hk⟩ := bind_eq_ok hmix
    split at hk
    · exact hk
    · cases hk
  have hderef := deref_eq_of_get_eq hmix' (hget (sz x - 1) hlast) (.elem x j) hj
  have hjlen : j < vs.length := by omega
  have hnew : vs[j] = .elem x j := by
    have hold : m.get x j = .ok (.elem x j) := symbolic_get (by omega)
    have hread := hderef.trans hold
    simp only [Mem.deref, Mem.get, Mem.setArray_self,
      getElem?_mixed_of_lt (show sz x - 1 ≤ vs.length by omega) (show j < sz x - 1 by omega),
      List.getElem?_eq_getElem hjlen] at hread
    exact Except.ok.inj hread
  exact get_ne_elem hj ((hget j hjlen).trans (congrArg Except.ok hnew))

/-- **Exactly when in-place evaluation is right.** For an expression whose array
leaves all have the size of `x` and whose scalar operands exist, the assignment
`x = e` agrees with eager evaluation for every element type and all contents if
and only if no scalar operand refers to an element of `x` that is followed by
another one. -/
theorem assign_agrees_iff {sz : ArrayId → ℕ} {x : ArrayId} {e : Expr}
    (hleaf : ∀ a ∈ e.leaves, sz a = sz x)
    (hscal : ∀ a j, .elem a j ∈ e.scalars → j < sz a) :
    (∀ (T : Type) [Add T] [Mul T] (m : Mem T), (∀ a, (m.arrays a).length = sz a) →
      AgreesEager m x e) ↔
    ∀ j, .elem x j ∈ e.scalars → sz x ≤ j + 1 := by
  constructor
  · intro h
    exact safe_of_agrees hleaf hscal (h Term (Mem.symbolic sz) (symbolic_length sz))
  · intro hsafe T _ _ m hsz
    refine agrees_of_safe (fun a ha => ?_) (fun a j hj => ?_) fun j hj => ?_
    · rw [hsz, hsz, hleaf a ha]
    · rw [hsz]
      exact hscal a j hj
    · rw [hsz]
      exact hsafe j hj

/-- `c * x + x * y`, as in the example program: the scalar is an object of its
own. -/
def exampleExpr : Expr :=
  .arrayOp .plus (.scalarOp .multiplies (.object 0) (.array 0))
    (.arrayOp .multiplies (.array 0) (.array 1))

/-- Arrays `0, 1, 2, 3, 4` and the scalar `2`. -/
def exampleMem : Mem ℕ := ⟨fun _ => List.range 5, fun _ => 2⟩

theorem assign_agrees_exampleExpr :
    exampleExpr.eager exampleMem = .ok [0, 3, 8, 15, 24] ∧
      AgreesEager exampleMem 0 exampleExpr := by
  have hlen : ∀ a, (exampleMem.arrays a).length = 5 := fun _ => List.length_range
  refine ⟨rfl, (assign_agrees_iff (fun _ _ => rfl) ?_).mpr ?_ ℕ exampleMem hlen⟩
  · intro a j hj
    simp [exampleExpr, Expr.scalars] at hj
  · intro j hj
    simp [exampleExpr, Expr.scalars] at hj

/-- **`x = x[0] * x` does not multiply by `x[0]`**: with `x = 2, 3` the second element
is multiplied by the new `x[0]`, and `12` is stored instead of `6`. -/
theorem assign_scalar_alias :
    (assign (⟨fun _ => [2, 3], fun _ => 0⟩ : Mem ℕ) 0
        (.scalarOp .multiplies (.elem 0 0) (.array 0))).map (fun m => m.arrays 0) = .ok [4, 12] ∧
      (Expr.scalarOp .multiplies (.elem 0 0) (.array 0)).eager
        (⟨fun _ => [2, 3], fun _ => 0⟩ : Mem ℕ) = .ok [4, 6] ∧
      ¬ AgreesEager (⟨fun _ => [2, 3], fun _ => 0⟩ : Mem ℕ) 0
        (.scalarOp .multiplies (.elem 0 0) (.array 0)) := by
  refine ⟨rfl, rfl, ?_⟩
  rintro ⟨vs, hvs, -, hassign⟩
  obtain rfl : [4, 6] = vs := Except.ok.inj hvs
  have h := congrArg (fun r => Except.map (fun m : Mem ℕ => m.arrays 0) r) hassign
  exact absurd (Except.ok.inj h) (by decide)

end ExpressionTemplates

end CppPlayground
