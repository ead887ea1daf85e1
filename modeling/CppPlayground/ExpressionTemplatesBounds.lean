import CppPlayground.ExpressionTemplatesAssign

/-!
# What the size assertions of an assignment guarantee

In the element loop of `x = e` every array leaf is read through
`SArray::operator[]`, which checks nothing. All that stands between the loop and
storage outside an array are the assertions on sizes: the one of `Array::operator=`
and the one of `BinaryOperator::size`, which reads

    assert(op1_.size() == 0 || op2_.size() || op1_.size() == op2_.size());

The middle condition lacks its `== 0`. What is left of the check compares nothing:
it only rejects a non-empty left operand beside an empty right one. So `size()`
amounts to the size of the leftmost non-empty leaf (`size_cases`), and every other
leaf may be shorter than the target (`reads_outside`). `reads_inside_iff` says for
which trees and sizes the assertions are enough.
-/

namespace CppPlayground

namespace ExpressionTemplates

universe u

open ForLoop

variable {T : Type u} {m : Mem T} {x : ArrayId} {e : Expr} {i : ℕ}

/-! ## What `size()` computes -/

/-- The size of the leftmost non-empty array leaf, `0` if they are all empty. -/
def Expr.firstSize (m : Mem T) (e : Expr) : ℕ :=
  ((e.leaves.map fun a => (m.arrays a).length).find? (· ≠ 0)).getD 0

/-- Some operator of the tree has a non-empty leaf in its left operand and only
empty ones in its right operand. -/
def Expr.Lopsided (m : Mem T) : Expr → Prop
  | .array _ => False
  | .scalarOp _ _ rhs => rhs.Lopsided m
  | .arrayOp _ lhs rhs =>
    lhs.Lopsided m ∨ rhs.Lopsided m ∨
      ((∃ a ∈ lhs.leaves, m.arrays a ≠ []) ∧ ∀ a ∈ rhs.leaves, m.arrays a = [])

theorem firstSize_eq_zero_iff : e.firstSize m = 0 ↔ ∀ a ∈ e.leaves, m.arrays a = [] := by
  rw [Expr.firstSize]
  cases hfind : (e.leaves.map fun a => (m.arrays a).length).find? (· ≠ 0) with
  | none =>
    rw [List.find?_eq_none] at hfind
    simpa using hfind
  | some n =>
    have hn := List.find?_some hfind
    have hmem := List.mem_of_find?_eq_some hfind
    simp only [ne_eq, decide_not, Bool.not_eq_eq_eq_not, Bool.not_true, decide_eq_false_iff_not]
      at hn
    obtain ⟨a, ha, rfl⟩ := List.mem_map.mp hmem
    refine ⟨fun h => absurd h hn, fun h => ?_⟩
    rw [h a ha] at hn
    exact absurd rfl hn

theorem firstSize_array (a : ArrayId) : (Expr.array a).firstSize m = (m.arrays a).length := by
  rw [Expr.firstSize, Expr.leaves, List.map_singleton, List.find?_singleton]
  by_cases ha : (m.arrays a).length = 0
  · rw [if_neg (by simpa using ha), ha]
    rfl
  · rw [if_pos (by simpa using ha)]
    rfl

theorem firstSize_arrayOp (f : FunctionOP) (lhs rhs : Expr) :
    (Expr.arrayOp f lhs rhs).firstSize m =
      if lhs.firstSize m = 0 then rhs.firstSize m else lhs.firstSize m := by
  simp only [Expr.firstSize, Expr.leaves, List.map_append, List.find?_append]
  obtain hfind | ⟨n, hfind⟩ := Option.eq_none_or_eq_some
    ((lhs.leaves.map fun a => (m.arrays a).length).find? (· ≠ 0))
  · simp only [hfind, Option.none_or, Option.getD_none, if_true]
  · have hn := List.find?_some hfind
    simp only [ne_eq, decide_not, Bool.not_eq_eq_eq_not, Bool.not_true, decide_eq_false_iff_not]
      at hn
    simp only [hfind, Option.some_or, Option.getD_some, if_neg hn]

/-- **What the size check sees**: either an operator of the tree is lopsided, and an
assertion fails, or `size()` is the size of the leftmost non-empty leaf. -/
theorem size_cases (m : Mem T) (e : Expr) :
    (e.Lopsided m ∧ e.rep.size m = .error .assertion) ∨
      (¬ e.Lopsided m ∧ e.rep.size m = .ok (e.firstSize m)) := by
  induction e with
  | array a =>
    right
    exact ⟨id, congrArg Except.ok (firstSize_array a).symm⟩
  | scalarOp f lhs rhs ih =>
    -- a scalar counts as size `0` and leaves the size to its sibling
    simpa [Expr.rep, Rep.size, Except.bind, Expr.Lopsided, Expr.firstSize, Expr.leaves] using ih
  | arrayOp f lhs rhs ih₁ ih₂ =>
    have hempty : (∃ a ∈ lhs.leaves, m.arrays a ≠ []) ↔ lhs.firstSize m ≠ 0 := by
      rw [ne_eq, firstSize_eq_zero_iff]
      push Not
      rfl
    simp only [Expr.rep, Rep.size, Expr.Lopsided, hempty, ← firstSize_eq_zero_iff,
      firstSize_arrayOp]
    rcases ih₁ with ⟨hl, h₁⟩ | ⟨hl, h₁⟩
    · left
      simp [hl, h₁, Except.bind]
    · rcases ih₂ with ⟨hr, h₂⟩ | ⟨hr, h₂⟩
      · left
        by_cases h0 : lhs.firstSize m = 0
        · simp [hr, h₁, h₂, h0, Except.bind]
        · simp [hr, h₁, h₂, h0, Except.bind]
      · by_cases h0 : lhs.firstSize m = 0
        · right
          simp [hl, hr, h₁, h₂, h0, Except.bind]
        · -- the assertion only asks whether the right operand is empty
          by_cases h0' : rhs.firstSize m = 0
          · left
            simp [h₁, h₂, h0, h0', Except.bind]
          · right
            simp [hl, hr, h₁, h₂, h0, h0', Except.bind]

/-! ## The reads of the element loop -/

/-- The array elements `operator[](idx)` reads, as pairs of a leaf and an index. -/
def Rep.reads : Rep → ℕ → List (ArrayId × ℕ)
  | .sarray a, idx => [(a, idx)]
  | .scaler _, _ => []
  | .binaryOperator _ op1 op2, idx => op1.reads idx ++ op2.reads idx

/-- The reads of array leaves in the loop of `x = e`. A plain array is copied element
by element, unless it is `x` itself. -/
def assignReads (m : Mem T) (x : ArrayId) : Expr → List (ArrayId × ℕ)
  | .array y => if x = y then [] else (List.range (m.arrays x).length).map fun idx => (y, idx)
  | e => (List.range (m.arrays x).length).flatMap e.rep.reads

/-- A read is inside its array. -/
def Inside (m : Mem T) (r : ArrayId × ℕ) : Prop := r.2 < (m.arrays r.1).length

theorem mem_reads {r : ArrayId × ℕ} : r ∈ e.rep.reads i ↔ r.1 ∈ e.leaves ∧ r.2 = i := by
  induction e with
  | array a => simp [Expr.rep, Rep.reads, Expr.leaves, Prod.ext_iff]
  | scalarOp f lhs rhs ih => simpa [Expr.rep, Rep.reads, Expr.leaves] using ih
  | arrayOp f lhs rhs ih₁ ih₂ =>
    simp only [Expr.rep, Rep.reads, Expr.leaves, List.mem_append, ih₁, ih₂]
    tauto

/-- Each leaf is read at every index below the size of the target. -/
theorem mem_assignReads {a : ArrayId} (hx : e ≠ .array x) :
    (a, i) ∈ assignReads m x e ↔ a ∈ e.leaves ∧ i < (m.arrays x).length := by
  cases e with
  | array y =>
    have hxy : x ≠ y := fun h => hx (h ▸ rfl)
    simp only [assignReads, if_neg hxy, List.mem_map, List.mem_range, Expr.leaves,
      List.mem_singleton, Prod.mk.injEq]
    constructor
    · rintro ⟨j, hj, hy, rfl⟩
      exact ⟨hy.symm, hj⟩
    · rintro ⟨ha, hi⟩
      exact ⟨i, hi, ha.symm, rfl⟩
  | scalarOp f lhs rhs =>
    simp only [assignReads, List.mem_flatMap, List.mem_range, mem_reads]
    constructor
    · rintro ⟨j, hj, ha, rfl⟩
      exact ⟨ha, hj⟩
    · rintro ⟨ha, hi⟩
      exact ⟨i, hi, ha, rfl⟩
  | arrayOp f lhs rhs =>
    simp only [assignReads, List.mem_flatMap, List.mem_range, mem_reads]
    constructor
    · rintro ⟨j, hj, ha, rfl⟩
      exact ⟨ha, hj⟩
    · rintro ⟨ha, hi⟩
      exact ⟨i, hi, ha, rfl⟩

/-- The reads are all inside exactly when no leaf is shorter than the target. -/
theorem assignReads_inside_iff :
    (∀ r ∈ assignReads m x e, Inside m r) ↔
      ∀ a ∈ e.leaves, (m.arrays x).length ≤ (m.arrays a).length := by
  by_cases hx : e = .array x
  · subst hx
    simp [assignReads, Expr.leaves]
  · constructor
    · intro h a ha
      by_contra hlt
      exact Nat.lt_irrefl _
        (h (a, (m.arrays a).length) ((mem_assignReads hx).mpr ⟨ha, by omega⟩))
    · rintro h ⟨a, j⟩ hr
      obtain ⟨ha, hj⟩ := (mem_assignReads hx).mp hr
      exact Nat.lt_of_lt_of_le hj (h a ha)

/-! ## The loop keeps all sizes -/

/-- All arrays have kept their sizes. -/
def SameSizes (m m' : Mem T) : Prop := ∀ a, (m'.arrays a).length = (m.arrays a).length

theorem sameSizes_set {m' : Mem T} (h : SameSizes m m') (idx : ℕ) (v : T) :
    SameSizes m (m'.setArray x ((m'.arrays x).set idx v)) := fun a =>
  (length_setArray List.length_set a).trans (h a)

theorem size_congr {m' : Mem T} (h : SameSizes m m') (rep : Rep) : rep.size m' = rep.size m := by
  induction rep with
  | sarray a => rw [Rep.size, Rep.size, h a]
  | scaler ref => rfl
  | binaryOperator f op1 op2 ih₁ ih₂ => rw [Rep.size, Rep.size, ih₁, ih₂]

/-- Reading an element never fails an assertion. -/
theorem get_ne_assertion (a : ArrayId) : m.get a i ≠ .error .assertion := by
  rw [Mem.get]
  split
  · intro h
    cases h
  · intro h
    cases h

theorem rep_get_ne_assertion [Add T] [Mul T] (rep : Rep) : rep.get m i ≠ .error .assertion := by
  induction rep with
  | sarray a => exact get_ne_assertion a
  | scaler ref =>
    cases ref with
    | object k =>
      intro h
      cases h
    | elem a j => exact get_ne_assertion a
  | binaryOperator f op1 op2 ih₁ ih₂ =>
    rw [Rep.get]
    cases h₁ : op1.get m i with
    | error err =>
      rw [h₁] at ih₁
      simpa [Except.bind] using ih₁
    | ok v1 =>
      cases h₂ : op2.get m i with
      | error err =>
        rw [h₂] at ih₂
        simpa [Except.bind, Except.map] using ih₂
      | ok v2 =>
        intro h
        cases h

/-- One round of a loop that stores in `x` keeps all sizes, -/
theorem sameSizes_round {m' m'' : Mem T} {g : Except Fault T} {idx : ℕ} (h : SameSizes m m')
    (hround : (g.map fun v => m'.setArray x ((m'.arrays x).set idx v)) = .ok m'') :
    SameSizes m m'' := by
  cases g with
  | error err => cases hround
  | ok v =>
    cases hround
    exact sameSizes_set h idx v

/-- and fails only where its right-hand side does. -/
theorem round_error {m' : Mem T} {g : Except Fault T} {idx : ℕ} {err : Fault}
    (hround : (g.map fun v => m'.setArray x ((m'.arrays x).set idx v)) = .error err) :
    g = .error err := by
  cases g with
  | error err' => exact congrArg Except.error (Except.error.inj hround)
  | ok v => cases hround

/-! ## What an element read finds -/

section

variable [Add T] [Mul T]

/-- Inside all leaves the tree has a value, -/
theorem get_ok_of_inside (hscal : ScalarsInBounds m e)
    (hleaf : ∀ a ∈ e.leaves, i < (m.arrays a).length) : ∃ v, e.rep.get m i = .ok v := by
  induction e with
  | array a => exact ⟨_, get_eq_ok (hleaf a (by simp [Expr.leaves]))⟩
  | scalarOp f lhs rhs ih =>
    obtain ⟨c, hc⟩ := deref_ok hscal (c := lhs) (by simp [Expr.scalars])
    obtain ⟨v, hv⟩ := ih (fun a j h => hscal a j (by simp [Expr.scalars, h])) hleaf
    exact ⟨f.apply c v, by simp [Expr.rep, Rep.get, hc, hv, Except.bind, Except.map]⟩
  | arrayOp f lhs rhs ih₁ ih₂ =>
    obtain ⟨u, hu⟩ := ih₁ (fun a j h => hscal a j (by simp [Expr.scalars, h]))
      fun a ha => hleaf a (by simp [Expr.leaves, ha])
    obtain ⟨v, hv⟩ := ih₂ (fun a j h => hscal a j (by simp [Expr.scalars, h]))
      fun a ha => hleaf a (by simp [Expr.leaves, ha])
    exact ⟨f.apply u v, by simp [Expr.rep, Rep.get, hu, hv, Except.bind, Except.map]⟩

/-- and only there. -/
theorem inside_of_get_ok {v : T} (h : e.rep.get m i = .ok v) :
    ∀ a ∈ e.leaves, i < (m.arrays a).length := by
  induction e generalizing v with
  | array a =>
    intro b hb
    obtain rfl : b = a := by simpa [Expr.leaves] using hb
    by_contra hge
    have hnone : (m.arrays b)[i]? = none := List.getElem?_eq_none (by omega)
    simp [Expr.rep, Rep.get, Mem.get, hnone] at h
  | scalarOp f lhs rhs ih =>
    obtain ⟨c, v', -, hv, -⟩ := get_binaryOperator h
    exact ih hv
  | arrayOp f lhs rhs ih₁ ih₂ =>
    obtain ⟨u, v', hu, hv, -⟩ := get_binaryOperator h
    intro a ha
    rcases List.mem_append.mp ha with ha | ha
    · exact ih₁ hu a ha
    · exact ih₂ hv a ha

/-! ## The element loop -/

/-- `x[idx] = g(idx)` for every `idx` below the size of `x`. -/
def elementLoop (m : Mem T) (x : ArrayId) (g : Mem T → ℕ → Except Fault T) : Except Fault (Mem T) :=
  forLoop (fun idx m' => (g m' idx).map fun v => m'.setArray x ((m'.arrays x).set idx v))
    (m.arrays x).length 0 m

variable {g : Mem T → ℕ → Except Fault T}

/-- A loop that reads the tree fails no assertion. -/
theorem elementLoop_ne_assertion
    (hg : ∀ m' idx, SameSizes m m' → idx < (m.arrays x).length → g m' idx = e.rep.get m' idx) :
    elementLoop m x g ≠ .error .assertion := by
  intro h
  obtain ⟨j, t, -, hj, ht, hfail⟩ := forLoop_error (I := fun _ t => SameSizes m t) (fun _ => rfl)
    (fun j t t' _ _ ht hround => sameSizes_round ht hround) h
  have hget := round_error hfail
  rw [hg t j ht (by omega)] at hget
  exact rep_get_ne_assertion e.rep hget

/-- It leaves an array exactly when some leaf is shorter than the target. -/
theorem elementLoop_outOfBounds_iff (hscal : ScalarsInBounds m e)
    (hg : ∀ m' idx, SameSizes m m' → idx < (m.arrays x).length → g m' idx = e.rep.get m' idx) :
    elementLoop m x g = .error .outOfBounds ↔
      ∃ a ∈ e.leaves, (m.arrays a).length < (m.arrays x).length := by
  constructor
  · intro h
    obtain ⟨j, t, -, hj, ht, hfail⟩ := forLoop_error (I := fun _ t => SameSizes m t) (fun _ => rfl)
      (fun j t t' _ _ ht hround => sameSizes_round ht hround) h
    have hget := round_error hfail
    rw [hg t j ht (by omega)] at hget
    by_contra hno
    push Not at hno
    obtain ⟨v, hv⟩ := get_ok_of_inside (m := t) (e := e) (i := j)
      (fun a k hk => (ht a).symm ▸ hscal a k hk) fun a ha => by
        have := hno a ha
        rw [ht a]
        omega
    rw [hv] at hget
    cases hget
  · rintro ⟨a, ha, hlt⟩
    cases hloop : elementLoop m x g with
    | error err =>
      cases err with
      | assertion => exact absurd hloop (elementLoop_ne_assertion hg)
      | outOfBounds => rfl
    | ok m' =>
      -- a completed loop has read every leaf at every index
      have hall := forLoop_invariant
        (I := fun j t => SameSizes m t ∧ ∀ i < j, ∀ a ∈ e.leaves, i < (m.arrays a).length)
        ⟨fun _ => rfl, fun i hi => absurd hi (Nat.not_lt_zero i)⟩
        (fun j t t' _ hj ⟨ht, hread⟩ hround => ?_) hloop
      · have := hall.2 (m.arrays a).length (by omega) a ha
        omega
      · refine ⟨sameSizes_round ht hround, fun i hi b hb => ?_⟩
        rcases Nat.lt_succ_iff_lt_or_eq.mp hi with hi | rfl
        · exact hread i hi b hb
        · rw [hg t i ht (by omega)] at hround
          cases hget : e.rep.get t i with
          | error err => rw [hget] at hround; cases hround
          | ok v => exact (ht b) ▸ inside_of_get_ok hget b hb

/-- Behind the size check the sizes seen by `rhs[idx]` are those the assignment has
compared, so its own `assert(idx < size())` passes. -/
theorem index_eq_get {m' : Mem T} (hsize : e.rep.size m = .ok (m.arrays x).length)
    (hm' : SameSizes m m') {idx : ℕ} (hidx : idx < (m.arrays x).length) :
    e.rep.index m' idx = e.rep.get m' idx := by
  rw [Rep.index, size_congr hm', hsize]
  exact if_pos hidx

/-- The sizes pass both assertions. -/
def SizesPass (m : Mem T) (x : ArrayId) (e : Expr) : Prop :=
  ¬ e.Lopsided m ∧ e.firstSize m = (m.arrays x).length

theorem assignExpr_cases (m : Mem T) (x : ArrayId) (e : Expr) :
    (¬ SizesPass m x e ∧ assignExpr m x e.rep = .error .assertion) ∨
      (SizesPass m x e ∧ ∃ g, (∀ m' idx, SameSizes m m' → idx < (m.arrays x).length →
        g m' idx = e.rep.get m' idx) ∧ assignExpr m x e.rep = elementLoop m x g) := by
  rw [assignExpr]
  rcases size_cases m e with ⟨hl, hsize⟩ | ⟨hl, hsize⟩
  · left
    exact ⟨fun h => h.1 hl, by rw [hsize]; rfl⟩
  · rw [hsize]
    simp only [Except.bind]
    by_cases heq : (m.arrays x).length = e.firstSize m
    · right
      refine ⟨⟨hl, heq.symm⟩, fun m' idx => e.rep.index m' idx, ?_, if_pos heq⟩
      intro m' idx hm' hidx
      exact index_eq_get (hsize.trans (congrArg Except.ok heq.symm)) hm' hidx
    · left
      exact ⟨fun h => heq h.2.symm, if_neg heq⟩

/-- **The assignment in three parts**: a failed size check, the self-assignment that
does nothing, or a loop that reads the tree. -/
theorem assign_cases (m : Mem T) (x : ArrayId) (e : Expr) :
    (¬ SizesPass m x e ∧ assign m x e = .error .assertion) ∨
    (SizesPass m x e ∧ e = .array x ∧ assign m x e = .ok m) ∨
    (SizesPass m x e ∧ e ≠ .array x ∧ ∃ g, (∀ m' idx, SameSizes m m' →
      idx < (m.arrays x).length → g m' idx = e.rep.get m' idx) ∧
        assign m x e = elementLoop m x g) := by
  cases e with
  | scalarOp f lhs rhs =>
    rcases assignExpr_cases m x (.scalarOp f lhs rhs) with h | ⟨hpass, g, hg, h⟩
    · exact .inl h
    · exact .inr (.inr ⟨hpass, by nofun, g, hg, h⟩)
  | arrayOp f lhs rhs =>
    rcases assignExpr_cases m x (.arrayOp f lhs rhs) with h | ⟨hpass, g, hg, h⟩
    · exact .inl h
    · exact .inr (.inr ⟨hpass, by nofun, g, hg, h⟩)
  | array y =>
    -- the copy assignment compares the two sizes itself
    have hpass : SizesPass m x (.array y) ↔ (m.arrays x).length = (m.arrays y).length := by
      rw [SizesPass, firstSize_array]
      exact ⟨fun h => h.2.symm, fun h => ⟨id, h.symm⟩⟩
    by_cases hlen : (m.arrays x).length = (m.arrays y).length
    · by_cases hxy : x = y
      · subst hxy
        exact .inr (.inl ⟨hpass.mpr hlen, rfl, by simp [assign, assignArray]⟩)
      · refine .inr (.inr ⟨hpass.mpr hlen, fun h => hxy (Expr.array.inj h).symm,
          fun m' idx => m'.get y idx, fun _ _ _ _ => rfl, ?_⟩)
        rw [assign, assignArray, if_pos hlen, if_neg hxy]
        rfl
    · exact .inl ⟨fun h => hlen (hpass.mp h), by rw [assign, assignArray, if_neg hlen]⟩

/-- No assertion fails exactly when the sizes pass. -/
theorem assign_ne_assertion_iff (m : Mem T) (x : ArrayId) (e : Expr) :
    assign m x e ≠ .error .assertion ↔ SizesPass m x e := by
  rcases assign_cases m x e with ⟨hpass, h⟩ | ⟨hpass, -, h⟩ | ⟨hpass, -, g, hg, h⟩
  · exact ⟨fun hne => absurd h hne, fun hp => absurd hp hpass⟩
  · rw [h]
    exact ⟨fun _ => hpass, fun _ => by nofun⟩
  · rw [h]
    exact ⟨fun _ => hpass, fun _ => elementLoop_ne_assertion hg⟩

/-- The recorded reads are those of the assignment: it leaves the storage of an
array exactly when no assertion stops it and one of them is outside. -/
theorem assign_outOfBounds_iff (hscal : ScalarsInBounds m e) :
    assign m x e = .error .outOfBounds ↔
      assign m x e ≠ .error .assertion ∧ ∃ r ∈ assignReads m x e, ¬ Inside m r := by
  have hreads : (∃ r ∈ assignReads m x e, ¬ Inside m r) ↔
      ∃ a ∈ e.leaves, (m.arrays a).length < (m.arrays x).length := by
    have := not_congr (assignReads_inside_iff (m := m) (x := x) (e := e))
    simp only [not_forall, exists_prop, Nat.not_le] at this
    exact this
  rw [assign_ne_assertion_iff, hreads]
  rcases assign_cases m x e with ⟨hpass, h⟩ | ⟨hpass, rfl, h⟩ | ⟨hpass, -, g, hg, h⟩
  · rw [h]
    exact ⟨by nofun, fun hp => absurd hp.1 hpass⟩
  · rw [h]
    simp [Expr.leaves]
  · rw [h, elementLoop_outOfBounds_iff hscal hg]
    exact ⟨fun hex => ⟨hpass, hex⟩, fun hex => hex.2⟩

/-- **What the assertions are enough for.** That no assertion of `x = e` fails
implies that every leaf is read inside its array if and only if no leaf is shorter
than `x`, or the mismatch is one of the two that are noticed: an operator with a
non-empty left and an empty right operand, or a leftmost non-empty leaf whose size
is not that of `x`. -/
theorem reads_inside_iff (m : Mem T) (x : ArrayId) (e : Expr) :
    (assign m x e ≠ .error .assertion → ∀ r ∈ assignReads m x e, Inside m r) ↔
      (∀ a ∈ e.leaves, (m.arrays x).length ≤ (m.arrays a).length) ∨
        e.Lopsided m ∨ e.firstSize m ≠ (m.arrays x).length := by
  rw [assign_ne_assertion_iff, assignReads_inside_iff, SizesPass]
  tauto

end

/-- Three elements `1, 2, 3` in array `0`, two elements `4, 5` in array `1`. -/
def unequalMem : Mem ℕ := ⟨fun a => if a = 0 then [1, 2, 3] else [4, 5], fun _ => 0⟩

/-- **The assertions let a short operand through**: with arrays of sizes `3` and `2`
the assignment `x = x + y` fails no assertion and reads `y[2]`. -/
theorem reads_outside :
    assign unequalMem 0 (.arrayOp .plus (.array 0) (.array 1)) ≠ .error .assertion ∧
      (1, 2) ∈ assignReads unequalMem 0 (.arrayOp .plus (.array 0) (.array 1)) ∧
      ¬ Inside unequalMem (1, 2) := by
  refine ⟨?_, by decide, by simp [Inside, unequalMem]⟩
  have h : assign unequalMem 0 (.arrayOp .plus (.array 0) (.array 1)) = .error .outOfBounds := rfl
  rw [h]
  nofun

end ExpressionTemplates

end CppPlayground
