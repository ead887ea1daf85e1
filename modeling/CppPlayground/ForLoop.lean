import Mathlib.Data.List.Basic

/-!
# Counted loops, and loops that overwrite the array they read

`forLoop body k i s` performs `k` rounds of `body`, numbered `i`, `i + 1`, …, and
stops at the first round that fails. Three rules reason about it: `forLoop_total`
(every round succeeds, so the loop does), `forLoop_invariant` (the loop succeeded,
so every round did) and `forLoop_error` (the loop failed, so one round did).

`mapM_ok` is the corresponding fact about a loop that collects results in a list, and
`foldlM_invariant` the partial rule for one that goes through a list.

`inPlace g` is the loop `for i: xs[i] = g(xs, i)`, whose right-hand side reads the
array being overwritten. Its result is pinned down by *mixed* arrays, new before
`i` and old from `i` on: `inPlace_eq` and `inPlace_spec` say that `zs` is the result
if and only if each `zs[i]` is the right-hand side in the mixed array.
-/

namespace ForLoop

universe u v w

variable {E : Type u} {σ : Type v} {τ : Type w}

/-! ## Counted loops -/

/-- `k` rounds of `body`, numbered from `i`. -/
def forLoop (body : ℕ → σ → Except E σ) : ℕ → ℕ → σ → Except E σ
  | 0, _, s => .ok s
  | k + 1, i, s => (body i s).bind fun s' => forLoop body k (i + 1) s'

variable {body : ℕ → σ → Except E σ}

/-- Inversion for a computation that goes on after `x`. -/
theorem bind_eq_ok {α : Type v} {β : Type w} {x : Except E α} {f : α → Except E β} {b : β}
    (h : x.bind f = .ok b) : ∃ a, x = .ok a ∧ f a = .ok b := by
  cases x with
  | error e => cases h
  | ok a => exact ⟨a, rfl, h⟩

theorem bind_eq_ok_iff {α : Type v} {β : Type w} {x : Except E α} {f : α → Except E β} {b : β} :
    x.bind f = .ok b ↔ ∃ a, x = .ok a ∧ f a = .ok b := by
  refine ⟨bind_eq_ok, ?_⟩
  rintro ⟨a, rfl, h⟩
  exact h

/-- **Total rule.** If every round succeeds and preserves the invariant, the loop
succeeds and ends in the invariant. -/
theorem forLoop_total {I : ℕ → σ → Prop} :
    ∀ {k i : ℕ} {s : σ}, I i s →
      (∀ j s, i ≤ j → j < i + k → I j s → ∃ s', body j s = .ok s' ∧ I (j + 1) s') →
      ∃ s', forLoop body k i s = .ok s' ∧ I (i + k) s' := by
  intro k
  induction k with
  | zero =>
    intro i s hs _
    exact ⟨s, rfl, hs⟩
  | succ k ih =>
    intro i s hs hbody
    obtain ⟨s₁, h₁, hI₁⟩ := hbody i s (Nat.le_refl i) (by omega) hs
    obtain ⟨s', h', hI'⟩ := ih hI₁ fun j t hj hjk => hbody j t (by omega) (by omega)
    refine ⟨s', ?_, ?_⟩
    · rw [forLoop, h₁]
      exact h'
    · rw [show i + (k + 1) = i + 1 + k by omega]
      exact hI'

/-- **Partial rule.** If the loop succeeds, an invariant of the successful rounds
holds at its end. -/
theorem forLoop_invariant {I : ℕ → σ → Prop} :
    ∀ {k i : ℕ} {s s' : σ}, I i s →
      (∀ j s s', i ≤ j → j < i + k → I j s → body j s = .ok s' → I (j + 1) s') →
      forLoop body k i s = .ok s' → I (i + k) s' := by
  intro k
  induction k with
  | zero =>
    intro i s s' hs _ h
    cases h
    exact hs
  | succ k ih =>
    intro i s s' hs hbody h
    obtain ⟨s₁, h₁, hrest⟩ := bind_eq_ok h
    rw [show i + (k + 1) = i + 1 + k by omega]
    exact ih (hbody i s s₁ (Nat.le_refl i) (by omega) hs h₁)
      (fun j t t' hj hjk => hbody j t t' (by omega) (by omega)) hrest

/-- **Failure rule.** If the loop fails, one of its rounds did, in a state that
satisfies an invariant of the successful rounds. -/
theorem forLoop_error {I : ℕ → σ → Prop} {err : E} :
    ∀ {k i : ℕ} {s : σ}, I i s →
      (∀ j s s', i ≤ j → j < i + k → I j s → body j s = .ok s' → I (j + 1) s') →
      forLoop body k i s = .error err →
      ∃ j t, i ≤ j ∧ j < i + k ∧ I j t ∧ body j t = .error err := by
  intro k
  induction k with
  | zero =>
    intro i s _ _ h
    cases h
  | succ k ih =>
    intro i s hs hbody h
    rw [forLoop] at h
    cases hround : body i s with
    | error err' =>
      rw [hround] at h
      cases h
      exact ⟨i, s, Nat.le_refl i, by omega, hs, hround⟩
    | ok s₁ =>
      rw [hround] at h
      obtain ⟨j, t, hj, hjk, ht, hfail⟩ := ih (hbody i s s₁ (Nat.le_refl i) (by omega) hs hround)
        (fun j t t' hj hjk => hbody j t t' (by omega) (by omega)) h
      exact ⟨j, t, by omega, by omega, ht, hfail⟩

/-- A loop on a larger state that only touches the part `φ` embeds. -/
theorem forLoop_map (φ : σ → τ) (f : ℕ → σ → Except E σ) (f' : ℕ → τ → Except E τ)
    (hbody : ∀ i s, f' i (φ s) = (f i s).map φ) :
    ∀ (k i : ℕ) (s : σ), forLoop f' k i (φ s) = (forLoop f k i s).map φ := by
  intro k
  induction k with
  | zero => intro i s; rfl
  | succ k ih =>
    intro i s
    rw [forLoop, forLoop, hbody]
    cases f i s with
    | error e => rfl
    | ok s₁ => exact ih (i + 1) s₁

/-! ## Loops through a list -/

/-- **Partial rule.** What the successful rounds preserve holds at the end. -/
theorem foldlM_invariant {α : Type u} {I : σ → Prop} {f : σ → α → Except E σ} {xs : List α}
    (hround : ∀ {s s' : σ}, ∀ x ∈ xs, I s → f s x = .ok s' → I s') {s s' : σ} (hs : I s)
    (h : xs.foldlM f s = .ok s') : I s' := by
  induction xs generalizing s with
  | nil =>
    cases h
    exact hs
  | cons x xs ih =>
    rw [List.foldlM_cons] at h
    obtain ⟨s₁, h₁, hrest⟩ := bind_eq_ok h
    exact ih (fun y hy => hround y (List.mem_cons_of_mem _ hy))
      (hround x (List.mem_cons_self ..) hs h₁) hrest

/-! ## Loops that collect a result per element -/

/-- If `f` succeeds on every element, collecting its results does. -/
theorem mapM_ok {α : Type u} {β : Type v} {E : Type v} {f : α → Except E β} {g : α → β}
    {xs : List α} (h : ∀ x ∈ xs, f x = .ok (g x)) : xs.mapM f = .ok (xs.map g) := by
  induction xs with
  | nil => rfl
  | cons x xs ih =>
    rw [List.mapM_cons, h x (List.mem_cons_self ..), ih fun y hy => h y (List.mem_cons_of_mem _ hy)]
    rfl

/-! ## Overwriting the array that is being read -/

variable {α : Type v}

/-- `for i in 0 ..< xs.length: xs[i] = g(xs, i)`. -/
def inPlace (g : List α → ℕ → Except E α) (xs : List α) : Except E (List α) :=
  forLoop (fun i ys => (g ys i).map fun v => ys.set i v) xs.length 0 xs

/-- From the boundary on a mixed array is the old one. -/
theorem getElem?_mixed_of_le {xs zs : List α} {i j : ℕ} (hi : i ≤ zs.length) (hij : i ≤ j) :
    (zs.take i ++ xs.drop i)[j]? = xs[j]? := by
  have hmin : (zs.take i).length = i := by
    rw [List.length_take]
    omega
  rw [List.getElem?_append_right (by omega), hmin, List.getElem?_drop,
    Nat.add_sub_cancel' hij]

/-- Before the boundary it is the new one. -/
theorem getElem?_mixed_of_lt {xs zs : List α} {i j : ℕ} (hi : i ≤ zs.length) (hij : j < i) :
    (zs.take i ++ xs.drop i)[j]? = zs[j]? := by
  have hmin : (zs.take i).length = i := by
    rw [List.length_take]
    omega
  rw [List.getElem?_append_left (by omega), List.getElem?_take_of_lt hij]

/-- Overwriting position `i` of a mixed array moves the boundary on. -/
theorem set_take_append_drop {xs zs : List α} (hlen : zs.length = xs.length) {i : ℕ}
    (hi : i < zs.length) :
    (zs.take i ++ xs.drop i).set i zs[i] = zs.take (i + 1) ++ xs.drop (i + 1) := by
  have hi' : i < xs.length := hlen ▸ hi
  have hmin : (zs.take i).length = i := by
    rw [List.length_take]
    omega
  rw [List.set_append_right _ _ (by omega), hmin, Nat.sub_self, List.drop_eq_getElem_cons hi',
    List.set_cons_zero, List.take_succ_eq_append_getElem hi, List.append_assoc]
  rfl

/-- `zs` is the result if each of its elements is the right-hand side in the mixed
array. -/
theorem inPlace_eq {g : List α → ℕ → Except E α} {xs zs : List α}
    (hlen : zs.length = xs.length)
    (h : ∀ (i : ℕ) (hi : i < zs.length), g (zs.take i ++ xs.drop i) i = .ok zs[i]) :
    inPlace g xs = .ok zs := by
  have hloop : ∃ ys, inPlace g xs = .ok ys ∧
      ys = zs.take (0 + xs.length) ++ xs.drop (0 + xs.length) := by
    refine forLoop_total (I := fun i ys => ys = zs.take i ++ xs.drop i) rfl ?_
    rintro j ys - hj rfl
    have hj' : j < zs.length := by omega
    refine ⟨_, ?_, set_take_append_drop hlen hj'⟩
    rw [h j hj']
    rfl
  obtain ⟨ys, hys, rfl⟩ := hloop
  rw [hys]
  simp [← hlen]

/-- What has been overwritten so far: below `j` the elements are the right-hand
sides in the mixed arrays, from `j` on the array is the old one. -/
structure Overwritten (g : List α → ℕ → Except E α) (xs : List α) (j : ℕ) (ys : List α) :
    Prop where
  /-- the length does not change -/
  length_eq : ys.length = xs.length
  /-- the old part -/
  drop_eq : ys.drop j = xs.drop j
  /-- the new part -/
  get_eq : ∀ (i : ℕ) (hi : i < ys.length), i < j → g (ys.take i ++ xs.drop i) i = .ok ys[i]

theorem Overwritten.next {g : List α → ℕ → Except E α} {xs ys : List α} {j : ℕ} {v : α}
    (h : Overwritten g xs j ys) (hj : j < xs.length) (hv : g ys j = .ok v) :
    Overwritten g xs (j + 1) (ys.set j v) where
  length_eq := by rw [List.length_set, h.length_eq]
  drop_eq := by
    rw [List.drop_set_of_lt (Nat.lt_succ_self j)]
    exact (List.drop_drop ..).symm.trans ((congrArg (List.drop 1) h.drop_eq).trans
      (List.drop_drop ..))
  get_eq i hi hij := by
    rw [List.length_set] at hi
    -- a round leaves what stands before its position alone
    rw [List.take_set_of_le (Nat.lt_succ_iff.mp hij)]
    rcases Nat.lt_succ_iff_lt_or_eq.mp hij with hlt | rfl
    · rw [List.getElem_set_ne (Nat.ne_of_gt hlt)]
      exact h.get_eq i hi hlt
    · rw [← h.drop_eq, List.take_append_drop, hv, List.getElem_set_self]

/-- Conversely, each element of the result is the right-hand side in the mixed
array. -/
theorem inPlace_spec {g : List α → ℕ → Except E α} {xs zs : List α}
    (h : inPlace g xs = .ok zs) :
    zs.length = xs.length ∧
      ∀ (i : ℕ) (hi : i < zs.length), g (zs.take i ++ xs.drop i) i = .ok zs[i] := by
  have hI : Overwritten g xs (0 + xs.length) zs := by
    refine forLoop_invariant (I := Overwritten g xs) ⟨rfl, rfl, nofun⟩ ?_ h
    intro j ys ys' _ hj hI hbody
    cases hv : g ys j with
    | error e => rw [hv] at hbody; cases hbody
    | ok v =>
      rw [hv] at hbody
      cases hbody
      exact hI.next (by omega) hv
  refine ⟨hI.length_eq, fun i hi => hI.get_eq i hi ?_⟩
  have := hI.length_eq
  omega

end ForLoop
