import CppPlayground.Sampling
import Mathlib.Data.Fin.Tuple.Finset
import Mathlib.Data.Finset.Powerset
import Mathlib.Data.Fintype.Pi
import Mathlib.Data.Nat.Factorial.Basic

/-!
# Reservoir sampling by value

`reservoir_sampling(n, k)` (`tricks/src/reservoir_sampling.cpp`) keeps a vector of `k`
elements, at first `0, …, k - 1`. In round `i` it draws a `j` of `0, …, i` and, unlike the
textbook algorithm, does not replace slot `j` but the slot that holds the *value* `j`, if
there is one.

Which slot that is depends on all earlier rounds, but as a set the reservoir does not care:
in round `i` the element `j` is exchanged for `i` if it is there (`exchange`). Seen from the
result this can be undone: for each draw `j` outside the new set there is exactly one old
set, and for the others none (`exchange_eq_iff`). So every round reaches every new set from
equally many pairs of an old set and a draw, and all `k`-subsets stay equally frequent
(`reservoirSampling_uniform`).
-/

namespace CppPlayground

namespace ReservoirSampling

open Sampling

/-! ## The function -/

/-- One round: `std::find` for the value `j`, and `*found_iter = i` if it is found. -/
def round (distrib : ℕ → ℕ) (reservoir : List ℕ) (i : ℕ) : List ℕ :=
  reservoir.replace (distrib i % (i + 1)) i

/-- `reservoir_sampling`; `distrib i` is what `distrib()` returns in round `i`. -/
def reservoirSampling (n k : ℕ) (distrib : ℕ → ℕ) : List ℕ :=
  (List.range' k (n - k)).foldl (round distrib) (List.range k)

/-- The draws of `rounds` rounds from round `k` on: in round `k + r` one of `0, …, k + r`. -/
abbrev Draws (k rounds : ℕ) : Type := (r : Fin rounds) → Fin (k + r + 1)

/-- A source of numbers that yields the draws. -/
def Draws.distrib {k rounds : ℕ} (draws : Draws k rounds) (i : ℕ) : ℕ :=
  if h : i - k < rounds then draws ⟨i - k, h⟩ else 0

/-! ## The reservoir as a set -/

/-- What a round does to the set of elements. -/
def exchange (i : ℕ) (S : Finset ℕ) (j : ℕ) : Finset ℕ :=
  if j ∈ S then insert i (S.erase j) else S

theorem replace_cons_of_ne {i j x : ℕ} (h : x ≠ j) (l : List ℕ) :
    (x :: l).replace j i = x :: l.replace j i := by
  have hne : (j == x) = false := beq_false_of_ne h.symm
  rw [List.replace_cons, hne]

/-- On a reservoir without repetitions the first occurrence is the only one. -/
theorem mem_replace {i j : ℕ} {l : List ℕ} (h : l.Nodup) (y : ℕ) :
    y ∈ l.replace j i ↔ (j ∈ l ∧ y = i) ∨ (y ∈ l ∧ y ≠ j) := by
  induction l with
  | nil => simp
  | cons x l ih =>
    obtain ⟨hx, hl⟩ := List.nodup_cons.mp h
    by_cases hxj : x = j
    · subst hxj
      rw [List.replace_cons_self]
      grind
    · rw [replace_cons_of_ne hxj]
      grind

theorem nodup_replace {i j : ℕ} {l : List ℕ} (h : l.Nodup) (hi : i ∉ l) :
    (l.replace j i).Nodup := by
  induction l with
  | nil => exact .nil
  | cons x l ih =>
    obtain ⟨hx, hl⟩ := List.nodup_cons.mp h
    obtain ⟨hix, hil⟩ := not_or.mp (List.mem_cons.not.mp hi)
    by_cases hxj : x = j
    · subst hxj
      rw [List.replace_cons_self]
      exact List.nodup_cons.mpr ⟨hil, hl⟩
    · rw [replace_cons_of_ne hxj, List.nodup_cons, mem_replace hl]
      refine ⟨?_, ih hl hil⟩
      rintro (⟨-, rfl⟩ | ⟨hmem, -⟩)
      · exact hix rfl
      · exact hx hmem

theorem toFinset_replace {i j : ℕ} {l : List ℕ} (h : l.Nodup) :
    (l.replace j i).toFinset = exchange i l.toFinset j := by
  ext y
  rw [List.mem_toFinset, mem_replace h, exchange]
  by_cases hj : j ∈ l
  · simp [hj, and_comm]
  · simp only [hj, false_and, false_or, List.mem_toFinset, if_false, and_iff_left_iff_imp]
    rintro hy rfl
    exact hj hy

/-! ## Undoing a round -/

/-- The set before a round that has drawn `j` and led to `S'`. -/
def undo (i : ℕ) (S' : Finset ℕ) (j : ℕ) : Finset ℕ :=
  if i ∈ S' then insert j (S'.erase i) else S'

/-- **A round can be undone**: with the draw `j` exactly the sets without `j` are reached,
and each of them from one set. -/
theorem exchange_eq_iff {i j : ℕ} {S S' : Finset ℕ} (hi : i ∉ S) :
    exchange i S j = S' ↔ j ∉ S' ∧ S = undo i S' j := by
  constructor
  · rintro rfl
    by_cases hj : j ∈ S
    · have hne : j ≠ i := fun h => hi (h ▸ hj)
      have hi' : i ∉ S.erase j := fun h => hi (Finset.mem_of_mem_erase h)
      rw [exchange, if_pos hj, undo, if_pos (Finset.mem_insert_self i _),
        Finset.erase_insert hi', Finset.insert_erase hj]
      simp [hne]
    · rw [exchange, if_neg hj, undo, if_neg hi]
      exact ⟨hj, rfl⟩
  · rintro ⟨hj, rfl⟩
    by_cases hi' : i ∈ S'
    · have hj' : j ∉ S'.erase i := fun h => hj (Finset.mem_of_mem_erase h)
      rw [undo, if_pos hi', exchange, if_pos (Finset.mem_insert_self j _),
        Finset.erase_insert hj', Finset.insert_erase hi']
    · rw [undo, if_neg hi', exchange, if_neg hj]

/-- The reservoirs of `k` elements out of `0, …, i - 1`. -/
abbrev reservoirs (k i : ℕ) : Finset (Finset ℕ) := (Finset.range i).powersetCard k

theorem not_mem_of_mem_reservoirs {k i : ℕ} {S : Finset ℕ} (hS : S ∈ reservoirs k i) : i ∉ S :=
  fun h => Finset.notMem_range_self ((Finset.mem_powersetCard.mp hS).1 h)

theorem exchange_mem {k i j : ℕ} {S : Finset ℕ} (hS : S ∈ reservoirs k i) :
    exchange i S j ∈ reservoirs k (i + 1) := by
  obtain ⟨hsub, hcard⟩ := Finset.mem_powersetCard.mp hS
  have hsub' : S ⊆ Finset.range (i + 1) := hsub.trans (Finset.range_subset_range.mpr (by omega))
  rw [exchange]
  split
  case isFalse => exact Finset.mem_powersetCard.mpr ⟨hsub', hcard⟩
  case isTrue hj =>
    refine Finset.mem_powersetCard.mpr ⟨?_, ?_⟩
    · exact Finset.insert_subset (Finset.self_mem_range_succ i)
        ((Finset.erase_subset j S).trans hsub')
    · rw [Finset.card_insert_of_notMem fun h =>
        not_mem_of_mem_reservoirs hS (Finset.mem_of_mem_erase h),
        Finset.card_erase_add_one hj, hcard]

theorem undo_mem {k i j : ℕ} {S' : Finset ℕ} (hS' : S' ∈ reservoirs k (i + 1)) (hj : j ∉ S')
    (hji : j < i + 1) : undo i S' j ∈ reservoirs k i := by
  obtain ⟨hsub, hcard⟩ := Finset.mem_powersetCard.mp hS'
  have herase : S'.erase i ⊆ Finset.range i := by
    intro x hx
    obtain ⟨hne, hx⟩ := Finset.mem_erase.mp hx
    have := Finset.mem_range.mp (hsub hx)
    exact Finset.mem_range.mpr (by omega)
  rw [undo]
  split
  case isTrue hi =>
    have hne : j ≠ i := fun h => hj (h ▸ hi)
    refine Finset.mem_powersetCard.mpr ⟨?_, ?_⟩
    · exact Finset.insert_subset (Finset.mem_range.mpr (by omega)) herase
    · rw [Finset.card_insert_of_notMem fun h => hj (Finset.mem_of_mem_erase h),
        Finset.card_erase_add_one hi, hcard]
  case isFalse hi =>
    rw [Finset.erase_eq_of_notMem hi] at herase
    exact Finset.mem_powersetCard.mpr ⟨herase, hcard⟩

/-- There are as many draws outside a reservoir as elements have been left out. -/
theorem card_draws_outside {k i : ℕ} {S' : Finset ℕ} (hS' : S' ∈ reservoirs k (i + 1)) :
    (Finset.univ.filter fun j : Fin (i + 1) => (j : ℕ) ∉ S').card = i + 1 - k := by
  obtain ⟨hsub, hcard⟩ := Finset.mem_powersetCard.mp hS'
  have hcards : (Finset.range (i + 1) \ S').card = i + 1 - k := by
    rw [Finset.card_sdiff_of_subset hsub, Finset.card_range, hcard]
  rw [← hcards]
  refine Finset.card_bij (fun j _ => (j : ℕ)) ?_ ?_ ?_
  · intro j hj
    simp only [Finset.mem_filter, Finset.mem_univ, true_and] at hj
    exact Finset.mem_sdiff.mpr ⟨Finset.mem_range.mpr j.isLt, hj⟩
  · intro j _ j' _ h
    exact Fin.ext h
  · intro j hj
    obtain ⟨hlt, hj⟩ := Finset.mem_sdiff.mp hj
    exact ⟨⟨j, Finset.mem_range.mp hlt⟩, by simpa using hj, rfl⟩

/-- **Every new reservoir is reached in equally many ways.** -/
theorem card_exchanges {k i : ℕ} {S' : Finset ℕ} (hS' : S' ∈ reservoirs k (i + 1)) :
    ((reservoirs k i ×ˢ Finset.univ).filter fun q : Finset ℕ × Fin (i + 1) =>
      exchange i q.1 q.2 = S').card = i + 1 - k := by
  rw [← card_draws_outside hS']
  refine card_pairs_of_undo (fun S (j : Fin (i + 1)) => exchange i S j) _
    (fun j => undo i S' j) ?_ ?_
  · intro j hj
    exact undo_mem hS' (Finset.mem_filter.mp hj).2 j.isLt
  · intro S hS j
    rw [exchange_eq_iff (not_mem_of_mem_reservoirs hS)]
    simp

/-! ## All rounds -/

/-- The reservoir after some rounds with the given draws. -/
def sample (k : ℕ) {rounds : ℕ} (draws : Draws k rounds) : List ℕ :=
  (List.range' k rounds).foldl (round draws.distrib) (List.range k)

/-- All draws but the last. -/
def Draws.init {k rounds : ℕ} (draws : Draws k (rounds + 1)) : Draws k rounds :=
  fun r => draws r.castSucc

theorem distrib_of_lt {k rounds r : ℕ} (draws : Draws k rounds) (h : r < rounds) :
    draws.distrib (k + r) = draws ⟨r, h⟩ := by
  have heq : ∀ (r' : ℕ) (h' : r' < rounds), r' = r →
      (draws ⟨r', h'⟩ : ℕ) = (draws ⟨r, h⟩ : ℕ) := by
    rintro r' h' rfl
    rfl
  rw [Draws.distrib, dif_pos (by omega)]
  exact heq _ _ (by omega)

/-- The last round. -/
theorem sample_succ {k rounds : ℕ} (draws : Draws k (rounds + 1)) :
    sample k draws = (sample k draws.init).replace (draws (Fin.last rounds)) (k + rounds) := by
  have hinit : (List.range' k rounds).foldl (round draws.distrib) (List.range k) =
      sample k draws.init := by
    refine List.foldl_ext _ _ _ fun reservoir i hi => ?_
    obtain ⟨r, hr, rfl⟩ := List.mem_range'.mp hi
    rw [Nat.one_mul, round, round, distrib_of_lt draws (by omega), distrib_of_lt draws.init hr]
    rfl
  rw [sample, List.range'_concat, List.foldl_append, hinit, List.foldl_cons, List.foldl_nil,
    Nat.one_mul, round, distrib_of_lt draws (Nat.lt_succ_self rounds), Nat.mod_eq_of_lt]
  · rfl
  · exact (draws (Fin.last rounds)).isLt

/-- **Distinct elements.** Whatever is drawn, the reservoir holds `k` different numbers
that have been seen. -/
theorem sample_spec {k rounds : ℕ} (draws : Draws k rounds) :
    (sample k draws).length = k ∧ (sample k draws).Nodup ∧
      ∀ x ∈ sample k draws, x < k + rounds := by
  induction rounds with
  | zero =>
    refine ⟨List.length_range, List.nodup_range, fun x hx => ?_⟩
    exact List.mem_range.mp hx
  | succ rounds ih =>
    obtain ⟨hlen, hnodup, hlt⟩ := ih draws.init
    rw [sample_succ]
    refine ⟨List.length_replace.trans hlen, nodup_replace hnodup fun h => ?_, fun x hx => ?_⟩
    · exact Nat.lt_irrefl _ (hlt _ h)
    · rcases (mem_replace hnodup x).mp hx with ⟨-, rfl⟩ | ⟨hx, -⟩
      · omega
      · have := hlt x hx
        omega

/-- A tuple of draws is one of the first rounds and the last draw. -/
def splitLast (k rounds : ℕ) : Draws k (rounds + 1) ≃ Draws k rounds × Fin (k + rounds + 1) :=
  (Fin.snocEquiv fun r : Fin (rounds + 1) => Fin (k + r + 1)).symm.trans (Equiv.prodComm _ _)

/-- **Equal frequency.** As a set, the reservoir is each of the possible ones for
`rounds!` tuples of draws. -/
theorem uniformOn_sample (k rounds : ℕ) :
    UniformOn (fun draws : Draws k rounds => (sample k draws).toFinset)
      (reservoirs k (k + rounds)) rounds.factorial := by
  induction rounds with
  | zero =>
    -- before the first round there is one tuple and one reservoir
    have hone : reservoirs k (k + 0) = {Finset.range k} := by
      conv_rhs => rw [← Finset.powersetCard_self]
      rw [Finset.card_range]
      rfl
    have hsample : ∀ draws : Draws k 0, (sample k draws).toFinset = Finset.range k := by
      intro draws
      ext x
      simp [sample]
    rw [hone]
    refine ⟨fun draws => Finset.mem_singleton.mpr (hsample draws), fun S hS => ?_⟩
    obtain rfl := Finset.mem_singleton.mp hS
    simp [hsample]
  | succ rounds ih =>
    have hstep := ih.step (fun S (j : Fin (k + rounds + 1)) => exchange (k + rounds) S j)
      (fun S hS j => exchange_mem hS) fun S' hS' => card_exchanges hS'
    have hways : k + rounds + 1 - k = rounds + 1 := by omega
    rw [hways, ← Nat.factorial_succ] at hstep
    have heq : (fun draws : Draws k (rounds + 1) => (sample k draws).toFinset) = fun draws =>
        exchange (k + rounds) (sample k (splitLast k rounds draws).1).toFinset
          (splitLast k rounds draws).2 := by
      funext draws
      rw [sample_succ, toFinset_replace (sample_spec draws.init).2.1]
      rfl
    rw [heq]
    exact hstep.comp_equiv (splitLast k rounds)

/-- **`reservoir_sampling` is an unbiased sampler of `k`-subsets.** For every tuple of draws
the result has `k` different elements below `n`, and every set of `k` numbers below `n` is
the set of elements of the result for `(n - k)!` tuples. -/
theorem reservoirSampling_uniform {n k : ℕ} (hk : k ≤ n) :
    (∀ draws : Draws k (n - k),
      (reservoirSampling n k draws.distrib).length = k ∧
      (reservoirSampling n k draws.distrib).Nodup ∧
      ∀ x ∈ reservoirSampling n k draws.distrib, x < n) ∧
    ∀ S ⊆ Finset.range n, S.card = k →
      (Finset.univ.filter fun draws : Draws k (n - k) =>
        (reservoirSampling n k draws.distrib).toFinset = S).card = (n - k).factorial := by
  have hn : k + (n - k) = n := Nat.add_sub_cancel' hk
  refine ⟨fun draws => ?_, fun S hS hcard => ?_⟩
  · have h := sample_spec draws
    rw [hn] at h
    exact h
  · have h := (uniformOn_sample k (n - k)).card S
    rw [hn] at h
    exact h (Finset.mem_powersetCard.mpr ⟨hS, hcard⟩)

/-- Six elements into a reservoir of three: three rounds, and six tuples of draws for each
of the twenty reservoirs. -/
theorem reservoirSampling_uniform_six :
    3 ≤ 6 ∧ (Finset.univ.filter fun draws : Draws 3 (6 - 3) =>
      (reservoirSampling 6 3 draws.distrib).toFinset = {1, 3, 5}).card = 6 :=
  ⟨by decide, (reservoirSampling_uniform (by decide)).2 _ (by decide) (by decide)⟩

end ReservoirSampling

end CppPlayground
