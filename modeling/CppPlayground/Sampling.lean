import Mathlib.Algebra.BigOperators.Group.Finset.Basic
import Mathlib.Data.Finset.Card
import Mathlib.Data.Fintype.Prod

/-!
# Samplers: what is hit equally often

A sampler is a function `f : D → A` on a finite type of draws. It is *uniform on* a set
`X` when it always yields an element of `X` and each of them for the same number of
draws. This is the counting form of a uniform distribution: no probabilities, only
cardinalities.

* `UniformOn.step` — a uniform sampler followed by one more draw is uniform again if
  the step reaches every element of the new set from equally many pairs of an old
  element and a draw.
* `card_pairs_of_undo` — such pairs are counted by the draws for which the step can be
  undone.
-/

namespace Sampling

universe u v w

variable {D : Type u} {A : Type v} {B : Type v} {J : Type w}
variable [Fintype D] [Fintype J] [DecidableEq A] [DecidableEq B]

/-- `f` yields elements of `X` only, and each of them for `count` draws. -/
structure UniformOn (f : D → A) (X : Finset A) (count : ℕ) : Prop where
  mem : ∀ d, f d ∈ X
  card : ∀ a ∈ X, (Finset.univ.filter fun d => f d = a).card = count

/-- The draws may be renamed. -/
theorem UniformOn.comp_equiv {D' : Type w} [Fintype D'] {f : D → A} {X : Finset A} {count : ℕ}
    (hf : UniformOn f X count) (e : D' ≃ D) : UniformOn (fun d => f (e d)) X count where
  mem d := hf.mem (e d)
  card a ha := by
    rw [← hf.card a ha]
    refine Finset.card_equiv e fun d => ?_
    simp

/-- Pairs of a draw and a further draw, counted by what the sampler yields. -/
theorem card_step {f : D → A} {X : Finset A} {count : ℕ} (hf : UniformOn f X count)
    (step : A → J → B) (b : B) :
    (Finset.univ.filter fun p : D × J => step (f p.1) p.2 = b).card =
      ((X ×ˢ Finset.univ).filter fun q : A × J => step q.1 q.2 = b).card * count := by
  classical
  have hmaps : ∀ p ∈ Finset.univ.filter fun p : D × J => step (f p.1) p.2 = b,
      (f p.1, p.2) ∈ (X ×ˢ Finset.univ).filter fun q : A × J => step q.1 q.2 = b := by
    intro p hp
    simpa [hf.mem] using hp
  rw [Finset.card_eq_sum_card_fiberwise hmaps]
  refine Finset.sum_const_nat fun q hq => ?_
  obtain ⟨hq, hstep⟩ := Finset.mem_filter.mp hq
  -- the draws that lead to the pair `q`
  rw [← hf.card q.1 (Finset.mem_product.mp hq).1]
  refine Finset.card_bij (fun p _ => p.1) ?_ ?_ ?_
  · intro p hp
    obtain ⟨-, rfl⟩ := Finset.mem_filter.mp hp
    simp
  · rintro ⟨d, j⟩ hp ⟨d', j'⟩ hp' rfl
    obtain ⟨-, heq⟩ := Finset.mem_filter.mp hp
    obtain ⟨-, heq'⟩ := Finset.mem_filter.mp hp'
    rw [Prod.mk.injEq]
    exact ⟨rfl, (congrArg Prod.snd heq).trans (congrArg Prod.snd heq').symm⟩
  · intro d hd
    obtain ⟨-, hd⟩ := Finset.mem_filter.mp hd
    refine ⟨(d, q.2), ?_, rfl⟩
    simp only [Finset.mem_filter, Finset.mem_univ, true_and]
    exact ⟨hd ▸ hstep, by rw [hd]⟩

/-- **One more draw.** A uniform sampler stays uniform under a step that reaches every
element of `Y` from `ways` pairs. -/
theorem UniformOn.step {f : D → A} {X : Finset A} {Y : Finset B} {count ways : ℕ}
    (hf : UniformOn f X count) (step : A → J → B) (hmem : ∀ a ∈ X, ∀ j, step a j ∈ Y)
    (hways : ∀ b ∈ Y,
      ((X ×ˢ Finset.univ).filter fun q : A × J => step q.1 q.2 = b).card = ways) :
    UniformOn (fun p : D × J => step (f p.1) p.2) Y (ways * count) where
  mem p := hmem (f p.1) (hf.mem p.1) p.2
  card b hb := by rw [card_step hf step b, hways b hb]

omit [DecidableEq A] in
/-- **Counting by undoing.** If the step reaches `b` exactly with the draws in `G`, each
from one element, there are as many pairs as draws in `G`. -/
theorem card_pairs_of_undo {X : Finset A} (step : A → J → B) {b : B} (G : Finset J)
    (undo : J → A) (hmem : ∀ j ∈ G, undo j ∈ X)
    (hstep : ∀ a ∈ X, ∀ j, step a j = b ↔ j ∈ G ∧ a = undo j) :
    ((X ×ˢ Finset.univ).filter fun q : A × J => step q.1 q.2 = b).card = G.card := by
  refine (Finset.card_bij (fun j _ => (undo j, j)) ?_ ?_ ?_).symm
  · intro j hj
    simp only [Finset.mem_filter, Finset.mem_product, Finset.mem_univ, and_true]
    exact ⟨hmem j hj, (hstep _ (hmem j hj) j).mpr ⟨hj, rfl⟩⟩
  · intro j _ j' _ h
    exact congrArg Prod.snd h
  · rintro ⟨a, j⟩ hq
    simp only [Finset.mem_filter, Finset.mem_product, Finset.mem_univ, and_true] at hq
    obtain ⟨hj, rfl⟩ := (hstep a hq.1 j).mp hq.2
    exact ⟨j, hj, rfl⟩

end Sampling
