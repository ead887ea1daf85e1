import Mathlib.Algebra.Polynomial.Derivative
import Mathlib.Algebra.Polynomial.Inductions
import Mathlib.Algebra.Polynomial.Roots
import Mathlib.Algebra.Order.Ring.Rat
import Mathlib.Tactic.NormNum
import Mathlib.Tactic.Ring

/-!
# Polynomials from coefficients, and their derivatives

`get_polynomial_functor` (`ceres_solver_examples/include/polynomial.h`) takes the coefficients
of a polynomial, the highest one first, and returns a function that evaluates it.
`get_polynomial_functor_derivative` is to return the derivative, and the residual of the
trajectory generator relies on that.

Both are recursions over the parameter pack. In exact arithmetic the first one evaluates
`toPolynomial`. The second one lowers each exponent but leaves out the factor: what it evaluates
is `Polynomial.divX`, the polynomial without its constant term divided by `X`
(`derivative_eq_divX`). That is the derivative only of a polynomial of degree at most one
(`derivative_iff`).
-/

namespace CppPlayground

namespace PolynomialFunctor

open Polynomial

universe u

variable {R : Type u}

/-! ## The functors -/

section Code

variable [Ring R]

def getPolynomialFunctor : List R → R → R
  | [], _ => 0
  | first :: args, x => first * x ^ args.length + getPolynomialFunctor args x

/-- There is no overload without coefficients. -/
def getPolynomialFunctorDerivative (first : R) : List R → R → R
  | [], _ => 0
  | second :: args, x =>
    first * x ^ ((second :: args).length - 1) + getPolynomialFunctorDerivative second args x

/-- The members of `QuinticTrajectoryGeneratorResidual`. -/
structure Residual (R : Type u) : Type u where
  t : R
  x : R
  dx : R

/-- `operator()`: the two residuals. -/
def Residual.residual (r : Residual R) (a b c d e f : R) : R × R :=
  (r.x - getPolynomialFunctor [a, b, c, d, e, f] r.t,
    r.dx - getPolynomialFunctorDerivative a [b, c, d, e, f] r.t)

/-! ## What they are to compute -/

/-- `c_k` of the coefficients `c_n, …, c_0`, and `0` if there is none. -/
def coefficient : List R → ℕ → R
  | [], _ => 0
  | c :: cs, k => if k = cs.length then c else coefficient cs k

/-- The sum of `k * c_k * x ^ (k - 1)`. -/
def formalDerivative (cs : List R) (x : R) : R :=
  ∑ k ∈ Finset.range cs.length, k * coefficient cs k * x ^ (k - 1)

/-- The polynomial with the coefficients. -/
noncomputable def toPolynomial : List R → R[X]
  | [] => 0
  | c :: cs => C c * X ^ cs.length + toPolynomial cs

theorem coefficient_of_length_le {cs : List R} {k : ℕ} (h : cs.length ≤ k) :
    coefficient cs k = 0 := by
  induction cs with
  | nil => rfl
  | cons c cs ih =>
    have hlt : cs.length < k := h
    rw [coefficient, if_neg hlt.ne', ih hlt.le]

theorem coeff_toPolynomial (cs : List R) (k : ℕ) :
    (toPolynomial cs).coeff k = coefficient cs k := by
  induction cs with
  | nil => exact coeff_zero k
  | cons c cs ih =>
    rw [toPolynomial, coeff_add, coeff_C_mul_X_pow, ih, coefficient]
    by_cases hk : k = cs.length
    · rw [if_pos hk, if_pos hk, coefficient_of_length_le hk.ge, add_zero]
    · rw [if_neg hk, if_neg hk, zero_add]

end Code

section Commutative

variable [CommRing R]

/-- `get_polynomial_functor` evaluates the polynomial. -/
theorem functor_eq_eval (cs : List R) (x : R) :
    getPolynomialFunctor cs x = (toPolynomial cs).eval x := by
  induction cs with
  | nil => exact eval_zero.symm
  | cons c cs ih =>
    rw [getPolynomialFunctor, toPolynomial, ih]
    simp

/-- The sum is the derivative. -/
theorem formalDerivative_eq_eval (cs : List R) (x : R) :
    formalDerivative cs x = (derivative (toPolynomial cs)).eval x := by
  induction cs with
  | nil => simp [formalDerivative, toPolynomial]
  | cons c cs ih =>
    have hlower : ∑ k ∈ Finset.range cs.length, k * coefficient (c :: cs) k * x ^ (k - 1) =
        formalDerivative cs x := by
      refine Finset.sum_congr rfl fun k hk => ?_
      rw [coefficient, if_neg (Finset.mem_range.mp hk).ne]
    rw [formalDerivative, List.length_cons, Finset.sum_range_succ, hlower, ih, coefficient,
      if_pos rfl, toPolynomial, derivative_add, eval_add, derivative_C_mul_X_pow, add_comm]
    simp [mul_comm]

/-- The derivative as the comment in the residual states it. -/
theorem formalDerivative_quintic (a b c d e f t : R) :
    formalDerivative [a, b, c, d, e, f] t =
      5 * a * t ^ 4 + 4 * b * t ^ 3 + 3 * c * t ^ 2 + 2 * d * t + e := by
  simp only [formalDerivative, List.length_cons, List.length_nil, Finset.sum_range_succ,
    Finset.sum_range_zero, coefficient]
  norm_num
  ring

/-- **What `get_polynomial_functor_derivative` computes**: the exponents are lowered, but
there is no factor. -/
theorem derivative_eq_divX (first : R) (args : List R) (x : R) :
    getPolynomialFunctorDerivative first args x = (toPolynomial (first :: args)).divX.eval x := by
  induction args generalizing first with
  | nil => simp [getPolynomialFunctorDerivative, toPolynomial]
  | cons second args ih =>
    have hlength : (second :: args).length ≠ 0 := Nat.succ_ne_zero args.length
    rw [getPolynomialFunctorDerivative, toPolynomial, divX_add, eval_add, ih, divX_C_mul_X_pow,
      if_neg hlength]
    simp

variable [IsDomain R] [CharZero R]

/-- A polynomial without its constant term and divided by `X` is its derivative only if there is
nothing but a linear and a constant term. -/
theorem divX_eq_derivative_iff (p : R[X]) :
    p.divX = derivative p ↔ ∀ k, 2 ≤ k → p.coeff k = 0 := by
  have hcoeff : ∀ k, p.divX.coeff k = (derivative p).coeff k ↔ p.coeff (k + 1) = 0 ∨ k = 0 := by
    intro k
    rw [coeff_divX, coeff_derivative, mul_add, mul_one, right_eq_add, mul_eq_zero,
      Nat.cast_eq_zero]
  rw [Polynomial.ext_iff]
  constructor
  · intro h k hk
    obtain ⟨j, rfl⟩ := Nat.exists_eq_add_of_le' hk
    rcases (hcoeff (j + 1)).mp (h (j + 1)) with hzero | hzero
    · exact hzero
    · cases hzero
  · intro h k
    refine (hcoeff k).mpr ?_
    by_cases hk : k = 0
    · exact .inr hk
    · exact .inl (h (k + 1) (by omega))

/-- **The derivative is right only for linear polynomials.** -/
theorem derivative_iff (first : R) (args : List R) :
    (∀ x, getPolynomialFunctorDerivative first args x = formalDerivative (first :: args) x) ↔
      ∀ k, 2 ≤ k → coefficient (first :: args) k = 0 := by
  have hinf : Infinite R := Infinite.of_injective (Nat.cast : ℕ → R) Nat.cast_injective
  simp only [derivative_eq_divX, formalDerivative_eq_eval, ← coeff_toPolynomial]
  rw [← divX_eq_derivative_iff]
  exact ⟨Polynomial.funext, fun h x => by rw [h]⟩

theorem derivative_iff_linear : (∀ k, 2 ≤ k → coefficient [(3 : ℚ), 5] k = 0) ∧
    ∀ x : ℚ, getPolynomialFunctorDerivative 3 [5] x = formalDerivative [3, 5] x := by
  have hlinear : ∀ k, 2 ≤ k → coefficient [(3 : ℚ), 5] k = 0 :=
    fun k hk => coefficient_of_length_le hk
  exact ⟨hlinear, (derivative_iff 3 [5]).mpr hlinear⟩

/-- Of the square, the functor computes `x` and not `2 * x`. -/
theorem derivative_square : getPolynomialFunctorDerivative (1 : ℚ) [0, 0] 3 = 3 ∧
    formalDerivative [(1 : ℚ), 0, 0] 3 = 6 := by
  norm_num [getPolynomialFunctorDerivative, formalDerivative, coefficient, Finset.sum_range_succ]

/-! ## The residual -/

/-- The second residual is the one its comment states only if the trajectory is linear. -/
theorem residual_iff (a b c d e f : R) :
    (∀ t x dx, (Residual.residual ⟨t, x, dx⟩ a b c d e f).2 =
      dx - (5 * a * t ^ 4 + 4 * b * t ^ 3 + 3 * c * t ^ 2 + 2 * d * t + e)) ↔
        a = 0 ∧ b = 0 ∧ c = 0 ∧ d = 0 := by
  have hcoeff : (∀ k, 2 ≤ k → coefficient [a, b, c, d, e, f] k = 0) ↔
      a = 0 ∧ b = 0 ∧ c = 0 ∧ d = 0 := by
    constructor
    · intro h
      exact ⟨h 5 (by omega), h 4 (by omega), h 3 (by omega), h 2 (by omega)⟩
    · rintro ⟨rfl, rfl, rfl, rfl⟩ k hk
      have h₁ : k ≠ 1 := by omega
      have h₀ : k ≠ 0 := by omega
      simp [coefficient, h₁, h₀]
  rw [← hcoeff, ← derivative_iff]
  simp only [Residual.residual, sub_right_inj, ← formalDerivative_quintic a b c d e f]
  exact ⟨fun h t => h t 0 0, fun h t _ _ => h t⟩

end Commutative

end PolynomialFunctor

end CppPlayground
