import Mathlib.Algebra.BigOperators.Intervals
import Mathlib.Algebra.Order.Field.Basic
import Mathlib.Data.Nat.Factorial.Basic
import Mathlib.Tactic.FieldSimp
import Mathlib.Tactic.Linarith
import Mathlib.Tactic.Positivity
import Mathlib.Tactic.Ring
import GaussianRadial.Series

/-!
# The Taylor series

`taylorSeries_eq_sum` reads the loop as an alternating sum. For small arguments its terms decrease,
and an even number of them has a sum that is not negative.
-/

namespace GaussianRadial
open scoped Nat

variable {K : Type} [Field K]

/-- The size of the term of index `n` for `αx² = 1`. -/
def taylorWeight (l n : ℕ) : K := 1 / (((n ! : ℕ) : K) * ((l + 3 + 2 * n : ℕ) : K))

variable [LinearOrder K] [IsStrictOrderedRing K]

theorem taylorSum_eq (square alpha sum : K) (l n count : ℕ) :
    taylorSum square alpha l n (square * ((-alpha * square) ^ n / ((n ! : ℕ) : K))) sum count =
      sum + square * ∑ j ∈ Finset.range count, (-alpha * square) ^ (n + j) /
        ((((n + j) ! : ℕ) : K) * ((l + 3 + 2 * (n + j) : ℕ) : K)) := by
  -- The loop keeps its term at `x² (-αx²)^n / n!`.
  induction count generalizing n sum with
  | zero => simp [taylorSum]
  | succ count ih =>
    have next : square * ((-alpha * square) ^ n / ((n ! : ℕ) : K)) *
        (-alpha * square / ((n + 1 : ℕ) : K)) =
          square * ((-alpha * square) ^ (n + 1) / (((n + 1) ! : ℕ) : K)) := by
      have bottom : ((n ! : ℕ) : K) ≠ 0 := Nat.cast_ne_zero.mpr n.factorial_ne_zero
      rw [Nat.factorial_succ]
      push_cast
      field_simp
      ring
    rw [taylorSum, next, ih, Finset.sum_range_succ', mul_add, add_assoc, mul_div_assoc, div_div]
    simp only [Nat.add_zero, Nat.add_assoc, Nat.add_comm 1]
    ring

theorem taylorSeries_eq_sum (x alpha : K) (l : ℕ) :
    taylorSeries x alpha l =
      x ^ 2 * ∑ n ∈ Finset.range taylorTerms, (-(alpha * x ^ 2)) ^ n * taylorWeight l n := by
  have sum := taylorSum_eq (x * x) alpha 0 l 0 taylorTerms
  simp only [pow_zero, Nat.factorial_zero, Nat.cast_one, div_one, mul_one, zero_add] at sum
  rw [taylorSeries, Nat.cast_zero, sum, ← sq, neg_mul]
  simp only [taylorWeight, mul_one_div]

theorem taylorWeight_pos (l n : ℕ) : 0 < (taylorWeight l n : K) := by
  have bottom : (0 : K) < ((n ! : ℕ) : K) := Nat.cast_pos.mpr n.factorial_pos
  rw [taylorWeight]
  positivity

theorem taylorWeight_succ_le (l n : ℕ) : (taylorWeight l (n + 1) : K) ≤ taylorWeight l n := by
  have bottom : (0 : K) < ((n ! : ℕ) : K) := Nat.cast_pos.mpr n.factorial_pos
  apply one_div_le_one_div_of_le (by positivity)
  have factorials : ((n ! : ℕ) : K) ≤ (((n + 1) ! : ℕ) : K) :=
    Nat.cast_le.mpr (Nat.factorial_le (Nat.le_succ n))
  have orders : ((l + 3 + 2 * n : ℕ) : K) ≤ ((l + 3 + 2 * (n + 1) : ℕ) : K) :=
    Nat.cast_le.mpr (by omega)
  exact mul_le_mul factorials orders (by positivity) (by positivity)

theorem alternating_nonneg {v : K} (nonneg : 0 ≤ v) (le_one : v ≤ 1) (l p : ℕ) :
    0 ≤ ∑ n ∈ Finset.range (2 * p), (-v) ^ n * taylorWeight l n := by
  -- The terms of the indices `2p` and `2p + 1` are not negative together.
  induction p with
  | zero => simp
  | succ p ih =>
    have even : (-v) ^ (2 * p) = v ^ (2 * p) := (even_two_mul p).neg_pow v
    have pair : v * taylorWeight l (2 * p + 1) ≤ taylorWeight l (2 * p) :=
      (mul_le_of_le_one_left (taylorWeight_pos l _).le le_one).trans (taylorWeight_succ_le l _)
    rw [show 2 * (p + 1) = 2 * p + 1 + 1 by omega, Finset.sum_range_succ, Finset.sum_range_succ,
      pow_succ, even, add_assoc]
    apply add_nonneg ih
    calc 0 ≤ v ^ (2 * p) * (taylorWeight l (2 * p) - v * taylorWeight l (2 * p + 1)) :=
          mul_nonneg (pow_nonneg nonneg _) (sub_nonneg.mpr pair)
      _ = _ := by ring

theorem taylorSeries_nonneg {x alpha : K} (nonneg : 0 ≤ alpha * x ^ 2)
    (le_one : alpha * x ^ 2 ≤ 1) (l : ℕ) : 0 ≤ taylorSeries x alpha l := by
  rw [taylorSeries_eq_sum]
  exact mul_nonneg (sq_nonneg x) (alternating_nonneg nonneg le_one l 3)

end GaussianRadial
