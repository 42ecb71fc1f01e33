import Mathlib.Algebra.BigOperators.Intervals
import Mathlib.Algebra.BigOperators.Ring.Finset
import Mathlib.Algebra.Field.Basic
import Mathlib.Data.Nat.Factorial.DoubleFactorial
import Mathlib.Tactic.Ring
import GaussianRadial.ClosedForm

/-!
# Tables of coefficients

The rows of the tables follow one rule each: `outerRows_eq` and `innerRows_eq` give the row of order
`2m` by factorials. `polynomial_map_range` reads nested products as a sum of powers.
-/

namespace GaussianRadial
open scoped Nat

/-- The coefficients of the outer polynomial of order `2m`. -/
def outerRow (m : ℕ) : List ℕ := (List.range (m + 1)).map fun k => m ! / k !

/-- The inner integral of order `2m`. -/
def innerRow (m : ℕ) : InnerRow where
  leading := (2 * m + 1)‼
  coefficients := (List.range (m + 1)).map fun k => (2 * m + 1)‼ / (2 * k + 1)‼ * 2 ^ (k + 1)
  divisor := 2 ^ (m + 2)

/-- The number of orders with a row. -/
def tabulated : ℕ := 8

theorem outerRows_eq : outerRows = (List.range tabulated).map outerRow := by decide +kernel

theorem innerRows_eq : innerRows = (List.range tabulated).map innerRow := by decide +kernel

theorem getElem?_map_range {α : Type} (f : ℕ → α) (n i : ℕ) :
    ((List.range n).map f)[i]? = if i < n then some (f i) else none := by
  rw [List.getElem?_map]
  by_cases inside : i < n
  · rw [if_pos inside, List.getElem?_range inside, Option.map_some]
  · rw [if_neg inside, List.getElem?_eq_none (by rw [List.length_range]; omega), Option.map_none]

theorem outerRows_getElem? (m : ℕ) :
    outerRows[m]? = if m < tabulated then some (outerRow m) else none := by
  rw [outerRows_eq, getElem?_map_range]

theorem innerRows_getElem? (m : ℕ) :
    innerRows[m]? = if m < tabulated then some (innerRow m) else none := by
  rw [innerRows_eq, getElem?_map_range]

theorem doubleFactorial_dvd {k m : ℕ} (le : k ≤ m) : (2 * k + 1)‼ ∣ (2 * m + 1)‼ := by
  induction m, le using Nat.le_induction with
  | base => exact dvd_refl _
  | succ m _ ih =>
    rw [show 2 * (m + 1) + 1 = 2 * m + 1 + 2 by omega, Nat.doubleFactorial_add_two]
    exact Dvd.dvd.mul_left ih _

variable {K : Type} [Field K]

theorem polynomial_cons (c : ℕ) (rest : List ℕ) (v : K) :
    polynomial (c :: rest) v = c + v * polynomial rest v := by
  cases rest with
  | nil => simp [polynomial]
  | cons d rest => rfl

theorem polynomial_map_range (c : ℕ → ℕ) (n : ℕ) (v : K) :
    polynomial ((List.range n).map c) v = ∑ k ∈ Finset.range n, (c k : K) * v ^ k := by
  induction n generalizing c with
  | zero => simp [polynomial]
  | succ n ih =>
    rw [List.range_succ_eq_map, List.map_cons, List.map_map, polynomial_cons, ih,
      Finset.sum_range_succ', Finset.mul_sum, pow_zero, mul_one, add_comm]
    congr 1
    apply Finset.sum_congr rfl
    intro k _
    rw [Function.comp_apply, pow_succ']
    ring

end GaussianRadial
