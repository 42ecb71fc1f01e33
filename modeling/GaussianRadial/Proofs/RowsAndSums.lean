import GaussianRadial.Proofs.InnerClosedForm
import GaussianRadial.Proofs.OuterIntegral

/-!
# Rows and finite sums

The rows of the tables are short cuts. For every order that has a row, the row and the finite sum
for general orders are one function of the sample and of the values that stand for `e^(-αx²)` and
`erf (√α x)`, at every sample and not only where a row is used.
-/

namespace GaussianRadial

variable {K : Type} [Field K] [LinearOrder K] [IsStrictOrderedRing K] [Elementary K]
  [ExactElementary K]

theorem innerRow_eq_closedForm {alpha : K} (positive : 0 < alpha) (m : ℕ) (x expa erfa : K) :
    (innerRow m).value (Elementary.sqrt alpha * x) expa erfa /
        Elementary.sqrt alpha ^ (2 * m + 3) =
      closedForm x (Elementary.sqrt alpha) alpha expa erfa (2 * m)
        (closedCoefficients (2 * m)) := by
  rw [closedForm_two_mul positive, ← innerRow_value, mul_one_div]

theorem outerRow_eq_outerPolynomial (m : ℕ) (v : K) :
    polynomial (outerRow m) v = outerPolynomial v m := by
  rw [polynomial_outerRow, outerPolynomial_eq]

/--
The tables hold a row for every even order with `l / 2 < 8`. Over `√α ^ (l + 3)` the row of the
inner integral is the closed form with its coefficients, and the row of the outer integral, times
`e^(-αx²)` and its scale, is what the finite sum gives for it.
-/
theorem rows_eq_sums {l : ℕ} (even : Even l) (inTable : l / 2 < 8) :
    (∃ row, innerRows[l / 2]? = some row ∧ ∀ alpha x expa erfa : K, 0 < alpha →
      row.value (Elementary.sqrt alpha * x) expa erfa / Elementary.sqrt alpha ^ (l + 3) =
        closedForm x (Elementary.sqrt alpha) alpha expa erfa l (closedCoefficients l)) ∧
    ∃ row, outerRows[l / 2]? = some row ∧ ∀ alpha x expa : K,
      polynomial row (alpha * x * x) * expa * (1 / 2 / alpha ^ (l / 2 + 1)) =
        outerPolynomial (alpha * x * x) (l / 2) * expa * (1 / 2 / alpha ^ (l / 2 + 1)) := by
  obtain ⟨m, rfl⟩ := even
  have half : (m + m) / 2 = m := by omega
  have row : m < tabulated := by rwa [half] at inTable
  rw [half, innerRows_getElem?, outerRows_getElem?, if_pos row, if_pos row, ← two_mul]
  refine ⟨⟨_, rfl, ?_⟩, _, rfl, ?_⟩
  · intro alpha x expa erfa positive
    exact innerRow_eq_closedForm positive m x expa erfa
  · intro alpha x expa
    rw [outerRow_eq_outerPolynomial]

theorem rows_eq_sums_fourteen :
    Even 14 ∧ 14 / 2 < 8 ∧
      (∃ row, innerRows[14 / 2]? = some row ∧ ∀ alpha x expa erfa : ℝ, 0 < alpha →
        row.value (√alpha * x) expa erfa / √alpha ^ (14 + 3) =
          closedForm x (√alpha) alpha expa erfa 14 (closedCoefficients 14)) ∧
      ∃ row, outerRows[14 / 2]? = some row ∧ ∀ alpha x expa : ℝ,
        polynomial row (alpha * x * x) * expa * (1 / 2 / alpha ^ (14 / 2 + 1)) =
          outerPolynomial (alpha * x * x) (14 / 2) * expa * (1 / 2 / alpha ^ (14 / 2 + 1)) := by
  have even : Even 14 := by decide
  have inTable : 14 / 2 < 8 := by decide
  exact ⟨even, inTable, rows_eq_sums even inTable⟩

end GaussianRadial
