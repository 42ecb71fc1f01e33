import GaussianRadial.Proofs.RealArithmetic
import GaussianRadial.Proofs.Samples
import GaussianRadial.Proofs.Tables

/-!
# The outer integral

In exact arithmetic the rows of the table and the finite sum are one polynomial, `exponentialSum`.
`outerIntegral_recurrence` is integration by parts, from each even order to the next.
-/

namespace GaussianRadial
open scoped Nat

variable {K : Type} [Field K]

/-- `Σ v^k · m! / k!` for `k = 0, …, m`. -/
def exponentialSum (m : ℕ) (v : K) : K :=
  ∑ k ∈ Finset.range (m + 1), v ^ k * ((m ! : ℕ) : K) / ((k ! : ℕ) : K)

theorem outerSum_eq (v top sum : K) (k count : ℕ) :
    outerSum v top k (v ^ k) ((k ! : ℕ) : K) sum count =
      sum + ∑ j ∈ Finset.range count, v ^ (k + j) * top / (((k + j) ! : ℕ) : K) := by
  -- The loop keeps its power at `v ^ k` and its factorial at `k !`.
  induction count generalizing k sum with
  | zero => simp [outerSum]
  | succ count ih =>
    have power : v ^ k * v = v ^ (k + 1) := (pow_succ v k).symm
    have bottom : ((k ! : ℕ) : K) * ((k + 1 : ℕ) : K) = (((k + 1) ! : ℕ) : K) := by
      rw [Nat.factorial_succ, Nat.mul_comm, Nat.cast_mul]
    rw [outerSum, power, bottom, ih, Finset.sum_range_succ', add_assoc, add_comm (_ / _)]
    simp only [Nat.add_zero, Nat.add_assoc, Nat.add_comm 1]

theorem exponentialSum_at_zero (m : ℕ) : exponentialSum m (0 : K) = ((m ! : ℕ) : K) := by
  rw [exponentialSum, Finset.sum_range_succ', Finset.sum_eq_zero]
  · simp
  · intro k _
    simp

variable [LinearOrder K] [IsStrictOrderedRing K]

theorem factorial_cast_ne_zero (n : ℕ) : ((n ! : ℕ) : K) ≠ 0 :=
  Nat.cast_ne_zero.mpr n.factorial_ne_zero

theorem exponentialSum_zero (v : K) : exponentialSum 0 v = 1 := by
  simp [exponentialSum]

theorem exponentialSum_succ (m : ℕ) (v : K) :
    exponentialSum (m + 1) v = v ^ (m + 1) + (m + 1) * exponentialSum m v := by
  have top : v ^ (m + 1) * (((m + 1) ! : ℕ) : K) / (((m + 1) ! : ℕ) : K) = v ^ (m + 1) :=
    mul_div_cancel_right₀ _ (factorial_cast_ne_zero _)
  rw [exponentialSum, Finset.sum_range_succ, top, add_comm, exponentialSum, Finset.mul_sum]
  congr 1
  apply Finset.sum_congr rfl
  intro k _
  rw [Nat.factorial_succ, Nat.cast_mul, Nat.cast_succ]
  ring

theorem polynomial_outerRow (m : ℕ) (v : K) : polynomial (outerRow m) v = exponentialSum m v := by
  rw [outerRow, polynomial_map_range, exponentialSum]
  apply Finset.sum_congr rfl
  intro k member
  have le : k ≤ m := Finset.mem_range_succ_iff.mp member
  rw [Nat.cast_div (Nat.factorial_dvd_factorial le) (factorial_cast_ne_zero k)]
  ring

variable [Elementary K] [ExactElementary K]

omit [IsStrictOrderedRing K] in
theorem outerPolynomial_eq (v : K) (m : ℕ) : outerPolynomial v m = exponentialSum m v := by
  have sum := outerSum_eq v ((m ! : ℕ) : K) 0 0 (m + 1)
  simp only [pow_zero, Nat.factorial_zero, Nat.cast_one, zero_add] at sum
  rw [outerPolynomial, factorial_eq, Nat.cast_one, Nat.cast_zero, sum, exponentialSum]

theorem outerAt_two_mul (alpha : K) (m : ℕ) (x expa : K) :
    outerAt alpha (2 * m) x expa =
      exponentialSum m (alpha * x * x) * expa * (1 / 2 / alpha ^ (m + 1)) := by
  have half : 2 * m / 2 = m := by omega
  simp only [outerAt, half, outerRows_getElem?]
  by_cases row : m < tabulated
  · simp [row, polynomial_outerRow]
  · simp [row, outerPolynomial_eq]

theorem outerAt_succ {alpha : K} (positive : 0 < alpha) (m : ℕ) (x expa : K) :
    outerAt alpha (2 * (m + 1)) x expa =
      x ^ (2 * (m + 1)) * expa / (2 * alpha) + (m + 1) / alpha * outerAt alpha (2 * m) x expa := by
  have power : (alpha * x * x) ^ (m + 1) = alpha ^ (m + 1) * x ^ (2 * (m + 1)) := by ring
  rw [outerAt_two_mul, outerAt_two_mul, exponentialSum_succ, power]
  field_simp
  ring

omit [IsStrictOrderedRing K] in
theorem outerOrigin_two_mul {alpha : K} (positive : 0 < alpha) (m : ℕ) :
    outerOrigin alpha ((2 * m : ℕ) : ℤ) = .ok (((m ! : ℕ) : K) / (2 * alpha ^ (m + 1))) := by
  have half : 2 * m / 2 = m := by omega
  have checked : checkOrder alpha ((2 * m : ℕ) : ℤ) = .ok () :=
    checkOrder_ok_iff.mpr ⟨by simp, by omega, by rwa [Nat.cast_zero]⟩
  simp only [outerOrigin, bind_ok_unit_iff]
  refine ⟨checked, ?_⟩
  rw [Int.toNat_natCast, half, factorial_eq, Nat.cast_ofNat]
  rfl

/--
Integration by parts takes the outer integral from each even order to the next, whatever value
stands for `e^(-αx²)`.
-/
theorem outerIntegral_recurrence {output samples expas : List K} {i : ℕ} {x expa alpha : K}
    (sample : OuterSample output samples expas i x expa) (positive : 0 < alpha) :
    Writes output (outerIntegral samples expas alpha 0) i (expa / (2 * alpha)) ∧
      ∀ l : ℕ, Even l → 2 ≤ l → ∃ lower,
        Writes output (outerIntegral samples expas alpha (l - 2)) i lower ∧
        Writes output (outerIntegral samples expas alpha l) i
          (x ^ l * expa / (2 * alpha) + l / 2 / alpha * lower) := by
  constructor
  · apply (writes_outer_two_mul sample positive 0 _).mpr
    rw [outerAt_two_mul, exponentialSum_zero]
    field_simp
    ring
  · intro l even two_le
    obtain ⟨m, rfl, shift⟩ := exists_even_order even two_le
    refine ⟨outerAt alpha (2 * m) x expa, ?_, ?_⟩
    · rw [shift, writes_outer_two_mul sample positive]
    · rw [writes_outer_two_mul sample positive, outerAt_succ positive]
      push_cast
      ring

theorem outerIntegral_recurrence_sixteen :
    OuterSample [0] [2] [5] 0 (2 : ℝ) 5 ∧ (0 : ℝ) < 3 ∧ ∃ lower,
      Writes [0] (outerIntegral [2] [5] (3 : ℝ) 14) 0 lower ∧
      Writes [0] (outerIntegral [2] [5] (3 : ℝ) 16) 0 (2 ^ 16 * 5 / (2 * 3) + 16 / 2 / 3 * lower) := by
  have sample : OuterSample [0] [2] [5] 0 (2 : ℝ) 5 := ⟨rfl, rfl, rfl, rfl⟩
  have positive : (0 : ℝ) < 3 := by norm_num
  have step := (outerIntegral_recurrence sample positive).2 16 (by decide) (by decide)
  exact ⟨sample, positive, mod_cast step⟩

end GaussianRadial
