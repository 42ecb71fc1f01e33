import GaussianRadial.Proofs.SeriesConvergence

/-!
# Truncation of the positive series

Where the convergence test ends the positive series, the sum so far is all but a small part of every
longer one: `positiveSeries_truncation`. In the range of the series the terms after the last one fall
at least as fast as powers of a fixed ratio below 1, although the terms before it may have grown.
-/

namespace GaussianRadial

variable {K : Type} [Field K]

/-! ### Terms as quotients -/

/-- The product `(l + 3) (l + 5) ⋯ (l + 3 + 2k)`. -/
def termDivisor (l k : ℕ) : ℕ := ∏ i ∈ Finset.range (k + 1), (l + 3 + 2 * i)

theorem termDivisor_succ (l k : ℕ) :
    termDivisor l (k + 1) = termDivisor l k * (l + 3 + 2 * (k + 1)) :=
  Finset.prod_range_succ _ _

theorem positiveTerm_eq_div (z : K) (l k : ℕ) :
    positiveTerm z l k = z ^ k / (termDivisor l k : K) := by
  induction k with
  | zero => simp [positiveTerm, termDivisor]
  | succ k ih =>
    rw [positiveTerm, ih, termDivisor_succ, Nat.cast_mul, div_mul_div_comm, pow_succ]

theorem positivePartial_eq_sum (z : K) (l k : ℕ) :
    positivePartial z l k = ∑ j ∈ Finset.range (k + 1), z ^ j / (termDivisor l j : K) :=
  Finset.sum_congr rfl fun j _ => positiveTerm_eq_div z l j

/-! ### The terms that are left out -/

variable [LinearOrder K] [IsStrictOrderedRing K]

theorem positiveTerm_succ_mul_le {z : K} (nonneg : 0 ≤ z) {l k n : ℕ} (le : k ≤ n) :
    positiveTerm z l (n + 1) * ((l : K) + 5 + 2 * k) ≤ positiveTerm z l n * z := by
  have divisors : (l : K) + 5 + 2 * k ≤ ((l + 3 + 2 * (n + 1) : ℕ) : K) := by
    have index : (k : K) ≤ n := mod_cast le
    push_cast
    linarith
  calc positiveTerm z l (n + 1) * ((l : K) + 5 + 2 * k)
      ≤ positiveTerm z l (n + 1) * ((l + 3 + 2 * (n + 1) : ℕ) : K) :=
        mul_le_mul_of_nonneg_left divisors (positiveTerm_nonneg nonneg l _)
    _ = z * positiveTerm z l n := positiveTerm_succ_mul z l n
    _ = positiveTerm z l n * z := mul_comm _ _

/-- A longer sum together with the bound on the rest after it does not exceed the shorter one's. -/
theorem positivePartial_add_rest_le {z : K} (nonneg : 0 ≤ z) {l k n : ℕ}
    (below : z < (l : K) + 5 + 2 * k) (le : k ≤ n) :
    positivePartial z l n + positiveTerm z l n * z / ((l : K) + 5 + 2 * k - z) ≤
      positivePartial z l k + positiveTerm z l k * z / ((l : K) + 5 + 2 * k - z) := by
  have room : 0 < (l : K) + 5 + 2 * k - z := sub_pos.mpr below
  induction n, le using Nat.le_induction with
  | base => exact le_rfl
  | succ n later ih =>
    refine le_trans ?_ ih
    calc positivePartial z l (n + 1) +
          positiveTerm z l (n + 1) * z / ((l : K) + 5 + 2 * k - z)
        = positivePartial z l n +
          positiveTerm z l (n + 1) * ((l : K) + 5 + 2 * k) / ((l : K) + 5 + 2 * k - z) := by
          rw [positivePartial_succ]
          field_simp
          ring
      _ ≤ positivePartial z l n + positiveTerm z l n * z / ((l : K) + 5 + 2 * k - z) := by
          have next := positiveTerm_succ_mul_le nonneg (l := l) later
          exact add_le_add_right (div_le_div_of_nonneg_right next room.le) _

theorem positivePartial_sub_le {z : K} (nonneg : 0 ≤ z) {l k n : ℕ}
    (below : z < (l : K) + 5 + 2 * k) (le : k ≤ n) :
    positivePartial z l n - positivePartial z l k ≤
      positiveTerm z l k * z / ((l : K) + 5 + 2 * k - z) := by
  have rest := positivePartial_add_rest_le nonneg below le
  have following : 0 ≤ positiveTerm z l n * z / ((l : K) + 5 + 2 * k - z) :=
    div_nonneg (mul_nonneg (positiveTerm_nonneg nonneg l n) nonneg) (sub_pos.mpr below).le
  linarith

/--
Let the convergence test end the positive series at the index `k` with the value `sum`, in the range
of the series. Then `sum` is the sum of the terms up to index `k`, and no longer sum exceeds it by
more than the part `10⁻¹⁷ z / (l + 5 + 2k - z)` of it.
-/
theorem positiveSeries_truncation {alpha x z sum : K} {l k : ℕ} (positive : 0 < alpha)
    (argument : z = 2 * alpha * x ^ 2) (range : z < (l : K) + 7)
    (ends : positiveTotal z l = ⟨sum, k, true⟩) :
    (∀ expa, positiveSeries x alpha expa l = sum * expa) ∧
    sum = ∑ j ∈ Finset.range (k + 1), z ^ j / (termDivisor l j : K) ∧
    0 < (l : K) + 5 + 2 * k - z ∧
    ∀ n, k < n →
      0 ≤ ∑ j ∈ Finset.range (n + 1), z ^ j / (termDivisor l j : K) - sum ∧
      ∑ j ∈ Finset.range (n + 1), z ^ j / (termDivisor l j : K) - sum ≤
        1 / 10 ^ 17 * sum * z / ((l : K) + 5 + 2 * k - z) := by
  have product : 2 * alpha * x * x = z := by
    rw [argument]
    ring
  have nonneg : 0 ≤ z := product ▸ argument_nonneg positive x
  have stops := positiveTotal_stops z l
  rw [ends] at stops
  have value : sum = positivePartial z l k := stops.value_eq
  obtain ⟨above, small⟩ : 0 < k ∧ Negligible z l k := stops.negligible rfl
  have first : (1 : K) ≤ k := mod_cast above
  have room : 0 < (l : K) + 5 + 2 * k - z := by linarith
  have negligible : positiveTerm z l k ≤ 1 / 10 ^ 17 * sum := by
    rw [value, ← seriesTolerance_eq]
    exact le_of_lt small
  refine ⟨?_, value.trans (positivePartial_eq_sum z l k), room, fun n later => ?_⟩
  · intro expa
    rw [positiveSeries, Nat.cast_ofNat, product, ends]
  rw [← positivePartial_eq_sum]
  constructor
  · rw [value]
    exact sub_nonneg.mpr (positivePartial_mono_right nonneg l later.le)
  · calc positivePartial z l n - sum
        ≤ positiveTerm z l k * z / ((l : K) + 5 + 2 * k - z) := by
          rw [value]
          exact positivePartial_sub_le nonneg (sub_pos.mp room) later.le
      _ ≤ 1 / 10 ^ 17 * sum * z / ((l : K) + 5 + 2 * k - z) :=
          div_le_div_of_nonneg_right (mul_le_mul_of_nonneg_right negligible nonneg) room.le

/-- The second term of this series is greater than the first. -/
theorem positiveSeries_truncation_growing :
    ∃ (k : ℕ) (sum : ℝ), (0 : ℝ) < 3 ∧ (6 : ℝ) = 2 * 3 * 1 ^ 2 ∧ (6 : ℝ) < ((0 : ℕ) : ℝ) + 7 ∧
      positiveTotal (6 : ℝ) 0 = ⟨sum, k, true⟩ ∧ k < 2000 ∧
      (∀ expa, positiveSeries (1 : ℝ) 3 expa 0 = sum * expa) ∧
      sum = ∑ j ∈ Finset.range (k + 1), (6 : ℝ) ^ j / (termDivisor 0 j : ℝ) ∧
      0 < ((0 : ℕ) : ℝ) + 5 + 2 * k - 6 ∧
      0 ≤ ∑ j ∈ Finset.range 2001, (6 : ℝ) ^ j / (termDivisor 0 j : ℝ) - sum ∧
      ∑ j ∈ Finset.range 2001, (6 : ℝ) ^ j / (termDivisor 0 j : ℝ) - sum ≤
        1 / 10 ^ 17 * sum * 6 / (((0 : ℕ) : ℝ) + 5 + 2 * k - 6) := by
  have positive : (0 : ℝ) < 3 := by norm_num
  have argument : (6 : ℝ) = 2 * 3 * 1 ^ 2 := by norm_num
  have range : (6 : ℝ) < ((0 : ℕ) : ℝ) + 7 := by norm_num
  have product : 2 * 3 * 1 * 1 = (6 : ℝ) := by norm_num
  have converges : SeriesConverges (1 : ℝ) 3 0 := by
    rw [seriesConverges_iff positive, product]
    exact negligible_of_order_le (by norm_num) range.le (by decide)
  obtain ⟨k, bound, -, ends⟩ := converges
  rw [product] at ends
  have later : k < 2000 := lt_of_lt_of_le bound (by decide)
  obtain ⟨result, value, room, rest⟩ := positiveSeries_truncation positive argument range ends
  exact ⟨k, _, positive, argument, range, ends, later, result, value, room, rest 2000 later⟩

end GaussianRadial
