import Mathlib.Algebra.Order.Ring.Pow
import Mathlib.Data.Real.Basic
import GaussianRadial.Proofs.PositiveSeries

/-!
# The end of the positive series

The loop of the positive series should end by its convergence test, before its bound on the terms.
Negligible terms are followed by negligible ones, so the last term within the bound decides. In the
range of the series it is the least negligible at the edge, and the less so the greater the order is.
So the bound is enough for all orders up to `lastSafeOrder` and for none beyond it:
`positiveSeries_converges_iff`.
-/

namespace GaussianRadial

variable {K : Type} [Field K] [LinearOrder K]

/-! ### Partial sums in units of their last terms -/

/-- The partial sum up to index `k` over the term of index `k`. -/
def partialOverTerm (z : K) (l : ℕ) : ℕ → K
  | 0 => 1
  | k + 1 => 1 + partialOverTerm z l k * (((l + 3 + 2 * (k + 1) : ℕ) : K) / z)

variable [IsStrictOrderedRing K] {z : K}

theorem positivePartial_eq_mul (positive : 0 < z) (l k : ℕ) :
    positivePartial z l k = positiveTerm z l k * partialOverTerm z l k := by
  induction k with
  | zero => rw [positivePartial_zero, partialOverTerm, mul_one]
  | succ k ih =>
    have factor : ((l + 3 + 2 * (k + 1) : ℕ) : K) ≠ 0 := by positivity
    rw [positivePartial_succ, ih, partialOverTerm, positiveTerm]
    field_simp
    ring

theorem partialOverTerm_pos (positive : 0 < z) (l k : ℕ) : 0 < partialOverTerm z l k := by
  induction k with
  | zero => exact one_pos
  | succ k ih =>
    rw [partialOverTerm]
    positivity

theorem partialOverTerm_le_succ (positive : 0 < z) (l k : ℕ) :
    partialOverTerm z l k ≤ partialOverTerm z l (k + 1) := by
  induction k with
  | zero => exact le_add_of_nonneg_right (mul_nonneg zero_le_one (by positivity))
  | succ k ih =>
    -- The divisors grow with the index, as the sums do.
    have divisors : ((l + 3 + 2 * (k + 1) : ℕ) : K) / z ≤ ((l + 3 + 2 * (k + 1 + 1) : ℕ) : K) / z :=
      div_le_div_of_nonneg_right (mod_cast (by omega)) positive.le
    rw [partialOverTerm, partialOverTerm]
    exact add_le_add_right (mul_le_mul ih divisors (by positivity)
      (partialOverTerm_pos positive l (k + 1)).le) 1

theorem partialOverTerm_mono (positive : 0 < z) (l : ℕ) : Monotone (partialOverTerm z l) :=
  monotone_nat_of_le_succ (partialOverTerm_le_succ positive l)

theorem negligible_iff (positive : 0 < z) (l k : ℕ) :
    Negligible z l k ↔ 10 ^ 17 < partialOverTerm z l k := by
  have term : 0 < positiveTerm z l k := by
    rw [positiveTerm_eq_pow_mul]
    exact mul_pos (pow_pos positive k) (positiveTerm_one_pos l k)
  rw [Negligible, positivePartial_eq_mul positive, seriesTolerance_eq, one_div_mul_eq_div,
    lt_div_iff₀ (by positivity), mul_lt_mul_iff_right₀ term]

theorem negligible_zero {l k : ℕ} (one_le : 1 ≤ k) : Negligible (0 : K) l k := by
  rw [Negligible, positiveTerm_eq_pow_mul, zero_pow (by omega), zero_mul]
  exact mul_pos seriesTolerance_pos (positivePartial_pos le_rfl l k)

/-- Negligible terms are followed by negligible ones. -/
theorem negligible_of_index_le (nonneg : 0 ≤ z) {l j k : ℕ} (one_le : 1 ≤ j) (le : j ≤ k)
    (small : Negligible z l j) : Negligible z l k := by
  obtain rfl | positive := nonneg.eq_or_lt
  · exact negligible_zero (one_le.trans le)
  · rw [negligible_iff positive] at small ⊢
    exact small.trans_le (partialOverTerm_mono positive l le)

theorem positiveTotal_converged_iff (nonneg : 0 ≤ z) (l : ℕ) :
    (positiveTotal z l).converged = true ↔ Negligible z l (maxPositiveTerms - 1) := by
  rw [positiveTotal_converged_iff_exists]
  constructor
  · rintro ⟨j, one_le, bound, small⟩
    exact negligible_of_index_le nonneg one_le (Nat.le_sub_one_of_lt bound) small
  · intro small
    exact ⟨maxPositiveTerms - 1, by decide, by decide, small⟩

/-! ### The edge of the range -/

theorem partialOverTerm_edge_three (l : ℕ) :
    partialOverTerm ((l : K) + 7) l 3 =
      4 + 4 * (1 / ((l : K) + 7)) * (1 - 1 / ((l : K) + 7)) := by
  have edge : (l : K) + 7 ≠ 0 := by positivity
  simp only [partialOverTerm]
  push_cast
  field_simp
  ring

theorem edge_factor_eq (l k : ℕ) :
    ((l + 3 + 2 * (k + 1) : ℕ) : K) / ((l : K) + 7) =
      1 + (2 * (k : K) - 2) * (1 / ((l : K) + 7)) := by
  have edge : (l : K) + 7 ≠ 0 := by positivity
  push_cast
  field_simp
  ring

/-- At the edge of the range a greater order makes a partial sum less in units of its last term. -/
theorem partialOverTerm_edge_anti {l l' k : ℕ} (three_le : 3 ≤ k) (le : l ≤ l') :
    partialOverTerm ((l' : K) + 7) l' k ≤ partialOverTerm ((l : K) + 7) l k := by
  have orders : 1 / ((l' : K) + 7) ≤ 1 / ((l : K) + 7) :=
    one_div_le_one_div_of_le (by positivity) (by exact_mod_cast Nat.add_le_add_right le 7)
  -- The first factor alone grows with the order. The third one makes up for it.
  induction k, three_le using Nat.le_induction with
  | base =>
    have small : 1 / ((l : K) + 7) ≤ 1 / 7 :=
      one_div_le_one_div_of_le (by norm_num) (le_add_of_nonneg_left (Nat.cast_nonneg l))
    rw [partialOverTerm_edge_three, partialOverTerm_edge_three, ← sub_nonneg]
    calc (0 : K) ≤ 4 * (1 / ((l : K) + 7) - 1 / ((l' : K) + 7)) *
          (1 - 1 / ((l : K) + 7) - 1 / ((l' : K) + 7)) :=
          mul_nonneg (mul_nonneg (by norm_num) (sub_nonneg.mpr orders)) (by linarith)
      _ = _ := by ring
  | succ k later ih =>
    have one_le : (1 : K) ≤ k := by exact_mod_cast (show 1 ≤ k by omega)
    have factors : ((l' + 3 + 2 * (k + 1) : ℕ) : K) / ((l' : K) + 7) ≤
        ((l + 3 + 2 * (k + 1) : ℕ) : K) / ((l : K) + 7) := by
      rw [edge_factor_eq, edge_factor_eq]
      exact add_le_add_right (mul_le_mul_of_nonneg_left orders (by linarith)) 1
    rw [partialOverTerm, partialOverTerm]
    exact add_le_add_right (mul_le_mul ih factors (by positivity)
      (partialOverTerm_pos (by positivity) l k).le) 1

/-- `partialOverTerm z l k * z ^ k` for a whole number `z`. -/
def scaledRatio (z l : ℕ) : ℕ → ℕ
  | 0 => 1
  | k + 1 => z ^ (k + 1) + scaledRatio z l k * (l + 3 + 2 * (k + 1))

theorem partialOverTerm_mul_pow {z : ℕ} (positive : 0 < z) (l k : ℕ) :
    partialOverTerm (z : K) l k * (z : K) ^ k = (scaledRatio z l k : K) := by
  have nonzero : (z : K) ≠ 0 := by positivity
  induction k with
  | zero => simp [partialOverTerm, scaledRatio]
  | succ k ih =>
    rw [partialOverTerm, scaledRatio]
    push_cast
    rw [← ih]
    field_simp
    ring

theorem lt_partialOverTerm {z l k bound : ℕ} (positive : 0 < z)
    (scaled : bound * z ^ k < scaledRatio z l k) : (bound : K) < partialOverTerm (z : K) l k := by
  have power : (0 : K) < (z : K) ^ k := pow_pos (Nat.cast_pos.mpr positive) k
  apply lt_of_mul_lt_mul_right _ power.le
  rw [partialOverTerm_mul_pow positive]
  exact_mod_cast scaled

theorem mul_partialOverTerm_le {z l k factor bound : ℕ} (positive : 0 < z)
    (scaled : factor * scaledRatio z l k ≤ bound * z ^ k) :
    (factor : K) * partialOverTerm (z : K) l k ≤ bound := by
  have power : (0 : K) < (z : K) ^ k := pow_pos (Nat.cast_pos.mpr positive) k
  apply le_of_mul_le_mul_right _ power
  rw [mul_assoc, partialOverTerm_mul_pow positive]
  exact_mod_cast scaled

/-- The greatest order for which the bound on the terms is enough. -/
def lastSafeOrder : ℕ := 28497

theorem lt_partialOverTerm_lastSafeOrder :
    (10 : K) ^ 17 < partialOverTerm ((lastSafeOrder : K) + 7) lastSafeOrder
      (maxPositiveTerms - 1) := by
  have ratio : ((10 ^ 17 : ℕ) : K) < partialOverTerm ((lastSafeOrder + 7 : ℕ) : K) lastSafeOrder
      (maxPositiveTerms - 1) := lt_partialOverTerm (by decide) (by decide +kernel)
  exact_mod_cast ratio

theorem partialOverTerm_next_le :
    2000000 * partialOverTerm (((lastSafeOrder + 1 : ℕ) : K) + 7) (lastSafeOrder + 1)
      (maxPositiveTerms - 1) ≤ 1999001 * 10 ^ 17 := by
  have ratio : ((2000000 : ℕ) : K) * partialOverTerm ((lastSafeOrder + 1 + 7 : ℕ) : K)
      (lastSafeOrder + 1) (maxPositiveTerms - 1) ≤ ((1999001 * 10 ^ 17 : ℕ) : K) :=
    mul_partialOverTerm_le (by decide) (by decide +kernel)
  exact_mod_cast ratio

theorem negligible_of_order_le (nonneg : 0 ≤ z) {l : ℕ} (range : z ≤ (l : K) + 7)
    (le : l ≤ lastSafeOrder) : Negligible z l (maxPositiveTerms - 1) := by
  apply negligible_of_le nonneg range
  rw [negligible_iff (by positivity)]
  exact lt_partialOverTerm_lastSafeOrder.trans_le (partialOverTerm_edge_anti (by decide) le)

/-- If its argument shrinks by a factor, a term shrinks by powers of it and its sum does not grow. -/
theorem not_negligible_of_scaled {w factor : K} (positive : 0 < w) (nonneg : 0 ≤ factor)
    (le_one : factor ≤ 1) {l k : ℕ} (room : partialOverTerm w l k ≤ 10 ^ 17 * factor ^ k) :
    ¬ Negligible (factor * w) l k := by
  have term : positiveTerm (factor * w) l k = factor ^ k * positiveTerm w l k := by
    rw [positiveTerm_eq_pow_mul, positiveTerm_eq_pow_mul w, mul_pow, mul_assoc]
  have sum : positivePartial (factor * w) l k ≤ positivePartial w l k :=
    positivePartial_mono_left (mul_nonneg nonneg positive.le) (mul_le_of_le_one_left positive.le le_one)
      l k
  rw [Negligible, not_lt, term]
  calc seriesTolerance * positivePartial (factor * w) l k
      ≤ seriesTolerance * positivePartial w l k :=
        mul_le_mul_of_nonneg_left sum seriesTolerance_pos.le
    _ = seriesTolerance * partialOverTerm w l k * positiveTerm w l k := by
        rw [positivePartial_eq_mul positive]
        ring
    _ ≤ seriesTolerance * (10 ^ 17 * factor ^ k) * positiveTerm w l k := by
        apply mul_le_mul_of_nonneg_right _ (positiveTerm_nonneg positive.le l k)
        exact mul_le_mul_of_nonneg_left room seriesTolerance_pos.le
    _ = factor ^ k * positiveTerm w l k := by
        rw [seriesTolerance_eq]
        ring

/-- For greater orders no term within the bound is negligible next to the edge of the range. -/
theorem not_negligible_of_lt_order {l : ℕ} (lt : lastSafeOrder < l)
    (near : (1 - 1 / 2000000) * ((l : K) + 7) ≤ z) : ¬ Negligible z l (maxPositiveTerms - 1) := by
  have next : partialOverTerm ((l : K) + 7) l (maxPositiveTerms - 1) ≤
      partialOverTerm (((lastSafeOrder + 1 : ℕ) : K) + 7) (lastSafeOrder + 1)
        (maxPositiveTerms - 1) := partialOverTerm_edge_anti (by decide) lt
  have bernoulli : 1 + ((maxPositiveTerms - 1 : ℕ) : K) * -(1 / 2000000) ≤
      (1 + -(1 / 2000000)) ^ (maxPositiveTerms - 1) := one_add_mul_le_pow (by norm_num) _
  have last : ((maxPositiveTerms - 1 : ℕ) : K) = 999 := by norm_num [maxPositiveTerms]
  have room : partialOverTerm ((l : K) + 7) l (maxPositiveTerms - 1) ≤
      10 ^ 17 * (1 - 1 / 2000000) ^ (maxPositiveTerms - 1) := by
    rw [last, ← sub_eq_add_neg] at bernoulli
    linarith [partialOverTerm_next_le (K := K)]
  intro small
  exact not_negligible_of_scaled (by positivity) (by norm_num) (by norm_num) room
    (negligible_of_le (by positivity) near small)

/-! ### The loop at a sample -/

/--
The loop of the positive series at `x` is left by its convergence test, at a term within its bound,
with the sum up to this term.
-/
def SeriesConverges (x alpha : K) (l : ℕ) : Prop :=
  ∃ k < maxPositiveTerms, Negligible (2 * alpha * x * x) l k ∧
    positiveTotal (2 * alpha * x * x) l = ⟨positivePartial (2 * alpha * x * x) l k, k, true⟩

theorem seriesConverges_iff {alpha : K} (positive : 0 < alpha) (x : K) (l : ℕ) :
    SeriesConverges x alpha l ↔ Negligible (2 * alpha * x * x) l (maxPositiveTerms - 1) := by
  rw [← positiveTotal_converged_iff (argument_nonneg positive x)]
  have stops := positiveTotal_stops (2 * alpha * x * x) l
  constructor
  · rintro ⟨k, -, -, ends⟩
    rw [ends]
  · intro converged
    refine ⟨_, Nat.lt_of_le_pred (by decide) stops.le_bound, (stops.negligible converged).2, ?_⟩
    rw [← stops.value_eq, ← converged]

/-- Next to the edge of the range the series of a greater order is cut off at its bound. -/
theorem positiveTotal_cut_off {alpha x : K} {l : ℕ} (positive : 0 < alpha)
    (lt : lastSafeOrder < l) (near : (1 - 1 / 2000000) * ((l : K) + 7) ≤ 2 * alpha * x * x) :
    positiveTotal (2 * alpha * x * x) l =
      ⟨positivePartial (2 * alpha * x * x) l (maxPositiveTerms - 1), maxPositiveTerms - 1, false⟩ := by
  have stops := positiveTotal_stops (2 * alpha * x * x) l
  have stopped : (positiveTotal (2 * alpha * x * x) l).converged = false := by
    rw [← Bool.not_eq_true, positiveTotal_converged_iff (argument_nonneg positive x)]
    exact not_negligible_of_lt_order lt near
  rw [← stops.exhausted stopped, ← stops.value_eq, ← stopped]

/--
The bound on the terms never ends the positive series of an order in the range of the series if and
only if the order is at most `lastSafeOrder`.
-/
theorem positiveSeries_converges_iff (l : ℕ) :
    (∀ alpha x : K, 0 < alpha → 0 ≤ x → InSeriesRange x alpha l → SeriesConverges x alpha l) ↔
      l ≤ lastSafeOrder := by
  constructor
  · intro converges
    by_contra above
    -- The sample 1 with an exponent next to the edge.
    have argument : 2 * ((1 - 1 / 2000000) * ((l : K) + 7) / 2) * 1 * 1 =
        (1 - 1 / 2000000) * ((l : K) + 7) := by ring
    have edge : (0 : K) < (l : K) + 7 := by positivity
    have positive : 0 < (1 - 1 / 2000000) * ((l : K) + 7) / 2 := by linarith
    have range : InSeriesRange 1 ((1 - 1 / 2000000) * ((l : K) + 7) / 2) l := by
      rw [inSeriesRange_iff, argument]
      linarith
    obtain ⟨k, -, -, ends⟩ := converges _ 1 positive zero_le_one range
    rw [positiveTotal_cut_off positive (not_le.mp above) argument.ge] at ends
    exact Bool.false_ne_true (congrArg PartialSum.converged ends)
  · intro le alpha x positive _ range
    rw [seriesConverges_iff positive]
    exact negligible_of_order_le (argument_nonneg positive x) (argument_le_of_range range) le

theorem positiveSeries_converges_iff_even :
    (∀ alpha x : ℝ, 0 < alpha → 0 ≤ x → InSeriesRange x alpha 28496 →
      SeriesConverges x alpha 28496) ∧
    ¬ ∀ alpha x : ℝ, 0 < alpha → 0 ≤ x → InSeriesRange x alpha 28498 →
      SeriesConverges x alpha 28498 :=
  ⟨(positiveSeries_converges_iff 28496).mpr (by decide),
    fun converges => absurd ((positiveSeries_converges_iff 28498).mp converges) (by decide)⟩

/-- At the order 60000 the series is cut off at a sample in its range. -/
theorem seriesConverges_fails_at_60000 :
    Even 60000 ∧ (0 : ℝ) < 30003 ∧ (0 : ℝ) ≤ 1 ∧ InSeriesRange (1 : ℝ) 30003 60000 ∧
      ¬ SeriesConverges (1 : ℝ) 30003 60000 := by
  have positive : (0 : ℝ) < 30003 := by norm_num
  have argument : 2 * (30003 : ℝ) * 1 * 1 = ((60006 : ℕ) : ℝ) := by norm_num
  refine ⟨by decide, positive, zero_le_one, ?_, ?_⟩
  · rw [inSeriesRange_iff]
    norm_num
  · rw [seriesConverges_iff positive, argument, negligible_iff (by norm_num), not_lt]
    have ratio : ((1 : ℕ) : ℝ) * partialOverTerm ((60006 : ℕ) : ℝ) 60000 (maxPositiveTerms - 1) ≤
        ((10 ^ 17 : ℕ) : ℝ) := mul_partialOverTerm_le (by decide) (by decide +kernel)
    rw [Nat.cast_one, one_mul] at ratio
    exact_mod_cast ratio

end GaussianRadial
