import Mathlib.Algebra.BigOperators.Intervals
import Mathlib.Algebra.BigOperators.Ring.Finset
import Mathlib.Algebra.Order.BigOperators.Ring.Finset
import Mathlib.Algebra.Order.Field.Basic
import Mathlib.Tactic.FieldSimp
import Mathlib.Tactic.Linarith
import Mathlib.Tactic.Positivity
import Mathlib.Tactic.Ring
import GaussianRadial.Series

/-!
# The positive series

The loop of the positive series returns the partial sum up to the first negligible term, or up to
its bound on the terms. It converges if and only if a term within the bound is negligible.
`lastIndex_mono` says that it never stops earlier for a larger argument, and `mul_last_le_one` bounds
the last term over the whole range in which the series is used.
-/

namespace GaussianRadial

variable {K : Type} [Field K]

/-- The term `z^k / ((l + 3) (l + 5) ⋯ (l + 3 + 2k))`. -/
def positiveTerm (z : K) (l : ℕ) : ℕ → K
  | 0 => 1 / ((l + 3 : ℕ) : K)
  | k + 1 => positiveTerm z l k * (z / ((l + 3 + 2 * (k + 1) : ℕ) : K))

/-- The sum of the terms up to index `k`. -/
def positivePartial (z : K) (l k : ℕ) : K := ∑ j ∈ Finset.range (k + 1), positiveTerm z l j

theorem positivePartial_zero (z : K) (l : ℕ) : positivePartial z l 0 = positiveTerm z l 0 := by
  rw [positivePartial, zero_add, Finset.sum_range_one]

theorem positivePartial_succ (z : K) (l k : ℕ) :
    positivePartial z l (k + 1) = positivePartial z l k + positiveTerm z l (k + 1) := by
  rw [positivePartial, Finset.sum_range_succ, ← positivePartial]

theorem positiveTerm_eq_pow_mul (z : K) (l k : ℕ) :
    positiveTerm z l k = z ^ k * positiveTerm 1 l k := by
  induction k with
  | zero => simp [positiveTerm]
  | succ k ih =>
    rw [positiveTerm, positiveTerm, ih]
    ring

variable [LinearOrder K]

/-- The term ends the series: it is below the tolerance for the sum up to it. -/
def Negligible (z : K) (l k : ℕ) : Prop :=
  positiveTerm z l k < seriesTolerance * positivePartial z l k

/-! ### Where the loop stops -/

/-- A result of the loop that has gone on from index `start` and may not go beyond `bound`. -/
structure StopsWithin (z : K) (l start bound : ℕ) (result : PartialSum K) : Prop where
  value_eq : result.value = positivePartial z l result.lastIndex
  start_le : start ≤ result.lastIndex
  le_bound : result.lastIndex ≤ bound
  before : ∀ j, start < j → j < result.lastIndex → ¬ Negligible z l j
  negligible : result.converged = true → start < result.lastIndex ∧ Negligible z l result.lastIndex
  exhausted : result.converged = false → result.lastIndex = bound

theorem positiveSum_stops (z : K) (l k count : ℕ) :
    StopsWithin z l k (k + count)
      (positiveSum z l (k + 1) (positiveTerm z l k) (positivePartial z l k) count) := by
  -- The loop enters index `k + 1` with the term and the partial sum of index `k`.
  induction count generalizing k with
  | zero =>
    change StopsWithin z l k k ⟨positivePartial z l k, k, false⟩
    exact ⟨rfl, le_rfl, le_rfl, fun j above below => absurd above below.not_gt,
      fun h => absurd h Bool.false_ne_true, fun _ => rfl⟩
  | succ count ih =>
    have next : positiveTerm z l k * (z / ((l + 3 + 2 * (k + 1) : ℕ) : K)) =
      positiveTerm z l (k + 1) := rfl
    rw [positiveSum, next, ← positivePartial_succ]
    split
    · rename_i small
      exact ⟨rfl, Nat.le_succ k, show k + 1 ≤ k + (count + 1) by omega,
        fun j above below => absurd (Nat.lt_succ_iff.mp below) above.not_ge,
        fun _ => ⟨Nat.lt_succ_self k, small⟩, fun h => absurd h.symm Bool.false_ne_true⟩
    · rename_i large
      obtain ⟨value, start, bound, before, negligible, exhausted⟩ := ih (k + 1)
      refine ⟨value, by omega, by omega, ?_, ?_, ?_⟩
      · intro j above below
        obtain rfl | later : j = k + 1 ∨ k + 1 < j := by omega
        · exact large
        · exact before j later below
      · intro converged
        obtain ⟨after, small⟩ := negligible converged
        exact ⟨by omega, small⟩
      · intro stopped
        rw [exhausted stopped]
        omega

theorem positiveTotal_eq (z : K) (l : ℕ) :
    positiveTotal z l =
      positiveSum z l (0 + 1) (positiveTerm z l 0) (positivePartial z l 0)
        (maxPositiveTerms - 1) := by
  rw [positivePartial_zero, positiveTerm, positiveTotal, Nat.cast_one]

theorem positiveTotal_stops (z : K) (l : ℕ) :
    StopsWithin z l 0 (maxPositiveTerms - 1) (positiveTotal z l) := by
  have stops := positiveSum_stops z l 0 (maxPositiveTerms - 1)
  rwa [← positiveTotal_eq, Nat.zero_add] at stops

theorem positiveSum_converged_iff (z : K) (l k count : ℕ) :
    (positiveSum z l (k + 1) (positiveTerm z l k) (positivePartial z l k) count).converged = true ↔
      ∃ j, k < j ∧ j ≤ k + count ∧ Negligible z l j := by
  induction count generalizing k with
  | zero =>
    simp only [positiveSum, Bool.false_eq_true, false_iff, not_exists]
    rintro j ⟨above, below, -⟩
    omega
  | succ count ih =>
    have next : positiveTerm z l k * (z / ((l + 3 + 2 * (k + 1) : ℕ) : K)) =
      positiveTerm z l (k + 1) := rfl
    rw [positiveSum, next, ← positivePartial_succ]
    split
    · rename_i small
      exact iff_of_true rfl ⟨k + 1, Nat.lt_succ_self k, by omega, small⟩
    · rename_i large
      rw [ih (k + 1)]
      constructor
      · rintro ⟨j, above, below, small⟩
        exact ⟨j, by omega, by omega, small⟩
      · rintro ⟨j, above, below, small⟩
        have later : k + 1 ≠ j := fun same => large (same ▸ small)
        exact ⟨j, by omega, by omega, small⟩

theorem positiveTotal_converged_iff_exists (z : K) (l : ℕ) :
    (positiveTotal z l).converged = true ↔
      ∃ j, 0 < j ∧ j < maxPositiveTerms ∧ Negligible z l j := by
  rw [positiveTotal_eq, positiveSum_converged_iff]
  have bound (j : ℕ) : j ≤ 0 + (maxPositiveTerms - 1) ↔ j < maxPositiveTerms := by
    rw [maxPositiveTerms]
    omega
  simp only [bound]

/-! ### Larger arguments stop later -/

variable [IsStrictOrderedRing K]

theorem seriesTolerance_eq : (seriesTolerance : K) = 1 / 10 ^ 17 := by
  norm_num [seriesTolerance]

theorem seriesTolerance_pos : (0 : K) < seriesTolerance := by
  rw [seriesTolerance]
  positivity

theorem positiveTerm_succ_mul (z : K) (l k : ℕ) :
    positiveTerm z l (k + 1) * ((l + 3 + 2 * (k + 1) : ℕ) : K) = z * positiveTerm z l k := by
  rw [positiveTerm, mul_assoc, div_mul_cancel₀ _ (by positivity), mul_comm]

theorem positiveTerm_one_pos (l k : ℕ) : 0 < positiveTerm (1 : K) l k := by
  induction k with
  | zero => exact one_div_pos.mpr (by positivity)
  | succ k ih => exact mul_pos ih (by positivity)

theorem positiveTerm_nonneg {z : K} (nonneg : 0 ≤ z) (l k : ℕ) : 0 ≤ positiveTerm z l k := by
  rw [positiveTerm_eq_pow_mul]
  exact mul_nonneg (pow_nonneg nonneg k) (positiveTerm_one_pos l k).le

theorem positiveTerm_mono {z w : K} (nonneg : 0 ≤ z) (le : z ≤ w) (l k : ℕ) :
    positiveTerm z l k ≤ positiveTerm w l k := by
  rw [positiveTerm_eq_pow_mul, positiveTerm_eq_pow_mul w]
  exact mul_le_mul_of_nonneg_right (pow_le_pow_left₀ nonneg le k) (positiveTerm_one_pos l k).le

theorem positivePartial_mono_left {z w : K} (nonneg : 0 ≤ z) (le : z ≤ w) (l k : ℕ) :
    positivePartial z l k ≤ positivePartial w l k :=
  Finset.sum_le_sum fun j _ => positiveTerm_mono nonneg le l j

theorem positivePartial_pos {z : K} (nonneg : 0 ≤ z) (l k : ℕ) : 0 < positivePartial z l k := by
  induction k with
  | zero =>
    rw [positivePartial_zero, positiveTerm_eq_pow_mul, pow_zero, one_mul]
    exact positiveTerm_one_pos l 0
  | succ k ih =>
    rw [positivePartial_succ]
    exact add_pos_of_pos_of_nonneg ih (positiveTerm_nonneg nonneg l _)

theorem positivePartial_mono_right {z : K} (nonneg : 0 ≤ z) (l : ℕ) {j k : ℕ} (le : j ≤ k) :
    positivePartial z l j ≤ positivePartial z l k := by
  apply Finset.sum_le_sum_of_subset_of_nonneg
  · exact Finset.range_mono (by omega)
  · intro i _ _
    exact positiveTerm_nonneg nonneg l i

theorem positiveTerm_zero_le_partial {z : K} (nonneg : 0 ≤ z) (l k : ℕ) :
    positiveTerm z l 0 ≤ positivePartial z l k := by
  rw [← positivePartial_zero]
  exact positivePartial_mono_right nonneg l (Nat.zero_le k)

/-- A term takes a larger part of the sum up to it where the argument is larger. -/
theorem positiveTerm_mul_partial_le {z w : K} (nonneg : 0 ≤ z) (le : z ≤ w) (l k : ℕ) :
    positiveTerm z l k * positivePartial w l k ≤ positiveTerm w l k * positivePartial z l k := by
  rw [positivePartial, positivePartial, Finset.mul_sum, Finset.mul_sum]
  apply Finset.sum_le_sum
  intro j member
  have below : j ≤ k := Finset.mem_range_succ_iff.mp member
  have powers : z ^ k * w ^ j ≤ w ^ k * z ^ j := by
    obtain ⟨d, rfl⟩ := Nat.exists_eq_add_of_le below
    have step : z ^ d ≤ w ^ d := pow_le_pow_left₀ nonneg le d
    have common : 0 ≤ z ^ j * w ^ j := mul_nonneg (pow_nonneg nonneg j) (pow_nonneg (nonneg.trans le) j)
    calc z ^ (j + d) * w ^ j = z ^ j * w ^ j * z ^ d := by ring
      _ ≤ z ^ j * w ^ j * w ^ d := mul_le_mul_of_nonneg_left step common
      _ = w ^ (j + d) * z ^ j := by ring
  have weights : 0 ≤ positiveTerm (1 : K) l k * positiveTerm 1 l j :=
    (mul_pos (positiveTerm_one_pos l k) (positiveTerm_one_pos l j)).le
  rw [positiveTerm_eq_pow_mul z l k, positiveTerm_eq_pow_mul w l j, positiveTerm_eq_pow_mul w l k,
    positiveTerm_eq_pow_mul z l j]
  calc z ^ k * positiveTerm 1 l k * (w ^ j * positiveTerm 1 l j)
      = z ^ k * w ^ j * (positiveTerm 1 l k * positiveTerm 1 l j) := by ring
    _ ≤ w ^ k * z ^ j * (positiveTerm 1 l k * positiveTerm 1 l j) :=
      mul_le_mul_of_nonneg_right powers weights
    _ = w ^ k * positiveTerm 1 l k * (z ^ j * positiveTerm 1 l j) := by ring

theorem negligible_of_le {z w : K} (nonneg : 0 ≤ z) (le : z ≤ w) {l k : ℕ}
    (small : Negligible w l k) : Negligible z l k := by
  have sum := positivePartial_pos (nonneg.trans le) l k
  have scaled := mul_lt_mul_of_pos_right small (positivePartial_pos nonneg l k)
  have cross := positiveTerm_mul_partial_le nonneg le l k
  apply lt_of_mul_lt_mul_right _ sum.le
  calc positiveTerm z l k * positivePartial w l k
      ≤ positiveTerm w l k * positivePartial z l k := cross
    _ < seriesTolerance * positivePartial w l k * positivePartial z l k := scaled
    _ = seriesTolerance * positivePartial z l k * positivePartial w l k := by ring

theorem lastIndex_mono {z w : K} (nonneg : 0 ≤ z) (le : z ≤ w) (l : ℕ) :
    (positiveTotal z l).lastIndex ≤ (positiveTotal w l).lastIndex := by
  have stops := positiveTotal_stops w l
  by_contra later
  -- The term that ends the loop at `w` is negligible at `z` too, unless the bound has ended it.
  cases converged : (positiveTotal w l).converged with
  | true =>
    obtain ⟨above, small⟩ := stops.negligible converged
    exact (positiveTotal_stops z l).before _ above (not_le.mp later) (negligible_of_le nonneg le small)
  | false =>
    rw [stops.exhausted converged] at later
    exact later (positiveTotal_stops z l).le_bound

/-! ### The range of the series -/

section Range
variable {alpha x : K}

theorem argument_nonneg (positive : 0 < alpha) (x : K) : 0 ≤ 2 * alpha * x * x := by
  rw [mul_assoc]
  exact mul_nonneg (by linarith) (mul_self_nonneg x)

theorem argument_mono (positive : 0 < alpha) {x y : K} (nonneg : 0 ≤ x) (le : x ≤ y) :
    2 * alpha * x * x ≤ 2 * alpha * y * y := by
  rw [mul_assoc, mul_assoc _ y]
  exact mul_le_mul_of_nonneg_left (mul_self_le_mul_self nonneg le) (by linarith)

theorem inSeriesRange_iff {l : ℕ} :
    InSeriesRange x alpha l ↔ 2 * alpha * x * x < (l : K) + 7 := by
  rw [InSeriesRange]
  push_cast
  constructor <;> intro range <;> linarith

theorem argument_le_of_range {l : ℕ} (range : InSeriesRange x alpha l) :
    2 * alpha * x * x ≤ (l : K) + 7 :=
  (inSeriesRange_iff.mp range).le

end Range

/-! ### The last term in the range of the series -/

theorem positiveTerm_le_of_le {z : K} (nonneg : 0 ≤ z) {l : ℕ} (range : z ≤ (l : K) + 7) {j k : ℕ}
    (one_le : 1 ≤ j) (le : j ≤ k) : positiveTerm z l k ≤ positiveTerm z l j := by
  induction k, le using Nat.le_induction with
  | base => exact le_rfl
  | succ k later ih =>
    have bottom : (0 : K) < ((l + 3 + 2 * (k + 1) : ℕ) : K) := by positivity
    have first : (1 : K) ≤ k := mod_cast one_le.trans later
    have ratio : z / ((l + 3 + 2 * (k + 1) : ℕ) : K) ≤ 1 := by
      rw [div_le_one bottom]
      push_cast
      linarith
    exact (mul_le_of_le_one_right (positiveTerm_nonneg nonneg l k) ratio).trans ih

theorem mul_positiveTerm_zero_le {z : K} {l : ℕ} (range : z ≤ (l : K) + 7) :
    z * positiveTerm z l 0 ≤ 7 / 3 := by
  have nonneg : (0 : K) ≤ l := Nat.cast_nonneg l
  rw [positiveTerm, mul_one_div, div_le_div_iff₀ (by positivity) (by norm_num)]
  push_cast
  linarith

theorem mul_positiveTerm_one_le {z : K} (nonneg : 0 ≤ z) {l : ℕ} (range : z ≤ (l : K) + 7) :
    z * positiveTerm z l 1 ≤ 4 := by
  have order : (0 : K) ≤ l := Nat.cast_nonneg l
  have ratio : z / ((l + 3 + 2 * (0 + 1) : ℕ) : K) ≤ 7 / 5 := by
    rw [div_le_div_iff₀ (by positivity) (by norm_num)]
    push_cast
    linarith
  have start := mul_positiveTerm_zero_le range
  calc z * positiveTerm z l 1
      = z * positiveTerm z l 0 * (z / ((l + 3 + 2 * (0 + 1) : ℕ) : K)) := (mul_assoc _ _ _).symm
    _ ≤ 7 / 3 * (7 / 5) := mul_le_mul start ratio (by positivity) (by norm_num)
    _ ≤ 4 := by norm_num

theorem mul_positiveTerm_le_four {z : K} (nonneg : 0 ≤ z) {l : ℕ} (range : z ≤ (l : K) + 7)
    (k : ℕ) : z * positiveTerm z l k ≤ 4 := by
  obtain rfl | one_le : k = 0 ∨ 1 ≤ k := by omega
  · exact (mul_positiveTerm_zero_le range).trans (by norm_num)
  · have later := positiveTerm_le_of_le nonneg range le_rfl one_le
    exact (mul_le_mul_of_nonneg_left later nonneg).trans (mul_positiveTerm_one_le nonneg range)

theorem mul_positivePartial_le {z : K} (nonneg : 0 ≤ z) {l : ℕ} (range : z ≤ (l : K) + 7) (k : ℕ) :
    z * positivePartial z l k ≤ 4 * (k + 1) := by
  induction k with
  | zero =>
    rw [positivePartial_zero]
    simpa using mul_positiveTerm_le_four nonneg range 0
  | succ k ih =>
    have next := mul_positiveTerm_le_four nonneg range (k + 1)
    rw [positivePartial_succ, mul_add]
    push_cast
    linarith

theorem mul_positiveTerm_five_le_one {z : K} (nonneg : 0 ≤ z) {l : ℕ} (range : z ≤ (l : K) + 7) :
    z * positiveTerm z l 5 ≤ 1 := by
  have order : (0 : K) ≤ l := Nat.cast_nonneg l
  -- Two of the six factors `z / (l + 3 + 2j)` can exceed 1, and the last three make up for them.
  have top : z ^ 6 ≤ ((l : K) + 7) ^ 6 := pow_le_pow_left₀ nonneg range 6
  have bottom : ((l : K) + 7) ^ 6 ≤ (l + 3) * (l + 5) * (l + 7) * (l + 9) * (l + 11) * (l + 13) := by
    rw [← sub_nonneg]
    calc (0 : K) ≤ (l + 7) * (6 * l ^ 4 + 148 * l ^ 3 + 1224 * l ^ 2 + 3676 * l + 2498) := by
          positivity
      _ = _ := by ring
  have product : z * positiveTerm z l 5 =
      z ^ 6 / (((l : K) + 3) * (l + 5) * (l + 7) * (l + 9) * (l + 11) * (l + 13)) := by
    simp only [positiveTerm]
    push_cast
    field_simp
    ring
  rw [product, div_le_one (by positivity)]
  exact top.trans bottom

/--
The last term of the series is small even where the loop runs to its bound: six factors already
bring the product below 1.
-/
theorem mul_last_le_one {z : K} (nonneg : 0 ≤ z) {l : ℕ} (range : z ≤ (l : K) + 7) :
    z * positiveTerm z l (positiveTotal z l).lastIndex ≤ 1 := by
  have stops := positiveTotal_stops z l
  cases converged : (positiveTotal z l).converged with
  | true =>
    obtain ⟨_, small⟩ := stops.negligible converged
    have bound := stops.le_bound
    generalize (positiveTotal z l).lastIndex = last at small bound
    have count : (last : K) + 1 ≤ 1000 := mod_cast Nat.succ_le_succ bound
    calc z * positiveTerm z l last
        ≤ z * (seriesTolerance * positivePartial z l last) := mul_le_mul_of_nonneg_left small.le nonneg
      _ = seriesTolerance * (z * positivePartial z l last) := by ring
      _ ≤ seriesTolerance * (4 * 1000) := by
        apply mul_le_mul_of_nonneg_left _ seriesTolerance_pos.le
        linarith [mul_positivePartial_le nonneg range last]
      _ ≤ 1 := by norm_num [seriesTolerance]
  | false =>
    rw [stops.exhausted converged]
    have last : positiveTerm z l (maxPositiveTerms - 1) ≤ positiveTerm z l 5 :=
      positiveTerm_le_of_le nonneg range (by decide) (by decide)
    exact (mul_le_mul_of_nonneg_left last nonneg).trans (mul_positiveTerm_five_le_one nonneg range)

end GaussianRadial
