import GaussianRadial.Proofs.RealArithmetic
import GaussianRadial.Proofs.Samples
import GaussianRadial.Proofs.Tables

/-!
# The closed form of the inner integral

In exact arithmetic the rows of the table and the finite sum are one expression, `innerForm`, in any
values that stand for `e^(-αx²)`, `erf (√α x)` and `√π`. `innerIntegral_recurrence` is integration
by parts, from each even order to the next.
-/

namespace GaussianRadial
open scoped Nat

variable {K : Type} [Field K]

/-- `Σ 2^(k + 1) u^(2k + 1) / (2k + 1)‼` for `k = 0, …, m`: the series of `√π e^(u²) erf u`. -/
def erfSum (m : ℕ) (u : K) : K :=
  ∑ k ∈ Finset.range (m + 1), ((2 : ℕ) : K) ^ (k + 1) * u ^ (2 * k + 1) / (((2 * k + 1)‼ : ℕ) : K)

theorem erfSum_zero (u : K) : erfSum 0 u = 2 * u := by
  simp [erfSum]

theorem erfSum_at_zero (m : ℕ) : erfSum m (0 : K) = 0 := by
  simp [erfSum]

theorem erfSum_succ (m : ℕ) (u : K) :
    erfSum (m + 1) u =
      erfSum m u + 2 ^ (m + 2) * u ^ (2 * m + 3) / (((2 * m + 3)‼ : ℕ) : K) := by
  rw [erfSum, Finset.sum_range_succ, ← erfSum]
  rfl

theorem closedSum_eq (expa square alpha xPower tPower sum : K) (c : ℕ → K) (n : ℕ) :
    closedSum expa square alpha xPower tPower sum ((List.range n).map c) =
      sum + ∑ k ∈ Finset.range n,
        expa * (xPower * square ^ k) * (tPower * alpha ^ k) * c k := by
  -- The coefficients shift with the running powers: what is left is a sum of the same form.
  induction n generalizing c xPower tPower sum with
  | zero => simp [closedSum]
  | succ n ih =>
    rw [List.range_succ_eq_map, List.map_cons, List.map_map, closedSum, ih,
      Finset.sum_range_succ', add_assoc, add_comm (_ * _)]
    simp only [Function.comp_apply, pow_succ', pow_zero, mul_one, mul_assoc, Nat.succ_eq_add_one]

theorem subtrahend_eq (row : InnerRow) (u expa : K) :
    row.subtrahend u expa = u * expa * polynomial row.coefficients (u * u) := by
  unfold InnerRow.subtrahend
  split
  · rename_i c single
    rw [single, polynomial]
    ring
  · rfl

/-- The inner integral of order `2m`, where `t` stands for `√α`. -/
def innerForm [Elementary K] (m : ℕ) (t x expa erfa : K) : K :=
  (((2 * m + 1)‼ : ℕ) : K) / (((2 : ℕ) : K) ^ (m + 2) * t ^ (2 * m + 3)) *
    (Elementary.rootPi * erfa - expa * erfSum m (t * x))

theorem doubleFactorial_cast_add_two (m : ℕ) :
    (((2 * m + 3)‼ : ℕ) : K) = (2 * m + 3) * (((2 * m + 1)‼ : ℕ) : K) := by
  rw [show 2 * m + 3 = 2 * m + 1 + 2 by omega, Nat.doubleFactorial_add_two]
  push_cast
  ring

variable [LinearOrder K]

theorem beyond_iff {alpha x : K} {l : ℕ} :
    ¬ InSeriesRange x alpha l ↔ ((l : K) + 3) / 2 + 2 ≤ alpha * x ^ 2 := by
  simp [InSeriesRange, sq, mul_assoc]

theorem innerAt_of_range [Elementary K] {alpha x : K} {m : ℕ}
    (range : InSeriesRange x alpha (2 * m)) (expa erfa : K) :
    innerAt (closedCoefficients (2 * m)) alpha (2 * m) x expa erfa =
      x ^ (2 * m + 3) * positiveSeries x alpha expa (2 * m) := by
  rw [innerAt, if_pos range]

variable [IsStrictOrderedRing K]

theorem doubleFactorial_cast_ne_zero (n : ℕ) : ((n‼ : ℕ) : K) ≠ 0 :=
  Nat.cast_ne_zero.mpr (Nat.doubleFactorial_pos n).ne'

theorem polynomial_innerRow (m : ℕ) (u : K) :
    u * polynomial (innerRow m).coefficients (u * u) =
      (((2 * m + 1)‼ : ℕ) : K) * erfSum m u := by
  rw [innerRow, polynomial_map_range, erfSum, Finset.mul_sum, Finset.mul_sum]
  apply Finset.sum_congr rfl
  intro k member
  have le : k ≤ m := Finset.mem_range_succ_iff.mp member
  rw [Nat.cast_mul, Nat.cast_div (doubleFactorial_dvd le) (doubleFactorial_cast_ne_zero _),
    Nat.cast_pow, Nat.cast_ofNat]
  ring

section Form
variable [Elementary K]

theorem innerForm_zero {t : K} (nonzero : t ≠ 0) (x expa erfa : K) :
    innerForm 0 t x expa erfa =
      (Elementary.rootPi * erfa - 2 * t * x * expa) / (4 * t ^ 3) := by
  rw [innerForm, erfSum_zero, show 2 * 0 + 1 = 1 from rfl, Nat.doubleFactorial, Nat.cast_one]
  field_simp
  ring

theorem innerForm_succ {t : K} (nonzero : t ≠ 0) (m : ℕ) (x expa erfa : K) :
    innerForm (m + 1) t x expa erfa =
      (2 * m + 3) / (2 * t ^ 2) * innerForm m t x expa erfa -
        x ^ (2 * m + 3) * expa / (2 * t ^ 2) := by
  have bottom := doubleFactorial_cast_ne_zero (K := K) (2 * m + 1)
  have factor : (2 * m + 3 : K) ≠ 0 := by positivity
  rw [innerForm, innerForm, erfSum_succ, show 2 * (m + 1) + 1 = 2 * m + 3 by omega,
    doubleFactorial_cast_add_two]
  field_simp
  ring

theorem innerRow_value (m : ℕ) (t x expa erfa : K) :
    (innerRow m).value (t * x) expa erfa * (1 / t ^ (2 * m + 3)) =
      innerForm m t x expa erfa := by
  have leading : (innerRow m).leading = (2 * m + 1)‼ := rfl
  have divisor : (innerRow m).divisor = 2 ^ (m + 2) := rfl
  have sum := polynomial_innerRow m (t * x)
  rw [InnerRow.value, subtrahend_eq, mul_right_comm (t * x), sum, leading, divisor, innerForm,
    Nat.cast_pow, Nat.cast_ofNat]
  ring

end Form

variable [Elementary K] [ExactElementary K]

omit [IsStrictOrderedRing K] in
theorem closedCoefficients_two_mul (m : ℕ) :
    (closedCoefficients (2 * m) : List K) = (List.range (m + 1)).map fun k =>
      (((2 * m + 1)‼ : ℕ) : K) / (((2 * k + 1)‼ : ℕ) : K) * 2 ^ (k + 1) := by
  have half : 2 * m / 2 = m := by omega
  simp only [closedCoefficients, half, doubleFactorial_eq, Nat.cast_ofNat]

theorem closedForm_two_mul {alpha : K} (positive : 0 < alpha) (m : ℕ) (x expa erfa : K) :
    closedForm x (Elementary.sqrt alpha) alpha expa erfa (2 * m) (closedCoefficients (2 * m)) =
      innerForm m (Elementary.sqrt alpha) x expa erfa := by
  have half : 2 * m / 2 = m := by omega
  have nonzero := (ExactElementary.sqrt_pos positive).ne'
  have square := ExactElementary.sqrt_mul_self positive
  -- From here on `alpha` is `t * t`: both sides are expressions in `t`.
  generalize Elementary.sqrt alpha = t at nonzero square ⊢
  subst square
  have sum : ∑ k ∈ Finset.range (m + 1), expa * (x * (x * x) ^ k) * (t * t * t * (t * t) ^ k) *
      ((((2 * m + 1)‼ : ℕ) : K) / (((2 * k + 1)‼ : ℕ) : K) * 2 ^ (k + 1)) =
        t * t * (((2 * m + 1)‼ : ℕ) : K) * (expa * erfSum m (t * x)) := by
    rw [erfSum, Finset.mul_sum, Finset.mul_sum]
    apply Finset.sum_congr rfl
    intro k _
    ring
  rw [closedForm, closedCoefficients_two_mul, closedSum_eq, sum, doubleFactorial_eq, half,
    innerForm, Nat.cast_ofNat]
  field_simp
  ring

/-- Beyond the range of the series the table and the finite sum have one value. -/
theorem innerAt_of_beyond {alpha x : K} (positive : 0 < alpha) {m : ℕ}
    (beyond : ¬ InSeriesRange x alpha (2 * m)) (expa erfa : K) :
    innerAt (closedCoefficients (2 * m)) alpha (2 * m) x expa erfa =
      innerForm m (Elementary.sqrt alpha) x expa erfa := by
  have half : 2 * m / 2 = m := by omega
  simp only [innerAt, if_neg beyond, half, innerRows_getElem?]
  by_cases row : m < tabulated
  · simp only [if_pos row, Nat.cast_one, innerRow_value]
  · simp only [if_neg row, closedForm_two_mul positive]

omit [IsStrictOrderedRing K] in
theorem innerLimit_two_mul {alpha : K} (positive : 0 < alpha) (m : ℕ) :
    innerLimit alpha ((2 * m : ℕ) : ℤ) = .ok ((((2 * m + 1)‼ : ℕ) : K) * Elementary.rootPi /
      2 ^ (m + 2) / Elementary.sqrt alpha ^ (2 * m + 3)) := by
  have half : 2 * m / 2 = m := by omega
  have checked : checkOrder alpha ((2 * m : ℕ) : ℤ) = .ok () :=
    checkOrder_ok_iff.mpr ⟨by simp, by omega, by rwa [Nat.cast_zero]⟩
  simp only [innerLimit, bind_ok_unit_iff]
  refine ⟨checked, ?_⟩
  rw [Int.toNat_natCast, half, doubleFactorial_eq, Nat.cast_ofNat,
    ExactElementary.rpow_div_two _ positive]
  rfl

/--
Beyond the range of the series, integration by parts takes the inner integral from each even order
to the next, whatever values stand for `e^(-αx²)` and `erf (√α x)`.
-/
theorem innerIntegral_recurrence {output samples : List K} {aux : Auxiliary K} {i : ℕ}
    {x expa erfa alpha : K} (sample : InnerSample output samples aux i x expa erfa)
    (positive : 0 < alpha) :
    ((0 + 3) / 2 + 2 ≤ alpha * x ^ 2 →
      Writes output (innerIntegral samples aux alpha 0) i
        ((Elementary.rootPi * erfa - 2 * Elementary.sqrt alpha * x * expa) /
          (4 * Elementary.sqrt alpha ^ 3))) ∧
    ∀ l : ℕ, Even l → 2 ≤ l → ((l : K) + 3) / 2 + 2 ≤ alpha * x ^ 2 → ∃ lower,
      Writes output (innerIntegral samples aux alpha (l - 2)) i lower ∧
      Writes output (innerIntegral samples aux alpha l) i
        ((l + 1) / (2 * alpha) * lower - x ^ (l + 1) * expa / (2 * alpha)) := by
  have root := ExactElementary.sqrt_pos positive
  constructor
  · intro far
    have beyond : ¬ InSeriesRange x alpha (2 * 0) := beyond_iff.mpr (by simpa using far)
    apply (writes_inner_two_mul sample positive 0 _).mpr
    rw [innerAt_of_beyond positive beyond, innerForm_zero root.ne']
  · intro l even two_le far
    obtain ⟨m, rfl, shift⟩ := exists_even_order even two_le
    -- The range of the series is the smaller for the lower order.
    have lowerBeyond : ¬ InSeriesRange x alpha (2 * m) := by
      rw [beyond_iff]
      push_cast at far ⊢
      linarith
    refine ⟨innerForm m (Elementary.sqrt alpha) x expa erfa, ?_, ?_⟩
    · rw [shift, writes_inner_two_mul sample positive, innerAt_of_beyond positive lowerBeyond]
    · rw [writes_inner_two_mul sample positive, innerAt_of_beyond positive (beyond_iff.mpr far),
        innerForm_succ root.ne', sqrt_sq positive]
      push_cast
      ring

theorem innerIntegral_recurrence_sixteen :
    InnerSample [0] [4] ⟨[2], [3]⟩ 0 (4 : ℝ) 2 3 ∧ (0 : ℝ) < 1 ∧
      ((16 : ℝ) + 3) / 2 + 2 ≤ 1 * 4 ^ 2 ∧ ((0 : ℝ) + 3) / 2 + 2 ≤ 1 * 4 ^ 2 ∧
      Writes [0] (innerIntegral [4] ⟨[2], [3]⟩ (1 : ℝ) 0) 0
        ((√Real.pi * 3 - 2 * √1 * 4 * 2) / (4 * √1 ^ 3)) ∧
      ∃ lower, Writes [0] (innerIntegral [4] ⟨[2], [3]⟩ (1 : ℝ) 14) 0 lower ∧
        Writes [0] (innerIntegral [4] ⟨[2], [3]⟩ (1 : ℝ) 16) 0
          ((16 + 1) / (2 * 1) * lower - 4 ^ (16 + 1) * 2 / (2 * 1)) := by
  have sample : InnerSample [0] [4] ⟨[2], [3]⟩ 0 (4 : ℝ) 2 3 := ⟨⟨rfl, rfl, rfl, rfl⟩, rfl, rfl⟩
  have far : ((16 : ℝ) + 3) / 2 + 2 ≤ 1 * 4 ^ 2 := by norm_num
  have start : ((0 : ℝ) + 3) / 2 + 2 ≤ 1 * 4 ^ 2 := by norm_num
  have both := innerIntegral_recurrence sample one_pos
  have step := both.2 16 (by decide) (by decide) (mod_cast far)
  exact ⟨sample, one_pos, far, start, both.1 start, mod_cast step⟩

end GaussianRadial
