import Mathlib.Analysis.SpecialFunctions.Gaussian.GaussianIntegral
import Mathlib.Analysis.SpecialFunctions.Pow.Real
import GaussianRadial.Proofs.ExactArithmetic

/-!
# Real arithmetic

The real numbers with the functions of analysis, and with `√π` for the constant. The error function
starts at 0, has the derivative `2 / √π · e^(-x²)` and does not exceed 1.
-/

namespace GaussianRadial

/-- `erf x = 2 / √π · ∫ e^(-s²)` from 0 to `x`. -/
noncomputable def realErf (x : ℝ) : ℝ :=
  ((2 : ℕ) : ℝ) / √Real.pi * ∫ s in (0 : ℝ)..x, Real.exp (-(s * s))

noncomputable instance realElementary : Elementary ℝ where
  sqrt := Real.sqrt
  exp := Real.exp
  erf := realErf
  rpow := fun x y => x ^ y
  rootPi := √Real.pi
  isFinite := fun _ => true

instance realExactElementary : ExactElementary ℝ where
  sqrt_pos := Real.sqrt_pos.mpr
  sqrt_mul_self positive := Real.mul_self_sqrt positive.le
  rpow_div_two n positive := by
    change _ ^ ((n : ℝ) / 2) = √_ ^ n
    rw [Real.sqrt_eq_rpow, ← Real.rpow_natCast, ← Real.rpow_mul positive.le, one_div_mul_eq_div]
  isFinite_eq_true _ := rfl

theorem mul_sq_eq_sqrt_mul_sq {alpha : ℝ} (positive : 0 < alpha) (x : ℝ) :
    alpha * x ^ 2 = (√alpha * x) ^ 2 := by
  rw [mul_pow, Real.sq_sqrt positive.le]

theorem realErf_zero : realErf 0 = 0 := by
  rw [realErf, intervalIntegral.integral_same, mul_zero]

theorem hasDerivAt_realErf (x : ℝ) :
    HasDerivAt realErf (2 / √Real.pi * Real.exp (-(x * x))) x := by
  have continuous : Continuous fun s : ℝ => Real.exp (-(s * s)) := by fun_prop
  have integral := (continuous.integral_hasStrictDerivAt 0 x).hasDerivAt.const_mul (2 / √Real.pi)
  exact_mod_cast integral

theorem realErf_le_one {x : ℝ} (nonneg : 0 ≤ x) : realErf x ≤ 1 := by
  have square (s : ℝ) : Real.exp (-1 * s ^ 2) = Real.exp (-(s * s)) := by
    rw [sq, neg_one_mul]
  have integrable : MeasureTheory.IntegrableOn (fun s : ℝ => Real.exp (-(s * s))) (Set.Ioi 0) := by
    simpa only [square] using (integrable_exp_neg_mul_sq one_pos).integrableOn
  have whole : ∫ s in Set.Ioi (0 : ℝ), Real.exp (-(s * s)) = √Real.pi / 2 := by
    simpa only [square, div_one] using integral_gaussian_Ioi 1
  have part : ∫ s in (0 : ℝ)..x, Real.exp (-(s * s)) ≤ √Real.pi / 2 := by
    rw [intervalIntegral.integral_of_le nonneg, ← whole]
    apply MeasureTheory.setIntegral_mono_set integrable
    · exact Filter.Eventually.of_forall fun s => (Real.exp_pos _).le
    · exact Set.Ioc_subset_Ioi_self.eventuallyLE
  have root : 0 < √Real.pi := Real.sqrt_pos.mpr Real.pi_pos
  rw [realErf, Nat.cast_ofNat]
  calc _ ≤ 2 / √Real.pi * (√Real.pi / 2) := mul_le_mul_of_nonneg_left part (by positivity)
    _ = 1 := by field_simp

end GaussianRadial
