import GaussianRadial.Proofs.FullRangeLimits
import GaussianRadial.Proofs.InnerMonotone

/-!
# Decay of the outer integral

With the real value of `e^(-αx²)` the outer integral has the derivative `-x^(l + 1) e^(-αx²)`, for
the orders of the table and for all others. So it falls from its value at the origin as `x` grows,
and stays positive: `outerIntegral_antitone`.
-/

namespace GaussianRadial
open scoped Nat

theorem exponentialSum_pos {v : ℝ} (nonneg : 0 ≤ v) (m : ℕ) : 0 < exponentialSum m v := by
  induction m with
  | zero =>
    rw [exponentialSum_zero]
    exact one_pos
  | succ m ih =>
    rw [exponentialSum_succ]
    positivity

/-- The outer integral of order `2m`. -/
noncomputable def outerValue (alpha : ℝ) (m : ℕ) (x : ℝ) : ℝ :=
  outerAt alpha (2 * m) x (damping alpha x)

variable {alpha : ℝ}

theorem outerValue_zero (alpha : ℝ) (m : ℕ) :
    outerValue alpha m 0 = ((m ! : ℕ) : ℝ) / (2 * alpha ^ (m + 1)) := by
  have undamped : damping alpha 0 = 1 := by simp [damping]
  rw [outerValue, undamped, outerAt_origin]

theorem hasDerivAt_outerValue (positive : 0 < alpha) (m : ℕ) (x : ℝ) :
    HasDerivAt (outerValue alpha m) (-(x ^ (2 * m + 1) * damping alpha x)) x := by
  -- The order below takes away what the power of `x` adds.
  induction m with
  | zero =>
    have same : outerValue alpha 0 = fun y => damping alpha y / (2 * alpha) := by
      funext y
      rw [outerValue, outerAt_two_mul, exponentialSum_zero]
      field_simp
      ring
    rw [same]
    refine ((hasDerivAt_damping alpha x).div_const (2 * alpha)).congr_deriv ?_
    field_simp
    ring
  | succ m ih =>
    have same : outerValue alpha (m + 1) = fun y =>
        y ^ (2 * m + 1 + 1) * damping alpha y / (2 * alpha) +
          (m + 1) / alpha * outerValue alpha m y := by
      funext y
      rw [outerValue, outerAt_succ positive, outerValue]
      rfl
    rw [same]
    refine (((hasDerivAt_pow_mul_damping alpha (2 * m + 1) x).div_const (2 * alpha)).add
      (ih.const_mul ((m + 1) / alpha))).congr_deriv ?_
    push_cast
    field_simp
    ring

theorem outerValue_pos (positive : 0 < alpha) (m : ℕ) (x : ℝ) : 0 < outerValue alpha m x := by
  have argument : 0 ≤ alpha * x * x := by
    rw [mul_assoc]
    exact mul_nonneg positive.le (mul_self_nonneg x)
  have sum := exponentialSum_pos argument m
  have damped := damping_pos alpha x
  rw [outerValue, outerAt_two_mul]
  positivity

theorem outerValue_antitone (positive : 0 < alpha) (m : ℕ) {x y : ℝ} (nonneg : 0 ≤ x)
    (le : x ≤ y) : outerValue alpha m y ≤ outerValue alpha m x := by
  apply neg_le_neg_iff.mp
  apply le_of_deriv_nonneg (fun s => (hasDerivAt_outerValue positive m s).neg) le
  intro s lower _
  have outside : 0 ≤ s := nonneg.trans lower
  rw [neg_neg]
  exact mul_nonneg (pow_nonneg outside _) (damping_pos alpha s).le

theorem outerValue_le_origin (positive : 0 < alpha) (m : ℕ) {x : ℝ} (nonneg : 0 ≤ x) :
    outerValue alpha m x ≤ ((m ! : ℕ) : ℝ) / (2 * alpha ^ (m + 1)) := by
  rw [← outerValue_zero]
  exact outerValue_antitone positive m le_rfl nonneg

/--
With the values of `e^(-αx²)` the outer integral falls as `x` grows. It starts from no more than its
value at the origin and never vanishes.
-/
theorem outerIntegral_antitone {output output' samples samples' expas expas' : List ℝ} {i j : ℕ}
    {x y : ℝ} (positive : 0 < alpha) (nonneg : 0 ≤ x) (le : x ≤ y)
    (here : OuterSample output samples expas i x (Real.exp (-(alpha * x ^ 2))))
    (there : OuterSample output' samples' expas' j y (Real.exp (-(alpha * y ^ 2)))) {l : ℕ}
    (even : Even l) :
    ∃ upper lower origin,
      Writes output (outerIntegral samples expas alpha l) i upper ∧
      Writes output' (outerIntegral samples' expas' alpha l) j lower ∧
      outerOrigin alpha l = .ok origin ∧ 0 < lower ∧ lower ≤ upper ∧ upper ≤ origin := by
  obtain ⟨m, rfl⟩ := even_iff_exists_two_mul.mp even
  refine ⟨outerValue alpha m x, outerValue alpha m y, _, ?_, ?_, outerOrigin_two_mul positive m,
    outerValue_pos positive m y, outerValue_antitone positive m nonneg le,
    outerValue_le_origin positive m nonneg⟩
  · exact (writes_outer_two_mul here positive m _).mpr rfl
  · exact (writes_outer_two_mul there positive m _).mpr rfl

theorem outerIntegral_antitone_sixteen :
    ∃ expas : List ℝ, (0 : ℝ) < 3 ∧ (0 : ℝ) ≤ 1 ∧ (1 : ℝ) ≤ 2 ∧ Even 16 ∧
      OuterSample [0, 0] [1, 2] expas 0 (1 : ℝ) (Real.exp (-(3 * 1 ^ 2))) ∧
      OuterSample [0, 0] [1, 2] expas 1 (2 : ℝ) (Real.exp (-(3 * 2 ^ 2))) ∧
      ∃ upper lower origin,
        Writes [0, 0] (outerIntegral [1, 2] expas (3 : ℝ) 16) 0 upper ∧
        Writes [0, 0] (outerIntegral [1, 2] expas (3 : ℝ) 16) 1 lower ∧
        outerOrigin (3 : ℝ) 16 = .ok origin ∧ 0 < lower ∧ lower ≤ upper ∧ upper ≤ origin := by
  let expas : List ℝ := [Real.exp (-(3 * 1 ^ 2)), Real.exp (-(3 * 2 ^ 2))]
  have here : OuterSample [0, 0] [1, 2] expas 0 (1 : ℝ) (Real.exp (-(3 * 1 ^ 2))) :=
    ⟨rfl, rfl, rfl, rfl⟩
  have there : OuterSample [0, 0] [1, 2] expas 1 (2 : ℝ) (Real.exp (-(3 * 2 ^ 2))) :=
    ⟨rfl, rfl, rfl, rfl⟩
  have positive : (0 : ℝ) < 3 := by norm_num
  have le : (1 : ℝ) ≤ 2 := by norm_num
  have even : Even 16 := by decide
  have falls := outerIntegral_antitone positive zero_le_one le here there even
  exact ⟨expas, positive, zero_le_one, le, even, here, there, mod_cast falls⟩

end GaussianRadial
