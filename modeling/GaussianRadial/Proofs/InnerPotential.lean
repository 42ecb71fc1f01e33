import GaussianRadial.Proofs.InnerClosedForm

/-!
# The inner potential

The inner potential and the inner integral choose among their formulas in different ways, the
potential without the table. `innerPotential_mul_pow` says that both are one integral.
-/

namespace GaussianRadial

variable {K : Type} [Field K] [LinearOrder K] [Elementary K]

section Branches
variable {alpha x : K} {l₁ l₂ : ℕ} (coefficients : List K) (expa erfa : K)

theorem innerPotentialAt_of_small (small : Elementary.sqrt alpha * x < taylorThreshold) :
    innerPotentialAt coefficients alpha l₁ l₂ x expa erfa =
      x ^ l₁ * taylorSeries x alpha (l₁ + l₂) := by
  rw [innerPotentialAt, if_pos small]

theorem innerPotentialAt_of_range (large : ¬ Elementary.sqrt alpha * x < taylorThreshold)
    (range : InSeriesRange x alpha (l₁ + l₂)) :
    innerPotentialAt coefficients alpha l₁ l₂ x expa erfa =
      x ^ (l₁ + 2) * positiveSeries x alpha expa (l₁ + l₂) := by
  rw [innerPotentialAt, if_neg large, if_pos range]

end Branches

variable [IsStrictOrderedRing K] [ExactElementary K]

theorem innerPotentialAt_of_beyond {alpha x : K} (positive : 0 < alpha) {l₁ l₂ m : ℕ}
    (total : l₁ + l₂ = 2 * m) (large : ¬ Elementary.sqrt alpha * x < taylorThreshold)
    (beyond : ¬ InSeriesRange x alpha (2 * m)) (expa erfa : K) :
    innerPotentialAt (closedCoefficients (2 * m)) alpha l₁ l₂ x expa erfa =
      innerForm m (Elementary.sqrt alpha) x expa erfa / x ^ (l₂ + 1) := by
  rw [innerPotentialAt, if_neg large, total, if_neg beyond, closedForm_two_mul positive]

/--
From the threshold of the Taylor series on, the inner potential is the inner integral of the sum of
its orders over `x ^ (l₂ + 1)`, whatever values stand for `e^(-αx²)` and `erf (√α x)`.
-/
theorem innerPotential_mul_pow {output samples : List K} {aux : Auxiliary K} {i : ℕ}
    {x expa erfa alpha : K} (sample : InnerSample output samples aux i x expa erfa)
    (positive : 0 < alpha) (above : taylorThreshold ≤ Elementary.sqrt alpha * x) {l₁ l₂ : ℕ}
    (even : Even (l₁ + l₂)) (descending : l₂ ≤ l₁) :
    ∃ potential, Writes output (innerPotential samples aux alpha l₁ l₂) i potential ∧
      Writes output (innerIntegral samples aux alpha (l₁ + l₂)) i (potential * x ^ (l₂ + 1)) := by
  have large : ¬ Elementary.sqrt alpha * x < taylorThreshold := not_lt.mpr above
  have threshold : (0 : K) < taylorThreshold := by
    rw [taylorThreshold]
    positivity
  have outside : 0 < x :=
    pos_of_mul_pos_right (threshold.trans_le above) (ExactElementary.sqrt_pos positive).le
  obtain ⟨m, total⟩ : ∃ m, l₁ + l₂ = 2 * m := even_iff_exists_two_mul.mp even
  have order : (l₁ : ℤ) + l₂ = ((2 * m : ℕ) : ℤ) := by omega
  refine ⟨_, (writes_potential_of_total sample positive total descending _).mpr rfl, ?_⟩
  rw [order, writes_inner_two_mul sample positive]
  by_cases range : InSeriesRange x alpha (2 * m)
  · rw [innerAt_of_range range, innerPotentialAt_of_range _ _ _ large (by rwa [total]), total,
      show 2 * m + 3 = l₁ + 2 + (l₂ + 1) by omega, pow_add]
    ring
  · rw [innerAt_of_beyond positive range, innerPotentialAt_of_beyond positive total large range,
      div_mul_cancel₀ _ (pow_pos outside _).ne']

theorem innerPotential_mul_pow_nine_seven :
    InnerSample [0] [4] ⟨[2], [3]⟩ 0 (4 : ℝ) 2 3 ∧ (0 : ℝ) < 1 ∧
      taylorThreshold ≤ √(1 : ℝ) * 4 ∧ Even (9 + 7) ∧ 7 ≤ 9 ∧
      ∃ potential, Writes [0] (innerPotential [4] ⟨[2], [3]⟩ (1 : ℝ) 9 7) 0 potential ∧
        Writes [0] (innerIntegral [4] ⟨[2], [3]⟩ (1 : ℝ) 16) 0 (potential * 4 ^ 8) := by
  have sample : InnerSample [0] [4] ⟨[2], [3]⟩ 0 (4 : ℝ) 2 3 := ⟨⟨rfl, rfl, rfl, rfl⟩, rfl, rfl⟩
  have above : taylorThreshold ≤ √(1 : ℝ) * 4 := by norm_num [taylorThreshold]
  have even : Even (9 + 7) := by decide
  have descending : 7 ≤ 9 := by decide
  have equal := innerPotential_mul_pow sample one_pos above even descending
  exact ⟨sample, one_pos, above, even, descending, mod_cast equal⟩

end GaussianRadial
