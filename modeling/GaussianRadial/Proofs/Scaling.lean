import GaussianRadial.Proofs.InnerPotential
import GaussianRadial.Proofs.OuterIntegral
import GaussianRadial.Proofs.TaylorSeries

/-!
# Scaling

In exact arithmetic an exponent `t²` is a change of the unit of length: every integral at `x` is a
power of `t` times the integral with exponent 1 at `t x`. Both take the same branch and add the same
terms, so this holds for any values that stand for `e^(-αx²)` and `erf (√α x)`: `integrals_scale`.
-/

namespace GaussianRadial

variable {K : Type} [Field K]

theorem innerForm_scale [Elementary K] (m : ℕ) (t x expa erfa : K) :
    innerForm m t x expa erfa = innerForm m 1 (t * x) expa erfa / t ^ (2 * m + 3) := by
  rw [innerForm, innerForm, one_pow, mul_one, one_mul, div_mul_eq_div_div]
  ring

theorem outerArgument_scale (t x : K) : t ^ 2 * x * x = 1 * (t * x) * (t * x) := by
  ring

theorem seriesArgument_scale (t x : K) :
    ((2 : ℕ) : K) * t ^ 2 * x * x = ((2 : ℕ) : K) * 1 * (t * x) * (t * x) := by
  ring

variable [LinearOrder K]

theorem inSeriesRange_scale (t x : K) (l : ℕ) :
    InSeriesRange x (t ^ 2) l ↔ InSeriesRange (t * x) 1 l := by
  rw [InSeriesRange, InSeriesRange, outerArgument_scale]

theorem positiveSeries_scale (t x expa : K) (l : ℕ) :
    positiveSeries x (t ^ 2) expa l = positiveSeries (t * x) 1 expa l := by
  rw [positiveSeries, positiveSeries, seriesArgument_scale]

variable [IsStrictOrderedRing K] {t : K}

theorem taylorSeries_scale (positive : 0 < t) (x : K) (l : ℕ) :
    taylorSeries x (t ^ 2) l = taylorSeries (t * x) 1 l / t ^ 2 := by
  have square : t ^ 2 ≠ 0 := (pow_pos positive 2).ne'
  rw [taylorSeries_eq_sum, taylorSeries_eq_sum, one_mul, mul_pow, mul_assoc, mul_div_cancel_left₀ _ square]

variable [Elementary K] [ExactElementary K]

theorem sqrt_pow_two (positive : 0 < t) : Elementary.sqrt (t ^ 2) = t := by
  have square : 0 < t ^ 2 := pow_pos positive 2
  exact (pow_left_inj₀ (ExactElementary.sqrt_pos square).le positive.le two_ne_zero).mp
    (sqrt_sq square)

theorem sqrt_one : Elementary.sqrt (1 : K) = 1 := by
  simpa only [one_pow] using sqrt_pow_two (K := K) one_pos

/-! ### Values at one sample -/

theorem innerAt_scale (positive : 0 < t) (m : ℕ) (x expa erfa : K) :
    innerAt (closedCoefficients (2 * m)) (t ^ 2) (2 * m) x expa erfa =
      innerAt (closedCoefficients (2 * m)) 1 (2 * m) (t * x) expa erfa / t ^ (2 * m + 3) := by
  by_cases range : InSeriesRange x (t ^ 2) (2 * m)
  · have power : t ^ (2 * m + 3) ≠ 0 := (pow_pos positive _).ne'
    rw [innerAt_of_range range, innerAt_of_range ((inSeriesRange_scale t x _).mp range),
      positiveSeries_scale, mul_pow, mul_assoc, mul_div_cancel_left₀ _ power]
  · have there : ¬ InSeriesRange (t * x) 1 (2 * m) := mt (inSeriesRange_scale t x _).mpr range
    rw [innerAt_of_beyond (pow_pos positive 2) range, innerAt_of_beyond one_pos there,
      sqrt_pow_two positive, sqrt_one, innerForm_scale]

theorem innerPotentialAt_scale (positive : 0 < t) {l₁ l₂ m : ℕ} (total : l₁ + l₂ = 2 * m)
    (x expa erfa : K) :
    innerPotentialAt (closedCoefficients (2 * m)) (t ^ 2) l₁ l₂ x expa erfa =
      innerPotentialAt (closedCoefficients (2 * m)) 1 l₁ l₂ (t * x) expa erfa / t ^ (l₁ + 2) := by
  have root := sqrt_pow_two positive
  have unit : Elementary.sqrt (1 : K) * (t * x) = t * x := by rw [sqrt_one, one_mul]
  have power (n : ℕ) : t ^ n ≠ 0 := (pow_pos positive n).ne'
  by_cases small : t * x < taylorThreshold
  · rw [innerPotentialAt_of_small _ _ _ (by rwa [root]),
      innerPotentialAt_of_small _ _ _ (by rwa [unit]), taylorSeries_scale positive, mul_pow, pow_add]
    field_simp [power]
  by_cases range : InSeriesRange x (t ^ 2) (2 * m)
  · rw [innerPotentialAt_of_range _ _ _ (by rwa [root]) (by rwa [total]),
      innerPotentialAt_of_range _ _ _ (by rwa [unit])
        (by rwa [total, ← inSeriesRange_scale]), positiveSeries_scale, mul_pow, mul_assoc,
      mul_div_cancel_left₀ _ (power _)]
  · have there : ¬ InSeriesRange (t * x) 1 (2 * m) := mt (inSeriesRange_scale t x _).mpr range
    rw [innerPotentialAt_of_beyond (pow_pos positive 2) total (by rwa [root]) range,
      innerPotentialAt_of_beyond one_pos total (by rwa [unit]) there, root, sqrt_one,
      innerForm_scale, show 2 * m + 3 = l₁ + 2 + (l₂ + 1) by omega, mul_pow, pow_add]
    field_simp [power]

theorem outerAt_scale (t : K) (m : ℕ) (x expa : K) :
    outerAt (t ^ 2) (2 * m) x expa = outerAt 1 (2 * m) (t * x) expa / t ^ (2 * m + 2) := by
  rw [outerAt_two_mul, outerAt_two_mul, outerArgument_scale, one_pow, ← pow_mul,
    show 2 * (m + 1) = 2 * m + 2 by omega]
  ring

/--
With the exponent `t²` every integral and every full-range limit is a power of `t` times that with
the exponent 1, at `t` times the sample and with the same values for `e^(-αx²)` and `erf (√α x)`.
The branches and the numbers of terms are the same.
-/
theorem integrals_scale (positive : 0 < t) {x expa erfa : K} {output output' samples samples' : List K}
    {aux aux' : Auxiliary K} {i j : ℕ} (sample : InnerSample output samples aux i x expa erfa)
    (scaled : InnerSample output' samples' aux' j (t * x) expa erfa) :
    (∀ l : ℕ, Even l →
      (∃ inner, Writes output' (innerIntegral samples' aux' 1 l) j inner ∧
        Writes output (innerIntegral samples aux (t ^ 2) l) i (inner / t ^ (l + 3))) ∧
      (∃ outer, Writes output' (outerIntegral samples' aux'.expa 1 l) j outer ∧
        Writes output (outerIntegral samples aux.expa (t ^ 2) l) i (outer / t ^ (l + 2))) ∧
      (∃ limit, innerLimit 1 l = .ok limit ∧
        innerLimit (t ^ 2) l = .ok (limit / t ^ (l + 3))) ∧
      ∃ origin, outerOrigin 1 l = .ok origin ∧
        outerOrigin (t ^ 2) l = .ok (origin / t ^ (l + 2))) ∧
    (∀ l₁ l₂ : ℕ, l₂ ≤ l₁ → Even (l₁ + l₂) → ∃ potential,
      Writes output' (innerPotential samples' aux' 1 l₁ l₂) j potential ∧
      Writes output (innerPotential samples aux (t ^ 2) l₁ l₂) i (potential / t ^ (l₁ + 2))) ∧
    (∀ l : ℕ, (InSeriesRange x (t ^ 2) l ↔ InSeriesRange (t * x) 1 l) ∧
      positiveTotal (((2 : ℕ) : K) * t ^ 2 * x * x) l =
        positiveTotal (((2 : ℕ) : K) * 1 * (t * x) * (t * x)) l) ∧
    (Elementary.sqrt (t ^ 2) * x < taylorThreshold ↔
      Elementary.sqrt 1 * (t * x) < taylorThreshold) := by
  have square : 0 < t ^ 2 := pow_pos positive 2
  refine ⟨?_, ?_, fun l => ⟨inSeriesRange_scale t x l, by rw [seriesArgument_scale]⟩, ?_⟩
  · intro l even
    obtain ⟨m, rfl⟩ := even_iff_exists_two_mul.mp even
    refine ⟨⟨_, (writes_inner_two_mul scaled one_pos m _).mpr rfl, ?_⟩,
      ⟨_, (writes_outer_two_mul scaled.toOuterSample one_pos m _).mpr rfl, ?_⟩,
      ⟨_, innerLimit_two_mul one_pos m, ?_⟩, ⟨_, outerOrigin_two_mul one_pos m, ?_⟩⟩
    · rw [writes_inner_two_mul sample square, innerAt_scale positive]
    · rw [writes_outer_two_mul sample.toOuterSample square, outerAt_scale]
    · rw [innerLimit_two_mul square, sqrt_pow_two positive, sqrt_one, one_pow, div_one]
    · rw [outerOrigin_two_mul square, one_pow, mul_one, ← pow_mul, div_div,
        show 2 * (m + 1) = 2 * m + 2 by omega]
  · intro l₁ l₂ descending even
    obtain ⟨m, total⟩ := even_iff_exists_two_mul.mp even
    refine ⟨_, (writes_potential_of_total scaled one_pos total descending _).mpr rfl, ?_⟩
    rw [writes_potential_of_total sample square total descending,
      innerPotentialAt_scale positive total]
  · rw [sqrt_pow_two positive, sqrt_one, one_mul]

theorem integrals_scale_three :
    (0 : ℝ) < 3 ∧ InnerSample [0] [2] ⟨[5], [1 / 2]⟩ 0 (2 : ℝ) 5 (1 / 2) ∧
      InnerSample [0] [3 * 2] ⟨[5], [1 / 2]⟩ 0 (3 * 2 : ℝ) 5 (1 / 2) ∧ Even 16 ∧ 7 ≤ 9 ∧ Even (9 + 7) ∧
      (∃ inner, Writes [0] (innerIntegral [3 * 2] ⟨[5], [1 / 2]⟩ (1 : ℝ) 16) 0 inner ∧
        Writes [0] (innerIntegral [2] ⟨[5], [1 / 2]⟩ ((3 : ℝ) ^ 2) 16) 0 (inner / 3 ^ 19)) ∧
      (∃ outer, Writes [0] (outerIntegral [3 * 2] [5] (1 : ℝ) 16) 0 outer ∧
        Writes [0] (outerIntegral [2] [5] ((3 : ℝ) ^ 2) 16) 0 (outer / 3 ^ 18)) ∧
      (∃ limit, innerLimit (1 : ℝ) 16 = .ok limit ∧
        innerLimit ((3 : ℝ) ^ 2) 16 = .ok (limit / 3 ^ 19)) ∧
      (∃ origin, outerOrigin (1 : ℝ) 16 = .ok origin ∧
        outerOrigin ((3 : ℝ) ^ 2) 16 = .ok (origin / 3 ^ 18)) ∧
      ∃ potential, Writes [0] (innerPotential [3 * 2] ⟨[5], [1 / 2]⟩ (1 : ℝ) 9 7) 0 potential ∧
        Writes [0] (innerPotential [2] ⟨[5], [1 / 2]⟩ ((3 : ℝ) ^ 2) 9 7) 0 (potential / 3 ^ 11) := by
  have positive : (0 : ℝ) < 3 := by norm_num
  have sample : InnerSample [0] [2] ⟨[5], [1 / 2]⟩ 0 (2 : ℝ) 5 (1 / 2) :=
    ⟨⟨rfl, rfl, rfl, rfl⟩, rfl, rfl⟩
  have scaled : InnerSample [0] [3 * 2] ⟨[5], [1 / 2]⟩ 0 (3 * 2 : ℝ) 5 (1 / 2) :=
    ⟨⟨rfl, rfl, rfl, rfl⟩, rfl, rfl⟩
  have all := integrals_scale positive sample scaled
  obtain ⟨inner, outer, limit, origin⟩ := all.1 16 (by decide)
  exact ⟨positive, sample, scaled, by decide, by decide, by decide, inner, outer, limit, origin,
    all.2.1 9 7 (by decide) (by decide)⟩

end GaussianRadial
