import GaussianRadial.Proofs.InnerClosedForm
import GaussianRadial.Proofs.OuterIntegral

/-!
# Full-range limits

The limits that are reported beside the integrals are formulas of their own. They are the values of
the integrals themselves: of the inner one where the error function has reached 1 and the exponential
has vanished, and of the outer one at the origin. This holds for the orders of the tables and for all
others.
-/

namespace GaussianRadial
open scoped Nat

variable {K : Type} [Field K] [LinearOrder K] [IsStrictOrderedRing K] [Elementary K]

omit [LinearOrder K] [IsStrictOrderedRing K] in
/-- What the closed form subtracts vanishes with the exponential. -/
theorem innerForm_saturated (m : ℕ) (t x : K) :
    innerForm m t x 0 1 =
      (((2 * m + 1)‼ : ℕ) : K) * Elementary.rootPi / 2 ^ (m + 2) / t ^ (2 * m + 3) := by
  rw [innerForm, mul_one, zero_mul, sub_zero, Nat.cast_ofNat, div_mul_eq_mul_div, div_div]

variable [ExactElementary K]

theorem outerAt_origin (alpha : K) (m : ℕ) :
    outerAt alpha (2 * m) 0 1 = ((m ! : ℕ) : K) / (2 * alpha ^ (m + 1)) := by
  rw [outerAt_two_mul, mul_zero, exponentialSum_at_zero, mul_one, div_div, mul_one_div]

/--
The full-range limits are values of the integrals. The inner integral is its limit wherever the
closed form is used and 0 and 1 stand for `e^(-αx²)` and `erf (√α x)`. The outer integral is its
value at the origin if 1 stands for `e^(-αx²)` there.
-/
theorem limits_eq_integrals {alpha : K} (positive : 0 < alpha) {l : ℕ} (even : Even l) :
    (∃ limit, innerLimit alpha l = .ok limit ∧
      ∀ (output samples : List K) (aux : Auxiliary K) (i : ℕ) (x : K),
        InnerSample output samples aux i x 0 1 → ((l : K) + 3) / 2 + 2 ≤ alpha * x ^ 2 →
          Writes output (innerIntegral samples aux alpha l) i limit) ∧
    ∃ origin, outerOrigin alpha l = .ok origin ∧
      ∀ (output samples expas : List K) (i : ℕ), OuterSample output samples expas i 0 1 →
        Writes output (outerIntegral samples expas alpha l) i origin := by
  obtain ⟨m, rfl⟩ := even_iff_exists_two_mul.mp even
  refine ⟨⟨_, innerLimit_two_mul positive m, ?_⟩, _, outerOrigin_two_mul positive m, ?_⟩
  · intro output samples aux i x sample far
    rw [writes_inner_two_mul sample positive, innerAt_of_beyond positive (beyond_iff.mpr far),
      innerForm_saturated]
  · intro output samples expas i sample
    rw [writes_outer_two_mul sample positive, outerAt_origin]

theorem limits_eq_integrals_fourteen_sixteen :
    (0 : ℝ) < 2 ∧ Even 14 ∧ Even 16 ∧
      InnerSample [0, 0] [1, 3] ⟨[5, 0], [5, 1]⟩ 1 (3 : ℝ) 0 1 ∧
      ((14 : ℝ) + 3) / 2 + 2 ≤ 2 * 3 ^ 2 ∧ ((16 : ℝ) + 3) / 2 + 2 ≤ 2 * 3 ^ 2 ∧
      OuterSample [0] [0] [1] 0 (0 : ℝ) 1 ∧
      (∃ limit, innerLimit (2 : ℝ) 14 = .ok limit ∧
        Writes [0, 0] (innerIntegral [1, 3] ⟨[5, 0], [5, 1]⟩ (2 : ℝ) 14) 1 limit) ∧
      (∃ limit, innerLimit (2 : ℝ) 16 = .ok limit ∧
        Writes [0, 0] (innerIntegral [1, 3] ⟨[5, 0], [5, 1]⟩ (2 : ℝ) 16) 1 limit) ∧
      ∃ origin, outerOrigin (2 : ℝ) 16 = .ok origin ∧
        Writes [0] (outerIntegral [0] [1] (2 : ℝ) 16) 0 origin := by
  have sample : InnerSample [0, 0] [1, 3] ⟨[5, 0], [5, 1]⟩ 1 (3 : ℝ) 0 1 :=
    ⟨⟨rfl, rfl, rfl, rfl⟩, rfl, rfl⟩
  have atOrigin : OuterSample [0] [0] [1] 0 (0 : ℝ) 1 := ⟨rfl, rfl, rfl, rfl⟩
  have farRow : ((14 : ℝ) + 3) / 2 + 2 ≤ 2 * 3 ^ 2 := by norm_num
  have farSum : ((16 : ℝ) + 3) / 2 + 2 ≤ 2 * 3 ^ 2 := by norm_num
  have evenRow : Even 14 := by decide
  have evenSum : Even 16 := by decide
  obtain ⟨rowLimit, rowOk, ofRow⟩ := (limits_eq_integrals (K := ℝ) two_pos evenRow).1
  obtain ⟨⟨sumLimit, sumOk, ofSum⟩, origin, originOk, ofOrigin⟩ :=
    limits_eq_integrals (K := ℝ) two_pos evenSum
  exact ⟨two_pos, evenRow, evenSum, sample, farRow, farSum, atOrigin,
    ⟨rowLimit, mod_cast rowOk, mod_cast ofRow _ _ _ _ _ sample (mod_cast farRow)⟩,
    ⟨sumLimit, mod_cast sumOk, mod_cast ofSum _ _ _ _ _ sample (mod_cast farSum)⟩,
    origin, mod_cast originOk, mod_cast ofOrigin _ _ _ _ atOrigin⟩

end GaussianRadial
