import Mathlib.Analysis.Calculus.Deriv.MeanValue
import GaussianRadial.Proofs.InnerPotential
import GaussianRadial.Proofs.PositiveSeries
import GaussianRadial.Proofs.TaylorSeries

/-!
# Growth of the inner integral

With the real values of `e^(-αx²)` and `erf (√α x)` the closed form has the derivative
`x^(l + 2) e^(-αx²)`, and the series up to any index has less than that. So the inner integral
grows with `x` within the series, within the closed form and from the one to the other, and stays
between 0 and its full-range limit: `innerIntegral_monotone`.
-/

namespace GaussianRadial
open scoped Nat

theorem le_of_deriv_nonneg {f f' : ℝ → ℝ} (deriv : ∀ x, HasDerivAt f (f' x) x) {a b : ℝ}
    (le : a ≤ b) (nonneg : ∀ x, a ≤ x → x ≤ b → 0 ≤ f' x) : f a ≤ f b := by
  have mono : MonotoneOn f (Set.Icc a b) := by
    apply monotoneOn_of_hasDerivWithinAt_nonneg (convex_Icc a b)
    · exact fun x _ => (deriv x).continuousAt.continuousWithinAt
    · exact fun x _ => (deriv x).hasDerivWithinAt
    · intro x inside
      obtain ⟨lower, upper⟩ := interior_subset inside
      exact nonneg x lower upper
  exact mono (Set.left_mem_Icc.mpr le) (Set.right_mem_Icc.mpr le) le

/-! ### Derivatives -/

variable (alpha : ℝ)

/-- The value `e^(-αx²)`. -/
noncomputable def damping (x : ℝ) : ℝ := Real.exp (-(alpha * x ^ 2))

theorem damping_pos (x : ℝ) : 0 < damping alpha x := Real.exp_pos _

theorem hasDerivAt_damping (x : ℝ) :
    HasDerivAt (damping alpha) (-(2 * alpha * x) * damping alpha x) x := by
  have inner : HasDerivAt (fun y : ℝ => -(alpha * y ^ 2)) (-(2 * alpha * x)) x :=
    ((hasDerivAt_pow 2 x).const_mul alpha).neg.congr_deriv (by push_cast; ring)
  exact inner.exp.congr_deriv (mul_comm _ _)

theorem hasDerivAt_pow_mul_damping (n : ℕ) (x : ℝ) :
    HasDerivAt (fun y => y ^ (n + 1) * damping alpha y)
      (x ^ n * damping alpha x * (n + 1 - 2 * alpha * x * x)) x := by
  refine ((hasDerivAt_pow (n + 1) x).mul (hasDerivAt_damping alpha x)).congr_deriv ?_
  push_cast
  ring

/-- The inner integral of order `2m` by its closed form. -/
noncomputable def exactInner (m : ℕ) (x : ℝ) : ℝ :=
  innerForm m √alpha x (damping alpha x) (realErf (√alpha * x))

/-- The inner integral of order `l` by the terms of the positive series up to index `k`. -/
noncomputable def truncatedInner (l k : ℕ) (x : ℝ) : ℝ :=
  x ^ (l + 3) * (positivePartial (((2 : ℕ) : ℝ) * alpha * x * x) l k * damping alpha x)

theorem hasDerivAt_term (l k : ℕ) (x : ℝ) :
    HasDerivAt (fun y => y ^ (l + 3) * (positiveTerm (2 * alpha * y * y) l k * damping alpha y))
      (x ^ (l + 2) * damping alpha x * (positiveTerm (2 * alpha * x * x) l k *
        (((l + 3 + 2 * k : ℕ) : ℝ) - 2 * alpha * x * x))) x := by
  have power := (hasDerivAt_pow_mul_damping alpha (l + 2 + 2 * k) x).const_mul
    ((2 * alpha) ^ k * positiveTerm 1 l k)
  have same : (fun y => y ^ (l + 3) * (positiveTerm (2 * alpha * y * y) l k * damping alpha y)) =
      fun y => (2 * alpha) ^ k * positiveTerm 1 l k *
        (y ^ (l + 2 + 2 * k + 1) * damping alpha y) := by
    funext y
    rw [positiveTerm_eq_pow_mul]
    ring
  rw [same]
  refine power.congr_deriv ?_
  rw [positiveTerm_eq_pow_mul (2 * alpha * x * x)]
  push_cast
  ring

theorem hasDerivAt_truncatedInner (l k : ℕ) (x : ℝ) :
    HasDerivAt (truncatedInner alpha l k) (x ^ (l + 2) * damping alpha x *
      (1 - 2 * alpha * x * x * positiveTerm (2 * alpha * x * x) l k)) x := by
  -- The derivatives of the terms telescope.
  induction k with
  | zero =>
    have first : positiveTerm (2 * alpha * x * x) l 0 * ((l + 3 + 2 * 0 : ℕ) : ℝ) = 1 :=
      one_div_mul_cancel (by positivity)
    have same : truncatedInner alpha l 0 = fun y =>
        y ^ (l + 3) * (positiveTerm (2 * alpha * y * y) l 0 * damping alpha y) := by
      funext y
      rw [truncatedInner, positivePartial_zero, Nat.cast_ofNat]
    rw [same]
    refine (hasDerivAt_term alpha l 0 x).congr_deriv ?_
    rw [mul_sub, first, mul_comm (positiveTerm _ _ _)]
  | succ k ih =>
    have next := positiveTerm_succ_mul (2 * alpha * x * x) l k
    have same : truncatedInner alpha l (k + 1) = fun y => truncatedInner alpha l k y +
        y ^ (l + 3) * (positiveTerm (2 * alpha * y * y) l (k + 1) * damping alpha y) := by
      funext y
      rw [truncatedInner, positivePartial_succ, truncatedInner, Nat.cast_ofNat]
      ring
    rw [same]
    refine (ih.add (hasDerivAt_term alpha l (k + 1) x)).congr_deriv ?_
    rw [mul_sub (positiveTerm _ _ _), next]
    ring

variable {alpha}

theorem hasDerivAt_exactInner (positive : 0 < alpha) (m : ℕ) (x : ℝ) :
    HasDerivAt (exactInner alpha m) (x ^ (2 * m + 2) * damping alpha x) x := by
  have root : 0 < √alpha := Real.sqrt_pos.mpr positive
  have square : √alpha ^ 2 = alpha := Real.sq_sqrt positive.le
  induction m with
  | zero =>
    have same : exactInner alpha 0 = fun y => (√Real.pi * realErf (√alpha * y) -
        2 * √alpha * (y ^ (0 + 1) * damping alpha y)) / (4 * √alpha ^ 3) := by
      funext y
      rw [exactInner, innerForm_zero root.ne', zero_add, pow_one, mul_assoc (2 * √alpha)]
      rfl
    have product : √alpha * x * (√alpha * x) = alpha * x ^ 2 := by
      rw [← sq, mul_pow, square]
    have cube : √alpha ^ 3 = √alpha * alpha := by
      rw [pow_succ, square, mul_comm]
    have erf := (hasDerivAt_realErf (√alpha * x)).comp x ((hasDerivAt_id x).const_mul √alpha)
    rw [product, ← damping] at erf
    rw [same]
    refine (((erf.const_mul √Real.pi).sub
      ((hasDerivAt_pow_mul_damping alpha 0 x).const_mul (2 * √alpha))).div_const _).congr_deriv ?_
    rw [cube]
    push_cast
    field_simp
    ring
  | succ m ih =>
    have same : exactInner alpha (m + 1) = fun y => (2 * m + 3) / (2 * alpha) *
        exactInner alpha m y - y ^ (2 * m + 2 + 1) * damping alpha y / (2 * alpha) := by
      funext y
      rw [exactInner, innerForm_succ root.ne', square, ← exactInner]
    rw [same]
    refine ((ih.const_mul _).sub
      ((hasDerivAt_pow_mul_damping alpha (2 * m + 2) x).div_const _)).congr_deriv ?_
    field_simp
    push_cast
    ring

/-! ### The series and the closed form -/

theorem exactInner_zero (alpha : ℝ) (m : ℕ) : exactInner alpha m 0 = 0 := by
  rw [exactInner, innerForm, mul_zero, erfSum_at_zero, realErf_zero]
  ring

theorem truncatedInner_zero (alpha : ℝ) (l k : ℕ) : truncatedInner alpha l k 0 = 0 := by
  rw [truncatedInner, zero_pow (by omega), zero_mul]

theorem exactInner_mono (positive : 0 < alpha) (m : ℕ) {x y : ℝ} (nonneg : 0 ≤ x) (le : x ≤ y) :
    exactInner alpha m x ≤ exactInner alpha m y := by
  apply le_of_deriv_nonneg (hasDerivAt_exactInner positive m) le
  intro s lower _
  exact mul_nonneg (pow_nonneg (nonneg.trans lower) _) (damping_pos alpha s).le

theorem exactInner_nonneg (positive : 0 < alpha) (m : ℕ) {x : ℝ} (nonneg : 0 ≤ x) :
    0 ≤ exactInner alpha m x := by
  rw [← exactInner_zero alpha m]
  exact exactInner_mono positive m le_rfl nonneg

theorem truncatedInner_mono_index (positive : 0 < alpha) (l : ℕ) {j k : ℕ} (le : j ≤ k) {x : ℝ}
    (nonneg : 0 ≤ x) : truncatedInner alpha l j x ≤ truncatedInner alpha l k x := by
  apply mul_le_mul_of_nonneg_left _ (pow_nonneg nonneg _)
  apply mul_le_mul_of_nonneg_right _ (damping_pos alpha x).le
  exact positivePartial_mono_right (argument_nonneg positive x) l le

theorem truncatedInner_mono (positive : 0 < alpha) (l k : ℕ) {x y : ℝ} (nonneg : 0 ≤ x)
    (le : x ≤ y) (small : 2 * alpha * y * y * positiveTerm (2 * alpha * y * y) l k ≤ 1) :
    truncatedInner alpha l k x ≤ truncatedInner alpha l k y := by
  apply le_of_deriv_nonneg (hasDerivAt_truncatedInner alpha l k) le
  intro s lower upper
  have outside : 0 ≤ s := nonneg.trans lower
  have argument := argument_mono positive outside upper
  have term := positiveTerm_mono (argument_nonneg positive s) argument l k
  have product := mul_le_mul argument term (positiveTerm_nonneg (argument_nonneg positive s) l k)
    (argument_nonneg positive y)
  apply mul_nonneg (mul_nonneg (pow_nonneg outside _) (damping_pos alpha s).le)
  linarith

theorem truncatedInner_le_exactInner (positive : 0 < alpha) (m k : ℕ) {x : ℝ} (nonneg : 0 ≤ x) :
    truncatedInner alpha (2 * m) k x ≤ exactInner alpha m x := by
  -- Both start at 0, and the series grows more slowly by its last term.
  have grows : exactInner alpha m 0 - truncatedInner alpha (2 * m) k 0 ≤
      exactInner alpha m x - truncatedInner alpha (2 * m) k x := by
    apply le_of_deriv_nonneg (fun s => (hasDerivAt_exactInner positive m s).sub
      (hasDerivAt_truncatedInner alpha (2 * m) k s)) nonneg
    intro s lower _
    have weight := mul_nonneg (pow_nonneg lower (2 * m + 2)) (damping_pos alpha s).le
    have term := mul_nonneg (argument_nonneg positive s)
      (positiveTerm_nonneg (argument_nonneg positive s) (2 * m) k)
    linarith [mul_nonneg weight term]
  rw [exactInner_zero, truncatedInner_zero] at grows
  linarith

theorem exactInner_le_limit (positive : 0 < alpha) (m : ℕ) {x : ℝ} (nonneg : 0 ≤ x) :
    exactInner alpha m x ≤
      (((2 * m + 1)‼ : ℕ) : ℝ) * √Real.pi / 2 ^ (m + 2) / √alpha ^ (2 * m + 3) := by
  have root : 0 < √alpha := Real.sqrt_pos.mpr positive
  have erf : √Real.pi * realErf (√alpha * x) ≤ √Real.pi :=
    mul_le_of_le_one_right (Real.sqrt_nonneg _) (realErf_le_one (by positivity))
  -- What the closed form subtracts is not negative.
  have sum : 0 ≤ damping alpha x * erfSum m (√alpha * x) := by
    apply mul_nonneg (damping_pos alpha x).le
    rw [erfSum]
    positivity
  have scale : 0 ≤ (((2 * m + 1)‼ : ℕ) : ℝ) / (2 ^ (m + 2) * √alpha ^ (2 * m + 3)) := by positivity
  rw [div_div, mul_comm _ (√Real.pi), mul_div_assoc, mul_comm (√Real.pi)]
  apply mul_le_mul_of_nonneg_left _ scale
  change √Real.pi * _ - _ ≤ √Real.pi
  linarith

/-! ### The values of the inner integral -/

/-- The inner integral of order `2m` by the branch that is chosen at `x`. -/
noncomputable def innerValue (alpha : ℝ) (m : ℕ) (x : ℝ) : ℝ :=
  innerAt (closedCoefficients (2 * m)) alpha (2 * m) x (damping alpha x) (realErf (√alpha * x))

theorem innerValue_of_range {m : ℕ} {x : ℝ} (range : InSeriesRange x alpha (2 * m)) :
    innerValue alpha m x =
      truncatedInner alpha (2 * m) (positiveTotal (2 * alpha * x * x) (2 * m)).lastIndex x := by
  rw [innerValue, innerAt_of_range range, positiveSeries, (positiveTotal_stops _ _).value_eq,
    truncatedInner, Nat.cast_ofNat]

theorem innerValue_of_beyond (positive : 0 < alpha) {m : ℕ} {x : ℝ}
    (beyond : ¬ InSeriesRange x alpha (2 * m)) : innerValue alpha m x = exactInner alpha m x :=
  innerAt_of_beyond positive beyond _ _

theorem innerValue_le_exactInner (positive : 0 < alpha) (m : ℕ) {x : ℝ} (nonneg : 0 ≤ x) :
    innerValue alpha m x ≤ exactInner alpha m x := by
  by_cases range : InSeriesRange x alpha (2 * m)
  · rw [innerValue_of_range range]
    exact truncatedInner_le_exactInner positive m _ nonneg
  · rw [innerValue_of_beyond positive range]

theorem innerValue_zero (alpha : ℝ) (m : ℕ) : innerValue alpha m 0 = 0 := by
  have range : InSeriesRange 0 alpha (2 * m) := by
    rw [InSeriesRange, mul_zero]
    positivity
  rw [innerValue_of_range range, truncatedInner_zero]

theorem innerValue_mono (positive : 0 < alpha) (m : ℕ) {x y : ℝ} (nonneg : 0 ≤ x) (le : x ≤ y) :
    innerValue alpha m x ≤ innerValue alpha m y := by
  by_cases there : InSeriesRange y alpha (2 * m)
  · have here : InSeriesRange x alpha (2 * m) := by
      have argument := argument_mono positive nonneg le
      unfold InSeriesRange at there ⊢
      linarith
    -- Both series are compared with the one that stops where that of `y` does.
    have index := lastIndex_mono (argument_nonneg positive x) (argument_mono positive nonneg le) (2 * m)
    have small := mul_last_le_one (argument_nonneg positive y) (argument_le_of_range there)
    rw [innerValue_of_range here, innerValue_of_range there]
    exact (truncatedInner_mono_index positive (2 * m) index nonneg).trans
      (truncatedInner_mono positive (2 * m) _ nonneg le small)
  · rw [innerValue_of_beyond positive there]
    exact (innerValue_le_exactInner positive m nonneg).trans (exactInner_mono positive m nonneg le)

theorem innerValue_nonneg (positive : 0 < alpha) (m : ℕ) {x : ℝ} (nonneg : 0 ≤ x) :
    0 ≤ innerValue alpha m x := by
  rw [← innerValue_zero alpha m]
  exact innerValue_mono positive m le_rfl nonneg

theorem innerPotentialAt_nonneg (positive : 0 < alpha) {l₁ l₂ m : ℕ} (total : l₁ + l₂ = 2 * m)
    {x : ℝ} (nonneg : 0 ≤ x) :
    0 ≤ innerPotentialAt (closedCoefficients (2 * m)) alpha l₁ l₂ x (damping alpha x)
      (realErf (√alpha * x)) := by
  have scaled : 0 ≤ √alpha * x := mul_nonneg (Real.sqrt_nonneg alpha) nonneg
  by_cases small : √alpha * x < taylorThreshold
  · have below : √alpha * x ≤ 1 := small.le.trans (by norm_num [taylorThreshold])
    rw [innerPotentialAt_of_small _ _ _ small]
    apply mul_nonneg (pow_nonneg nonneg l₁)
    apply taylorSeries_nonneg
    · rw [mul_sq_eq_sqrt_mul_sq positive]
      exact sq_nonneg _
    · rw [mul_sq_eq_sqrt_mul_sq positive]
      exact pow_le_one₀ scaled below
  · by_cases range : InSeriesRange x alpha (2 * m)
    · have partialSum := positivePartial_pos (argument_nonneg positive x) (2 * m)
        (positiveTotal (2 * alpha * x * x) (2 * m)).lastIndex
      rw [innerPotentialAt_of_range _ _ _ small (by rwa [total]), total, positiveSeries,
        Nat.cast_ofNat, (positiveTotal_stops _ _).value_eq]
      exact mul_nonneg (pow_nonneg nonneg _) (mul_nonneg partialSum.le (damping_pos alpha x).le)
    · rw [innerPotentialAt_of_beyond positive total small range]
      exact div_nonneg (exactInner_nonneg positive m nonneg) (pow_nonneg nonneg _)

/--
With the values of `e^(-αx²)` and `erf (√α x)` the inner integral is 0 at the origin, grows with `x`
across all its branches, and does not exceed its full-range limit. The inner potential is not
negative.
-/
theorem innerIntegral_monotone {output output' samples samples' : List ℝ} {aux aux' : Auxiliary ℝ}
    {i j : ℕ} {x y : ℝ} (positive : 0 < alpha) (nonneg : 0 ≤ x) (le : x ≤ y)
    (here : InnerSample output samples aux i x (Real.exp (-(alpha * x ^ 2))) (realErf (√alpha * x)))
    (there : InnerSample output' samples' aux' j y (Real.exp (-(alpha * y ^ 2)))
      (realErf (√alpha * y))) :
    (∀ l : ℕ, Even l → ∃ lower upper limit,
      Writes output (innerIntegral samples aux alpha l) i lower ∧
      Writes output' (innerIntegral samples' aux' alpha l) j upper ∧
      innerLimit alpha l = .ok limit ∧
      0 ≤ lower ∧ lower ≤ upper ∧ upper ≤ limit ∧ (x = 0 → lower = 0)) ∧
    ∀ l₁ l₂ : ℕ, l₂ ≤ l₁ → Even (l₁ + l₂) → ∃ potential,
      Writes output (innerPotential samples aux alpha l₁ l₂) i potential ∧ 0 ≤ potential := by
  constructor
  · intro l even
    obtain ⟨m, rfl⟩ := even_iff_exists_two_mul.mp even
    have outside : 0 ≤ y := nonneg.trans le
    have limited := (innerValue_le_exactInner positive m outside).trans
      (exactInner_le_limit positive m outside)
    refine ⟨innerValue alpha m x, innerValue alpha m y, _, ?_, ?_, innerLimit_two_mul positive m,
      innerValue_nonneg positive m nonneg, innerValue_mono positive m nonneg le, limited, ?_⟩
    · exact (writes_inner_two_mul here positive m _).mpr rfl
    · exact (writes_inner_two_mul there positive m _).mpr rfl
    · rintro rfl
      exact innerValue_zero alpha m
  · intro l₁ l₂ descending even
    obtain ⟨m, total⟩ := even_iff_exists_two_mul.mp even
    exact ⟨_, (writes_potential_of_total here positive total descending _).mpr rfl,
      innerPotentialAt_nonneg positive total nonneg⟩

theorem innerIntegral_monotone_across_branches :
    ∃ aux : Auxiliary ℝ,
      InnerSample [0, 0] [1, 4] aux 0 (1 : ℝ) (Real.exp (-(1 * 1 ^ 2))) (realErf (√1 * 1)) ∧
      InnerSample [0, 0] [1, 4] aux 1 (4 : ℝ) (Real.exp (-(1 * 4 ^ 2))) (realErf (√1 * 4)) ∧
      (0 : ℝ) < 1 ∧ (0 : ℝ) ≤ 1 ∧ (1 : ℝ) ≤ 4 ∧ Even 16 ∧
      (∃ lower upper limit,
        Writes [0, 0] (innerIntegral [1, 4] aux (1 : ℝ) 16) 0 lower ∧
        Writes [0, 0] (innerIntegral [1, 4] aux (1 : ℝ) 16) 1 upper ∧
        innerLimit (1 : ℝ) 16 = .ok limit ∧
        0 ≤ lower ∧ lower ≤ upper ∧ upper ≤ limit ∧ ((1 : ℝ) = 0 → lower = 0)) ∧
      ∃ potential, Writes [0, 0] (innerPotential [1, 4] aux (1 : ℝ) 9 7) 0 potential ∧
        0 ≤ potential := by
  let aux : Auxiliary ℝ := ⟨[Real.exp (-(1 * 1 ^ 2)), Real.exp (-(1 * 4 ^ 2))],
    [realErf (√1 * 1), realErf (√1 * 4)]⟩
  have here : InnerSample [0, 0] [1, 4] aux 0 (1 : ℝ) (Real.exp (-(1 * 1 ^ 2))) (realErf (√1 * 1)) :=
    ⟨⟨rfl, rfl, rfl, rfl⟩, rfl, rfl⟩
  have there : InnerSample [0, 0] [1, 4] aux 1 (4 : ℝ) (Real.exp (-(1 * 4 ^ 2)))
      (realErf (√1 * 4)) := ⟨⟨rfl, rfl, rfl, rfl⟩, rfl, rfl⟩
  have le : (1 : ℝ) ≤ 4 := by norm_num
  have both := innerIntegral_monotone one_pos zero_le_one le here there
  exact ⟨aux, here, there, one_pos, zero_le_one, le, by decide, both.1 16 (by decide),
    both.2 9 7 (by decide) (by decide)⟩

end GaussianRadial
