import GaussianRadial.Proofs.InnerMonotone

/-!
# From the Taylor series to the positive series

The inner potential takes its Taylor series below a threshold and the positive series above it. For
small arguments both are the inner integral up to a relative error below `2^(-53)`, for every order:
`taylorSeries_near_positiveSeries`. The two loops are compared by the derivatives of their values,
which differ by the remainder of the exponential function and by the last term of the series.
-/

namespace GaussianRadial
open scoped Nat

/-! ### The positive series at small arguments -/

section SmallArguments
variable {K : Type} [Field K] [LinearOrder K] [IsStrictOrderedRing K] {z q : K}

theorem positiveTerm_succ_le (nonneg : 0 ≤ z) (small : z ≤ 5 * q) (l k : ℕ) :
    positiveTerm z l (k + 1) ≤ q * positiveTerm z l k := by
  have bottom : (5 : K) ≤ ((l + 3 + 2 * (k + 1) : ℕ) : K) := mod_cast (by omega)
  have factor : 0 ≤ q := by linarith
  have ratio : z / ((l + 3 + 2 * (k + 1) : ℕ) : K) ≤ q := by
    apply div_le_of_le_mul₀ (by linarith) factor
    calc z ≤ q * 5 := by linarith
      _ ≤ q * ((l + 3 + 2 * (k + 1) : ℕ) : K) := mul_le_mul_of_nonneg_left bottom factor
  rw [positiveTerm, mul_comm]
  exact mul_le_mul_of_nonneg_right ratio (positiveTerm_nonneg nonneg l k)

theorem positiveTerm_le_pow_mul (nonneg : 0 ≤ z) (small : z ≤ 5 * q) (l k : ℕ) :
    positiveTerm z l k ≤ q ^ k * positiveTerm z l 0 := by
  have factor : 0 ≤ q := by linarith
  induction k with
  | zero => rw [pow_zero, one_mul]
  | succ k ih =>
    calc positiveTerm z l (k + 1) ≤ q * positiveTerm z l k := positiveTerm_succ_le nonneg small l k
      _ ≤ q * (q ^ k * positiveTerm z l 0) := mul_le_mul_of_nonneg_left ih factor
      _ = q ^ (k + 1) * positiveTerm z l 0 := by rw [pow_succ', mul_assoc]

theorem positivePartial_le_two_mul (nonneg : 0 ≤ z) (small : z ≤ 5 * (1 / 2)) (l k : ℕ) :
    positivePartial z l k ≤ 2 * positiveTerm z l 0 := by
  -- Each term is at most half of the one before, so a partial sum and its last term stay below.
  have bound : positivePartial z l k + positiveTerm z l k ≤ 2 * positiveTerm z l 0 := by
    induction k with
    | zero => rw [positivePartial_zero, two_mul]
    | succ k ih =>
      have next := positiveTerm_succ_le nonneg small l k
      rw [positivePartial_succ]
      linarith
  exact (le_add_of_nonneg_right (positiveTerm_nonneg nonneg l k)).trans bound

/-- The fifth term is negligible at the latest. -/
theorem positiveTotal_converged (nonneg : 0 ≤ z) (small : z ≤ 5 * (1 / 2 ^ 14)) (l : ℕ) :
    (positiveTotal z l).converged = true := by
  apply (positiveTotal_converged_iff_exists z l).mpr
  refine ⟨5, by decide, by decide, ?_⟩
  have first : 0 < positiveTerm z l 0 := by
    rw [← positivePartial_zero]
    exact positivePartial_pos nonneg l 0
  calc positiveTerm z l 5 ≤ (1 / 2 ^ 14) ^ 5 * positiveTerm z l 0 :=
        positiveTerm_le_pow_mul nonneg small l 5
    _ < seriesTolerance * positiveTerm z l 0 := by
      apply mul_lt_mul_of_pos_right _ first
      norm_num [seriesTolerance]
    _ ≤ seriesTolerance * positivePartial z l 5 :=
      mul_le_mul_of_nonneg_left (positiveTerm_zero_le_partial nonneg l 5) seriesTolerance_pos.le

theorem last_le_tolerance (nonneg : 0 ≤ z) (small : z ≤ 5 * (1 / 2 ^ 14)) (l : ℕ) :
    positiveTerm z l (positiveTotal z l).lastIndex ≤ seriesTolerance := by
  have order : (3 : K) ≤ ((l + 3 : ℕ) : K) := mod_cast Nat.le_add_left 3 l
  have first : positiveTerm z l 0 ≤ 1 / 3 := one_div_le_one_div_of_le (by norm_num) order
  have sum := positivePartial_le_two_mul nonneg (small.trans (by norm_num)) l
    (positiveTotal z l).lastIndex
  have negligible := ((positiveTotal_stops z l).negligible (positiveTotal_converged nonneg small l)).2
  exact negligible.le.trans (mul_le_of_le_one_right seriesTolerance_pos.le (by linarith))

end SmallArguments

/-! ### The Taylor series as an integral -/

variable (alpha : ℝ)

/-- The inner integral of order `l` by its Taylor series. -/
noncomputable def taylorInner (l : ℕ) (x : ℝ) : ℝ := x ^ (l + 1) * taylorSeries x alpha l

/-- The partial sum of `e^(-αx²)` that the Taylor series integrates. -/
noncomputable def taylorDamping (x : ℝ) : ℝ :=
  ∑ n ∈ Finset.range taylorTerms, (-(alpha * x ^ 2)) ^ n / ((n ! : ℕ) : ℝ)

theorem hasDerivAt_taylorInner (l : ℕ) (x : ℝ) :
    HasDerivAt (taylorInner alpha l) (x ^ (l + 2) * taylorDamping alpha x) x := by
  have same : taylorInner alpha l = fun y => ∑ n ∈ Finset.range taylorTerms,
      (-alpha) ^ n * taylorWeight l n * y ^ (l + 3 + 2 * n) := by
    funext y
    rw [taylorInner, taylorSeries_eq_sum, Finset.mul_sum, Finset.mul_sum]
    apply Finset.sum_congr rfl
    intro n _
    rw [show l + 3 + 2 * n = l + 1 + (2 + 2 * n) by omega, neg_mul_eq_neg_mul, mul_pow, ← pow_mul]
    ring
  rw [same]
  refine (HasDerivAt.fun_sum fun n _ =>
    (hasDerivAt_pow (l + 3 + 2 * n) x).const_mul ((-alpha) ^ n * taylorWeight l n)).congr_deriv ?_
  rw [taylorDamping, Finset.mul_sum]
  apply Finset.sum_congr rfl
  intro n _
  have order : ((l + 3 + 2 * n : ℕ) : ℝ) ≠ 0 := by positivity
  have factorial : ((n ! : ℕ) : ℝ) ≠ 0 := Nat.cast_ne_zero.mpr n.factorial_ne_zero
  rw [taylorWeight, show l + 3 + 2 * n - 1 = l + 2 + 2 * n by omega, pow_add, pow_mul,
    neg_mul_eq_neg_mul, mul_pow]
  field_simp

variable {alpha}

theorem abs_taylorDamping_sub_le {x : ℝ} (positive : 0 < alpha) (small : alpha * x ^ 2 ≤ 1 / 2 ^ 13) :
    |taylorDamping alpha x - damping alpha x| ≤ (1 / 2 ^ 13) ^ 6 := by
  have nonneg : 0 ≤ alpha * x ^ 2 := mul_nonneg positive.le (sq_nonneg x)
  have size : |-(alpha * x ^ 2)| ≤ 1 / 2 ^ 13 := by rwa [abs_neg, abs_of_nonneg nonneg]
  have remainder := Real.exp_bound (size.trans (by norm_num)) (show 0 < taylorTerms by decide)
  rw [abs_sub_comm]
  calc _ ≤ |-(alpha * x ^ 2)| ^ 6 * (7 / (720 * 6)) := by
        refine remainder.trans (le_of_eq ?_)
        norm_num [taylorTerms, Nat.factorial]
    _ ≤ (1 / 2 ^ 13) ^ 6 * 1 := by
      apply mul_le_mul (pow_le_pow_left₀ (abs_nonneg _) size 6) <;> norm_num
    _ = (1 / 2 ^ 13) ^ 6 := mul_one _

/-! ### The distance of the two series -/

theorem abs_le_of_deriv_le {f f' : ℝ → ℝ} (deriv : ∀ s, HasDerivAt f (f' s) s) (start : f 0 = 0)
    {x : ℝ} (nonneg : 0 ≤ x) (n : ℕ) (bound : ℝ)
    (slope : ∀ s, 0 ≤ s → s ≤ x → |f' s| ≤ bound * s ^ n) :
    |f x| ≤ bound * x ^ (n + 1) / (n + 1) := by
  have power (s : ℝ) :
      HasDerivAt (fun y => bound * y ^ (n + 1) / (n + 1)) (bound * s ^ n) s := by
    refine (((hasDerivAt_pow (n + 1) s).const_mul bound).div_const _).congr_deriv ?_
    push_cast
    field_simp
  have below := le_of_deriv_nonneg (fun s => (power s).sub (deriv s)) nonneg fun s lower upper =>
    sub_nonneg.mpr ((le_abs_self _).trans (slope s lower upper))
  have above := le_of_deriv_nonneg (fun s => (power s).add (deriv s)) nonneg fun s lower upper => by
    linarith [neg_abs_le (f' s), slope s lower upper]
  simp only [Pi.sub_apply, Pi.add_apply, start, zero_pow n.succ_ne_zero, mul_zero, zero_div,
    sub_zero, add_zero] at below above
  rw [abs_le]
  constructor <;> linarith

theorem abs_slope_sub_le (positive : 0 < alpha) {s t : ℝ} (nonneg : 0 ≤ s)
    (small : alpha * s ^ 2 ≤ 1 / 2 ^ 13) (lost_nonneg : 0 ≤ t) (lost : t ≤ seriesTolerance) (n : ℕ) :
    |s ^ n * taylorDamping alpha s - s ^ n * damping alpha s * (1 - t)| ≤ 1 / 2 ^ 54 * s ^ n := by
  have near := abs_taylorDamping_sub_le positive small
  have damped : damping alpha s ≤ 1 :=
    Real.exp_le_one_iff.mpr (neg_nonpos.mpr (mul_nonneg positive.le (sq_nonneg s)))
  have product : |damping alpha s * t| ≤ 1 * seriesTolerance := by
    rw [abs_of_nonneg (mul_nonneg (damping_pos alpha s).le lost_nonneg)]
    exact mul_le_mul damped lost lost_nonneg zero_le_one
  have split : s ^ n * taylorDamping alpha s - s ^ n * damping alpha s * (1 - t) =
      (taylorDamping alpha s - damping alpha s + damping alpha s * t) * s ^ n := by ring
  rw [split, abs_mul, abs_of_nonneg (pow_nonneg nonneg n)]
  apply mul_le_mul_of_nonneg_right _ (pow_nonneg nonneg n)
  refine (abs_add_le _ _).trans ((add_le_add near product).trans ?_)
  norm_num [seriesTolerance]

theorem abs_taylorInner_sub_le (positive : 0 < alpha) {x : ℝ} (nonneg : 0 ≤ x)
    (small : alpha * x ^ 2 ≤ 1 / 2 ^ 13) (l : ℕ) :
    |taylorInner alpha l x -
      truncatedInner alpha l (positiveTotal (2 * alpha * x * x) l).lastIndex x| ≤
        1 / 2 ^ 54 * (x ^ (l + 3) * positiveTerm (2 * alpha * x * x) l 0) := by
  generalize last : (positiveTotal (2 * alpha * x * x) l).lastIndex = k
  have tiny : 2 * alpha * x * x ≤ 5 * (1 / 2 ^ 14) := by
    rw [show 2 * alpha * x * x = 2 * (alpha * x ^ 2) by ring]
    linarith
  have ends := last_le_tolerance (argument_nonneg positive x) tiny l
  rw [last] at ends
  have distance := abs_le_of_deriv_le (f := fun s => taylorInner alpha l s - truncatedInner alpha l k s)
    (fun s => (hasDerivAt_taylorInner alpha l s).sub (hasDerivAt_truncatedInner alpha l k s))
    (by simp [taylorInner, truncatedInner_zero]) nonneg (l + 2) (1 / 2 ^ 54) ?_
  · refine distance.trans (le_of_eq ?_)
    rw [positiveTerm]
    push_cast
    ring
  intro s lower upper
  have argument := argument_mono positive lower upper
  have term := (positiveTerm_mono (argument_nonneg positive s) argument l k).trans ends
  have lost : 2 * alpha * s * s * positiveTerm (2 * alpha * s * s) l k ≤ 1 * seriesTolerance :=
    mul_le_mul (by linarith) term (positiveTerm_nonneg (argument_nonneg positive s) l k) (by norm_num)
  have lost_nonneg : 0 ≤ 2 * alpha * s * s * positiveTerm (2 * alpha * s * s) l k :=
    mul_nonneg (argument_nonneg positive s) (positiveTerm_nonneg (argument_nonneg positive s) l k)
  have tiny_s : alpha * s ^ 2 ≤ 1 / 2 ^ 13 := by linarith
  exact abs_slope_sub_le positive lower tiny_s lost_nonneg (lost.trans_eq (one_mul _)) (l + 2)

/-! ### The inner potential around its threshold -/

/-- The inner potential by the Taylor series. -/
noncomputable def taylorPotential (alpha : ℝ) (l₁ l₂ : ℕ) (x : ℝ) : ℝ :=
  x ^ l₁ * taylorSeries x alpha (l₁ + l₂)

/-- The inner potential by the positive series, with the real value of `e^(-αx²)`. -/
noncomputable def seriesPotential (alpha : ℝ) (l₁ l₂ : ℕ) (x : ℝ) : ℝ :=
  x ^ (l₁ + 2) * positiveSeries x alpha (Real.exp (-(alpha * x ^ 2))) (l₁ + l₂)

theorem taylorPotential_mul_pow (alpha : ℝ) (l₁ l₂ : ℕ) (x : ℝ) :
    taylorPotential alpha l₁ l₂ x * x ^ (l₂ + 1) = taylorInner alpha (l₁ + l₂) x := by
  rw [taylorPotential, taylorInner, show l₁ + l₂ + 1 = l₁ + (l₂ + 1) by omega, pow_add]
  ring

theorem seriesPotential_mul_pow (alpha : ℝ) (l₁ l₂ : ℕ) (x : ℝ) :
    seriesPotential alpha l₁ l₂ x * x ^ (l₂ + 1) = truncatedInner alpha (l₁ + l₂)
      (positiveTotal (2 * alpha * x * x) (l₁ + l₂)).lastIndex x := by
  rw [seriesPotential, positiveSeries, (positiveTotal_stops _ _).value_eq, ← damping,
    truncatedInner, Nat.cast_ofNat, show l₁ + l₂ + 3 = l₁ + 2 + (l₂ + 1) by omega, pow_add]
  ring

theorem half_first_term_le (positive : 0 < alpha) {x : ℝ} (nonneg : 0 ≤ x)
    (small : alpha * x ^ 2 ≤ 1 / 2 ^ 13) (l k : ℕ) :
    1 / 2 * (x ^ (l + 3) * positiveTerm (2 * alpha * x * x) l 0) ≤ truncatedInner alpha l k x := by
  have sum := positiveTerm_zero_le_partial (argument_nonneg positive x) l k
  have first := positiveTerm_nonneg (argument_nonneg positive x) l 0
  have damped : 1 / 2 ≤ damping alpha x := by
    have tangent := Real.add_one_le_exp (-(alpha * x ^ 2))
    rw [damping]
    linarith
  have product := mul_le_mul sum damped (by norm_num) (first.trans sum)
  rw [truncatedInner, Nat.cast_ofNat]
  linarith [mul_le_mul_of_nonneg_left product (pow_nonneg nonneg (l + 3))]

theorem abs_taylorPotential_sub_le (positive : 0 < alpha) {x : ℝ} (outside : 0 < x)
    (small : √alpha * x ≤ 11 / 1000) (l₁ l₂ : ℕ) :
    |taylorPotential alpha l₁ l₂ x - seriesPotential alpha l₁ l₂ x| ≤
      1 / 2 ^ 53 * seriesPotential alpha l₁ l₂ x := by
  have scaled : 0 ≤ √alpha * x := mul_nonneg (Real.sqrt_nonneg alpha) outside.le
  have tiny : alpha * x ^ 2 ≤ 1 / 2 ^ 13 := by
    calc alpha * x ^ 2 = (√alpha * x) ^ 2 := mul_sq_eq_sqrt_mul_sq positive x
      _ ≤ (11 / 1000) ^ 2 := pow_le_pow_left₀ scaled small 2
      _ ≤ 1 / 2 ^ 13 := by norm_num
  have distance := abs_taylorInner_sub_le positive outside.le tiny (l₁ + l₂)
  have size := half_first_term_le positive outside.le tiny (l₁ + l₂)
    (positiveTotal (2 * alpha * x * x) (l₁ + l₂)).lastIndex
  have power : 0 < x ^ (l₂ + 1) := pow_pos outside _
  rw [← taylorPotential_mul_pow, ← seriesPotential_mul_pow, ← sub_mul, abs_mul,
    abs_of_pos power] at distance
  rw [← seriesPotential_mul_pow] at size
  apply le_of_mul_le_mul_right _ power
  linarith

/--
Around the threshold of the inner potential its Taylor series and its positive series agree up to
rounding, for every order and every exponent. So does what is written there, on either side.
-/
theorem taylorSeries_near_positiveSeries (positive : 0 < alpha) {x : ℝ} (outside : 0 < x)
    (small : √alpha * x ≤ 11 / 1000) {l₁ l₂ : ℕ} (descending : l₂ ≤ l₁) (even : Even (l₁ + l₂)) :
    |taylorPotential alpha l₁ l₂ x - seriesPotential alpha l₁ l₂ x| ≤
      1 / 2 ^ 53 * seriesPotential alpha l₁ l₂ x ∧
    ∀ (output samples : List ℝ) (aux : Auxiliary ℝ) (i : ℕ) (erfa : ℝ),
      InnerSample output samples aux i x (Real.exp (-(alpha * x ^ 2))) erfa →
      ∃ potential, Writes output (innerPotential samples aux alpha l₁ l₂) i potential ∧
        |potential - seriesPotential alpha l₁ l₂ x| ≤
          1 / 2 ^ 53 * seriesPotential alpha l₁ l₂ x := by
  have near := abs_taylorPotential_sub_le positive outside small l₁ l₂
  refine ⟨near, fun output samples aux i erfa sample => ?_⟩
  obtain ⟨m, total⟩ := even_iff_exists_two_mul.mp even
  refine ⟨_, (writes_potential_of_total sample positive total descending _).mpr rfl, ?_⟩
  by_cases below : √alpha * x < taylorThreshold
  · rw [innerPotentialAt_of_small _ _ _ below]
    exact near
  · have range : InSeriesRange x alpha (l₁ + l₂) := by
      have bound := pow_le_pow_left₀ (mul_nonneg (Real.sqrt_nonneg alpha) outside.le) small 2
      rw [InSeriesRange, mul_assoc, ← sq, mul_sq_eq_sqrt_mul_sq positive]
      push_cast
      linarith [Nat.cast_nonneg (α := ℝ) l₁, Nat.cast_nonneg (α := ℝ) l₂]
    rw [innerPotentialAt_of_range _ _ _ below range, seriesPotential, sub_self, abs_zero]
    have nonneg : 0 ≤ seriesPotential alpha l₁ l₂ x :=
      nonneg_of_mul_nonneg_right ((abs_nonneg _).trans near) (by norm_num)
    exact mul_nonneg (by norm_num) nonneg

theorem taylorSeries_near_positiveSeries_nine_seven :
    (0 : ℝ) < 1 ∧ (0 : ℝ) < 1 / 200 ∧ √(1 : ℝ) * (1 / 200) ≤ 11 / 1000 ∧ 7 ≤ 9 ∧ Even (9 + 7) ∧
      InnerSample [0] [1 / 200] ⟨[Real.exp (-(1 * (1 / 200) ^ 2))], [0]⟩ 0 (1 / 200 : ℝ)
        (Real.exp (-(1 * (1 / 200) ^ 2))) 0 ∧
      |taylorPotential 1 9 7 (1 / 200) - seriesPotential 1 9 7 (1 / 200)| ≤
        1 / 2 ^ 53 * seriesPotential 1 9 7 (1 / 200) ∧
      ∃ potential, Writes [0] (innerPotential [1 / 200]
          ⟨[Real.exp (-(1 * (1 / 200) ^ 2))], [0]⟩ (1 : ℝ) 9 7) 0 potential ∧
        |potential - seriesPotential 1 9 7 (1 / 200)| ≤
          1 / 2 ^ 53 * seriesPotential 1 9 7 (1 / 200) := by
  have outside : (0 : ℝ) < 1 / 200 := by norm_num
  have small : √(1 : ℝ) * (1 / 200) ≤ 11 / 1000 := by norm_num
  have descending : 7 ≤ 9 := by decide
  have even : Even (9 + 7) := by decide
  have sample : InnerSample [0] [1 / 200] ⟨[Real.exp (-(1 * (1 / 200) ^ 2))], [0]⟩ 0 (1 / 200 : ℝ)
      (Real.exp (-(1 * (1 / 200) ^ 2))) 0 := ⟨⟨rfl, rfl, rfl, rfl⟩, rfl, rfl⟩
  have both := taylorSeries_near_positiveSeries one_pos outside small descending even
  exact ⟨one_pos, outside, small, descending, even, sample, both.1, both.2 _ _ _ _ _ sample⟩

end GaussianRadial
