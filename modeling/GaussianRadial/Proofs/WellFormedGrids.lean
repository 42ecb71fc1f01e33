import Mathlib
import GaussianRadial.Double
import GaussianRadial.Proofs.BuiltGrids
import GaussianRadial.Proofs.DoubleOrder
import GaussianRadial.Proofs.ExtendedReals

/-!
# Well-formed grids

The points of an exponential grid and of an explicit grid are non-negative numbers that do not
decrease. So are those of an equidistant grid, unless its outer radius is infinite.
-/

namespace GaussianRadial

namespace Grid
open Extended

/-- The points are numbers, none is negative, and they do not decrease. -/
structure WellFormed {α : Type} [NatCast α] [LE α] (isNaN : α → Bool) (grid : Grid α) : Prop where
  numbers : ∀ x ∈ grid.points, isNaN x = false
  nonnegative : ∀ x ∈ grid.points, ((0 : ℕ) : α) ≤ x
  sorted : grid.points.Pairwise (· ≤ ·)

/-- A grid is well-formed if its points are samples of a function that does not decrease. -/
theorem wellFormed_of_samples {grid : Grid Extended} {f : ℕ → ℝ} {count : ℕ}
    (samples : grid.points = (List.range count).map fun i => ofReal (f i))
    (monotone : Monotone f) (start : 0 ≤ f 0) : grid.WellFormed Extended.isNaN := by
  have all : ∀ x ∈ grid.points, ∃ i, x = ofReal (f i) := by
    intro x member
    rw [samples] at member
    obtain ⟨i, -, rfl⟩ := List.mem_map.mp member
    exact ⟨i, rfl⟩
  refine ⟨fun x member => ?_, fun x member => ?_, ?_⟩
  · obtain ⟨i, rfl⟩ := all x member
    exact isNaN_ofReal _
  · obtain ⟨i, rfl⟩ := all x member
    exact ofReal_le_ofReal (by simpa using start.trans (monotone (Nat.zero_le i)))
  · rw [samples, List.pairwise_map]
    exact List.pairwise_lt_range.imp fun before => ofReal_le_ofReal (monotone before.le)

/-! ### Equidistant points -/

section Equidistant
variable {r : ℝ} {last i : ℕ}

theorem equidistantPoint_ofReal (inRange : |r| ≤ largestDouble) (nonneg : 0 ≤ r)
    (several : 0 < last) (counted : last ≤ largestDouble) (within : i ≤ last) :
    equidistantPoint (last + 1) (ofReal r) i = ofReal (i * (r / last)) := by
  have spacing : equidistantSpacing (last + 1) (ofReal r) = ofReal (r / last) := by
    rw [equidistantSpacing, Nat.add_sub_cancel, natCast_eq]
    exact ofReal_div inRange (abs_natCast_le counted) (Nat.cast_ne_zero.mpr several.ne')
  have smaller : r / last ≤ r := div_le_self nonneg (Nat.one_le_cast.mpr several)
  rw [equidistantPoint, spacing, natCast_eq]
  exact ofReal_mul (abs_natCast_le (within.trans counted))
    (abs_le_of_le (div_nonneg nonneg last.cast_nonneg) smaller inRange)

theorem wellFormed_equidistant {grid : Grid Extended} (inRange : |r| ≤ largestDouble)
    (counted : last ≤ largestDouble) (built : equidistant (last + 1) (ofReal r) = .ok grid) :
    grid.WellFormed Extended.isNaN := by
  obtain ⟨⟨enough, positive⟩, rfl⟩ := equidistant_ok_iff.mp built
  replace positive := zero_lt_ofReal.mp positive
  have several : 0 < last := Nat.lt_of_succ_lt_succ enough
  have nonneg : 0 ≤ r / last := div_nonneg positive.le last.cast_nonneg
  have end_eq : ofReal r = ofReal (last * (r / last)) := by
    rw [mul_div_cancel₀ r (Nat.cast_ne_zero.mpr several.ne')]
  refine wellFormed_of_samples (points_append_last
    (fun i before => equidistantPoint_ofReal inRange positive.le several counted before.le) end_eq)
    (fun i j le => ?_) (by simp)
  exact mul_le_mul_of_nonneg_right (Nat.cast_le.mpr le) nonneg

/-- Laid out at an infinite distance, the first point is zero times infinity. -/
theorem equidistant_infinite {grid : Grid Extended} (counted : last ≤ largestDouble)
    (built : equidistant (last + 1) (infinite false) = .ok grid) :
    ∃ rest, grid.points = notANumber :: rest := by
  obtain ⟨⟨enough, -⟩, rfl⟩ := equidistant_ok_iff.mp built
  obtain ⟨more, rfl⟩ := Nat.exists_eq_succ_of_ne_zero (Nat.lt_of_succ_lt_succ enough).ne'
  have first : equidistantPoint (more + 1 + 1) (infinite false) 0 = notANumber := by
    rw [equidistantPoint, equidistantSpacing, Nat.add_sub_cancel, natCast_eq, natCast_eq,
      ofReal_eq_finite (abs_natCast_le counted), ofReal_eq_finite (abs_natCast_le (Nat.zero_le _))]
    exact if_pos Nat.cast_zero
  rw [Nat.succ_eq_add_one, Nat.add_sub_cancel, List.range_succ_eq_map, List.map_cons,
    List.cons_append, first]
  exact ⟨_, rfl⟩

theorem wellFormed_equidistant_iff {radius : Extended} {grid : Grid Extended}
    (counted : last ≤ largestDouble) (built : equidistant (last + 1) radius = .ok grid) :
    grid.WellFormed Extended.isNaN ↔ radius ≠ infinite false := by
  constructor
  · rintro wellFormed rfl
    obtain ⟨rest, points⟩ := equidistant_infinite counted built
    have number := wellFormed.numbers notANumber (points ▸ List.mem_cons_self)
    cases number
  · intro bounded
    obtain ⟨⟨-, positive⟩, -⟩ := equidistant_ok_iff.mp built
    rcases eq_of_zero_lt positive with infinite | ⟨r, inRange, -, rfl⟩
    · exact absurd infinite bounded
    · exact wellFormed_equidistant inRange counted built

end Equidistant

/-! ### Exponential points -/

theorem isUsableFactor_ofReal {x : ℝ} :
    isUsableFactor (ofReal x) = true ↔ |x| ≤ largestDouble ∧ 0 < x := by
  have finite_iff : Elementary.isFinite (ofReal x) = true ↔ |x| ≤ largestDouble := by
    rw [ofReal]
    split_ifs with inRange
    · exact iff_of_true rfl inRange
    · exact iff_of_false Bool.false_ne_true inRange
  rw [isUsableFactor, Bool.and_eq_true, decide_eq_true_iff, zero_lt_ofReal, finite_iff]

/-- The growth of an exponential grid over its points is that of a real number and in range. -/
structure GrowthInRange (d : ℝ) (last : ℕ) : Prop where
  several : 0 < last
  counted : last ≤ largestDouble
  positive : 0 < d
  anisotropy : |d| ≤ largestDouble
  exponent : |d * last| ≤ largestDouble
  growth : |Real.exp (d * last)| ≤ largestDouble

namespace GrowthInRange
variable {r d : ℝ} {last i : ℕ} (within : GrowthInRange d last)
include within

theorem growth_pos : 0 < Real.exp (d * last) - 1 :=
  growth_sub_one_pos within.several within.positive

theorem growth_ofReal (before : i ≤ last) :
    |Real.exp (d * i) - 1| ≤ largestDouble ∧
      exp (ofReal d * ((i : ℕ) : Extended)) - ((1 : ℕ) : Extended) =
        ofReal (Real.exp (d * i) - 1) := by
  have positive := within.positive
  have exponent : |d * i| ≤ largestDouble :=
    abs_le_of_le (by positivity) (by gcongr) within.exponent
  have growth : |Real.exp (d * i)| ≤ largestDouble :=
    abs_le_of_le (Real.exp_pos _).le (by gcongr) within.growth
  have shifted : 1 ≤ Real.exp (d * i) := Real.one_le_exp (by positivity)
  have one : |((1 : ℕ) : ℝ)| ≤ largestDouble :=
    abs_natCast_le (within.several.trans_le within.counted)
  refine ⟨abs_le_of_le (sub_nonneg.mpr shifted) (sub_le_self _ zero_le_one) growth, ?_⟩
  rw [natCast_eq, natCast_eq, ofReal_mul within.anisotropy
    (abs_natCast_le (before.trans within.counted)), exp_ofReal exponent, ofReal_sub growth one,
    Nat.cast_one]

theorem growthFactor_ofReal (radius : |r| ≤ largestDouble) :
    growthFactor (last + 1) (ofReal r) (ofReal d) = ofReal (r / (Real.exp (d * last) - 1)) := by
  obtain ⟨inRange, growth⟩ := within.growth_ofReal le_rfl
  rw [growthFactor, Nat.add_sub_cancel]
  exact (congrArg _ growth).trans (ofReal_div radius inRange within.growth_pos.ne')

theorem exists_exponential_iff (radius : |r| ≤ largestDouble) :
    (∃ grid, exponential (last + 1) (ofReal r) (ofReal d) = .ok grid) ↔
      0 < r ∧ r / (Real.exp (d * last) - 1) ≤ largestDouble := by
  have factor_eq := within.growthFactor_ofReal radius
  constructor
  · rintro ⟨grid, built⟩
    obtain ⟨⟨-, positive⟩, -, usable, -⟩ := exponential_ok_iff.mp built
    rw [factor_eq] at usable
    exact ⟨zero_lt_ofReal.mp positive, (le_abs_self _).trans (isUsableFactor_ofReal.mp usable).1⟩
  · rintro ⟨positive, factor⟩
    have factorPos : 0 < r / (Real.exp (d * last) - 1) := div_pos positive within.growth_pos
    have usable : isUsableFactor (growthFactor (last + 1) (ofReal r) (ofReal d)) = true := by
      rw [factor_eq]
      exact isUsableFactor_ofReal.mpr ⟨by rwa [abs_of_pos factorPos], factorPos⟩
    exact ⟨_, exponential_ok_iff.mpr ⟨⟨Nat.succ_lt_succ within.several, zero_lt_ofReal.mpr positive⟩,
      zero_lt_ofReal.mpr within.positive, usable, rfl⟩⟩

theorem wellFormed {grid : Grid Extended} (radius : |r| ≤ largestDouble)
    (built : exponential (last + 1) (ofReal r) (ofReal d) = .ok grid) :
    grid.WellFormed Extended.isNaN := by
  obtain ⟨-, -, usable, rfl⟩ := exponential_ok_iff.mp built
  rw [within.growthFactor_ofReal radius] at usable ⊢
  obtain ⟨factor, positive⟩ := isUsableFactor_ofReal.mp usable
  have growing := within.positive
  have points (i : ℕ) (before : i < last) :
      exponentialPoint (ofReal (r / (Real.exp (d * last) - 1))) (ofReal d) i =
        ofReal (r / (Real.exp (d * last) - 1) * (Real.exp (d * i) - 1)) := by
    obtain ⟨inRange, growth⟩ := within.growth_ofReal before.le
    exact (congrArg _ growth).trans (ofReal_mul factor inRange)
  have end_eq : ofReal r =
      ofReal (r / (Real.exp (d * last) - 1) * (Real.exp (d * last) - 1)) := by
    rw [div_mul_cancel₀ r within.growth_pos.ne']
  refine wellFormed_of_samples (points_append_last points end_eq) (fun i j le => ?_) (by simp)
  gcongr

end GrowthInRange

section Exponential
variable {radius anisotropy : Extended} {last : ℕ}

theorem isUsableFactor_of_infinite_growth (one : 1 ≤ largestDouble)
    (grown : exp (anisotropy * ((last : ℕ) : Extended)) = infinite false) :
    isUsableFactor (growthFactor (last + 1) radius anisotropy) = false := by
  have shifted : infinite false - ((1 : ℕ) : Extended) = infinite false := by
    rw [natCast_eq, ofReal_eq_finite (abs_natCast_le one)]
    rfl
  have factor : growthFactor (last + 1) radius anisotropy = radius / infinite false := by
    rw [growthFactor, Nat.add_sub_cancel]
    exact congrArg _ ((congrArg (· - ((1 : ℕ) : Extended)) grown).trans shifted)
  rw [factor, Bool.eq_false_iff]
  cases radius with
  | finite r _ => exact fun usable => lt_irrefl 0 (isUsableFactor_ofReal.mp usable).2
  | infinite _ => exact Bool.false_ne_true
  | notANumber => exact Bool.false_ne_true

theorem isUsableFactor_infinite_div (growth : Extended) :
    isUsableFactor (infinite false / growth) = false := by
  cases growth <;> rfl

/-- If the factor of an exponential grid can be used, the growth and the radius are in range. -/
theorem inRange_of_usable (several : 0 < last)
    (counted : last ≤ largestDouble) (positive : ((0 : ℕ) : Extended) < radius)
    (growing : ((0 : ℕ) : Extended) < anisotropy)
    (usable : isUsableFactor (growthFactor (last + 1) radius anisotropy) = true) :
    ∃ r d : ℝ, radius = ofReal r ∧ |r| ≤ largestDouble ∧ anisotropy = ofReal d ∧
      GrowthInRange d last := by
  have grown : exp (anisotropy * ((last : ℕ) : Extended)) ≠ infinite false := by
    intro infinite
    rw [isUsableFactor_of_infinite_growth (several.trans_le counted) infinite] at usable
    contradiction
  have lastPos : 0 < (last : ℝ) := Nat.cast_pos.mpr several
  rw [natCast_eq] at grown
  rcases eq_of_zero_lt growing with rfl | ⟨d, inRange', positive', rfl⟩
  · rw [infinite_mul_ofReal lastPos (abs_natCast_le counted)] at grown
    exact absurd rfl grown
  · rw [ofReal_mul inRange' (abs_natCast_le counted)] at grown
    have exponent : |d * last| ≤ largestDouble := by
      by_contra outside
      rw [ofReal_eq_infinite (mul_pos positive' lastPos) outside] at grown
      exact grown rfl
    have growth : |Real.exp (d * last)| ≤ largestDouble := by
      by_contra outside
      rw [exp_ofReal exponent] at grown
      exact grown (ofReal_eq_infinite (Real.exp_pos _) outside)
    rcases eq_of_zero_lt positive with rfl | ⟨r, inRange, -, rfl⟩
    · cases (isUsableFactor_infinite_div _).symm.trans usable
    · exact ⟨r, d, rfl, inRange, rfl, several, counted, positive', inRange', exponent, growth⟩

theorem wellFormed_exponential {grid : Grid Extended} (counted : last ≤ largestDouble)
    (built : exponential (last + 1) radius anisotropy = .ok grid) :
    grid.WellFormed Extended.isNaN := by
  obtain ⟨⟨enough, positive⟩, growing, usable, -⟩ := exponential_ok_iff.mp built
  obtain ⟨r, d, rfl, inRange, rfl, within⟩ := inRange_of_usable (Nat.lt_of_succ_lt_succ enough)
    counted positive growing usable
  exact within.wellFormed inRange built

end Exponential

/-! ### Given points -/

theorem wellFormed_ofPoints {points : List Float} {grid : Grid Float}
    (built : ofPoints points = .ok grid) :
    grid.points = points ∧ grid.WellFormed Float.isNaN := by
  obtain ⟨-, nonnegative, unbroken, rfl⟩ := ofPoints_ok_iff.mp built
  have numbers (x : Float) (member : x ∈ points) : x.isNaN = false :=
    DoubleOrder.isNaN_of_le (nonnegative x member)
  have chain : points.IsChain (· ≤ ·) :=
    unbroken.imp_of_mem_imp fun x y memberX memberY notBelow =>
      (DoubleOrder.le_iff_not_lt (numbers x memberX) (numbers y memberY)).mpr notBelow
  exact ⟨rfl, numbers, nonnegative, chain.pairwise⟩

/-! ### All grids -/

theorem extent_of_points {α : Type} {grid : Grid α} {count : ℕ} {radius : α} {point : ℕ → α}
    (enough : 2 ≤ count)
    (points : grid.points = (List.range (count - 1)).map point ++ [radius]) :
    grid.points.length = count ∧ grid.points.getLast? = some radius := by
  rw [points]
  refine ⟨?_, List.getLast?_concat⟩
  rw [List.length_append, List.length_map, List.length_range, List.length_singleton]
  omega

/--
A grid that is built has as many points as were asked for or given, and one that is laid out ends at
its outer radius. All grids are well-formed but the equidistant ones of infinite radius. The count
has to be a number in range, as every count of 64 bits is.
-/
theorem wellFormed_of_built {count : ℕ} (counted : count ≤ largestDouble)
    (radius anisotropy : Extended) (points : List Float) :
    (∀ grid, equidistant count radius = .ok grid →
      grid.points.length = count ∧ grid.points.getLast? = some radius ∧
        (grid.WellFormed Extended.isNaN ↔ radius ≠ infinite false)) ∧
    (∀ grid, exponential count radius anisotropy = .ok grid →
      grid.points.length = count ∧ grid.points.getLast? = some radius ∧
        grid.WellFormed Extended.isNaN) ∧
    ∀ grid, ofPoints points = .ok grid →
      grid.points.length = points.length ∧ grid.WellFormed Float.isNaN := by
  refine ⟨fun grid built => ?_, fun grid built => ?_, fun grid built => ?_⟩
  · obtain ⟨⟨enough, -⟩, laidOut⟩ := equidistant_ok_iff.mp built
    obtain ⟨length, end_eq⟩ := extent_of_points enough (congrArg Grid.points laidOut)
    obtain ⟨last, rfl⟩ := Nat.exists_eq_add_of_le' (Nat.one_le_of_lt enough)
    exact ⟨length, end_eq, wellFormed_equidistant_iff (Nat.le_of_succ_le counted) built⟩
  · obtain ⟨⟨enough, -⟩, -, -, laidOut⟩ := exponential_ok_iff.mp built
    obtain ⟨length, end_eq⟩ := extent_of_points enough (congrArg Grid.points laidOut)
    obtain ⟨last, rfl⟩ := Nat.exists_eq_add_of_le' (Nat.one_le_of_lt enough)
    exact ⟨length, end_eq, wellFormed_exponential (Nat.le_of_succ_le counted) built⟩
  · obtain ⟨same, wellFormed⟩ := wellFormed_ofPoints built
    exact ⟨congrArg List.length same, wellFormed⟩

theorem wellFormed_of_built_small :
    3 ≤ largestDouble ∧
    (∃ grid, equidistant 3 (ofReal 2) = .ok grid ∧ grid.WellFormed Extended.isNaN) ∧
    (∃ grid, equidistant 3 (infinite false) = .ok grid ∧ ¬ grid.WellFormed Extended.isNaN) ∧
    (∃ grid, exponential 2 (ofReal 1) (ofReal 1) = .ok grid ∧ grid.WellFormed Extended.isNaN) ∧
    ∃ grid, ofPoints [0.0, 0.5, 0.5, (1.0 / 0.0 : Float)] = .ok grid ∧
      grid.WellFormed Float.isNaN := by
  have three : 3 ≤ largestDouble := le_trans (by norm_num) pow_le_largestDouble
  have two : 2 ≤ largestDouble := Nat.le_of_succ_le three
  have inRange {x : ℝ} (nonneg : 0 ≤ x) (le : x ≤ 3) : |x| ≤ largestDouble :=
    abs_le_of_le nonneg le (abs_natCast_le three)
  let given : List Float := [0.0, 0.5, 0.5, 1.0 / 0.0]
  refine ⟨three, ?_, ?_, ?_, ?_⟩
  · have bounded : ofReal 2 ≠ infinite false := by
      rw [ofReal_eq_finite (inRange (by norm_num) (by norm_num))]
      intro same
      cases same
    have built := equidistant_ok_iff.mpr ⟨⟨Nat.le_succ 2, zero_lt_ofReal.mpr two_pos⟩, rfl⟩
    obtain ⟨ofEquidistant, -⟩ := wellFormed_of_built three (ofReal 2) (ofReal 1) given
    exact ⟨_, built, (ofEquidistant _ built).2.2.mpr bounded⟩
  · have built := equidistant_ok_iff.mpr ⟨⟨Nat.le_succ 2, zero_lt_infinite⟩, rfl⟩
    obtain ⟨ofEquidistant, -⟩ := wellFormed_of_built three (infinite false) (ofReal 1) given
    exact ⟨_, built, fun wellFormed => (ofEquidistant _ built).2.2.mp wellFormed rfl⟩
  · have within : GrowthInRange 1 1 := {
      several := one_pos
      counted := Nat.le_of_succ_le two
      positive := one_pos
      anisotropy := inRange (by norm_num) (by norm_num)
      exponent := inRange (by norm_num) (by norm_num)
      growth := inRange (Real.exp_pos _).le (by
        rw [Nat.cast_one, mul_one]
        linarith [Real.exp_one_lt_d9]) }
    have factor : 1 / (Real.exp (1 * (1 : ℕ)) - 1) ≤ largestDouble := by
      have growth : 2 ≤ Real.exp 1 := by linarith [Real.add_one_le_exp (1 : ℝ)]
      rw [Nat.cast_one, mul_one]
      exact ((div_le_one (by linarith)).mpr (by linarith)).trans
        (Nat.one_le_cast.mpr within.counted)
    obtain ⟨grid, built⟩ :=
      (within.exists_exponential_iff within.anisotropy).mpr ⟨one_pos, factor⟩
    obtain ⟨-, ofExponential, -⟩ := wellFormed_of_built two (ofReal 1) (ofReal 1) given
    exact ⟨grid, built, (ofExponential grid built).2.2⟩
  · have built : ofPoints given = .ok ⟨_, _, _, _⟩ := rfl
    obtain ⟨-, -, ofGiven⟩ := wellFormed_of_built three (ofReal 2) (ofReal 1) given
    exact ⟨_, built, (ofGiven _ built).2⟩

/-- The first point is zero times infinity and not a number. -/
theorem equidistant_infinity_not_wellFormed :
    ∃ grid, equidistant 2 (1.0 / 0.0 : Float) = .ok grid ∧
      (∃ x ∈ grid.points, x.isNaN = true) ∧ ¬ grid.WellFormed Float.isNaN := by
  refine ⟨_, rfl, ⟨_, List.mem_cons_self, by decide⟩, fun wellFormed => ?_⟩
  exact absurd (wellFormed.numbers _ List.mem_cons_self) (by decide)

end Grid

end GaussianRadial
