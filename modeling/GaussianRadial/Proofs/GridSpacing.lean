import Mathlib
import GaussianRadial.Proofs.BuiltGrids
import GaussianRadial.Proofs.RealArithmetic
import GaussianRadial.Proofs.Tables

/-!
# The spacing of generated grids

Over the real numbers the points of a generated grid follow one rule up to the last, which is the
outer radius by that rule as well. The points of an equidistant grid have one distance. Those of an
exponential grid have distances that grow by one factor from each point to the next.
-/

namespace GaussianRadial.Grid

/--
All points of the grid, the last one included, are those of a rule, and they increase from 0 to the
outer radius.
-/
structure Follows (grid : Grid ℝ) (point : ℕ → ℝ) (count : ℕ) (radius : ℝ) : Prop where
  points_eq : grid.points = (List.range count).map point
  first_eq : grid.points.head? = some 0
  last_eq : grid.points.getLast? = some radius
  increasing : grid.points.Pairwise (· < ·)

/-- A rule whose points go from 0 to the outer radius gives the radius that ends the grid. -/
theorem follows_of_rule {grid : Grid ℝ} {point : ℕ → ℝ} {last : ℕ} {radius : ℝ}
    (points : grid.points = (List.range last).map point ++ [radius]) (start : point 0 = 0)
    (finish : point last = radius) (growing : StrictMono point) :
    grid.Follows point (last + 1) radius := by
  have whole : grid.points = (List.range (last + 1)).map point :=
    points.trans (points_append_last (fun _ _ => rfl) finish.symm)
  refine ⟨whole, ?_, ?_, ?_⟩
  · rw [whole, List.range_succ_eq_map, List.map_cons, List.head?_cons, start]
  · rw [points, List.getLast?_concat]
  · rw [whole, List.pairwise_map]
    exact List.pairwise_lt_range.imp fun before => growing before

theorem Follows.point_eq {grid : Grid ℝ} {point : ℕ → ℝ} {count i : ℕ} {radius x : ℝ}
    (follows : grid.Follows point count radius) (there : grid.points[i]? = some x) :
    point i = x := by
  rw [follows.points_eq, getElem?_map_range] at there
  split at there
  · exact Option.some.inj there
  · contradiction

/-! ### Equidistant points -/

section Equidistant
variable {last : ℕ} {radius : ℝ}

theorem equidistantPoint_zero (count : ℕ) (radius : ℝ) : equidistantPoint count radius 0 = 0 := by
  rw [equidistantPoint, Nat.cast_zero, zero_mul]

theorem equidistantPoint_last (several : 0 < last) :
    equidistantPoint (last + 1) radius last = radius :=
  mul_div_cancel₀ radius (Nat.cast_ne_zero.mpr several.ne')

theorem equidistantPoint_succ_sub (count : ℕ) (radius : ℝ) (i : ℕ) :
    equidistantPoint count radius (i + 1) - equidistantPoint count radius i =
      equidistantSpacing count radius := by
  rw [equidistantPoint, equidistantPoint, Nat.cast_succ]
  ring

theorem equidistantPoint_strictMono (several : 0 < last) (outside : 0 < radius) :
    StrictMono (equidistantPoint (last + 1) radius) := by
  have spacing : 0 < equidistantSpacing (last + 1) radius :=
    div_pos outside (Nat.cast_pos.mpr several)
  apply strictMono_nat_of_lt_succ
  intro i
  linarith [equidistantPoint_succ_sub (last + 1) radius i]

theorem follows_equidistant (several : 0 < last) (outside : 0 < radius) :
    ∃ grid, equidistant (last + 1) radius = .ok grid ∧
      grid.Follows (equidistantPoint (last + 1) radius) (last + 1) radius := by
  have extent : 2 ≤ last + 1 ∧ ((0 : ℕ) : ℝ) < radius := ⟨by omega, by simpa using outside⟩
  exact ⟨_, equidistant_ok_iff.mpr ⟨extent, rfl⟩, follows_of_rule rfl (equidistantPoint_zero _ _)
    (equidistantPoint_last several) (equidistantPoint_strictMono several outside)⟩

end Equidistant

/-! ### Exponential points -/

section Exponential
variable {last : ℕ} {radius factor d : ℝ}

theorem exponentialPoint_eq (factor d : ℝ) (i : ℕ) :
    exponentialPoint factor d i = factor * (Real.exp (d * i) - 1) := by
  rw [exponentialPoint, Nat.cast_one]
  rfl

theorem exponentialPoint_zero (factor d : ℝ) : exponentialPoint factor d 0 = 0 := by
  simp [exponentialPoint_eq]

theorem exponentialPoint_succ_sub (factor d : ℝ) (i : ℕ) :
    exponentialPoint factor d (i + 1) - exponentialPoint factor d i =
      factor * (Real.exp d - 1) * Real.exp d ^ i := by
  have power : Real.exp (d * i) = Real.exp d ^ i := by rw [mul_comm, Real.exp_nat_mul]
  have next : Real.exp (d * (i + 1 : ℕ)) = Real.exp d ^ (i + 1) := by
    rw [mul_comm, Real.exp_nat_mul]
  rw [exponentialPoint_eq, exponentialPoint_eq, power, next, pow_succ]
  ring

theorem exponentialPoint_strictMono (positive : 0 < factor) (growing : 0 < d) :
    StrictMono (exponentialPoint factor d) := by
  have growth : 0 < Real.exp d - 1 := sub_pos.mpr (Real.one_lt_exp_iff.mpr growing)
  apply strictMono_nat_of_lt_succ
  intro i
  have step : 0 < factor * (Real.exp d - 1) * Real.exp d ^ i := by positivity
  linarith [exponentialPoint_succ_sub factor d i]

theorem growthFactor_eq (last : ℕ) (radius d : ℝ) :
    growthFactor (last + 1) radius d = radius / (Real.exp (d * last) - 1) := by
  rw [growthFactor, Nat.add_sub_cancel, Nat.cast_one]
  rfl

theorem exponentialPoint_last (several : 0 < last) (growing : 0 < d) :
    exponentialPoint (growthFactor (last + 1) radius d) d last = radius := by
  rw [exponentialPoint_eq, growthFactor_eq,
    div_mul_cancel₀ _ (growth_sub_one_pos several growing).ne']

theorem follows_exponential (several : 0 < last) (outside : 0 < radius) (growing : 0 < d) :
    ∃ grid, exponential (last + 1) radius d = .ok grid ∧
      grid.Follows (exponentialPoint (growthFactor (last + 1) radius d) d) (last + 1) radius := by
  have extent : 2 ≤ last + 1 ∧ ((0 : ℕ) : ℝ) < radius := ⟨by omega, by simpa using outside⟩
  have factor : 0 < growthFactor (last + 1) radius d := by
    rw [growthFactor_eq]
    exact div_pos outside (growth_sub_one_pos several growing)
  have usable : isUsableFactor (growthFactor (last + 1) radius d) = true := by
    rw [isUsableFactor, ExactElementary.isFinite_eq_true, Bool.true_and, decide_eq_true_iff]
    exact_mod_cast factor
  exact ⟨_, exponential_ok_iff.mpr ⟨extent, by simpa using growing, usable, rfl⟩,
    follows_of_rule rfl (exponentialPoint_zero _ _) (exponentialPoint_last several growing)
      (exponentialPoint_strictMono factor growing)⟩

end Exponential

/--
Every extent over the real numbers gives a grid of either kind. Its points follow one rule, to the
last of them, and increase from 0 to the outer radius. Equidistant points are `radius / (count - 1)`
apart, and each distance of exponential points is `e^d` times the one before.
-/
theorem spacing_of_generated {count : ℕ} {radius d : ℝ} (enough : 2 ≤ count) (outside : 0 < radius)
    (growing : 0 < d) :
    (∃ grid, equidistant count radius = .ok grid ∧
      grid.Follows (equidistantPoint count radius) count radius ∧
      ∀ (i : ℕ) (x y : ℝ), grid.points[i]? = some x → grid.points[i + 1]? = some y →
        y - x = radius / (count - 1)) ∧
    ∃ grid, exponential count radius d = .ok grid ∧
      grid.Follows (exponentialPoint (growthFactor count radius d) d) count radius ∧
      ∀ (i : ℕ) (x y z : ℝ), grid.points[i]? = some x → grid.points[i + 1]? = some y →
        grid.points[i + 2]? = some z → z - y = Real.exp d * (y - x) := by
  obtain ⟨last, rfl⟩ := Nat.exists_eq_add_of_le' (Nat.one_le_of_lt enough)
  have several : 0 < last := by omega
  constructor
  · obtain ⟨grid, built, follows⟩ := follows_equidistant several outside
    refine ⟨grid, built, follows, ?_⟩
    intro i x y here next
    have steps : (((last + 1 : ℕ) : ℝ) - 1) = last := by push_cast; ring
    rw [← follows.point_eq here, ← follows.point_eq next, equidistantPoint_succ_sub, steps]
    rfl
  · obtain ⟨grid, built, follows⟩ := follows_exponential several outside growing
    refine ⟨grid, built, follows, ?_⟩
    intro i x y z here next second
    rw [← follows.point_eq here, ← follows.point_eq next, ← follows.point_eq second,
      exponentialPoint_succ_sub, exponentialPoint_succ_sub, pow_succ]
    ring

theorem spacing_of_generated_three :
    2 ≤ 3 ∧ (0 : ℝ) < 4 ∧ (0 : ℝ) < 1 / 2 ∧
      (∃ grid, equidistant 3 (4 : ℝ) = .ok grid ∧ grid.points = [0, 2, 4]) ∧
      ∃ grid x, exponential 3 (4 : ℝ) (1 / 2) = .ok grid ∧ grid.points = [0, x, 4] ∧
        4 - x = Real.exp (1 / 2) * x := by
  have enough : 2 ≤ 3 := by decide
  have outside : (0 : ℝ) < 4 := by norm_num
  have growing : (0 : ℝ) < 1 / 2 := by norm_num
  obtain ⟨⟨same, sameBuilt, sameFollows, -⟩, grown, grownBuilt, grownFollows, steps⟩ :=
    spacing_of_generated enough outside growing
  have samePoints : same.points = [0, 2, 4] := by
    rw [sameFollows.points_eq]
    norm_num [List.range_succ, equidistantPoint, equidistantSpacing]
  have grownPoints : grown.points =
      [0, exponentialPoint (growthFactor 3 4 (1 / 2)) (1 / 2) 1, 4] := by
    rw [grownFollows.points_eq, List.range_succ, List.map_append, List.map_singleton,
      exponentialPoint_last two_pos growing, ← exponentialPoint_zero (growthFactor 3 4 (1 / 2))]
    rfl
  refine ⟨enough, outside, growing, ⟨same, sameBuilt, samePoints⟩, grown, _, grownBuilt,
    grownPoints, ?_⟩
  rw [grownPoints] at steps
  simpa using steps 0 _ _ _ rfl rfl rfl

end GaussianRadial.Grid
