import Mathlib
import GaussianRadial.Grid

/-!
# Grids that are built

Which grid is built from an extent, a growth or points, and when it is.
-/

namespace GaussianRadial.Grid

theorem isNonDecreasing_iff {α : Type} [LT α] [DecidableLT α] {points : List α} :
    isNonDecreasing points = true ↔ points.IsChain fun x y => ¬ y < x := by
  fun_induction isNonDecreasing points with
  | case1 x y rest ih => simp [ih]
  | case2 points short =>
    match points with
    | [] => simp
    | [x] => simp
    | x :: y :: rest => exact absurd rfl (short x y rest)

variable {α : Type} [NatCast α] [LT α] [DecidableLT α] {count : ℕ} {radius : α} {grid : Grid α}

theorem checkExtent_ok_iff :
    checkExtent count radius = .ok () ↔ 2 ≤ count ∧ ((0 : ℕ) : α) < radius := by
  rw [checkExtent]
  split_ifs with few positive
  · simp [few]
  · simp [positive, Nat.not_lt.mp few]
  · simp [positive]

theorem ofPoints_ok_iff [LE α] [DecidableLE α] {points : List α} :
    ofPoints points = .ok grid ↔ points ≠ [] ∧ (∀ x ∈ points, ((0 : ℕ) : α) ≤ x) ∧
      (points.IsChain fun x y => ¬ y < x) ∧ grid = ⟨.explicit, ((0 : ℕ) : α), points, false⟩ := by
  rw [ofPoints, ← isNonDecreasing_iff]
  split_ifs with empty negative sorted
  · simp [List.isEmpty_iff.mp empty]
  · obtain ⟨x, member, below⟩ := List.any_eq_true.mp negative
    have refused : ¬ ∀ x ∈ points, ((0 : ℕ) : α) ≤ x :=
      fun all => by simp [all x member] at below
    simp [refused]
  · have all : ∀ x ∈ points, ((0 : ℕ) : α) ≤ x := by simpa using negative
    have filled : points ≠ [] := by simpa using empty
    simp only [Except.ok.injEq, ne_eq, filled, not_false_eq_true, sorted, true_and]
    exact ⟨fun same => ⟨all, same.symm⟩, fun valid => valid.2.symm⟩
  · simp [sorted]

variable [Mul α] [Div α]

theorem equidistant_ok_iff :
    equidistant count radius = .ok grid ↔ (2 ≤ count ∧ ((0 : ℕ) : α) < radius) ∧
      grid = ⟨.equidistant, ((0 : ℕ) : α),
        (List.range (count - 1)).map (equidistantPoint count radius) ++ [radius],
        true⟩ := by
  rw [← checkExtent_ok_iff, equidistant]
  cases checkExtent count radius with
  | error e => simp [bind, Except.bind]
  | ok _ => simp [bind, Except.bind, pure, Except.pure, eq_comm]

variable [Sub α] [Elementary α] {anisotropy : α}

theorem exponential_ok_iff :
    exponential count radius anisotropy = .ok grid ↔
      (2 ≤ count ∧ ((0 : ℕ) : α) < radius) ∧ ((0 : ℕ) : α) < anisotropy ∧
      isUsableFactor (growthFactor count radius anisotropy) = true ∧
      grid = ⟨.exponential, anisotropy, (List.range (count - 1)).map (exponentialPoint
        (growthFactor count radius anisotropy) anisotropy) ++ [radius], false⟩ := by
  rw [← checkExtent_ok_iff, exponential]
  cases checkExtent count radius with
  | error e => simp [bind, Except.bind]
  | ok _ =>
    dsimp only [bind, Except.bind]
    split_ifs with growing unusable
    · have refused : isUsableFactor (growthFactor count radius anisotropy) = false := by
        simpa using unusable
      simp [refused]
    · have usable : isUsableFactor (growthFactor count radius anisotropy) = true := by
        simpa using unusable
      simp [growing, usable, pure, Except.pure, eq_comm]
    · simp [growing]

/-! ### Points of one rule -/

/-- An end that is the next point of a rule belongs to the points of the rule. -/
theorem points_append_last {β : Type} {point f : ℕ → β} {last : ℕ} {radius : β}
    (points : ∀ i < last, point i = f i) (end_eq : radius = f last) :
    (List.range last).map point ++ [radius] = (List.range (last + 1)).map f := by
  rw [List.range_succ, List.map_append, end_eq]
  congr 1
  exact List.map_congr_left fun i member => points i (List.mem_range.mp member)

theorem growth_sub_one_pos {d : ℝ} {last : ℕ} (several : 0 < last) (growing : 0 < d) :
    0 < Real.exp (d * last) - 1 :=
  sub_pos.mpr (Real.one_lt_exp_iff.mpr (mul_pos growing (Nat.cast_pos.mpr several)))

end GaussianRadial.Grid
