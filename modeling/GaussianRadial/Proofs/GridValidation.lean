import Mathlib
import GaussianRadial.Proofs.BuiltGrids
import GaussianRadial.Proofs.FileItems
import GaussianRadial.Proofs.RoundTrip

/-!
# Validation and the grid

Settings that a file can give and that have no fault have a grid, unless a point of an explicit
grid is not a number: `build_of_valid`. The faults speak of a point below zero, the grid of one that
is not at least zero, and a value that is not a number is the one that comes between them.
-/

namespace GaussianRadial.Input
open DoubleOrder

theorem faultIf_eq_nil_iff {β : Type} {condition : Bool} {fault : β} :
    faultIf condition fault = [] ↔ condition = false := by
  cases condition <;> simp [faultIf]

theorem faultIf_false {β : Type} (fault : β) : faultIf false fault = [] := rfl

theorem mem_faultIf {β : Type} {condition : Bool} {fault other : β} :
    other ∈ faultIf condition fault ↔ condition = true ∧ other = fault := by
  cases condition <;> simp [faultIf]

/-- The conditions under which a grid has no fault. -/
structure GridSettings.Valid (grid : GridSettings) : Prop where
  points : grid.kind ≠ .explicit → 2 ≤ grid.points
  radius : grid.kind ≠ .explicit → ¬ grid.radius ≤ 0.0
  anisotropy : grid.kind = .exponential → ¬ grid.anisotropy ≤ 0.0
  growth : grid.kind = .exponential → grid.overflows = false
  filled : grid.kind = .explicit → grid.values ≠ []
  values : valueFaults 1 none grid.values = []

theorem GridSettings.valid_of_faults {grid : GridSettings} (none : grid.faults = []) :
    grid.Valid := by
  simp only [faults, List.append_eq_nil_iff, faultIf_eq_nil_iff, Bool.and_eq_false_imp,
    Bool.not_eq_true', beq_eq_false_iff_ne, beq_iff_eq, decide_eq_false_iff_not, Nat.not_lt,
    List.isEmpty_eq_false_iff] at none
  obtain ⟨⟨⟨⟨⟨points, radius⟩, anisotropy⟩, growth⟩, filled⟩, values⟩ := none
  exact ⟨points, radius, anisotropy, growth, filled, values⟩

/-! ### Generated grids -/

theorem float_zero : (((0 : Nat) : Float)) = 0.0 := rfl

theorem positive_of_not_le {x : Float} (number : x.isNaN = false) (above : ¬ x ≤ 0.0) :
    ((0 : Nat) : Float) < x := by
  rw [float_zero]
  exact (lt_iff_not_le (by decide) number).mpr above

theorem usable_of_not_overflows {grid : GridSettings} (enough : 2 ≤ grid.points)
    (positive : ((0 : Nat) : Float) < grid.radius)
    (growing : ((0 : Nat) : Float) < grid.anisotropy) (within : grid.overflows = false) :
    Grid.isUsableFactor (Grid.growthFactor grid.points grid.radius grid.anisotropy) = true := by
  rw [float_zero] at positive growing
  rw [GridSettings.overflows, decide_eq_true enough, decide_eq_true positive,
    decide_eq_true growing] at within
  simpa using within

/-! ### Given points -/

/-- No value is below zero or below the one before it. -/
theorem valueFaults_eq_nil_iff {position : Nat} {before : Option Float} {values : List Float} :
    valueFaults position before values = [] ↔
      (∀ x ∈ values, ¬ x < 0.0) ∧ Grid.isNonDecreasing (before.toList ++ values) = true := by
  induction values generalizing position before with
  | nil => cases before <;> simp [valueFaults, Grid.isNonDecreasing]
  | cons x rest ih =>
    rw [valueFaults, List.append_eq_nil_iff, ih, List.forall_mem_cons]
    unfold valueFault
    by_cases negative : x < 0.0
    · simp [negative]
    · cases before with
      | none => simp [negative]
      | some other => simp [negative, faultIf_eq_nil_iff, Grid.isNonDecreasing, and_left_comm]

theorem ofPoints_of_isNaN {values : List Float} (undefined : ∃ x ∈ values, x.isNaN = true) :
    Grid.ofPoints values = .error .negativePoint := by
  obtain ⟨x, member, nan⟩ := undefined
  have filled : values.isEmpty = false := by
    rw [List.isEmpty_eq_false_iff]
    exact List.ne_nil_of_mem member
  have refused : (values.any fun x => !decide (((0 : Nat) : Float) ≤ x)) = true :=
    List.any_eq_true.mpr ⟨x, member, by simpa using not_le_of_isNaN nan⟩
  simp [Grid.ofPoints, filled, refused]

theorem ofPoints_of_valid {values : List Float} (filled : values ≠ [])
    (valid : valueFaults 1 none values = []) (numbers : ∀ x ∈ values, x.isNaN = false) :
    Grid.ofPoints values = .ok ⟨.explicit, ((0 : Nat) : Float), values, false⟩ := by
  obtain ⟨nonnegative, sorted⟩ := valueFaults_eq_nil_iff.mp valid
  refine Grid.ofPoints_ok_iff.mpr ⟨filled, fun x member => ?_, ?_, rfl⟩
  · rw [float_zero]
    exact (le_iff_not_lt (by decide) (numbers x member)).mpr (nonnegative x member)
  · simpa using Grid.isNonDecreasing_iff.mp sorted

/-! ### The grid of settings -/

theorem GridSettings.Valid.exists_build {grid : GridSettings} (valid : grid.Valid)
    (numbers : grid.Numbers)
    (defined : grid.kind = .explicit → ∀ x ∈ grid.values, x.isNaN = false) :
    ∃ built, grid.build = .ok built := by
  rw [build]
  split <;> rename_i kind
  · have generated : grid.kind ≠ .explicit := by simp [kind]
    have positive := positive_of_not_le numbers.radius (valid.radius generated)
    exact ⟨_, Grid.equidistant_ok_iff.mpr ⟨⟨valid.points generated, positive⟩, rfl⟩⟩
  · have generated : grid.kind ≠ .explicit := by simp [kind]
    have enough := valid.points generated
    have positive := positive_of_not_le numbers.radius (valid.radius generated)
    have growing := positive_of_not_le numbers.anisotropy (valid.anisotropy kind)
    have usable := usable_of_not_overflows enough positive growing (valid.growth kind)
    exact ⟨_, Grid.exponential_ok_iff.mpr ⟨⟨enough, positive⟩, growing, usable, rfl⟩⟩
  · exact ⟨_, ofPoints_of_valid (valid.filled kind) valid.values (defined kind)⟩

theorem Settings.valid_grid {settings : Settings} (valid : settings.faults = []) :
    settings.grid.Valid := by
  simp only [Settings.faults, List.append_eq_nil_iff] at valid
  exact GridSettings.valid_of_faults valid.1.1.1

/-- A point of the grid that the settings ask for is not a number. -/
def GridSettings.HasUndefinedPoint (grid : GridSettings) : Prop :=
  grid.kind = .explicit ∧ ∃ x ∈ grid.values, x.isNaN = true

/--
Of settings that a file gives and that have no fault, only those of an explicit grid with a point
that is not a number have no grid, and what is then said is that a point is negative.
-/
theorem build_of_valid {text : String} {settings : Settings}
    (read : Settings.ofText text = .ok settings) (valid : settings.faults = []) :
    (settings.grid.HasUndefinedPoint → settings.grid.build = .error .negativePoint) ∧
      (¬ settings.grid.HasUndefinedPoint → ∃ grid, settings.grid.build = .ok grid) := by
  refine ⟨fun undefined => ?_, fun defined => ?_⟩
  · rw [GridSettings.build, undefined.1]
    exact ofPoints_of_isNaN undefined.2
  · refine (Settings.valid_grid valid).exists_build (settings_numbers read).grid ?_
    intro explicit x member
    exact Bool.eq_false_iff.mpr fun nan => defined ⟨explicit, x, member, nan⟩

/-! ### Explicit grids of one point -/

def onePointText (value : String) : String :=
  "$grid type explicit values " ++ value ++ " $end $integrals c0 1 0 $end $output $end"

def onePointBlocks (value : String) : List Block := [
  ⟨.grid, ["type", "explicit", "values", value].map String.toList⟩,
  ⟨.integrals, ["c0", "1", "0"].map String.toList⟩, ⟨.output, []⟩]

def onePoint (x : Float) : FileItems :=
  ⟨[.kind .explicit, .values [x]], [⟨.inner, 1.0, 0, 0⟩], []⟩

theorem onePoint_read (value : String) {x : Float}
    (tokens_eq : fileTokens (onePointText value).toList =
      (onePointBlocks value).flatMap Block.tokens)
    (number : Number.wholeNumber? value.toList = some x) :
    Settings.ofText (onePointText value) = .ok (onePoint x).settings := by
  have kind : SpellsGridOption (.kind .explicit) (["type", "explicit"].map String.toList) :=
    .kind rfl rfl
  have values : SpellsGridOption (.values [x]) ["values".toList, value.toList] :=
    .values rfl (.cons number .nil)
  have request : SpellsRequest ⟨.inner, 1.0, 0, 0⟩ (["c0", "1", "0"].map String.toList) :=
    .intro rfl rfl rfl .inner
  have written : (onePoint x).WrittenIn (onePointText value) :=
    FileItems.writtenIn_of_sections tokens_eq (.cons kind (.cons values .nil)) (.cons request .nil)
      .nil
  exact settings_ofText_iff.mpr ⟨_, written.inText, rfl⟩

theorem build_of_valid_infinity :
    Settings.ofText (onePointText "inf") = .ok (onePoint (1.0 / 0.0)).settings ∧
      (onePoint (1.0 / 0.0)).settings.faults = [] ∧
        ∃ grid, (onePoint (1.0 / 0.0)).settings.grid.build = .ok grid := by
  have read := onePoint_read "inf" (by decide +kernel) rfl
  have defined : ¬ (onePoint (1.0 / 0.0)).settings.grid.HasUndefinedPoint := by
    rintro ⟨-, x, member, nan⟩
    obtain rfl := List.mem_singleton.mp member
    exact absurd nan (by decide)
  exact ⟨read, rfl, (build_of_valid read rfl).2 defined⟩

/-- A value that is not a number has no fault, and yet there is no grid. -/
theorem faults_miss_undefined_point :
    (ofText (onePointText "nan")).1 = .error (.grid .negativePoint) ∧
      ∃ settings, Settings.ofText (onePointText "nan") = .ok settings ∧ settings.faults = [] ∧
        settings.grid.build = .error .negativePoint := by
  have read := onePoint_read "nan" (by decide +kernel) rfl
  refine ⟨?_, _, read, rfl, rfl⟩
  rw [ofText, read]
  rfl

end GaussianRadial.Input
