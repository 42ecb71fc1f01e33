import Mathlib
import GaussianRadial.Double

/-!
# The order of doubles

Two doubles that are numbers are comparable, and equality of doubles tells all of them apart but the
two zeros. So the order tells a positive double apart from any other that is a number:
`eq_of_not_lt`. Of two numbers one is at most the other unless that is below it: `le_iff_not_lt`.
Numbers are ordered as their keys are, which makes the order transitive: `le_of_le_of_le` and
`lt_of_lt_of_lt`.
-/

namespace GaussianRadial.DoubleOrder
open Float.Model (UnpackedFloat)

variable {u v : UnpackedFloat}

theorem compare_swap (u v : UnpackedFloat) : v.compare u = (u.compare v).map Ordering.swap := by
  cases u with
  | notANumber => cases v <;> rfl
  | infinity s =>
    cases v with
    | infinity s' => cases s <;> cases s' <;> rfl
    | _ => cases s <;> rfl
  | zero s =>
    cases v with
    | infinity s' => cases s' <;> rfl
    | finite s' m e pos => cases s' <;> rfl
    | _ => rfl
  | finite s m e pos =>
    cases v with
    | infinity s' => cases s' <;> rfl
    | finite s' m' e' pos' =>
      cases s <;> cases s' <;>
        simp [UnpackedFloat.compare, Ordering.swap_then, Int.compare_swap, Nat.compare_swap]
    | _ => cases s <;> rfl

theorem compare_ne_none (number : u ≠ .notANumber) (number' : v ≠ .notANumber) :
    u.compare v ≠ none := by
  fun_cases UnpackedFloat.compare u v <;> simp_all

theorem beq_of_not_lt (number : u ≠ .notANumber) (number' : v ≠ .notANumber)
    (notBelow : u.lt v = false) (notAbove : v.lt u = false) : u.beq v = true := by
  obtain ⟨ordering, compared⟩ := Option.ne_none_iff_exists'.mp (compare_ne_none number number')
  rw [UnpackedFloat.lt, compared] at notBelow
  rw [UnpackedFloat.lt, compare_swap, compared] at notAbove
  rw [UnpackedFloat.beq, compared]
  cases ordering with
  | lt => exact absurd notBelow (by decide)
  | eq => rfl
  | gt => exact absurd notAbove (by decide)

theorem ne_notANumber {x : Float} (number : x ≠ Float.nan) : x.toModel.unpack ≠ .notANumber := by
  intro undefined
  have flag : x.isNaN = true := UnpackedFloat.isNaN_iff.mpr undefined
  rw [Float.isNaN_eq_decide_eq_nan, decide_eq_true_eq] at flag
  exact number flag

theorem unpack_lt_of_not_lt {x y : Float} (notBelow : ¬ x < y) :
    x.toModel.unpack.lt y.toModel.unpack = false :=
  Bool.eq_false_iff.mpr fun below => notBelow (decide_eq_true below)

/-- A positive double and a number that are neither below nor above one another are one double. -/
theorem eq_of_not_lt {key x : Float} (positive : ((0 : Nat) : Float) < key)
    (number : x.isNaN = false) (notBelow : ¬ key < x) (notAbove : ¬ x < key) : key = x := by
  rw [Float.isNaN_eq_decide_eq_nan, decide_eq_false_iff_not] at number
  have keyNumber : key ≠ Float.nan := by
    rintro rfl
    exact absurd positive (by decide)
  have equal : (key == x) = true := beq_of_not_lt (ne_notANumber keyNumber) (ne_notANumber number)
    (unpack_lt_of_not_lt notBelow) (unpack_lt_of_not_lt notAbove)
  obtain ⟨-, -, same | ⟨rfl, -⟩ | ⟨rfl, -⟩⟩ := Float.beq_iff_ne_nan_and_eq.mp equal
  · exact same
  · exact absurd positive (by decide)
  · exact absurd positive (by decide)

/-! ### Comparisons turned around -/

theorem le_eq_not_lt (number : u ≠ .notANumber) (number' : v ≠ .notANumber) :
    u.le v = !v.lt u := by
  obtain ⟨ordering, compared⟩ := Option.ne_none_iff_exists'.mp (compare_ne_none number number')
  rw [UnpackedFloat.le, UnpackedFloat.lt, compare_swap u v, compared]
  cases ordering <;> rfl

theorem unpack_ne_of_isNaN {x : Float} (number : x.isNaN = false) :
    x.toModel.unpack ≠ .notANumber :=
  fun undefined => Bool.eq_false_iff.mp number (UnpackedFloat.isNaN_iff.mpr undefined)

theorem le_iff_not_lt {x y : Float} (number : x.isNaN = false) (number' : y.isNaN = false) :
    x ≤ y ↔ ¬ y < x := by
  have le : x ≤ y ↔ x.toModel.unpack.le y.toModel.unpack = true := decide_eq_true_iff
  have lt : y < x ↔ y.toModel.unpack.lt x.toModel.unpack = true := decide_eq_true_iff
  rw [le, lt, le_eq_not_lt (unpack_ne_of_isNaN number) (unpack_ne_of_isNaN number')]
  simp

theorem lt_iff_not_le {x y : Float} (number : x.isNaN = false) (number' : y.isNaN = false) :
    x < y ↔ ¬ y ≤ x := by
  rw [le_iff_not_lt number' number, not_not]

theorem ne_notANumber_of_le (le : u.le v = true) : u ≠ .notANumber ∧ v ≠ .notANumber := by
  constructor <;> rintro rfl
  · simp [UnpackedFloat.le, UnpackedFloat.compare] at le
  · cases u <;> simp [UnpackedFloat.le, UnpackedFloat.compare] at le

theorem ne_notANumber_of_lt (below : u.lt v = true) : u ≠ .notANumber ∧ v ≠ .notANumber := by
  rw [UnpackedFloat.lt, beq_iff_eq] at below
  apply ne_notANumber_of_le
  rw [UnpackedFloat.le, below]
  rfl

theorem not_le_of_isNaN {x y : Float} (undefined : y.isNaN = true) : ¬ x ≤ y :=
  fun le => (ne_notANumber_of_le (of_decide_eq_true le)).2 (UnpackedFloat.isNaN_iff.mp undefined)

theorem isNaN_of_le {x y : Float} (le : x ≤ y) : y.isNaN = false :=
  Bool.eq_false_iff.mpr fun undefined => not_le_of_isNaN undefined le

theorem isNaN_of_lt {x y : Float} (below : x < y) : y.isNaN = false := by
  apply Bool.eq_false_iff.mpr
  intro undefined
  exact (ne_notANumber_of_lt (of_decide_eq_true below)).2 (UnpackedFloat.isNaN_iff.mp undefined)

theorem isNaN_of_isFinite {x : Float} (finite : x.isFinite = true) : x.isNaN = false := by
  replace finite : x.toModel.unpack.isFinite = true := finite
  apply Bool.eq_false_iff.mpr
  intro undefined
  rw [UnpackedFloat.isNaN_iff.mp undefined] at finite
  exact absurd finite (by decide)

theorem unpack_of_infinite {x : Float} (positive : ((0 : Nat) : Float) < x)
    (infinite : x.isFinite = false) : x.toModel.unpack = .infinity .positive := by
  have number := unpack_ne_of_isNaN (isNaN_of_lt positive)
  have below : ((0 : Nat) : Float).toModel.unpack.lt x.toModel.unpack = true :=
    of_decide_eq_true positive
  replace infinite : x.toModel.unpack.isFinite = false := infinite
  cases parts : x.toModel.unpack with
  | notANumber => exact absurd parts number
  | infinity sign =>
    rw [parts] at below
    cases sign with
    | positive => rfl
    | negative => exact absurd below (by decide)
  | _ =>
    rw [parts] at infinite
    contradiction

/-- There is one positive number that is not finite. -/
theorem eq_of_infinite {x y : Float} (positive : ((0 : Nat) : Float) < x)
    (positive' : ((0 : Nat) : Float) < y) (infinite : x.isFinite = false)
    (infinite' : y.isFinite = false) : x = y := by
  have notBelow {x y : Float} (large : x.toModel.unpack = .infinity .positive)
      (large' : y.toModel.unpack = .infinity .positive) : ¬ x < y := by
    intro below
    replace below : x.toModel.unpack.lt y.toModel.unpack = true := of_decide_eq_true below
    rw [large, large'] at below
    contradiction
  have large := unpack_of_infinite positive infinite
  have large' := unpack_of_infinite positive' infinite'
  exact eq_of_not_lt positive (isNaN_of_lt positive') (notBelow large large')
    (notBelow large' large)

/-! ### Numbers by their keys -/

/-- The sign, then the exponent and the mantissa, by which numbers are ordered. -/
def key : UnpackedFloat → ℤ ×ₗ ℤ ×ₗ ℤ
  | .notANumber => toLex (0, toLex (0, 0))
  | .infinity .positive => toLex (2, toLex (0, 0))
  | .infinity .negative => toLex (-2, toLex (0, 0))
  | .zero _ => toLex (0, toLex (0, 0))
  | .finite .positive mantissa exponent _ => toLex (1, toLex (exponent, mantissa))
  | .finite .negative mantissa exponent _ => toLex (-1, toLex (-exponent, -mantissa))

theorem isLE_then_compare (e e' : ℤ) (m m' : ℕ) :
    ((compare e e').then (compare m m')).isLE = true ↔ e < e' ∨ e = e' ∧ m ≤ m' := by
  rcases lt_trichotomy e e' with below | rfl | above
  · simp [compare_lt_iff_lt.mpr below, below]
  · simp [Nat.isLE_compare]
  · simp [compare_gt_iff_gt.mpr above, above.not_gt, above.ne']

theorem le_iff_key_le (number : u ≠ .notANumber) (number' : v ≠ .notANumber) :
    u.le v = true ↔ key u ≤ key v := by
  rw [UnpackedFloat.le]
  cases u with
  | notANumber => contradiction
  | infinity s =>
    cases v with
    | notANumber => contradiction
    | infinity s' => cases s <;> cases s' <;> decide
    | zero s' => cases s <;> simp [UnpackedFloat.compare, key, Prod.Lex.toLex_le_toLex]
    | finite s' m e pos =>
      cases s <;> cases s' <;> simp [UnpackedFloat.compare, key, Prod.Lex.toLex_le_toLex]
  | zero s =>
    cases v with
    | notANumber => contradiction
    | zero s' => simp [UnpackedFloat.compare, key]
    | _ s' => cases s' <;> simp [UnpackedFloat.compare, key, Prod.Lex.toLex_le_toLex]
  | finite s m e pos =>
    cases v with
    | notANumber => contradiction
    | infinity s' =>
      cases s <;> cases s' <;> simp [UnpackedFloat.compare, key, Prod.Lex.toLex_le_toLex]
    | zero s' => cases s <;> simp [UnpackedFloat.compare, key, Prod.Lex.toLex_le_toLex]
    | finite s' m' e' pos' =>
      cases s <;> cases s' <;>
        simp [UnpackedFloat.compare, key, Prod.Lex.toLex_le_toLex, Ordering.swap_then,
          Int.compare_swap, Nat.compare_swap, isLE_then_compare, @eq_comm ℤ e' e]

theorem le_of_le_of_le {x y z : Float} (first : x ≤ y) (second : y ≤ z) : x ≤ z := by
  replace first : x.toModel.unpack.le y.toModel.unpack = true := of_decide_eq_true first
  replace second : y.toModel.unpack.le z.toModel.unpack = true := of_decide_eq_true second
  obtain ⟨numberX, numberY⟩ := ne_notANumber_of_le first
  obtain ⟨-, numberZ⟩ := ne_notANumber_of_le second
  rw [le_iff_key_le numberX numberY] at first
  rw [le_iff_key_le numberY numberZ] at second
  exact decide_eq_true ((le_iff_key_le numberX numberZ).mpr (first.trans second))

instance floatTrans : @Trans Float Float Float LE.le LE.le LE.le := ⟨le_of_le_of_le⟩

theorem lt_iff_key_lt (number : u ≠ .notANumber) (number' : v ≠ .notANumber) :
    u.lt v = true ↔ key u < key v := by
  have turned : u.lt v = !v.le u := by rw [le_eq_not_lt number' number, Bool.not_not]
  rw [turned, Bool.not_eq_true', ← Bool.not_eq_true, le_iff_key_le number' number, not_le]

theorem not_lt_self (x : Float) : ¬ x < x := by
  intro below
  replace below : x.toModel.unpack.lt x.toModel.unpack = true := of_decide_eq_true below
  obtain ⟨number, -⟩ := ne_notANumber_of_lt below
  exact lt_irrefl _ ((lt_iff_key_lt number number).mp below)

theorem lt_of_lt_of_lt {x y z : Float} (first : x < y) (second : y < z) : x < z := by
  replace first : x.toModel.unpack.lt y.toModel.unpack = true := of_decide_eq_true first
  replace second : y.toModel.unpack.lt z.toModel.unpack = true := of_decide_eq_true second
  obtain ⟨numberX, numberY⟩ := ne_notANumber_of_lt first
  obtain ⟨-, numberZ⟩ := ne_notANumber_of_lt second
  rw [lt_iff_key_lt numberX numberY] at first
  rw [lt_iff_key_lt numberY numberZ] at second
  exact decide_eq_true ((lt_iff_key_lt numberX numberZ).mpr (first.trans second))

end GaussianRadial.DoubleOrder
