import Mathlib
import GaussianRadial.Proofs.RealArithmetic

/-!
# Extended reals

The real numbers up to the largest double, two infinities, and a value that is not a number. An
operation on real numbers is exact and gives an infinity if the result is out of range. What it
gives for the other values is what floating-point arithmetic gives. There is one zero, and a number
is divided by it as by a positive one.
-/

namespace GaussianRadial

/-- The largest finite double. -/
@[irreducible]
def largestDouble : ℕ := (2 ^ 53 - 1) * 2 ^ 971

/-- Every count of 64 bits is in range. -/
theorem pow_le_largestDouble : 2 ^ 64 ≤ largestDouble := by decide +kernel

inductive Extended where
  | notANumber
  | infinite (negative : Bool)
  | finite (x : ℝ) (inRange : |x| ≤ largestDouble)

namespace Extended

def isNaN : Extended → Bool
  | notANumber => true
  | _ => false

/-- The place on the line from one infinity to the other. -/
noncomputable def place : Extended → EReal
  | notANumber => 0
  | infinite true => ⊥
  | infinite false => ⊤
  | finite x _ => x

instance extendedLT : LT Extended :=
  ⟨fun x y => x.isNaN = false ∧ y.isNaN = false ∧ x.place < y.place⟩

instance extendedLE : LE Extended :=
  ⟨fun x y => x.isNaN = false ∧ y.isNaN = false ∧ x.place ≤ y.place⟩

theorem lt_iff {x y : Extended} :
    x < y ↔ x.isNaN = false ∧ y.isNaN = false ∧ x.place < y.place := Iff.rfl

noncomputable instance extendedDecidableLT : DecidableLT Extended :=
  fun _ _ => Classical.propDecidable _

/-- A real number, or the infinity on its side if it is out of range. -/
noncomputable def ofReal (x : ℝ) : Extended :=
  if inRange : |x| ≤ largestDouble then finite x inRange else infinite (decide (x < 0))

noncomputable instance extendedNatCast : NatCast Extended := ⟨fun n => ofReal n⟩

/-- An infinity times a real number. -/
noncomputable def scaled (negative : Bool) (x : ℝ) : Extended :=
  if x = 0 then notANumber else infinite (negative != decide (x < 0))

noncomputable def sub : Extended → Extended → Extended
  | finite x _, finite y _ => ofReal (x - y)
  | finite _ _, infinite negative => infinite !negative
  | infinite negative, finite _ _ => infinite negative
  | infinite negative, infinite negative' =>
    if negative = negative' then notANumber else infinite negative
  | _, _ => notANumber

noncomputable def mul : Extended → Extended → Extended
  | finite x _, finite y _ => ofReal (x * y)
  | finite x _, infinite negative => scaled negative x
  | infinite negative, finite y _ => scaled negative y
  | infinite negative, infinite negative' => infinite (negative != negative')
  | _, _ => notANumber

noncomputable def div : Extended → Extended → Extended
  | finite x _, finite y _ => if y = 0 then scaled false x else ofReal (x / y)
  | finite _ _, infinite _ => ofReal 0
  | infinite negative, finite y _ => infinite (negative != decide (y < 0))
  | _, _ => notANumber

noncomputable instance extendedSub : Sub Extended := ⟨sub⟩

noncomputable instance extendedMul : Mul Extended := ⟨mul⟩

noncomputable instance extendedDiv : Div Extended := ⟨div⟩

noncomputable def exp : Extended → Extended
  | finite x _ => ofReal (Real.exp x)
  | infinite true => ofReal 0
  | infinite false => infinite false
  | notANumber => notANumber

noncomputable def log : Extended → Extended
  | finite x _ =>
    if x < 0 then notANumber else if x = 0 then infinite true else ofReal (Real.log x)
  | infinite false => infinite false
  | _ => notANumber

noncomputable def sqrt : Extended → Extended
  | finite x _ => if x < 0 then notANumber else ofReal √x
  | infinite false => infinite false
  | _ => notANumber

noncomputable def erf : Extended → Extended
  | finite x _ => ofReal (realErf x)
  | infinite negative => ofReal (if negative then -1 else 1)
  | notANumber => notANumber

def isFinite : Extended → Bool
  | finite _ _ => true
  | _ => false

/-- Powers are taken of positive numbers, through the logarithm. -/
noncomputable instance extendedElementary : Elementary Extended where
  sqrt := sqrt
  exp := exp
  erf := erf
  rpow := fun x y => exp (y * log x)
  rootPi := ofReal √Real.pi
  isFinite := isFinite

/-! ### Numbers in range -/

variable {x y : ℝ} {n : ℕ}

theorem ofReal_eq_finite (inRange : |x| ≤ largestDouble) : ofReal x = finite x inRange :=
  dif_pos inRange

theorem isNaN_ofReal (x : ℝ) : (ofReal x).isNaN = false := by
  unfold ofReal
  split <;> rfl

theorem abs_le_of_le (nonneg : 0 ≤ x) (le : x ≤ y) (inRange : |y| ≤ largestDouble) :
    |x| ≤ largestDouble := by
  rw [abs_of_nonneg nonneg]
  exact le.trans ((le_abs_self y).trans inRange)

theorem place_ofReal_le (le : x ≤ y) : (ofReal x).place ≤ (ofReal y).place := by
  unfold ofReal
  split_ifs with inRange inRange' inRange'
  · exact EReal.coe_le_coe_iff.mpr le
  · -- `y` is out of range on the side of the larger numbers, because `x` is not
    have above : ¬ y < 0 := fun negative => inRange'
      (abs_le.mpr ⟨(abs_le.mp inRange).1.trans le, negative.le.trans (Nat.cast_nonneg _)⟩)
    rw [decide_eq_false above]
    exact le_top
  · have below : x < 0 := by
      by_contra nonneg
      exact inRange (abs_le_of_le (not_lt.mp nonneg) le inRange')
    rw [decide_eq_true below]
    exact bot_le
  · by_cases below : x < 0
    · rw [decide_eq_true below]
      exact bot_le
    · rw [decide_eq_false fun negative : y < 0 => below (le.trans_lt negative)]
      exact le_top

theorem ofReal_le_ofReal (le : x ≤ y) : ofReal x ≤ ofReal y :=
  ⟨isNaN_ofReal x, isNaN_ofReal y, place_ofReal_le le⟩

theorem abs_natCast_le (inRange : n ≤ largestDouble) : |(n : ℝ)| ≤ largestDouble := by
  rw [Nat.abs_cast]
  exact Nat.cast_le.mpr inRange

theorem natCast_eq (n : ℕ) : ((n : ℕ) : Extended) = ofReal n := rfl

theorem zero_lt_ofReal : ((0 : ℕ) : Extended) < ofReal x ↔ 0 < x := by
  rw [natCast_eq, ofReal_eq_finite (abs_natCast_le (Nat.zero_le _)), lt_iff, ofReal]
  split_ifs with inRange
  · simp [isNaN, place]
  · have nonzero : x ≠ 0 := by
      rintro rfl
      exact inRange (by simp)
    rcases nonzero.lt_or_gt with negative | positive
    · simp [isNaN, place, negative, negative.le]
    · simp [isNaN, place, positive, positive.not_gt]

theorem zero_lt_infinite : ((0 : ℕ) : Extended) < infinite false := by
  rw [natCast_eq, ofReal_eq_finite (abs_natCast_le (Nat.zero_le _))]
  exact ⟨rfl, rfl, EReal.coe_lt_top _⟩

theorem ofReal_eq_infinite (positive : 0 < x) (outside : ¬ |x| ≤ largestDouble) :
    ofReal x = infinite false := by
  rw [ofReal, dif_neg outside, decide_eq_false positive.not_gt]

/-- A positive value is the positive infinity or a positive number in range. -/
theorem eq_of_zero_lt {r : Extended} (positive : ((0 : ℕ) : Extended) < r) :
    r = infinite false ∨ ∃ x : ℝ, |x| ≤ largestDouble ∧ 0 < x ∧ r = ofReal x := by
  cases r with
  | notANumber => exact absurd positive.2.1 (by decide)
  | infinite negative =>
    cases negative with
    | false => exact .inl rfl
    | true => exact absurd positive.2.2 not_lt_bot
  | finite x inRange =>
    rw [← ofReal_eq_finite inRange] at positive ⊢
    exact .inr ⟨x, inRange, zero_lt_ofReal.mp positive, rfl⟩

/-! ### Operations on numbers in range -/

section Operations
variable (inRange : |x| ≤ largestDouble) (inRange' : |y| ≤ largestDouble)
include inRange inRange'

theorem ofReal_sub : ofReal x - ofReal y = ofReal (x - y) := by
  rw [ofReal_eq_finite inRange, ofReal_eq_finite inRange']
  rfl

theorem ofReal_mul : ofReal x * ofReal y = ofReal (x * y) := by
  rw [ofReal_eq_finite inRange, ofReal_eq_finite inRange']
  rfl

theorem ofReal_div (nonzero : y ≠ 0) : ofReal x / ofReal y = ofReal (x / y) := by
  rw [ofReal_eq_finite inRange, ofReal_eq_finite inRange']
  exact if_neg nonzero

end Operations

theorem infinite_mul_ofReal (positive : 0 < x) (inRange : |x| ≤ largestDouble) :
    infinite false * ofReal x = infinite false := by
  rw [ofReal_eq_finite inRange]
  show scaled false x = infinite false
  rw [scaled, if_neg positive.ne', decide_eq_false positive.not_gt]
  rfl

theorem exp_ofReal (inRange : |x| ≤ largestDouble) : exp (ofReal x) = ofReal (Real.exp x) := by
  rw [ofReal_eq_finite inRange, exp]

end Extended

end GaussianRadial
