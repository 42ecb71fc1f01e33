import Mathlib
import GaussianRadial.Number.Digits
import GaussianRadial.Number.Reading

/-!
# Decimal digits

The decimal exponent of a double is estimated from the binary places of its quotient and corrected
by comparing the quotient with two powers of ten. This gives the exponent of the leading digit, so
that rounding leaves as many digits as are asked for: `rounded_digits`.
-/

namespace GaussianRadial.Number

namespace Ratio
variable {r : Ratio}

def value (r : Ratio) : ℚ := r.num / r.den

theorem value_ofNat (n : ℕ) : (ofNat n).value = n := by
  simp [value, ofNat]

theorem value_scale {base : ℕ} (positive : 0 < base) (k : ℤ) (r : Ratio) :
    (r.scale base k).value = r.value * (base : ℚ) ^ k := by
  have nonzero : (base : ℚ) ≠ 0 := by positivity
  cases k with
  | ofNat n =>
    simp only [scale, value, Nat.pow_eq, Nat.cast_mul, Nat.cast_pow, Int.ofNat_eq_natCast,
      zpow_natCast]
    ring
  | negSucc n =>
    simp only [scale, value, Nat.pow_eq, Nat.cast_mul, Nat.cast_pow, zpow_negSucc]
    rw [← div_div, div_eq_mul_inv _ ((base : ℚ) ^ (n + 1))]

theorem den_scale_pos {base : ℕ} (positive : 0 < base) (k : ℤ) (den : 0 < r.den) :
    0 < (r.scale base k).den := by
  cases k with
  | ofNat n => exact den
  | negSucc n => exact Nat.mul_pos den (Nat.pow_pos positive)

theorem le_value_iff (den : 0 < r.den) (a : ℕ) : (a : ℚ) ≤ r.value ↔ a ≤ r.floor := by
  have positive : (0 : ℚ) < r.den := Nat.cast_pos.mpr den
  rw [value, le_div_iff₀ positive, floor, Nat.le_div_iff_mul_le den]
  norm_cast

theorem floor_le_round (r : Ratio) : r.floor ≤ r.round := by
  simp only [round]
  split_ifs <;> omega

theorem round_le_floor_succ (r : Ratio) : r.round ≤ r.floor + 1 := by
  simp only [round]
  split_ifs <;> omega

theorem le_round (den : 0 < r.den) {a : ℕ} (le : (a : ℚ) ≤ r.value) : a ≤ r.round :=
  ((le_value_iff den a).mp le).trans r.floor_le_round

theorem round_le (den : 0 < r.den) {a : ℕ} (below : r.value < a) : r.round ≤ a := by
  have floor : r.floor < a := by
    rw [← not_le, ← le_value_iff den, not_le]
    exact below
  have near := r.round_le_floor_succ
  omega

end Ratio

/-! ### Powers of two and of ten -/

/-- Powers are compared through a power of both sides. -/
theorem zpow_le_zpow_of_pow {x y : ℚ} (xPos : 0 < x) (yPos : 0 < y) (one : 1 ≤ x) {n k : ℕ}
    (filled : n ≠ 0) (base : x ^ k ≤ y ^ n) {d b : ℤ} (nonneg : 0 ≤ b) (le : n * d ≤ k * b) :
    x ^ d ≤ y ^ b := by
  have raised : (x ^ d) ^ n ≤ (y ^ b) ^ n := by
    calc (x ^ d) ^ n = x ^ (n * d : ℤ) := by rw [← zpow_natCast, ← zpow_mul, mul_comm]
      _ ≤ x ^ (k * b : ℤ) := zpow_le_zpow_right₀ one le
      _ = (x ^ k) ^ b := by rw [zpow_mul, zpow_natCast]
      _ ≤ (y ^ n) ^ b := zpow_le_zpow_left₀ nonneg (by positivity) base
      _ = (y ^ b) ^ n := by rw [← zpow_natCast, ← zpow_natCast, ← zpow_mul, ← zpow_mul, mul_comm]
  exact (pow_le_pow_iff_left₀ (by positivity) (by positivity) filled).mp raised

theorem ten_zpow_le {d b : ℤ} (nonneg : 0 ≤ b) (le : 196 * d ≤ 59 * b) :
    (10 : ℚ) ^ d ≤ 2 ^ b :=
  zpow_le_zpow_of_pow (n := 196) (k := 59) (by norm_num) (by norm_num) (by norm_num) (by norm_num)
    (by norm_num) nonneg (by exact_mod_cast le)

theorem two_zpow_le {d b : ℤ} (nonneg : 0 ≤ d) (le : 28 * b ≤ 93 * d) : (2 : ℚ) ^ b ≤ 10 ^ d :=
  zpow_le_zpow_of_pow (n := 28) (k := 93) (by norm_num) (by norm_num) (by norm_num) (by norm_num)
    (by norm_num) nonneg (by exact_mod_cast le)

/-- The estimate of a decimal exponent, for the binary places of a double and a little beyond. -/
def decimalEstimate (binary : ℤ) : ℤ := Int.fdiv (binary * 30103) 100000

theorem decimalEstimate_bounds (b : ℤ) :
    decimalEstimate b * 100000 ≤ b * 30103 ∧ b * 30103 < (decimalEstimate b + 1) * 100000 := by
  rw [decimalEstimate, Int.fdiv_eq_ediv_of_nonneg _ (by norm_num)]
  omega

section Estimate
variable {b : ℤ} (low : -1100 ≤ b) (high : b ≤ 1100)
include low high

theorem ten_zpow_estimate_le : (10 : ℚ) ^ (decimalEstimate b - 1) ≤ 2 ^ (b - 1) := by
  obtain ⟨below, above⟩ := decimalEstimate_bounds b
  rcases le_or_gt 1 b with up | down
  · apply ten_zpow_le <;> omega
  · have inverse : (2 : ℚ) ^ (1 - b) ≤ 10 ^ (1 - decimalEstimate b) := by
      apply two_zpow_le <;> omega
    rw [← neg_sub b 1, ← neg_sub _ (1 : ℤ), zpow_neg, zpow_neg] at inverse
    exact (inv_le_inv₀ (by positivity) (by positivity)).mp inverse

theorem two_zpow_le_estimate : (2 : ℚ) ^ (b + 1) ≤ 10 ^ (decimalEstimate b + 2) := by
  obtain ⟨below, above⟩ := decimalEstimate_bounds b
  rcases le_or_gt (-1) b with up | down
  · apply two_zpow_le <;> omega
  · have inverse : (10 : ℚ) ^ (-(decimalEstimate b + 2)) ≤ 2 ^ (-(b + 1)) := by
      apply ten_zpow_le <;> omega
    rw [zpow_neg, zpow_neg] at inverse
    exact (inv_le_inv₀ (by positivity) (by positivity)).mp inverse

end Estimate

/-! ### The leading digit -/

section Leading
variable {r : Ratio}

/-- The places of the two whole numbers of a quotient. -/
def binaryPlace (r : Ratio) : ℤ := (Nat.log2 r.num : ℤ) - (Nat.log2 r.den : ℤ)

theorem binaryPlace_bounds (num : r.num ≠ 0) (den : 0 < r.den) :
    (2 : ℚ) ^ (binaryPlace r - 1) < r.value ∧ r.value < 2 ^ (binaryPlace r + 1) := by
  have cast {m n : ℕ} (lt : m < n) : (m : ℚ) < n := Nat.cast_lt.mpr lt
  have numLow : ((2 ^ Nat.log2 r.num : ℕ) : ℚ) ≤ r.num := Nat.cast_le.mpr (Nat.log2_self_le num)
  have denLow : ((2 ^ Nat.log2 r.den : ℕ) : ℚ) ≤ r.den :=
    Nat.cast_le.mpr (Nat.log2_self_le den.ne')
  have numHigh := cast (Nat.lt_log2_self (n := r.num))
  have denHigh := cast (Nat.lt_log2_self (n := r.den))
  have positive : (0 : ℚ) < r.den := Nat.cast_pos.mpr den
  have up : binaryPlace r + 1 = ((Nat.log2 r.num + 1 : ℕ) : ℤ) - (Nat.log2 r.den : ℕ) := by
    unfold binaryPlace
    omega
  have down : binaryPlace r - 1 = (Nat.log2 r.num : ℕ) - ((Nat.log2 r.den + 1 : ℕ) : ℤ) := by
    unfold binaryPlace
    omega
  push_cast at numLow denLow numHigh denHigh
  rw [up, down, zpow_sub₀ two_ne_zero, zpow_sub₀ two_ne_zero, zpow_natCast, zpow_natCast,
    zpow_natCast, zpow_natCast, Ratio.value]
  constructor
  · rw [div_lt_div_iff₀ (by positivity) positive]
    calc (2 : ℚ) ^ Nat.log2 r.num * r.den ≤ r.num * r.den := by gcongr
      _ < r.num * 2 ^ (Nat.log2 r.den + 1) := by gcongr
  · rw [div_lt_div_iff₀ positive (by positivity)]
    calc (r.num : ℚ) * 2 ^ Nat.log2 r.den ≤ r.num * r.den := by gcongr
      _ < 2 ^ (Nat.log2 r.num + 1) * r.den := by gcongr

theorem floor_scale_pos_iff (den : 0 < r.den) (k : ℤ) :
    0 < (r.scale 10 (-k)).floor ↔ (10 : ℚ) ^ k ≤ r.value := by
  have scaled := Ratio.le_value_iff (Ratio.den_scale_pos (by norm_num : 0 < 10) (-k) den) 1
  rw [Nat.cast_one, Ratio.value_scale (by norm_num), Nat.cast_ofNat, zpow_neg,
    ← div_eq_mul_inv, one_le_div (by positivity)] at scaled
  exact scaled.symm

/-- The exponent is that of the leading digit of the quotient. -/
structure IsLeading (r : Ratio) (exponent : ℤ) : Prop where
  le : (10 : ℚ) ^ exponent ≤ r.value
  lt : r.value < 10 ^ (exponent + 1)

theorem decimalExponent_isLeading (num : r.num ≠ 0) (den : 0 < r.den)
    (low : -1100 ≤ binaryPlace r) (high : binaryPlace r ≤ 1100) :
    IsLeading r (decimalExponent r) := by
  obtain ⟨above, below⟩ := binaryPlace_bounds num den
  have least := (ten_zpow_estimate_le low high).trans_lt above
  have most := below.trans_le (two_zpow_le_estimate low high)
  have unfolded : decimalExponent r =
      if 0 < (r.scale 10 (-(decimalEstimate (binaryPlace r) + 1))).floor then
        decimalEstimate (binaryPlace r) + 1
      else if 0 < (r.scale 10 (-decimalEstimate (binaryPlace r))).floor then
        decimalEstimate (binaryPlace r)
      else decimalEstimate (binaryPlace r) - 1 := rfl
  rw [unfolded]
  simp only [floor_scale_pos_iff den]
  split_ifs with tenfold within
  · exact ⟨tenfold, by rwa [add_assoc]⟩
  · exact ⟨within, not_le.mp tenfold⟩
  · exact ⟨least.le, by rw [sub_add_cancel]; exact not_le.mp within⟩

end Leading

/-! ### Rounded digits -/

theorem isDigit_of_mem_decimal {n : ℕ} {c : Char} (member : c ∈ decimal n) : c.isDigit = true :=
  Nat.isDigit_of_mem_toDigits (by norm_num) (by norm_num) member

theorem digitsValue_decimal (n : ℕ) : digitsValue (decimal n) = n :=
  Nat.ofDigitChars_ten_toDigits

/-- Only zero starts with a zero. -/
theorem head?_decimal {n : ℕ} (positive : 0 < n) : (decimal n).head? ≠ some '0' := by
  induction n using Nat.strong_induction_on with
  | _ n ih =>
    rcases Nat.lt_or_ge n 10 with single | several
    · rw [decimal, Nat.toDigits_of_lt_base single, List.head?_cons, ne_eq, Option.some.injEq,
        ← Char.toNat_inj, Nat.toNat_digitChar_of_lt_ten single]
      exact fun zero => positive.ne' (Nat.add_left_cancel zero)
    · rw [decimal, Nat.toDigits_of_base_le (by norm_num) several,
        List.head?_append_of_ne_nil _ Nat.toDigits_ne_nil]
      exact ih (n / 10) (by omega) (by omega)

theorem decimal_length {n count : ℕ} (low : 10 ^ count ≤ n) (high : n ≤ 10 ^ (count + 1)) :
    (decimal n).length = count + 1 ∨ (decimal n).length = count + 2 := by
  have most : (decimal n).length ≤ count + 2 := by
    apply (Nat.length_toDigits_le_iff (by norm_num) (by omega)).mpr
    calc n ≤ 10 ^ (count + 1) := high
      _ < 10 ^ (count + 2) := Nat.pow_lt_pow_right (by norm_num) (by omega)
  have least : count < (decimal n).length := by
    rcases Nat.eq_zero_or_pos count with rfl | positive
    · exact Nat.length_toDigits_pos
    · rw [← not_le]
      intro short
      have small := (Nat.length_toDigits_le_iff (b := 10) (by norm_num) positive).mp short
      omega
  omega

/-- A quotient that is scaled to `count` places after its leading digit. -/
theorem IsLeading.scaled {r : Ratio} {exponent : ℤ} (leading : IsLeading r exponent) (count : ℕ) :
    ((10 ^ count : ℕ) : ℚ) ≤ (r.scale 10 (-(exponent - count))).value ∧
      (r.scale 10 (-(exponent - count))).value < (10 ^ (count + 1) : ℕ) := by
  obtain ⟨le, lt⟩ := leading
  have ten : (10 : ℚ) ≠ 0 := by norm_num
  rw [Ratio.value_scale (by norm_num), neg_sub, Nat.cast_ofNat]
  constructor
  · calc (((10 ^ count : ℕ)) : ℚ) = 10 ^ exponent * 10 ^ (count - exponent) := by
          rw [← zpow_add₀ ten, add_sub_cancel, zpow_natCast, Nat.cast_pow, Nat.cast_ofNat]
      _ ≤ r.value * 10 ^ (count - exponent) := by gcongr
  · calc r.value * 10 ^ (count - exponent)
        < 10 ^ (exponent + 1) * 10 ^ (count - exponent) := by gcongr
      _ = ((10 ^ (count + 1) : ℕ) : ℚ) := by
        rw [← zpow_add₀ ten, Nat.cast_pow, Nat.cast_ofNat, ← zpow_natCast]
        congr 1
        omega

/-- The digits that are asked for, at the exponent of the leading digit or the next one. -/
theorem rounded_digits {r : Ratio} (num : r.num ≠ 0) (den : 0 < r.den) (count : ℕ)
    (leading : IsLeading r (decimalExponent r)) :
    (rounded count r).digits.length = count + 1 ∧
      (∀ c ∈ (rounded count r).digits, c.isDigit = true) ∧
      ((rounded count r).exponent = decimalExponent r ∨
        (rounded count r).exponent = decimalExponent r + 1) := by
  have den' := Ratio.den_scale_pos (by norm_num : 0 < 10) (-(decimalExponent r - count)) den
  obtain ⟨least, most⟩ := leading.scaled count
  have low := Ratio.le_round den' least
  have high := Ratio.round_le den' most
  rw [rounded, if_neg num]
  dsimp only [Digits.ofCoefficient]
  refine ⟨?_, ?_, ?_⟩
  · rcases decimal_length low high with length | length <;> rw [List.length_take, length] <;> omega
  · intro c member
    exact isDigit_of_mem_decimal (List.mem_of_mem_take member)
  · rcases decimal_length low high with length | length <;> rw [length] <;> omega

end GaussianRadial.Number
