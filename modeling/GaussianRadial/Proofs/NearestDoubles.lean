import Mathlib
import GaussianRadial.Proofs.DecimalDigits

/-!
# Nearest doubles

The bits of the double nearest to a quotient depend on the value of the quotient only:
`magnitudeBits_congr`. A double is the nearest one to its own magnitude and to every quotient that
differs from it by less than a part in `2 ^ 54`: `magnitudeBits_of_near`. Half a unit in the last
place is no less than that, also below a power of two, where the places are half as far apart.
-/

namespace GaussianRadial.Number

namespace Ratio
variable {r s : Ratio}

theorem floor_eq (r : Ratio) : r.floor = ⌊r.value⌋₊ :=
  (Nat.floor_div_eq_div r.num r.den).symm

theorem value_sub_floor (den : 0 < r.den) : r.value - r.floor = (r.num % r.den : ℕ) / r.den := by
  have positive : (0 : ℚ) < r.den := Nat.cast_pos.mpr den
  have split : (r.den : ℚ) * (r.num / r.den : ℕ) + (r.num % r.den : ℕ) = r.num := by
    exact_mod_cast Nat.div_add_mod r.num r.den
  rw [value, floor, eq_div_iff positive.ne', sub_mul, div_mul_cancel₀ _ positive.ne']
  linarith

/-- Rounding looks at the value only. -/
theorem round_eq (den : 0 < r.den) :
    r.round = if 1 < 2 * (r.value - r.floor) then r.floor + 1
      else if 2 * (r.value - r.floor) = 1 then r.floor + r.floor % 2 else r.floor := by
  have positive : (0 : ℚ) < r.den := Nat.cast_pos.mpr den
  have above : 1 < 2 * (r.value - r.floor) ↔ r.den < 2 * (r.num % r.den) := by
    rw [value_sub_floor den, mul_div_assoc', one_lt_div positive]
    norm_cast
  have tie : 2 * (r.value - r.floor) = 1 ↔ 2 * (r.num % r.den) = r.den := by
    rw [value_sub_floor den, mul_div_assoc', div_eq_one_iff_eq positive.ne']
    norm_cast
  simp only [above, tie, round]

theorem round_congr (den : 0 < r.den) (den' : 0 < s.den) (same : r.value = s.value) :
    r.round = s.round := by
  rw [round_eq den, round_eq den', floor_eq, floor_eq, same]

theorem round_eq_of_near (den : 0 < r.den) {n : ℕ} (near : |r.value - n| < 1 / 2) :
    r.round = n := by
  obtain ⟨below, above⟩ := abs_lt.mp near
  have nonneg : 0 ≤ r.value := div_nonneg (Nat.cast_nonneg _) (Nat.cast_nonneg _)
  have floorLe := Nat.floor_le nonneg
  have ltFloor := Nat.lt_floor_add_one r.value
  rw [← floor_eq] at floorLe ltFloor
  rw [round_eq den]
  -- The whole number is the one below the value or the next.
  have low : r.floor < n + 1 := by
    have : (r.floor : ℚ) < n + 1 := by linarith
    exact_mod_cast this
  have high : n < r.floor + 2 := by
    have : (n : ℚ) < r.floor + 2 := by linarith
    exact_mod_cast this
  rcases Nat.lt_or_ge r.floor n with next | same
  · obtain rfl : n = r.floor + 1 := by omega
    push_cast at below above
    rw [if_pos (by linarith)]
  · obtain rfl : n = r.floor := by omega
    rw [if_neg (by linarith), if_neg (by linarith)]

theorem value_pos (num : r.num ≠ 0) (den : 0 < r.den) : 0 < r.value :=
  div_pos (Nat.cast_pos.mpr (Nat.pos_of_ne_zero num)) (Nat.cast_pos.mpr den)

theorem num_ne_zero (positive : 0 < r.value) : r.num ≠ 0 := by
  intro zero
  rw [value, zero, Nat.cast_zero, zero_div] at positive
  exact lt_irrefl 0 positive

end Ratio

/-! ### The last place -/

/-- The place of the last of 53 significant bits, that of subnormal numbers at least. -/
structure IsLastPlace (v : ℚ) (place : ℤ) : Prop where
  least : -1074 ≤ place
  leading : place = -1074 ∨ 2 ^ (place + 52) ≤ v
  below : v < 2 ^ (place + 53)

theorem IsLastPlace.unique {v : ℚ} {p q : ℤ} (first : IsLastPlace v p) (second : IsLastPlace v q) :
    p = q := by
  have le {p q : ℤ} (first : IsLastPlace v p) (second : IsLastPlace v q) : p ≤ q := by
    rcases first.leading with rfl | leading
    · exact second.least
    · have powers := leading.trans_lt second.below
      rw [zpow_lt_zpow_iff_right₀ (by norm_num)] at powers
      omega
  exact le_antisymm (le first second) (le second first)

section Ratio
variable {r s : Ratio}

theorem floor_scale_lt_iff (den : 0 < r.den) (place : ℤ) :
    (r.scale 2 (-place)).floor < exponentUnit ↔ r.value < 2 ^ (place + 52) := by
  have scaled :=
    Ratio.le_value_iff (Ratio.den_scale_pos Nat.two_pos (-place) den) exponentUnit
  have unit : ((exponentUnit : ℕ) : ℚ) = 2 ^ (52 : ℤ) := by
    have : exponentUnit = 2 ^ 52 := rfl
    rw [this]
    norm_cast
  rw [Ratio.value_scale Nat.two_pos, unit, Nat.cast_ofNat, zpow_neg, ← div_eq_mul_inv,
    le_div_iff₀ (by positivity), ← zpow_add₀ two_ne_zero, add_comm (52 : ℤ)] at scaled
  rw [← not_le, ← scaled, not_le]

theorem isLastPlace_lastPlace (num : r.num ≠ 0) (den : 0 < r.den) :
    IsLastPlace r.value (lastPlace r) := by
  obtain ⟨above, below⟩ := binaryPlace_bounds num den
  obtain ⟨place, clamped, low, high⟩ : ∃ place : ℤ,
      lastPlace r = (if place < -1074 then -1074 else place) ∧ 2 ^ (place + 52) ≤ r.value ∧
        r.value < 2 ^ (place + 53) := by
    have corrected := floor_scale_lt_iff den (binaryPlace r - 52)
    rw [sub_add_cancel] at corrected
    by_cases lower : r.value < 2 ^ binaryPlace r
    · refine ⟨binaryPlace r - 52 - 1, ?_, ?_, ?_⟩
      · rw [lastPlace]
        exact if_pos (corrected.mpr lower) ▸ rfl
      · rw [show binaryPlace r - 52 - 1 + 52 = binaryPlace r - 1 by ring]
        exact above.le
      · rwa [show binaryPlace r - 52 - 1 + 53 = binaryPlace r by ring]
    · refine ⟨binaryPlace r - 52, ?_, ?_, ?_⟩
      · rw [lastPlace]
        exact if_neg (mt corrected.mp lower) ▸ rfl
      · rw [sub_add_cancel]
        exact not_lt.mp lower
      · rwa [show binaryPlace r - 52 + 53 = binaryPlace r + 1 by ring]
  rw [clamped]
  split_ifs with subnormal
  · refine ⟨le_rfl, .inl rfl, high.trans_le ?_⟩
    exact zpow_le_zpow_right₀ (by norm_num) (by omega)
  · exact ⟨not_lt.mp subnormal, .inr low, high⟩

/-! ### The nearest bits -/

/-- The bits of a double with a given last place and significand. -/
def significandBits (place : ℤ) (significand : ℕ) : ℕ :=
  (place + 1074).toNat * exponentUnit + significand

theorem magnitudeBits_eq (num : r.num ≠ 0) : magnitudeBits r =
    min (significandBits (lastPlace r) (r.scale 2 (-lastPlace r)).round) infinityBits := by
  rw [magnitudeBits, if_neg num]
  change (if infinityBits < significandBits _ _ then _ else significandBits _ _) = _
  split_ifs <;> omega

theorem magnitudeBits_congr (den : 0 < r.den) (den' : 0 < s.den) (same : r.value = s.value) :
    magnitudeBits r = magnitudeBits s := by
  by_cases num : r.num = 0
  · have zero : s.num = 0 := by
      by_contra num'
      have positive := Ratio.value_pos num' den'
      rw [← same] at positive
      exact Ratio.num_ne_zero positive num
    rw [magnitudeBits, magnitudeBits, if_pos num, if_pos zero]
  · have num' : s.num ≠ 0 := Ratio.num_ne_zero (same ▸ Ratio.value_pos num den)
    have places : lastPlace r = lastPlace s :=
      (isLastPlace_lastPlace num den).unique (same ▸ isLastPlace_lastPlace num' den')
    have rounds : (r.scale 2 (-lastPlace r)).round = (s.scale 2 (-lastPlace r)).round := by
      apply Ratio.round_congr (Ratio.den_scale_pos Nat.two_pos _ den)
        (Ratio.den_scale_pos Nat.two_pos _ den')
      rw [Ratio.value_scale Nat.two_pos, Ratio.value_scale Nat.two_pos, same]
    rw [magnitudeBits_eq num, magnitudeBits_eq num', rounds, places]

/-- In units of the last place the significand is the nearest whole number. -/
theorem magnitudeBits_of_scaled {place : ℤ} {w : ℚ} {m : ℕ} (den : 0 < r.den)
    (value : r.value = w * 2 ^ place) (positive : 0 < w) (least : -1074 ≤ place)
    (leading : place = -1074 ∨ 2 ^ 52 ≤ w) (below : w < 2 ^ 53) (near : |w - m| < 1 / 2)
    (finite : significandBits place m ≤ infinityBits) :
    magnitudeBits r = significandBits place m := by
  have unit : (0 : ℚ) < 2 ^ place := by positivity
  have num : r.num ≠ 0 := Ratio.num_ne_zero (by rw [value]; exact mul_pos positive unit)
  have last : IsLastPlace r.value place := by
    refine ⟨least, leading.imp id fun leading => ?_, ?_⟩
    · rw [value, zpow_add₀ two_ne_zero, mul_comm]
      exact mul_le_mul_of_nonneg_right leading unit.le
    · rw [value, zpow_add₀ two_ne_zero, mul_comm ((2 : ℚ) ^ place)]
      exact mul_lt_mul_of_pos_right below unit
  have rounds : (r.scale 2 (-place)).round = m := by
    apply Ratio.round_eq_of_near (Ratio.den_scale_pos Nat.two_pos _ den)
    rwa [Ratio.value_scale Nat.two_pos, value, Nat.cast_ofNat, mul_assoc, ← zpow_add₀ two_ne_zero,
      add_neg_cancel, zpow_zero, mul_one]
  rw [magnitudeBits_eq num, (isLastPlace_lastPlace num den).unique last, rounds,
    min_eq_left finite]

/-- A significand has 53 bits, or fewer at the least place. -/
structure IsSignificand (place : ℤ) (m : ℕ) : Prop where
  least : -1074 ≤ place
  most : place ≤ 971
  leading : place = -1074 ∨ 2 ^ 52 ≤ m
  below : m < 2 ^ 53

namespace IsSignificand
variable {place : ℤ} {m : ℕ}

theorem bits_lt (significand : IsSignificand place m) : significandBits place m < infinityBits := by
  obtain ⟨least, most, -, below⟩ := significand
  have unit : exponentUnit = 2 ^ 52 := rfl
  have places : (place + 1074).toNat ≤ 2045 := by omega
  rw [significandBits, infinityBits, unit]
  omega

/-- The least significand of 53 bits is the double of it at the place below. -/
theorem bits_carried (above : -1074 < place) :
    significandBits (place - 1) (2 ^ 53) = significandBits place (2 ^ 52) := by
  have shift : (place + 1074).toNat = (place - 1 + 1074).toNat + 1 := by omega
  have unit : exponentUnit = 2 ^ 52 := rfl
  rw [significandBits, significandBits, shift, unit]
  ring

theorem magnitudeBits_near (significand : IsSignificand place m) (den : 0 < r.den)
    (near : |r.value - m * 2 ^ place| < m * 2 ^ place / 2 ^ 54) :
    magnitudeBits r = significandBits place m := by
  have bound : (m : ℚ) + 1 ≤ 2 ^ 53 := by exact_mod_cast significand.below
  obtain ⟨w, value⟩ : ∃ w : ℚ, r.value = w * 2 ^ place :=
    ⟨r.value / 2 ^ place, (div_mul_cancel₀ _ (by positivity)).symm⟩
  have unit : (0 : ℚ) < 2 ^ place := by positivity
  rw [value, ← sub_mul, abs_mul, abs_of_pos unit, mul_div_right_comm, mul_lt_mul_iff_left₀ unit]
    at near
  obtain ⟨low, high⟩ := abs_lt.mp near
  have positive : 0 < w := by
    have nonneg : (0 : ℚ) ≤ m / 2 ^ 54 := by positivity
    norm_num at low nonneg
    linarith
  by_cases same : place = -1074 ∨ 2 ^ 52 ≤ w
  · apply magnitudeBits_of_scaled den value positive significand.least same _ _
      significand.bits_lt.le
    · norm_num at bound high ⊢
      linarith
    · rw [abs_lt]
      norm_num at bound low high ⊢
      constructor <;> linarith
  · -- Below a power of two the places are half as far apart.
    obtain ⟨above, lower⟩ := not_or.mp same
    have leading := significand.leading.resolve_left above
    obtain rfl : m = 2 ^ 52 := by
      have small : (m : ℚ) < 2 ^ 52 + 1 := by
        norm_num at lower low
        linarith
      have : m < 2 ^ 52 + 1 := by exact_mod_cast small
      omega
    have carried := bits_carried (lt_of_le_of_ne significand.least (Ne.symm above))
    have halved : r.value = 2 * w * 2 ^ (place - 1) := by
      rw [value, zpow_sub_one₀ two_ne_zero]
      ring
    refine .trans (magnitudeBits_of_scaled den halved (by linarith) ?_ (.inr ?_) ?_ ?_
      (carried.trans_le significand.bits_lt.le)) carried
    · have := significand.least
      omega
    · norm_num at low ⊢
      linarith
    · norm_num at lower ⊢
      linarith
    · rw [abs_lt]
      norm_num at low lower ⊢
      constructor <;> linarith

end IsSignificand

end Ratio

/-! ### The double of its own magnitude -/

section Finite
variable {x : Float} {negative : Bool} {r s : Ratio}

theorem exists_significand (finite : Binary64.ofFloat x = .finite negative r) :
    ∃ place m, IsSignificand place m ∧ r = (Ratio.ofNat m).scale 2 place ∧
      x.toBits.toNat = significandBits place m + if negative then signBit else 0 := by
  have unit : exponentUnit = 2 ^ 52 := rfl
  have sign : signBit = 2 ^ 63 := rfl
  have bits := x.toBits.toNat_lt
  have fraction := Nat.mod_lt x.toBits.toNat (show 0 < exponentUnit by decide)
  have fields := Nat.div_add_mod x.toBits.toNat exponentUnit
  unfold Binary64.ofFloat at finite
  dsimp only at finite
  generalize x.toBits.toNat = n at *
  split_ifs at finite with largest least
  · obtain ⟨rfl, rfl⟩ := Binary64.finite.inj finite
    refine ⟨-1074, _, ⟨le_rfl, by norm_num, .inl rfl, by omega⟩, rfl, ?_⟩
    simp only [significandBits, decide_eq_true_eq, unit, sign] at *
    split_ifs <;> omega
  · obtain ⟨rfl, rfl⟩ := Binary64.finite.inj finite
    refine ⟨_, _, ⟨?_, ?_, .inr ?_, ?_⟩, rfl, ?_⟩
    all_goals simp only [significandBits, decide_eq_true_eq, unit, sign] at *
    · omega
    · omega
    · omega
    · omega
    · split_ifs <;> omega

theorem magnitudeBits_of_finite (finite : Binary64.ofFloat x = .finite negative r) :
    x.toBits.toNat = magnitudeBits r + if negative then signBit else 0 := by
  obtain ⟨place, m, significand, rfl, bits⟩ := exists_significand finite
  rw [bits]
  rcases Nat.eq_zero_or_pos m with rfl | positive
  · have zero : ((Ratio.ofNat 0).scale 2 place).num = 0 := by
      cases place <;> simp [Ratio.scale, Ratio.ofNat]
    have least : place = -1074 := significand.leading.resolve_right (by norm_num)
    rw [magnitudeBits, if_pos zero, least]
    rfl
  · rw [significand.magnitudeBits_near (Ratio.den_scale_pos Nat.two_pos _ Nat.one_pos)]
    rw [Ratio.value_scale Nat.two_pos, Ratio.value_ofNat, Nat.cast_ofNat, sub_self, abs_zero]
    positivity

theorem nearest_of_magnitudeBits (finite : Binary64.ofFloat x = .finite negative r)
    (same : magnitudeBits s = magnitudeBits r) : nearest negative s = x := by
  have bits := magnitudeBits_of_finite finite
  rw [nearest, same, ← bits, UInt64.ofNat_toNat, Float.ofBits_toBits]

/-- Half a unit in the last place of a double is at least a part in `2 ^ 54` of it. -/
theorem magnitudeBits_of_near (finite : Binary64.ofFloat x = .finite negative r) (den : 0 < s.den)
    (near : |s.value - r.value| < r.value / 2 ^ 54) : magnitudeBits s = magnitudeBits r := by
  obtain ⟨place, m, significand, rfl, -⟩ := exists_significand finite
  have value : ((Ratio.ofNat m).scale 2 place).value = m * 2 ^ place := by
    rw [Ratio.value_scale Nat.two_pos, Ratio.value_ofNat, Nat.cast_ofNat]
  have positive : (0 : ℚ) < m * 2 ^ place / 2 ^ 54 := by
    rw [value] at near
    exact (abs_nonneg _).trans_lt near
  rw [significand.magnitudeBits_near den (value ▸ near),
    significand.magnitudeBits_near (Ratio.den_scale_pos Nat.two_pos _ Nat.one_pos)]
  rwa [value, sub_self, abs_zero]

/-! ### Finite doubles -/

open Float.Model (Format UnpackedFloat)
open Float.Model.UnpackedFloat (unpackExponent)

theorem isFinite_iff_exponent (x : Float) :
    x.isFinite = true ↔ x.toBits.toNat / exponentUnit % 2048 ≠ 2047 := by
  have exponent : (@unpackExponent Format.binary64 x.toModel.toBits.toBitVec).toNat =
      x.toBits.toNat / exponentUnit % 2048 := by
    rw [unpackExponent, BitVec.toNat_cast, BitVec.extractLsb, BitVec.extractLsb'_toNat,
      Nat.shiftRight_eq_div_pow]
    rfl
  have largest : @unpackExponent Format.binary64 x.toModel.toBits.toBitVec = -1#11 ↔
      x.toBits.toNat / exponentUnit % 2048 = 2047 := by
    rw [← exponent, ← BitVec.toNat_inj]
    rfl
  change (UnpackedFloat.unpack Format.binary64 x.toModel.toBits.toBitVec).isFinite = true ↔ _
  rw [ne_eq, ← largest, UnpackedFloat.unpack]
  dsimp only
  split_ifs <;> simp_all [UnpackedFloat.isFinite]

theorem isFinite_iff :
    x.isFinite = true ↔ ∃ negative r, Binary64.ofFloat x = .finite negative r := by
  rw [isFinite_iff_exponent, Binary64.ofFloat]
  split_ifs with largest <;> simp [largest]

end Finite

end GaussianRadial.Number
