import Mathlib
import GaussianRadial.Double

/-!
# Products of doubles with whole numbers

A positive whole number of at most 53 bits is a finite and positive double. A double that is
infinite or not a number stays as it is when it is multiplied by such a number: `mul_natCast`.
-/

namespace GaussianRadial.DoubleProducts
open Float.Model (Format totalExponent UnpackedFloat)
open Float.Model.UnpackedFloat

/-! ### Significands of 53 bits -/

theorem log2_mul_two_pow {m : ℕ} (positive : 0 < m) (s : ℕ) : (m * 2 ^ s).log2 = m.log2 + s := by
  have low := Nat.log2_self_le positive.ne'
  have high := Nat.lt_log2_self (n := m)
  rw [Nat.log2_eq_iff (by positivity)]
  constructor
  · rw [pow_add]
    gcongr
  · calc m * 2 ^ s < 2 ^ (m.log2 + 1) * 2 ^ s := by gcongr
      _ = 2 ^ (m.log2 + s + 1) := by ring

theorem shiftRight_mul_two_pow (m s : ℕ) :
    (⟨m * 2 ^ s, false, false⟩ : ExtendedMantissa) >>> s = ⟨m, false, false⟩ := by
  change s.repeat ExtendedMantissa.shiftRightOne _ = _
  induction s generalizing m with
  | zero => rw [pow_zero, mul_one, Nat.repeat]
  | succ s ih =>
    rw [Nat.repeat, pow_succ', ← mul_assoc, ih]
    simp [ExtendedMantissa.shiftRightOne]

variable {m : ℕ} {e : ℤ}

theorem shiftToTargetExponent_exact (normal : m.log2 = 52) (least : -1074 ≤ e) (s : ℕ) :
    shiftToTargetExponent Format.binary64 (m * 2 ^ s) (e - s) .exact = (⟨m, false, false⟩, e) := by
  have positive : 0 < m := Nat.pos_of_ne_zero fun zero => by simp [zero] at normal
  have target : Format.binary64.targetExponent (totalExponent (m * 2 ^ s) (e - s)) = e := by
    simp only [Format.targetExponent, totalExponent, log2_mul_two_pow positive, normal,
      Format.mantissaBits, Format.minExponent]
    omega
  have amount : (e - (e - s)).toNat = s := by omega
  simp only [shiftToTargetExponent, target, shiftToExponent, amount,
    ExtendedMantissa.ofMantissaAndAccuracy, shiftRight_mul_two_pow, sub_add_cancel]

/-- Zeros behind a significand of 53 bits are cut off without rounding. -/
theorem roundWithAccuracy_exact (sign : Sign) (positive : 0 < m) (normal : m.log2 = 52)
    (least : -1074 ≤ e) (s : ℕ) :
    roundWithAccuracy Format.binary64 sign (m * 2 ^ s) (e - s) .exact =
      .finite sign m e positive := by
  have again := shiftToTargetExponent_exact normal least 0
  rw [pow_zero, mul_one, Nat.cast_zero, sub_zero] at again
  have rounded : (⟨m, false, false⟩ : ExtendedMantissa).roundedMantissa = m := rfl
  simp [roundWithAccuracy, shiftToTargetExponent_exact normal least, rounded, again, positive.ne']

theorem unpackSign_packComponents (sign : Sign) (exponent : BitVec 11) (mantissa : BitVec 52) :
    unpackSign (packComponents Format.binary64 sign exponent mantissa) = sign.toBitVec := by
  change (sign.toBitVec ++ exponent ++ mantissa).extractLsb' 63 1 = sign.toBitVec
  rw [BitVec.extractLsb'_append_eq_of_le (by decide),
    BitVec.extractLsb'_append_eq_of_le (by decide)]
  cases sign <;> rfl

theorem pack_normal (positive : 0 < m) (normal : m.log2 = 52) (most : e ≤ 971) (sign : Sign) :
    pack Format.binary64 (.finite sign m e positive) = packComponents Format.binary64 sign
      (BitVec.ofNat 11 (e + 1075).toNat) (BitVec.ofNat 52 m) := by
  have exponent : (e + Format.binary64.exponentBias + Format.binary64.mantissaBitsWithoutImplicit)
      = e + 1075 := by
    change e + 1023 + 52 = e + 1075
    ring
  have inRange : ¬ 2 ^ Format.binary64.exponentBits ≤ (e + 1075).toNat + 1 := by
    change ¬ 2048 ≤ (e + 1075).toNat + 1
    omega
  simp only [pack, exponent, if_neg inRange, normal]
  rfl

theorem unpack_pack (positive : 0 < m) (normal : m.log2 = 52) (least : -1074 ≤ e) (most : e ≤ 971)
    (sign : Sign) : unpack Format.binary64 (pack Format.binary64 (.finite sign m e positive)) =
      .finite sign m e positive := by
  have low := Nat.log2_self_le positive.ne'
  have high := Nat.lt_log2_self (n := m)
  rw [normal] at low high
  have biased : (BitVec.ofNat 11 (e + 1075).toNat).toNat = (e + 1075).toNat := by
    rw [BitVec.toNat_ofNat]
    omega
  have notInfinite : BitVec.ofNat 11 (e + 1075).toNat ≠ -1#11 := by
    intro eq
    have value := congrArg BitVec.toNat eq
    rw [biased] at value
    change (e + 1075).toNat = 2047 at value
    omega
  have notSubnormal : BitVec.ofNat 11 (e + 1075).toNat ≠ 0#11 := by
    intro eq
    have value := congrArg BitVec.toNat eq
    rw [biased] at value
    change (e + 1075).toNat = 0 at value
    omega
  have significand : (1#1 ++ BitVec.ofNat 52 m).toNat = m := by
    rw [BitVec.toNat_append, BitVec.toNat_ofNat, Nat.shiftLeft_eq, Nat.or_comm]
    change m % 2 ^ 52 ||| 2 ^ 52 = m
    rw [Nat.or_two_pow_eq_add_of_lt (Nat.mod_lt m (by decide))]
    omega
  have signEq : Sign.ofBitVec sign.toBitVec = sign := by cases sign <;> rfl
  rw [pack_normal positive normal most]
  simp only [unpack, unpackMantissa_packComponents, unpackExponent_packComponents,
    unpackSign_packComponents, signEq, if_neg notInfinite, if_neg notSubnormal, biased, significand]
  congr 1
  change ((e + 1075).toNat : ℤ) - (1023 + 52) = e
  omega

/-! ### Whole numbers -/

/-- A positive whole number of at most 53 bits is represented by its leading 53 bits. -/
theorem round_natural {k : ℕ} (positive : 0 < k) (small : k.log2 ≤ 52) :
    ∃ m e, ∃ filled : 0 < m, m.log2 = 52 ∧ -52 ≤ e ∧ e ≤ 0 ∧
      UnpackedFloat.round Format.binary64 .positive k 0 = .finite .positive m e filled := by
  have target : Format.binary64.targetExponent (totalExponent k 0) = (k.log2 : ℤ) - 52 := by
    simp only [Format.targetExponent, totalExponent, Format.mantissaBits, Format.minExponent]
    omega
  have amount : (-((k.log2 : ℤ) - 52)).toNat = 52 - k.log2 := by omega
  have normal : (k * 2 ^ (52 - k.log2)).log2 = 52 := by
    rw [log2_mul_two_pow positive]
    omega
  have filled : 0 < k * 2 ^ (52 - k.log2) := by positivity
  have exact := roundWithAccuracy_exact (e := -((52 - k.log2 : ℕ) : ℤ)) .positive filled normal
    (by omega) 0
  rw [pow_zero, mul_one, Nat.cast_zero, sub_zero] at exact
  refine ⟨_, -((52 - k.log2 : ℕ) : ℤ), filled, normal, by omega, by omega, ?_⟩
  simp only [UnpackedFloat.round, target, decreaseExponent, zero_sub, amount, Nat.shiftLeft_eq]
  exact exact

theorem unpack_natCast {k : ℕ} (positive : 0 < k) (small : k < 2 ^ 53) :
    ∃ m e, ∃ filled : 0 < m, (k : Float).toModel.unpack = .finite .positive m e filled := by
  have log : k.log2 ≤ 52 := Nat.le_of_lt_succ ((Nat.log2_lt positive.ne').mpr small)
  obtain ⟨m, e, filled, normal, least, most, rounded⟩ := round_natural positive log
  refine ⟨m, e, filled, ?_⟩
  have word : k.toUInt64.toNat = k := UInt64.toNat_ofNat_of_lt' (small.trans (by decide))
  have above : compare (k : ℤ) 0 = .gt := Int.compare_eq_gt.mpr (by omega)
  have converted : ofUInt64 Format.binary64 k.toUInt64 = .finite .positive m e filled := by
    simp only [ofUInt64, ofNat, ofInt, UnpackedFloat.normalize, word, above, Int.toNat_natCast]
    exact rounded
  have one : (Float.ofBits 0x3FF0000000000000).toModel.unpack =
      .finite .positive (2 ^ 52) (-52) (by decide) := rfl
  have product : (k : Float) = k.toUInt64.toFloat * Float.ofBits 0x3FF0000000000000 := by
    change Float.ofScientific k false 0 = _
    rw [Float.ofScientific, dif_pos ⟨small, by decide⟩]
    rfl
  have exact : roundWithAccuracy Format.binary64 .positive (m * 2 ^ 52) (e - 52) .exact = _ :=
    roundWithAccuracy_exact .positive filled normal (by omega : -1074 ≤ e) 52
  rw [product]
  change unpack Format.binary64 (pack Format.binary64 (UnpackedFloat.mul Format.binary64
    (unpack Format.binary64 (pack Format.binary64 (ofUInt64 Format.binary64 k.toUInt64)))
    (Float.ofBits 0x3FF0000000000000).toModel.unpack)) = _
  rw [converted, one, unpack_pack filled normal (by omega) (by omega)]
  change unpack Format.binary64 (pack Format.binary64 (roundWithAccuracy Format.binary64 .positive
    (m * 2 ^ 52) (e - 52) .exact)) = _
  rw [exact, unpack_pack filled normal (by omega) (by omega)]

/-! ### Doubles that are not finite -/

theorem bits_eq (b : BitVec 64) : packComponents Format.binary64
    (Sign.ofBitVec (@unpackSign Format.binary64 b)) (@unpackExponent Format.binary64 b)
    (@unpackMantissa Format.binary64 b) = b := by
  have sign (bit : BitVec 1) : (Sign.ofBitVec bit).toBitVec = bit := by
    revert bit
    decide
  rw [packComponents, sign]
  change b.extractLsb' 63 1 ++ b.extractLsb' 52 11 ++ b.extractLsb' 0 52 = b
  rw [BitVec.extractLsb'_append_extractLsb'_eq_extractLsb' (by decide),
    BitVec.extractLsb'_append_extractLsb'_eq_extractLsb' (by decide)]
  exact BitVec.extractLsb'_eq_self

theorem unpack_infinity {b : BitVec 64} {sign : Sign}
    (infinite : unpack Format.binary64 b = .infinity sign) :
    pack Format.binary64 (.infinity sign) = b := by
  simp only [unpack] at infinite
  split at infinite
  · rename_i greatest
    split at infinite
    · rename_i blank
      cases infinite
      have parts := bits_eq b
      rw [greatest, blank] at parts
      exact parts
    · contradiction
  · split at infinite
    · split at infinite <;> contradiction
    · contradiction

theorem unpack_notANumber {x : Float} (undefined : x.toModel.unpack = .notANumber) :
    pack Format.binary64 .notANumber = x.toModel.toBits.toBitVec := by
  have canonical := x.toModel.valid.eq_packedNaN
  simp only [Float.Model.unpack, unpack] at undefined
  split at undefined
  · split at undefined
    · contradiction
    · exact (canonical ‹_› ‹_›).symm
  · split at undefined
    · split at undefined <;> contradiction
    · contradiction

theorem eq_of_pack {x y : Float} (value : UnpackedFloat)
    (bits : pack Format.binary64 value = x.toModel.toBits.toBitVec)
    (packed : y.toModel = Float.Model.pack value) : y = x := by
  obtain ⟨⟨⟨xBits⟩, _⟩⟩ := x
  obtain ⟨⟨⟨yBits⟩, _⟩⟩ := y
  cases packed
  cases bits
  rfl

/--
A double that is infinite or not a number stays as it is when it is multiplied by a positive number.
-/
theorem mul_natCast {x : Float} (unbounded : x.isFinite = false) {k : ℕ} (positive : 0 < k)
    (small : k < 2 ^ 53) : x * (k : Float) = x := by
  obtain ⟨m, e, filled, whole⟩ := unpack_natCast positive small
  have bounded : x.isFinite = x.toModel.unpack.isFinite := rfl
  have product : (x * (k : Float)).toModel = Float.Model.pack
      (UnpackedFloat.mul Format.binary64 x.toModel.unpack (k : Float).toModel.unpack) := rfl
  rw [whole] at product
  cases value : x.toModel.unpack with
  | notANumber =>
    rw [value] at product
    exact eq_of_pack _ (unpack_notANumber value) product
  | infinity sign =>
    rw [value] at product
    cases sign <;> exact eq_of_pack _ (unpack_infinity value) product
  | zero sign =>
    rw [unbounded, value] at bounded
    contradiction
  | finite sign mantissa exponent filled =>
    rw [unbounded, value] at bounded
    contradiction

end GaussianRadial.DoubleProducts
