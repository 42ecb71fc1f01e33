import Mathlib
import GaussianRadial.Proofs.NumberTexts

/-!
# Shortest digits

The digits that `shortest` finds stand for a quotient with the bits of the double:
`isDigitsOf_shortest`. Seventeen digits are always enough, since half a unit of the last of them is
less than a part in `2 ^ 54` of the double.
-/

namespace GaussianRadial.Number

/-! ### Values of digits -/

theorem digitsValue_append (s t : List Char) :
    digitsValue (s ++ t) = digitsValue s * 10 ^ t.length + digitsValue t := by
  induction t using List.reverseRecOn with
  | nil => simp [digitsValue]
  | append_singleton t c ih =>
    have step (digits : List Char) :
        digitsValue (digits ++ [c]) = 10 * digitsValue digits + digitValue c := by
      simp [digitsValue]
    rw [← List.append_assoc, step, step, ih, List.length_append, List.length_singleton, pow_succ]
    ring

theorem digitsValue_zeros (k : ℕ) : digitsValue (List.replicate k '0') = 0 := by
  induction k with
  | zero => rfl
  | succ k ih =>
    rw [List.replicate_succ', digitsValue_append, ih]
    rfl

namespace Digits

/-- The quotient that digits stand for. -/
def value (d : Digits) : ℚ := digitsValue d.digits * 10 ^ (d.exponent + 1 - d.digits.length)

theorem value_ofCoefficient (coefficient : ℕ) (place : ℤ) :
    (ofCoefficient coefficient place).value = coefficient * 10 ^ place := by
  rw [value, ofCoefficient, digitsValue_decimal, sub_add_cancel, add_sub_cancel_right]

/-- Only zeros are trimmed. -/
theorem exists_zeros_trim (d : Digits) :
    ∃ k, d.digits = d.trim.digits ++ List.replicate k '0' ∧ d.trim.exponent = d.exponent := by
  unfold trim
  split
  · exact ⟨0, by simp, rfl⟩
  · rename_i first rest digits
    have zeros : ∀ c ∈ (rest.reverse.takeWhile (· == '0')).reverse, c = '0' := by
      intro c member
      exact eq_of_beq (List.mem_takeWhile_imp (p := (· == '0')) (List.mem_reverse.mp member))
    refine ⟨(rest.reverse.takeWhile (· == '0')).length, ?_, rfl⟩
    rw [digits, List.cons_append, ← List.length_reverse, ← List.eq_replicate_of_mem zeros,
      ← List.reverse_append, List.takeWhile_append_dropWhile, List.reverse_reverse]

theorem value_trim (d : Digits) : d.trim.value = d.value := by
  obtain ⟨k, digits, exponent⟩ := d.exists_zeros_trim
  have ten : (10 : ℚ) ≠ 0 := by norm_num
  rw [value, value, digits, exponent, digitsValue_append, digitsValue_zeros, List.length_append,
    List.length_replicate, add_zero, Nat.cast_mul, Nat.cast_pow, Nat.cast_ofNat, mul_assoc,
    ← zpow_natCast, ← zpow_add₀ ten]
  congr 2
  push_cast
  ring

theorem head?_trim (d : Digits) : d.trim.digits.head? = d.digits.head? := by
  unfold trim
  split
  · rfl
  · rename_i digits
    rw [digits]
    rfl

end Digits

/-! ### Digits that read back -/

/-- Digits without a zero at the front, or zero itself, that round to the bits of `r`. -/
structure IsDigitsOf (r : Ratio) (d : Digits) : Prop where
  filled : d.digits ≠ []
  digits : ∀ c ∈ d.digits, c.isDigit = true
  leading : d.digits.head? ≠ some '0' ∨ d = ⟨['0'], 0⟩
  low : 0 < d.value → 10 ^ (-324 : ℤ) ≤ d.value
  high : d.value ≤ 10 ^ (309 : ℤ)
  bits : ∀ s : Ratio, 0 < s.den → s.value = d.value → magnitudeBits s = magnitudeBits r

section Shortest
variable {x : Float} {negative : Bool} {r : Ratio}

theorem exists_of_readsBack? {exponent : ℤ} {count : ℕ} {d : Digits}
    (found : readsBack? r exponent count = some d) :
    ∃ c, d = .ofCoefficient c (exponent - count) ∧
      magnitudeBits ((Ratio.ofNat c).scale 10 (exponent - count)) = magnitudeBits r ∧
      (r.scale 10 (-(exponent - count))).floor ≤ c ∧
      c ≤ (r.scale 10 (-(exponent - count))).floor + 1 := by
  unfold readsBack? at found
  dsimp only at found
  obtain ⟨c, choice, rfl⟩ := Option.map_eq_some_iff.mp found
  refine ⟨c, rfl, ?_⟩
  generalize r.scale 10 (-(exponent - count)) = scaled at *
  split at choice
  · rename_i below above
    obtain rfl := Option.some.inj choice
    have low := scaled.floor_le_round
    have high := scaled.round_le_floor_succ
    refine ⟨?_, low, high⟩
    rcases Nat.le_iff_lt_or_eq.mp high with same | next
    · rw [le_antisymm (Nat.lt_succ_iff.mp same) low]
      exact eq_of_beq below
    · rw [next]
      exact eq_of_beq above
  · rename_i below _
    obtain rfl := Option.some.inj choice
    exact ⟨eq_of_beq below, le_rfl, Nat.le_succ _⟩
  · rename_i _ above
    obtain rfl := Option.some.inj choice
    exact ⟨eq_of_beq above, Nat.le_succ _, le_rfl⟩
  · contradiction

/-- The whole number below a quotient or the next one is at most half away from it. -/
theorem near_floor (den : 0 < r.den) :
    |r.value - r.floor| ≤ 1 / 2 ∨ |r.value - (r.floor + 1 : ℕ)| ≤ 1 / 2 := by
  have low := (Ratio.le_value_iff den r.floor).mpr le_rfl
  have high : r.value < (r.floor + 1 : ℕ) := by
    rw [← not_le, Ratio.le_value_iff den]
    omega
  push_cast at high ⊢
  rcases le_total (r.value - r.floor) (1 / 2) with below | above
  · exact .inl (abs_le.mpr ⟨by linarith, below⟩)
  · exact .inr (abs_le.mpr ⟨by linarith, by linarith⟩)

theorem natCast_pow_mul_zpow (k : ℕ) (place : ℤ) :
    ((10 ^ k : ℕ) : ℚ) * 10 ^ place = 10 ^ (k + place) := by
  rw [zpow_add₀ (by norm_num), Nat.cast_pow, Nat.cast_ofNat, zpow_natCast]

/-- The value of a coefficient of `count + 1` digits is in the range of the doubles. -/
theorem coefficient_bounds {c count : ℕ} {place : ℤ} (least : -324 ≤ count + place)
    (most : count + 1 + place ≤ 309) (atLeast : 10 ^ count ≤ c) (atMost : c ≤ 10 ^ (count + 1)) :
    10 ^ (-324 : ℤ) ≤ c * (10 : ℚ) ^ place ∧ c * (10 : ℚ) ^ place ≤ 10 ^ (309 : ℤ) := by
  have unit : (0 : ℚ) < 10 ^ place := by positivity
  constructor
  · calc (10 : ℚ) ^ (-324 : ℤ) ≤ 10 ^ (count + place) :=
          zpow_le_zpow_right₀ (by norm_num) least
      _ = (10 ^ count : ℕ) * 10 ^ place := (natCast_pow_mul_zpow count place).symm
      _ ≤ c * 10 ^ place := by
        apply mul_le_mul_of_nonneg_right _ unit.le
        exact_mod_cast atLeast
  · calc (c : ℚ) * 10 ^ place ≤ (10 ^ (count + 1) : ℕ) * 10 ^ place := by
          apply mul_le_mul_of_nonneg_right _ unit.le
          exact_mod_cast atMost
      _ = 10 ^ ((count + 1 : ℕ) + place) := natCast_pow_mul_zpow (count + 1) place
      _ ≤ (10 : ℚ) ^ (309 : ℤ) := by
        apply zpow_le_zpow_right₀ (by norm_num)
        push_cast
        exact most

variable (finite : Binary64.ofFloat x = .finite negative r) (num : r.num ≠ 0)
include finite num

/-- Seventeen digits read back. -/
theorem isSome_readsBack? : (readsBack? r (decimalExponent r) 16).isSome = true := by
  have inRange := inRange_of_finite finite
  have leading := inRange.isLeading num
  obtain ⟨place, same⟩ : ∃ place, place = decimalExponent r - (16 : ℕ) := ⟨_, rfl⟩
  have unit : (0 : ℚ) < 10 ^ place := by positivity
  have scaledDen := Ratio.den_scale_pos (by norm_num : 0 < 10) (-place) inRange.den
  have reads {c : ℕ} (near : |(r.scale 10 (-place)).value - c| ≤ 1 / 2) :
      magnitudeBits ((Ratio.ofNat c).scale 10 place) = magnitudeBits r := by
    apply magnitudeBits_of_near finite (Ratio.den_scale_pos (by norm_num) _ Nat.one_pos)
    have first : (10 : ℚ) ^ 16 * 10 ^ place ≤ r.value := by
      have powers : (10 : ℚ) ^ 16 * 10 ^ place = 10 ^ decimalExponent r := by
        rw [same, zpow_sub₀ (by norm_num), zpow_natCast, mul_div_cancel₀ _ (by norm_num)]
      rw [powers]
      exact leading.le
    have apart : ((Ratio.ofNat c).scale 10 place).value - r.value =
        (c - (r.scale 10 (-place)).value) * 10 ^ place := by
      rw [Ratio.value_scale (by norm_num), Ratio.value_scale (by norm_num), Ratio.value_ofNat,
        Nat.cast_ofNat, zpow_neg]
      field_simp
    rw [apart, abs_mul, abs_of_pos unit, abs_sub_comm]
    calc |(r.scale 10 (-place)).value - c| * 10 ^ place ≤ 1 / 2 * 10 ^ place := by gcongr
      _ < 10 ^ 16 * 10 ^ place / 2 ^ 54 := by
        rw [mul_div_right_comm]
        apply mul_lt_mul_of_pos_right _ unit
        norm_num
      _ ≤ r.value / 2 ^ 54 := by gcongr
  unfold readsBack?
  dsimp only
  rw [← same, Option.isSome_map]
  rcases near_floor scaledDen with below | above
  · rw [beq_iff_eq.mpr (reads below)]
    cases magnitudeBits ((Ratio.ofNat ((r.scale 10 (-place)).floor + 1)).scale 10 place) ==
      magnitudeBits r <;> rfl
  · rw [beq_iff_eq.mpr (reads above)]
    cases magnitudeBits ((Ratio.ofNat (r.scale 10 (-place)).floor).scale 10 place) ==
      magnitudeBits r <;> rfl

/-- The digits are found with a count of at most seventeen, none of them by rounding. -/
theorem exists_shortest : ∃ count d, readsBack? r (decimalExponent r) count = some d ∧
    shortest r = d.trim := by
  have last := isSome_readsBack? finite num
  cases found : (List.range 17).findSome? (readsBack? r (decimalExponent r)) with
  | none =>
    rw [List.findSome?_eq_none_iff] at found
    rw [found 16 (by simp)] at last
    contradiction
  | some d =>
    obtain ⟨count, -, reads⟩ := List.exists_of_findSome?_eq_some found
    refine ⟨count, d, reads, ?_⟩
    rw [shortest, if_neg num, found]
    rfl

theorem isDigitsOf_shortest_of_ne : IsDigitsOf r (shortest r) := by
  have inRange := inRange_of_finite finite
  have leading := inRange.isLeading num
  obtain ⟨least, most⟩ := inRange.decimalExponent_bounds num
  obtain ⟨count, d, found, eq⟩ := exists_shortest finite num
  obtain ⟨c, rfl, bits, low, high⟩ := exists_of_readsBack? found
  obtain ⟨atLeast, atMost⟩ := leading.scaled count
  obtain ⟨place, same⟩ : ∃ place, place = decimalExponent r - count := ⟨_, rfl⟩
  rw [← same] at bits low high eq atLeast atMost
  have scaledDen := Ratio.den_scale_pos (by norm_num : 0 < 10) (-place) inRange.den
  rw [Ratio.le_value_iff scaledDen] at atLeast
  rw [← not_le, Ratio.le_value_iff scaledDen] at atMost
  have positive : 0 < c := lt_of_lt_of_le (Nat.pos_of_ne_zero (by positivity)) (atLeast.trans low)
  have value : (Digits.ofCoefficient c place).trim.value = c * 10 ^ place := by
    rw [Digits.value_trim, Digits.value_ofCoefficient]
  obtain ⟨above, below⟩ := @coefficient_bounds c count place (by omega) (by omega)
    (atLeast.trans low) (by omega)
  rw [eq]
  refine ⟨Digits.trim_ne_nil Nat.toDigits_ne_nil,
    fun c member => isDigit_of_mem_decimal (Digits.mem_trim member), .inl ?_,
    fun _ => value ▸ above, value ▸ below, ?_⟩
  · rw [Digits.head?_trim]
    exact head?_decimal positive
  · intro s den sameValue
    rw [← bits]
    apply magnitudeBits_congr den (Ratio.den_scale_pos (by norm_num) _ Nat.one_pos)
    rw [sameValue, value, Ratio.value_scale (by norm_num), Ratio.value_ofNat, Nat.cast_ofNat]

omit num in
theorem isDigitsOf_shortest : IsDigitsOf r (shortest r) := by
  by_cases num : r.num = 0
  · have zero : (⟨['0'], 0⟩ : Digits).value = 0 := by
      rw [Digits.value, show digitsValue ['0'] = 0 from rfl, Nat.cast_zero, zero_mul]
    rw [shortest, if_pos num]
    refine ⟨by simp, by simp, .inr rfl, fun some => absurd zero some.ne', ?_, ?_⟩
    · rw [zero]
      positivity
    · intro s den value
      apply magnitudeBits_congr den (inRange_of_finite finite).den
      rw [value, zero, Ratio.value, num, Nat.cast_zero, zero_div]
  · exact isDigitsOf_shortest_of_ne finite num

end Shortest

end GaussianRadial.Number
