import Mathlib
import GaussianRadial.Number.Text
import GaussianRadial.Proofs.NearestDoubles
import GaussianRadial.Proofs.PlainTokens

/-!
# Texts of numbers

The text of a number is one token. A finite double in scientific notation has a sign or none, one
digit before the point, as many after it as are asked for, and an exponent of two or three digits,
since a double has less than a thousand decimal places: `scientificText_cases`.
-/

namespace GaussianRadial.Number
open GaussianRadial.Input (isPlain isPlain_of_isDigit IsPlainToken)

/-! ### Magnitudes of doubles -/

/-- A positive magnitude between the least subnormal number and the end of the range. -/
structure InRange (r : Ratio) : Prop where
  den : 0 < r.den
  low : r.num ≠ 0 → (2 : ℚ) ^ (-1074 : ℤ) ≤ r.value
  high : r.value < 2 ^ (1024 : ℤ)

theorem inRange_scale {n : ℕ} {k : ℤ} (low : -1074 ≤ k) (high : k ≤ 971) (small : n < 2 ^ 53) :
    InRange ((Ratio.ofNat n).scale 2 k) := by
  have value : ((Ratio.ofNat n).scale 2 k).value = n * 2 ^ k := by
    rw [Ratio.value_scale (by norm_num), Ratio.value_ofNat, Nat.cast_ofNat]
  refine ⟨Ratio.den_scale_pos (by norm_num) k Nat.one_pos, fun num => ?_, ?_⟩
  · have positive : 1 ≤ n := by
      rw [Nat.one_le_iff_ne_zero]
      rintro rfl
      apply num
      cases k <;> simp [Ratio.scale, Ratio.ofNat]
    have one : (1 : ℚ) ≤ n := by exact_mod_cast positive
    rw [value]
    calc (2 : ℚ) ^ (-1074 : ℤ) ≤ 2 ^ k := zpow_le_zpow_right₀ (by norm_num) low
      _ ≤ n * 2 ^ k := le_mul_of_one_le_left (by positivity) one
  · have bound : (n : ℚ) < 2 ^ (53 : ℤ) := by exact_mod_cast small
    rw [value]
    calc (n : ℚ) * 2 ^ k < 2 ^ (53 : ℤ) * 2 ^ k := by gcongr
      _ = 2 ^ (53 + k) := (zpow_add₀ (by norm_num) _ _).symm
      _ ≤ 2 ^ (1024 : ℤ) := zpow_le_zpow_right₀ (by norm_num) (by omega)

theorem inRange_of_finite {x : Float} {negative : Bool} {r : Ratio}
    (finite : Binary64.ofFloat x = .finite negative r) : InRange r := by
  obtain ⟨place, m, significand, rfl, -⟩ := exists_significand finite
  exact inRange_scale significand.least significand.most significand.below

theorem InRange.binaryPlace_bounds {r : Ratio} (inRange : InRange r) (num : r.num ≠ 0) :
    -1100 ≤ binaryPlace r ∧ binaryPlace r ≤ 1100 := by
  obtain ⟨above, below⟩ := Number.binaryPlace_bounds num inRange.den
  have low := (inRange.low num).trans_lt below
  have high := above.trans inRange.high
  rw [zpow_lt_zpow_iff_right₀ (by norm_num)] at low high
  omega

theorem InRange.isLeading {r : Ratio} (inRange : InRange r) (num : r.num ≠ 0) :
    IsLeading r (decimalExponent r) :=
  decimalExponent_isLeading num inRange.den (inRange.binaryPlace_bounds num).1
    (inRange.binaryPlace_bounds num).2

/-- The decimal exponents of doubles have three digits at most. -/
theorem InRange.decimalExponent_bounds {r : Ratio} (inRange : InRange r) (num : r.num ≠ 0) :
    -324 ≤ decimalExponent r ∧ decimalExponent r ≤ 308 := by
  obtain ⟨le, lt⟩ := inRange.isLeading num
  have least : (10 : ℚ) ^ (-324 : ℤ) ≤ 2 ^ (-1074 : ℤ) := by
    rw [zpow_neg, zpow_neg]
    apply inv_anti₀ (by positivity)
    exact two_zpow_le (by norm_num) (by norm_num)
  have most : (2 : ℚ) ^ (1024 : ℤ) ≤ 10 ^ (309 : ℤ) := two_zpow_le (by norm_num) (by norm_num)
  have low := (least.trans (inRange.low num)).trans_lt lt
  have high := le.trans_lt (inRange.high.trans_le most)
  rw [zpow_lt_zpow_iff_right₀ (by norm_num)] at low high
  omega

/-! ### Scientific notation -/

/-- A sign or none, a digit, a point, digits, and an exponent of two or three digits. -/
inductive IsScientific (places : ℕ) : List Char → Prop
  | intro {sign fraction exponent : List Char} {leading mark : Char}
      (signed : sign = [] ∨ sign = ['-']) (digit : leading.isDigit = true)
      (digits : ∀ c ∈ fraction, c.isDigit = true) (length : fraction.length = places)
      (marked : mark = '+' ∨ mark = '-') (exponentDigits : ∀ c ∈ exponent, c.isDigit = true)
      (exponentLength : exponent.length = 2 ∨ exponent.length = 3) :
      IsScientific places (sign ++ (leading :: '.' :: fraction ++ 'e' :: mark :: exponent))

theorem IsScientific.length_le {places : ℕ} {text : List Char}
    (scientific : IsScientific places text) : text.length ≤ places + 8 := by
  obtain ⟨rfl | rfl, -, -, rfl, -, -, exponent⟩ := scientific <;> simp <;> omega

theorem exponentText_eq {exponent : ℤ} (low : -1000 < exponent) (high : exponent < 1000) :
    ∃ mark digits, exponentText exponent = 'e' :: mark :: digits ∧ (mark = '+' ∨ mark = '-') ∧
      (∀ c ∈ digits, c.isDigit = true) ∧ (digits.length = 2 ∨ digits.length = 3) := by
  have most : (decimal exponent.natAbs).length ≤ 3 :=
    (Nat.length_toDigits_le_iff (by norm_num) (by norm_num)).mpr (by omega)
  have least : 0 < (decimal exponent.natAbs).length := Nat.length_toDigits_pos
  refine ⟨_, _, rfl, ?_, ?_, ?_⟩
  · split <;> simp
  · intro c member
    rw [padLeft, List.mem_append, List.mem_replicate] at member
    rcases member with ⟨-, rfl⟩ | digit
    · decide
    · exact isDigit_of_mem_decimal digit
  · rw [padLeft, List.length_append, List.length_replicate]
    omega

theorem Digits.isScientific {d : Digits} {places : ℕ} (some : 1 ≤ places)
    (length : d.digits.length = places + 1) (digits : ∀ c ∈ d.digits, c.isDigit = true)
    (low : -1000 < d.exponent) (high : d.exponent < 1000) {sign : List Char}
    (signed : sign = [] ∨ sign = ['-']) : IsScientific places (sign ++ d.scientific) := by
  obtain ⟨mark, tail, text, marked, tailDigits, tailLength⟩ := exponentText_eq low high
  rw [Digits.scientific, length, text]
  cases run : d.digits with
  | nil => simp [run] at length
  | cons first rest =>
    rw [run, List.length_cons] at length
    obtain ⟨digit, others⟩ := List.forall_mem_cons.mp (run ▸ digits)
    have point : withPoint (places + 1 - 1) (first :: rest) = first :: '.' :: rest := by
      have leading : rest.length + 1 - places = 1 := by omega
      simp [withPoint, leading, show places ≠ 0 by omega]
    rw [point]
    exact .intro signed digit others (by omega) marked tailDigits tailLength

theorem isScientific_rounded {r : Ratio} (inRange : InRange r) {places : ℕ} (some : 1 ≤ places)
    {sign : List Char} (signed : sign = [] ∨ sign = ['-']) :
    IsScientific places (sign ++ (rounded places r).scientific) := by
  by_cases num : r.num = 0
  · rw [rounded, if_pos num]
    apply Digits.isScientific some _ _ _ _ signed <;> simp
  · obtain ⟨length, digits, exponent⟩ :=
      rounded_digits num inRange.den places (inRange.isLeading num)
    have bounds := inRange.decimalExponent_bounds num
    apply Digits.isScientific some length digits _ _ signed <;> omega

/-- A double is finite, infinite or not a number, and its text shows which. -/
theorem scientificText_cases {places : ℕ} (some : 1 ≤ places) (x : Float) :
    IsScientific places (scientificText places x).toList ∨
      scientificText places x ∈ ["inf", "-inf", "nan"] := by
  unfold scientificText signed
  dsimp only
  cases parts : Binary64.ofFloat x with
  | nan => simp
  | infinite negative => cases negative <;> simp
  | finite negative r =>
    left
    rw [String.toList_ofList]
    apply isScientific_rounded (inRange_of_finite parts) some
    cases negative <;> simp

/-! ### Characters -/

/-- The characters of the texts of numbers. -/
def isNumeral (c : Char) : Bool := c.isDigit || ['+', '-', '.', 'e', 'a', 'f', 'i', 'n'].contains c

theorem isPlain_of_isNumeral {c : Char} (numeral : isNumeral c = true) : isPlain c = true := by
  rw [isNumeral, Bool.or_eq_true] at numeral
  rcases numeral with digit | letter
  · exact isPlain_of_isDigit digit
  · simp only [List.contains_iff_mem, List.mem_cons, List.not_mem_nil, or_false] at letter
    rcases letter with rfl | rfl | rfl | rfl | rfl | rfl | rfl | rfl <;> decide

theorem isNumeral_of_isDigit {c : Char} (digit : c.isDigit = true) : isNumeral c = true := by
  rw [isNumeral, digit, Bool.true_or]

/-- A text of a magnitude has a character, and all of them are those of numbers. -/
structure IsNumeralText (text : List Char) : Prop where
  ne_nil : text ≠ []
  numerals : ∀ c ∈ text, isNumeral c = true

theorem IsNumeralText.isPlainToken {text : List Char} (numeral : IsNumeralText text) :
    IsPlainToken text :=
  ⟨numeral.ne_nil, fun c member => isPlain_of_isNumeral (numeral.numerals c member)⟩

theorem isNumeral_of_mem_withPoint {places : ℕ} {digits : List Char}
    (all : ∀ c ∈ digits, isNumeral c = true) :
    ∀ c ∈ withPoint places digits, isNumeral c = true := by
  intro c member
  unfold withPoint at member
  split at member
  · exact all c member
  · rcases List.mem_append.mp member with before | rest
    · exact all c (List.mem_of_mem_take before)
    · rcases List.mem_cons.mp rest with rfl | after
      · decide
      · exact all c (List.mem_of_mem_drop after)

theorem withPoint_ne_nil {digits : List Char} (filled : digits ≠ []) (places : ℕ) :
    withPoint places digits ≠ [] := by
  unfold withPoint
  split <;> simp [filled]

theorem isNumeral_of_mem_exponentText {exponent : ℤ} :
    ∀ c ∈ exponentText exponent, isNumeral c = true := by
  intro c member
  simp only [exponentText, padLeft, List.mem_cons, List.mem_append, List.mem_replicate] at member
  rcases member with rfl | rfl | ⟨-, rfl⟩ | digit
  · decide
  · split <;> decide
  · decide
  · exact isNumeral_of_isDigit (isDigit_of_mem_decimal digit)

namespace Digits
variable {d : Digits}

theorem isNumeralText_scientific (digits : ∀ c ∈ d.digits, isNumeral c = true) :
    IsNumeralText d.scientific := by
  refine ⟨by simp [scientific, exponentText], ?_⟩
  exact List.forall_mem_append.mpr
    ⟨isNumeral_of_mem_withPoint digits, isNumeral_of_mem_exponentText⟩

theorem isNumeralText_positional (filled : d.digits ≠ [])
    (digits : ∀ c ∈ d.digits, isNumeral c = true) : IsNumeralText d.positional := by
  have zeros (n : ℕ) : ∀ c ∈ List.replicate n '0', isNumeral c = true := by
    intro c member
    rw [List.eq_of_mem_replicate member]
    decide
  unfold positional
  split
  · refine ⟨withPoint_ne_nil (by simp [filled]) _, ?_⟩
    exact isNumeral_of_mem_withPoint (List.forall_mem_append.mpr ⟨digits, zeros _⟩)
  · refine ⟨by simp, ?_⟩
    simp only [List.cons_append, List.forall_mem_cons, List.forall_mem_append]
    exact ⟨by decide, by decide, zeros _, digits⟩

theorem isNumeralText_layout (filled : d.digits ≠ []) (digits : ∀ c ∈ d.digits, isNumeral c = true)
    (limit : ℤ) : IsNumeralText (d.layout limit) := by
  unfold layout
  split
  · exact isNumeralText_positional filled digits
  · exact isNumeralText_scientific digits

theorem trim_ne_nil (filled : d.digits ≠ []) : d.trim.digits ≠ [] := by
  unfold trim
  split <;> simp_all

theorem mem_trim {c : Char} (member : c ∈ d.trim.digits) : c ∈ d.digits := by
  unfold trim at member
  split at member
  · exact member
  · rename_i first rest eq
    rw [eq]
    rcases List.mem_cons.mp member with rfl | later
    · exact List.mem_cons_self
    · apply List.mem_cons_of_mem
      exact List.mem_reverse.mp ((List.dropWhile_suffix _).subset (List.mem_reverse.mp later))

end Digits

theorem rounded_ne_nil (count : ℕ) (r : Ratio) : (rounded count r).digits ≠ [] := by
  unfold rounded
  split
  · simp
  · simp [Digits.ofCoefficient, decimal, Nat.toDigits_ne_nil]

theorem isNumeral_of_mem_rounded {count : ℕ} {r : Ratio} :
    ∀ c ∈ (rounded count r).digits, isNumeral c = true := by
  intro c member
  unfold rounded at member
  split at member
  · rw [List.eq_of_mem_replicate member]
    decide
  · exact isNumeral_of_isDigit (isDigit_of_mem_decimal (List.mem_of_mem_take member))

theorem isNumeralText_signed {body : Ratio → List Char} (all : ∀ r, IsNumeralText (body r))
    (negativeNan : Bool) (x : Float) : IsNumeralText (signed negativeNan body x).toList := by
  have signs (negative : Bool) : ∀ c ∈ (if negative then ['-'] else []), isNumeral c = true := by
    cases negative <;> simp [isNumeral]
  unfold signed
  dsimp only
  split
  all_goals rw [String.toList_ofList]
  · refine ⟨by simp, List.forall_mem_append.mpr ⟨signs _, by simp [isNumeral]⟩⟩
  · refine ⟨by simp, List.forall_mem_append.mpr ⟨signs _, by simp [isNumeral]⟩⟩
  · rename_i r _
    refine ⟨by simp [(all r).ne_nil], List.forall_mem_append.mpr ⟨signs _, (all r).numerals⟩⟩

theorem isNumeralText_scientificText (places : ℕ) (x : Float) :
    IsNumeralText (scientificText places x).toList :=
  isNumeralText_signed (fun _ => Digits.isNumeralText_scientific isNumeral_of_mem_rounded) false x

theorem isNumeralText_fixed (places : ℕ) (r : Ratio) : IsNumeralText (fixed places r) := by
  refine ⟨withPoint_ne_nil (by simp [padLeft, decimal, Nat.toDigits_ne_nil]) places,
    isNumeral_of_mem_withPoint
      (List.forall_mem_append.mpr ⟨fun c member => ?_, fun c member => ?_⟩)⟩
  · rw [List.eq_of_mem_replicate member]
    decide
  · exact isNumeral_of_isDigit (isDigit_of_mem_decimal member)

theorem isNumeralText_generalText (x : Float) : IsNumeralText (generalText x).toList := by
  apply isNumeralText_signed
  intro r
  apply Digits.isNumeralText_layout (Digits.trim_ne_nil (rounded_ne_nil 5 r))
  intro c member
  exact isNumeral_of_mem_rounded c (Digits.mem_trim member)

end GaussianRadial.Number
