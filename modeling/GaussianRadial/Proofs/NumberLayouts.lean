import Mathlib
import GaussianRadial.Proofs.JsonTexts
import GaussianRadial.Proofs.ShortestDigits
import GaussianRadial.Report.ShortestNumbers

/-!
# Layouts of numbers

A positional or scientific layout of digits is a number that a reader takes apart into a whole part,
a fraction and an exponent, and its value is that of the digits. So the shortest numbers of a
document read back as the doubles they were written for: `lawful_shortestNumbers`.
-/

namespace GaussianRadial.Number
open Report (withFraction)
open Report.Json (isWhole isExponent isFraction isFractional takeMinus)

/-! ### Numbers by their parts -/

/-- A whole part, a fraction that may be empty, and an exponent or none. -/
structure Parts where
  whole : List Char
  fraction : List Char
  exponent : Option ℤ

namespace Parts

def pointText (fraction : List Char) : List Char := if fraction = [] then [] else '.' :: fraction

def markText (exponent : Option ℤ) : List Char := exponent.elim [] exponentText

def text (parts : Parts) : List Char :=
  parts.whole ++ (pointText parts.fraction ++ markText parts.exponent)

/-- The number is not written as a whole one. -/
structure IsFractional (parts : Parts) : Prop where
  whole : isWhole parts.whole = true
  digits : ∀ c ∈ parts.fraction, c.isDigit = true
  notWhole : parts.fraction ≠ [] ∨ parts.exponent.isSome = true

/-- The decimal with a given sign. -/
def toDecimal (parts : Parts) (negative : Bool) : Decimal :=
  ⟨negative, digitsValue (parts.whole ++ parts.fraction),
    parts.exponent.getD 0 - parts.fraction.length⟩

end Parts

/-! ### Reading the parts -/

theorem takeDigits_append {digits rest : List Char} (all : ∀ c ∈ digits, c.isDigit = true)
    (stops : ∀ c ∈ rest.head?, c.isDigit = false) :
    takeDigits (digits ++ rest) = (digits, rest) := by
  obtain ⟨taken, left⟩ := Report.Json.takeWhile_of_stop all stops
  rw [takeDigits, taken, left]

theorem digitsValue_padLeft (width : ℕ) (digits : List Char) :
    digitsValue (padLeft '0' width digits) = digitsValue digits := by
  rw [padLeft, digitsValue_append, digitsValue_zeros, zero_mul, zero_add]

/-- The sign of an exponent and its digits. -/
theorem takeSign_exponentText (exponent : ℤ) : ∃ digits, exponentText exponent = 'e' ::
      (if exponent < 0 then '-' else '+') :: digits ∧ digits ≠ [] ∧
      (∀ c ∈ digits, c.isDigit = true) ∧ digitsValue digits = exponent.natAbs ∧
      takeSign ((if exponent < 0 then '-' else '+') :: digits) =
        (decide (exponent < 0), digits) := by
  refine ⟨padLeft '0' 2 (decimal exponent.natAbs), rfl, ?_, ?_, ?_, ?_⟩
  · simp [padLeft, decimal, Nat.toDigits_ne_nil]
  · intro c member
    rw [padLeft, List.mem_append, List.mem_replicate] at member
    rcases member with ⟨-, rfl⟩ | digit
    · rfl
    · exact isDigit_of_mem_decimal digit
  · rw [digitsValue_padLeft, digitsValue_decimal]
  · split_ifs with negative <;> simp [takeSign, negative]

theorem readExponent_exponentText (exponent : ℤ) :
    readExponent (exponentText exponent) = some (exponent, []) := by
  obtain ⟨digits, text, filled, all, value, sign⟩ := takeSign_exponentText exponent
  have taken := @takeDigits_append _ [] all (by simp)
  rw [List.append_nil] at taken
  rw [text, readExponent, if_pos (.inl rfl), sign]
  dsimp only
  rw [taken]
  dsimp only
  rw [value, List.isEmpty_eq_false_iff.mpr filled]
  have magnitude :
      (if exponent < 0 then -(exponent.natAbs : ℤ) else exponent.natAbs) = exponent := by
    split_ifs <;> omega
  simpa using magnitude

theorem isExponent_exponentText (exponent : ℤ) : isExponent (exponentText exponent) = true := by
  obtain ⟨digits, text, filled, all, -, sign⟩ := takeSign_exponentText exponent
  rw [text, isExponent, sign]
  simpa [filled] using all

namespace Parts

theorem stops_markText (exponent : Option ℤ) :
    ∀ c ∈ (markText exponent).head?, c.isDigit = false := by
  cases exponent with
  | none => simp [markText]
  | some e => simp [markText, exponentText]

theorem stops_pointText (fraction : List Char) (exponent : Option ℤ) :
    ∀ c ∈ (pointText fraction ++ markText exponent).head?, c.isDigit = false := by
  unfold pointText
  split
  · exact stops_markText exponent
  · simp

theorem takeFraction_text {fraction : List Char} (digits : ∀ c ∈ fraction, c.isDigit = true)
    (exponent : Option ℤ) :
    takeFraction (pointText fraction ++ markText exponent) = (fraction, markText exponent) := by
  unfold pointText
  split
  · rename_i none
    rw [none, List.nil_append]
    cases exponent with
    | none => rfl
    | some e => exact Input.takeFraction_of_other (by decide) _
  · exact takeDigits_append digits (stops_markText exponent)

theorem readExponent_markText (exponent : Option ℤ) :
    readExponent (markText exponent) = some (exponent.getD 0, []) := by
  cases exponent with
  | none => rfl
  | some e => exact readExponent_exponentText e

variable {parts : Parts}

theorem isDigit_of_isWhole {s : List Char} (whole : isWhole s = true) :
    ∀ c ∈ s, c.isDigit = true := by
  cases s with
  | nil => simp
  | cons c s =>
    rw [isWhole, Bool.and_eq_true, List.all_eq_true] at whole
    exact whole.1

namespace IsFractional
variable (fractional : parts.IsFractional)
include fractional

theorem takeDigits_text : takeDigits parts.text =
    (parts.whole, pointText parts.fraction ++ markText parts.exponent) :=
  takeDigits_append (isDigit_of_isWhole fractional.whole) (stops_pointText _ _)

theorem readMagnitude_text (negative : Bool) :
    readMagnitude negative parts.text = some (parts.toDecimal negative, []) := by
  have filled : parts.whole.isEmpty = false := by
    apply Bool.eq_false_iff.mpr
    intro none
    have whole := fractional.whole
    rw [List.isEmpty_iff.mp none] at whole
    contradiction
  rw [readMagnitude, fractional.takeDigits_text]
  dsimp only
  rw [takeFraction_text fractional.digits]
  dsimp only
  rw [filled, Bool.false_and, if_neg Bool.false_ne_true, readExponent_markText]
  rfl

theorem isFraction_text :
    isFraction (pointText parts.fraction ++ markText parts.exponent) = true := by
  by_cases none : parts.fraction = []
  · have marked := fractional.notWhole.resolve_left (not_not_intro none)
    obtain ⟨e, exponent⟩ := Option.isSome_iff_exists.mp marked
    rw [pointText, if_pos none, exponent]
    exact isExponent_exponentText e
  · rw [pointText, if_neg none, List.cons_append, isFraction,
      takeDigits_append fractional.digits (stops_markText _)]
    cases exponent : parts.exponent with
    | none => simp [markText, none]
    | some e => simp [markText, none, isExponent_exponentText]

theorem exists_digit : ∃ c rest, parts.text = c :: rest ∧ c.isDigit = true := by
  have whole := fractional.whole
  have digits := isDigit_of_isWhole whole
  rw [text]
  cases run : parts.whole with
  | nil =>
    rw [run] at whole
    contradiction
  | cons c rest =>
    rw [run] at digits
    exact ⟨c, _, rfl, digits c List.mem_cons_self⟩

/-- A minus in front is taken as the sign, and there is no other sign. -/
theorem takeMinus_text (negative : Bool) :
    takeMinus ((if negative then ['-'] else []) ++ parts.text) = (negative, parts.text) ∧
      takeSign ((if negative then ['-'] else []) ++ parts.text) = (negative, parts.text) := by
  obtain ⟨c, rest, text, digit⟩ := fractional.exists_digit
  have notMinus : c ≠ '-' := by
    rintro rfl
    contradiction
  have notPlus : c ≠ '+' := by
    rintro rfl
    contradiction
  cases negative with
  | true => exact ⟨rfl, rfl⟩
  | false =>
    rw [if_neg Bool.false_ne_true, List.nil_append, text]
    refine ⟨?_, Input.takeSign_of_other notMinus notPlus rest⟩
    unfold takeMinus
    split
    · rename_i eq
      exact absurd (List.cons.inj eq).1 notMinus
    · rfl

theorem isFractional_text (negative : Bool) :
    isFractional ((if negative then ['-'] else []) ++ parts.text) = true := by
  unfold isFractional
  rw [(fractional.takeMinus_text negative).1]
  dsimp only
  rw [fractional.takeDigits_text]
  dsimp only
  rw [fractional.whole, fractional.isFraction_text, Bool.and_self]

end IsFractional

/-- The quotient that the parts stand for. -/
def value (parts : Parts) : ℚ :=
  digitsValue (parts.whole ++ parts.fraction) * 10 ^ (parts.exponent.getD 0 - parts.fraction.length)

end Parts

/-! ### Layouts -/

theorem withFraction_of_other {text : List Char} {c : Char} (member : c ∈ text)
    (other : c.isDigit = false) : withFraction text = text := by
  rw [withFraction, if_neg]
  intro all
  rw [List.all_eq_true] at all
  exact absurd (all c member) (by simp [other])

theorem isWhole_of_leading {digits : List Char} (filled : digits ≠ [])
    (all : ∀ c ∈ digits, c.isDigit = true) (leading : digits.head? ≠ some '0') :
    isWhole digits = true := by
  cases digits with
  | nil => contradiction
  | cons c rest =>
    have other : (c != '0') = true := by simpa using leading
    rw [isWhole, List.all_eq_true.mpr all, other, Bool.or_true, Bool.and_self]

section Layouts
variable {d : Digits} (filled : d.digits ≠ []) (all : ∀ c ∈ d.digits, c.isDigit = true)
include filled all

theorem exists_parts_scientific : ∃ parts : Parts, parts.IsFractional ∧
    withFraction d.scientific = parts.text ∧ parts.value = d.value := by
  cases run : d.digits with
  | nil => contradiction
  | cons first rest =>
    rw [run] at all
    obtain ⟨digit, digits⟩ := List.forall_mem_cons.mp all
    refine ⟨⟨[first], rest, some d.exponent⟩, ⟨by simp [isWhole, digit], digits, .inr rfl⟩, ?_, ?_⟩
    · have mark : 'e' ∈ d.scientific := by simp [Digits.scientific, exponentText]
      rw [withFraction_of_other mark rfl, Digits.scientific, run, Parts.text]
      cases rest with
      | nil => rfl
      | cons second rest => simp [withPoint, Parts.pointText, Parts.markText]
    · rw [Parts.value, Digits.value, run, List.length_cons]
      simp only [List.singleton_append, Option.getD_some]
      congr 2
      push_cast
      ring

variable {n : ℕ}

/-- Digits on both sides of the point. -/
theorem exists_parts_split (head : d.digits.head? ≠ some '0') (exponent : d.exponent = n)
    (long : n + 1 < d.digits.length) :
    ∃ parts : Parts, parts.IsFractional ∧ withFraction d.positional = parts.text ∧
      parts.value = d.value := by
  have whole : isWhole (d.digits.take (n + 1)) = true := by
    apply isWhole_of_leading (by simp [filled]) fun c member => all c (List.mem_of_mem_take member)
    rwa [List.head?_take, if_neg (Nat.succ_ne_zero n)]
  have text : d.positional = d.digits.take (n + 1) ++ '.' :: d.digits.drop (n + 1) := by
    rw [Digits.positional, exponent]
    dsimp only
    rw [Nat.sub_eq_zero_of_le long.le, List.replicate_zero, List.append_nil, withPoint,
      if_neg (by omega), Nat.sub_sub_self long.le]
  have after : d.digits.drop (n + 1) ≠ [] := by simpa using long
  refine ⟨⟨d.digits.take (n + 1), d.digits.drop (n + 1), none⟩, ⟨whole, ?_, .inl after⟩, ?_, ?_⟩
  · exact fun c member => all c (List.mem_of_mem_drop member)
  · have point : '.' ∈ d.positional := by simp [text]
    rw [withFraction_of_other point rfl, text, Parts.text, Parts.pointText, if_neg after]
    simp [Parts.markText]
  · rw [Parts.value, Digits.value, exponent]
    dsimp only
    rw [List.take_append_drop, List.length_drop, Option.getD_none]
    congr 2
    omega

/-- Digits after the point, and zeros between it and them. -/
theorem exists_parts_below (exponent : d.exponent = Int.negSucc n) :
    ∃ parts : Parts, parts.IsFractional ∧ withFraction d.positional = parts.text ∧
      parts.value = d.value := by
  refine ⟨⟨['0'], List.replicate n '0' ++ d.digits, none⟩, ⟨rfl, ?_, .inl ?_⟩, ?_, ?_⟩
  · refine List.forall_mem_append.mpr ⟨fun c member => ?_, all⟩
    rw [List.eq_of_mem_replicate member]
    rfl
  · simp [filled]
  · have text : d.positional = '0' :: '.' :: List.replicate n '0' ++ d.digits := by
      rw [Digits.positional, exponent]
    have point : '.' ∈ d.positional := by simp [text]
    rw [withFraction_of_other point rfl, text, Parts.text, Parts.pointText,
      if_neg (by simp [filled])]
    simp [Parts.markText]
  · have before :
        digitsValue (['0'] ++ (List.replicate n '0' ++ d.digits)) = digitsValue d.digits := by
      rw [digitsValue_append, digitsValue_append, digitsValue_zeros]
      simp [digitsValue, digitValue]
    rw [Parts.value, Digits.value, exponent, before]
    congr 2
    rw [List.length_append, List.length_replicate, Option.getD_none, Int.negSucc_eq]
    push_cast
    ring

variable (leading : d.digits.head? ≠ some '0' ∨ d = ⟨['0'], 0⟩)
include leading

/-- Digits that do not reach the point are filled up with zeros, and one more stands after it. -/
theorem exists_parts_filled (exponent : d.exponent = n) (short : d.digits.length ≤ n + 1) :
    ∃ parts : Parts, parts.IsFractional ∧ withFraction d.positional = parts.text ∧
      parts.value = d.value := by
  obtain ⟨k, length⟩ := Nat.exists_eq_add_of_le short
  have digits : ∀ c ∈ d.digits ++ List.replicate k '0', c.isDigit = true := by
    refine List.forall_mem_append.mpr ⟨all, fun c member => ?_⟩
    rw [List.eq_of_mem_replicate member]
    rfl
  have whole : isWhole (d.digits ++ List.replicate k '0') = true := by
    rcases leading with leading | rfl
    · apply isWhole_of_leading (by simp [filled]) digits
      rwa [List.head?_append_of_ne_nil _ filled]
    · obtain rfl : n = 0 := by simpa using exponent.symm
      obtain rfl : k = 0 := by simpa using length.symm
      rfl
  have text : d.positional = d.digits ++ List.replicate k '0' := by
    have places : (d.digits ++ List.replicate k '0').length - (n + 1) = 0 := by
      rw [List.length_append, List.length_replicate]
      omega
    rw [Digits.positional, exponent]
    dsimp only
    rw [show n + 1 - d.digits.length = k by omega, places, withPoint, if_pos rfl]
  refine ⟨⟨d.digits ++ List.replicate k '0', ['0'], none⟩, ⟨whole, by simp, .inl (by simp)⟩,
    ?_, ?_⟩
  · rw [text, withFraction, if_pos (List.all_eq_true.mpr digits)]
    rfl
  · have ten : (10 : ℚ) ≠ 0 := by norm_num
    have place : d.exponent + 1 - d.digits.length = k := by
      rw [exponent]
      omega
    rw [Parts.value, Digits.value, place]
    dsimp only
    rw [digitsValue_append, digitsValue_append, digitsValue_zeros, List.length_replicate,
      show digitsValue ['0'] = 0 from rfl]
    push_cast
    norm_num
    ring

theorem exists_parts_positional : ∃ parts : Parts, parts.IsFractional ∧
    withFraction d.positional = parts.text ∧ parts.value = d.value := by
  cases exponent : d.exponent with
  | ofNat n =>
    rcases Nat.lt_or_ge (n + 1) d.digits.length with long | short
    · have head : d.digits.head? ≠ some '0' := by
        refine leading.resolve_right ?_
        rintro rfl
        simp at long
      exact exists_parts_split filled all head exponent long
    · exact exists_parts_filled filled all leading exponent short
  | negSucc n => exact exists_parts_below filled all exponent

theorem exists_parts_layout (limit : ℤ) : ∃ parts : Parts, parts.IsFractional ∧
    withFraction (d.layout limit) = parts.text ∧ parts.value = d.value := by
  rw [Digits.layout]
  split
  · exact exists_parts_positional filled all leading
  · exact exists_parts_scientific filled all

end Layouts

/-! ### Reading a double back -/

section Doubles
variable {x : Float} {negative : Bool} {r : Ratio}

theorem length_decimal {n : ℕ} (positive : 0 < n) :
    10 ^ ((decimal n).length - 1) ≤ n ∧ n < 10 ^ (decimal n).length := by
  have some : 0 < (decimal n).length := Nat.length_toDigits_pos
  refine ⟨?_, (Nat.length_toDigits_le_iff (by norm_num) some).mp le_rfl⟩
  rcases Nat.eq_zero_or_pos ((decimal n).length - 1) with single | several
  · rwa [single, pow_zero]
  · rw [← not_lt]
    intro small
    have short := (Nat.length_toDigits_le_iff (b := 10) (by norm_num) several).mpr small
    rw [← decimal] at short
    omega

/-- The digits of a double are between the bounds beyond which a reader would not look at them. -/
theorem IsDigitsOf.place_bounds {d : Digits} (digits : IsDigitsOf r d) {coefficient : ℕ}
    {exponent : ℤ} (positive : 0 < coefficient)
    (value : coefficient * (10 : ℚ) ^ exponent = d.value) :
    -324 < (decimal coefficient).length + exponent ∧
      ((decimal coefficient).length - 1 : ℕ) + exponent ≤ 309 := by
  obtain ⟨least, most⟩ := length_decimal positive
  have unit : (0 : ℚ) < 10 ^ exponent := by positivity
  constructor
  · have below : d.value < 10 ^ ((decimal coefficient).length + exponent) := by
      rw [← value, ← natCast_pow_mul_zpow]
      apply mul_lt_mul_of_pos_right _ unit
      exact_mod_cast most
    have some : 0 < d.value := value ▸ mul_pos (Nat.cast_pos.mpr positive) unit
    exact (zpow_lt_zpow_iff_right₀ (by norm_num)).mp ((digits.low some).trans_lt below)
  · have above : 10 ^ (((decimal coefficient).length - 1 : ℕ) + exponent) ≤ d.value := by
      rw [← value, ← natCast_pow_mul_zpow]
      apply mul_le_mul_of_nonneg_right _ unit.le
      exact_mod_cast least
    exact (zpow_le_zpow_iff_right₀ (by norm_num)).mp (above.trans digits.high)

theorem IsDigitsOf.toFloat_eq {d : Digits} (digits : IsDigitsOf r d)
    (finite : Binary64.ofFloat x = .finite negative r) {coefficient : ℕ} {exponent : ℤ}
    (value : coefficient * (10 : ℚ) ^ exponent = d.value) :
    Decimal.toFloat ⟨negative, coefficient, exponent⟩ = x := by
  have nearest_eq {s : Ratio} (den : 0 < s.den) (same : s.value = d.value) :
      nearest negative s = x := nearest_of_magnitudeBits finite (digits.bits s den same)
  rcases Nat.eq_zero_or_pos coefficient with rfl | positive
  · rw [Decimal.toFloat]
    dsimp only
    rw [if_pos (.inl rfl)]
    apply nearest_eq Nat.one_pos
    rw [← value, Ratio.value_ofNat, Nat.cast_zero, zero_mul]
  · obtain ⟨low, high⟩ := digits.place_bounds positive value
    have some : 0 < (decimal coefficient).length := Nat.length_toDigits_pos
    rw [Decimal.toFloat]
    dsimp only
    rw [← decimal, if_neg (by omega), if_neg (by omega)]
    apply nearest_eq (Ratio.den_scale_pos (by norm_num) _ Nat.one_pos)
    rw [← value, Ratio.value_scale (by norm_num), Ratio.value_ofNat, Nat.cast_ofNat]

theorem readReal_parts {parts : Parts} (fractional : parts.IsFractional)
    (finite : Binary64.ofFloat x = .finite negative r)
    (digits : ∃ d, IsDigitsOf r d ∧ parts.value = d.value) :
    readReal ((if negative then ['-'] else []) ++ parts.text) = some (x, []) := by
  obtain ⟨d, digits, value⟩ := digits
  have read := digits.toFloat_eq finite value
  rw [readReal, (fractional.takeMinus_text negative).2]
  dsimp only
  rw [fractional.readMagnitude_text]
  dsimp only
  rw [Parts.toDecimal, read, if_pos (isFinite_iff.mpr ⟨_, _, finite⟩)]

end Doubles

end GaussianRadial.Number

namespace GaussianRadial.Report

open Number

theorem exists_parts_shortest {x : Float} (finite : x.isFinite = true) :
    ∃ (negative : Bool) (r : Ratio) (parts : Parts), Binary64.ofFloat x = .finite negative r ∧
      parts.IsFractional ∧ (∃ d, IsDigitsOf r d ∧ parts.value = d.value) ∧
      (JsonNumbers.text x).toList = (if negative then ['-'] else []) ++ parts.text := by
  obtain ⟨negative, r, eq⟩ := isFinite_iff.mp finite
  have digits := isDigitsOf_shortest eq
  obtain ⟨parts, fractional, text, value⟩ :=
    exists_parts_layout digits.filled digits.digits digits.leading 15
  refine ⟨negative, r, parts, eq, fractional, ⟨_, digits, value⟩, ?_⟩
  simp only [JsonNumbers.text, signed, eq, String.toList_ofList, text]

/-- The shortest numbers have a fraction or an exponent and read back. -/
instance lawful_shortestNumbers : LawfulJsonNumbers where
  fractional x finite := by
    obtain ⟨negative, r, parts, -, fractional, -, text⟩ := exists_parts_shortest finite
    rw [text]
    exact fractional.isFractional_text negative
  reads x finite := by
    obtain ⟨negative, r, parts, eq, fractional, digits, text⟩ := exists_parts_shortest finite
    rw [text]
    exact readReal_parts fractional eq digits

end GaussianRadial.Report
