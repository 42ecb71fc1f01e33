import Mathlib
import GaussianRadial.Proofs.PlainTokens

/-!
# Numbers in lower case

Readers of numbers take the same number off a text and off the text in lower case, and leave the
same rest in lower case. The letters of a number are those of `e`, `inf` and `nan` and of the tag of
a `nan`, and none of them is told apart from its capital.
-/

namespace GaussianRadial.Input
open Number

/-- A text in lower case. -/
def folded (text : List Char) : List Char := text.map Char.toLower

theorem folded_folded (text : List Char) : folded (folded text) = folded text := by
  simp [folded]

theorem isDigit_toLower (c : Char) : c.toLower.isDigit = c.isDigit := by
  rw [Bool.eq_iff_iff, isDigit_iff, isDigit_iff, toNat_toLower]
  split <;> omega

theorem isMark_toLower (c : Char) :
    (c.toLower = 'e' ∨ c.toLower = 'E') ↔ (c = 'e' ∨ c = 'E') := by
  have code (d : Char) (n : Nat) (eq : d.toNat = n) (x : Char) : x = d ↔ x.toNat = n := by
    rw [← Char.toNat_inj, eq]
  simp only [code 'e' 101 rfl, code 'E' 69 rfl, toNat_toLower]
  split <;> omega

theorem takeDigits_folded (text : List Char) :
    takeDigits (folded text) = ((takeDigits text).1, folded (takeDigits text).2) := by
  have same : Char.isDigit ∘ Char.toLower = Char.isDigit := funext isDigit_toLower
  have digits : folded (text.takeWhile Char.isDigit) = text.takeWhile Char.isDigit := by
    refine (List.map_congr_left fun c member => ?_).trans (List.map_id _)
    have digit := isDigit_iff.mp (List.mem_takeWhile_imp member)
    have below : c.toNat < 65 := by omega
    exact (toLower_eq_iff below).mpr rfl
  rw [takeDigits, folded, List.takeWhile_map, List.dropWhile_map, same]
  exact Prod.ext digits rfl

theorem takeSign_folded (text : List Char) :
    takeSign (folded text) = ((takeSign text).1, folded (takeSign text).2) := by
  cases text with
  | nil => rfl
  | cons c text =>
    by_cases minus : c = '-'
    · subst minus
      rfl
    by_cases plus : c = '+'
    · subst plus
      rfl
    have lowMinus := mt (toLower_eq_iff (d := '-') (by decide)).mp minus
    have lowPlus := mt (toLower_eq_iff (d := '+') (by decide)).mp plus
    rw [takeSign_of_other minus plus]
    exact takeSign_of_other lowMinus lowPlus (folded text)

theorem takeFraction_folded (text : List Char) :
    takeFraction (folded text) = ((takeFraction text).1, folded (takeFraction text).2) := by
  cases text with
  | nil => rfl
  | cons c text =>
    by_cases point : c = '.'
    · subst point
      exact takeDigits_folded text
    rw [takeFraction_of_other point]
    exact takeFraction_of_other (mt (toLower_eq_iff (d := '.') (by decide)).mp point) (folded text)

theorem readExponent_folded (text : List Char) :
    readExponent (folded text) = (readExponent text).map fun r => (r.1, folded r.2) := by
  cases text with
  | nil => rfl
  | cons c text =>
    show readExponent (c.toLower :: folded text) = _
    rw [readExponent, readExponent]
    by_cases mark : c = 'e' ∨ c = 'E'
    · rw [if_pos mark, if_pos ((isMark_toLower c).mpr mark)]
      simp only [takeSign_folded, takeDigits_folded]
      split <;> rfl
    · rw [if_neg mark, if_neg (mt (isMark_toLower c).mp mark)]
      rfl

theorem readMagnitude_folded (negative : Bool) (text : List Char) :
    readMagnitude negative (folded text) =
      (readMagnitude negative text).map fun r => (r.1, folded r.2) := by
  simp only [readMagnitude, takeDigits_folded, takeFraction_folded, readExponent_folded]
  split
  · rfl
  · simp only [Option.map_map]
    rfl

theorem readReal_folded (text : List Char) :
    Number.readReal (folded text) = (Number.readReal text).map fun r => (r.1, folded r.2) := by
  simp only [Number.readReal, takeSign_folded, readMagnitude_folded]
  cases readMagnitude (takeSign text).1 (takeSign text).2 with
  | none => rfl
  | some read =>
    dsimp only [Option.map_some]
    split <;> rfl

theorem readInteger_folded (low high : Int) (text : List Char) :
    readInteger low high (folded text) =
      (readInteger low high text).map fun r => (r.1, folded r.2) := by
  simp only [readInteger, takeSign_folded, takeDigits_folded]
  generalize takeDigits (takeSign text).2 = read
  generalize (if (takeSign text).1 then -(digitsValue read.1 : Int) else digitsValue read.1) = value
  split <;> rfl

theorem unsignedNumber?_folded (negative : Bool) (body : List Char) :
    unsignedNumber? negative (folded body) = unsignedNumber? negative body := by
  have lower : (folded body).map Char.toLower = body.map Char.toLower := folded_folded body
  simp only [unsignedNumber?, lower, readMagnitude_folded]
  cases readMagnitude negative body with
  | none => rfl
  | some read =>
    obtain ⟨d, rest⟩ := read
    cases rest <;> rfl

theorem wholeNumber?_folded (text : List Char) :
    wholeNumber? (folded text) = wholeNumber? text := by
  cases text with
  | nil => rfl
  | cons c body =>
    by_cases minus : c = '-'
    · subst minus
      show wholeNumber? ('-' :: folded body) = _
      rw [wholeNumber?_minus, wholeNumber?_minus, unsignedNumber?_folded]
    · have lower := mt (toLower_eq_iff (d := '-') (by decide)).mp minus
      have head : (c :: body).head? ≠ some '-' := by simpa using minus
      have lowHead : (folded (c :: body)).head? ≠ some '-' := by simpa [folded] using lower
      rw [wholeNumber?_of_head head, wholeNumber?_of_head lowHead, unsignedNumber?_folded]

end GaussianRadial.Input
