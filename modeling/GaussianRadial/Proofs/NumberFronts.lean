import Mathlib
import GaussianRadial.Proofs.PlainTokens

/-!
# Numbers at the front of a text

What a reader of numbers leaves does not matter for what it takes: the number that it takes stands
at the front of the text, and alone it is read the same. A text that is one number from end to end
is taken as a whole by a reader of doubles, and a reader of whole numbers leaves nothing of it, a
fraction or an exponent.
-/

namespace GaussianRadial.Input
open Number

/-! ### What is left -/

theorem Takes.length_le {text rest : List Char} (takes : Takes text rest) :
    rest.length ≤ text.length := by
  obtain ⟨front, rfl, -⟩ := takes
  simp

theorem Takes.exists_append {text rest cut : List Char} (takes : Takes text (rest ++ cut)) :
    ∃ middle, text = middle ++ cut := by
  obtain ⟨front, rfl, -⟩ := takes
  exact ⟨front ++ rest, (List.append_assoc ..).symm⟩

/-- A reader that takes something does not stop in front of what it started with. -/
theorem Takes.not_before {c : Char} {text rest : List Char}
    (takes : Takes text (rest ++ c :: text)) : False := by
  have length := takes.length_le
  simp only [List.length_append, List.length_cons] at length
  omega

section Fronts
variable {text rest cut : List Char}

theorem takeDigits_of_append {digits : List Char}
    (read : takeDigits (text ++ cut) = (digits, rest ++ cut)) :
    takeDigits text = (digits, rest) := by
  obtain ⟨taken, left⟩ := Prod.mk.inj read
  have whole : digits ++ rest = text := by
    apply (List.append_left_inj cut).mp
    rw [List.append_assoc, ← taken, ← left, List.takeWhile_append_dropWhile]
  have allDigits : ∀ c ∈ digits, c.isDigit = true := by
    intro c member
    rw [← taken] at member
    exact List.mem_takeWhile_imp member
  -- If anything is left after the cut, it still starts with what stopped the digits.
  have stops : rest.takeWhile Char.isDigit = [] ∧ rest.dropWhile Char.isDigit = rest := by
    cases rest with
    | nil => exact ⟨rfl, rfl⟩
    | cons c rest =>
      have other := List.head?_dropWhile_not Char.isDigit (text ++ cut)
      rw [left] at other
      have notDigit : c.isDigit = false := by simpa using other
      simp [notDigit]
  rw [takeDigits, ← whole, List.takeWhile_append_of_pos allDigits,
    List.dropWhile_append_of_pos allDigits, stops.1, stops.2, List.append_nil]

theorem takeSign_of_append {negative : Bool}
    (read : takeSign (text ++ cut) = (negative, rest ++ cut)) :
    takeSign text = (negative, rest) := by
  cases text with
  | nil =>
    -- A sign that is cut off cannot have been taken: nothing would be left to cut off.
    rw [List.nil_append] at read
    unfold takeSign at read
    split at read
    · exact (Takes.not_before ⟨[], (Prod.mk.inj read).2, by simp⟩).elim
    · exact (Takes.not_before ⟨[], (Prod.mk.inj read).2, by simp⟩).elim
    · obtain ⟨rfl, left⟩ := Prod.mk.inj read
      obtain rfl := List.self_eq_append_left.mp left
      rfl
  | cons c text =>
    rw [List.cons_append] at read
    by_cases minus : c = '-'
    · subst minus
      obtain ⟨rfl, left⟩ := Prod.mk.inj read
      exact Prod.ext rfl ((List.append_left_inj cut).mp left)
    by_cases plus : c = '+'
    · subst plus
      obtain ⟨rfl, left⟩ := Prod.mk.inj read
      exact Prod.ext rfl ((List.append_left_inj cut).mp left)
    rw [takeSign_of_other minus plus] at read ⊢
    obtain ⟨rfl, left⟩ := Prod.mk.inj read
    exact Prod.ext rfl ((List.append_left_inj cut).mp left)

theorem takeFraction_of_append {fraction : List Char}
    (read : takeFraction (text ++ cut) = (fraction, rest ++ cut)) :
    takeFraction text = (fraction, rest) := by
  cases text with
  | nil =>
    rw [List.nil_append] at read
    unfold takeFraction at read
    split at read
    · rename_i after
      have takes := takes_digits after
      rw [read] at takes
      exact takes.not_before.elim
    · obtain ⟨rfl, left⟩ := Prod.mk.inj read
      obtain rfl := List.self_eq_append_left.mp left
      rfl
  | cons c text =>
    rw [List.cons_append] at read
    by_cases point : c = '.'
    · subst point
      exact takeDigits_of_append read
    · rw [takeFraction_of_other point] at read ⊢
      obtain ⟨rfl, left⟩ := Prod.mk.inj read
      exact Prod.ext rfl ((List.append_left_inj cut).mp left)

theorem signedDigits_of_append {negative : Bool} {middle digits : List Char}
    (sign : takeSign (text ++ cut) = (negative, middle))
    (read : takeDigits middle = (digits, rest ++ cut)) :
    ∃ left, takeSign text = (negative, left) ∧ takeDigits left = (digits, rest) := by
  have takes := takes_digits middle
  rw [read] at takes
  obtain ⟨left, rfl⟩ := takes.exists_append
  exact ⟨left, takeSign_of_append sign, takeDigits_of_append read⟩

theorem readExponent_of_append {exponent : Int}
    (read : readExponent (text ++ cut) = some (exponent, rest ++ cut)) :
    readExponent text = some (exponent, rest) := by
  cases text with
  | nil =>
    rw [List.nil_append] at read
    cases cut with
    | nil => simpa using read
    | cons c after =>
      rw [readExponent] at read
      split at read
      · rw [Option.ite_none_left_eq_some] at read
        have left := (Prod.mk.inj (Option.some.inj read.2)).2
        have takes := (takes_sign after).trans (takes_digits _)
        rw [left] at takes
        exact takes.not_before.elim
      · obtain ⟨rfl, left⟩ := Prod.mk.inj (Option.some.inj read)
        obtain rfl := List.self_eq_append_left.mp left
        rfl
  | cons c text =>
    rw [List.cons_append, readExponent] at read
    rw [readExponent]
    split at read
    · rename_i mark
      rw [if_pos mark]
      cases sign : takeSign (text ++ cut) with
      | mk negative middle =>
        cases digits : takeDigits middle with
        | mk taken after =>
          rw [sign] at read
          dsimp only at read
          rw [digits, Option.ite_none_left_eq_some] at read
          obtain ⟨filled, eq⟩ := read
          obtain ⟨rfl, rfl⟩ := Prod.mk.inj (Option.some.inj eq)
          obtain ⟨left, sign, digits⟩ := signedDigits_of_append sign digits
          rw [sign]
          dsimp only
          rw [digits, if_neg filled]
    · rename_i mark
      rw [if_neg mark]
      obtain ⟨rfl, left⟩ := Prod.mk.inj (Option.some.inj read)
      have whole : c :: text = rest := (List.append_left_inj cut).mp left
      rw [whole]

theorem readMagnitude_of_append {negative : Bool} {d : Decimal}
    (read : readMagnitude negative (text ++ cut) = some (d, rest ++ cut)) :
    readMagnitude negative text = some (d, rest) := by
  cases whole : takeDigits (text ++ cut) with
  | mk digits afterDigits =>
    cases fraction : takeFraction afterDigits with
    | mk decimals afterFraction =>
      rw [readMagnitude, whole] at read
      dsimp only at read
      rw [fraction, Option.ite_none_left_eq_some] at read
      obtain ⟨filled, read⟩ := read
      obtain ⟨⟨exponent, left⟩, found, eq⟩ := Option.map_eq_some_iff.mp read
      obtain ⟨rfl, rfl⟩ := Prod.mk.inj eq
      -- What each step leaves ends with what is cut off, so each step can be cut.
      obtain ⟨middle, rfl⟩ := (takes_exponent found).exists_append
      have takes := takes_fraction afterDigits
      rw [fraction] at takes
      obtain ⟨front, rfl⟩ := takes.exists_append
      rw [readMagnitude, takeDigits_of_append whole]
      dsimp only
      rw [takeFraction_of_append fraction]
      dsimp only
      rw [if_neg filled, readExponent_of_append found]
      rfl

theorem readReal_of_append {x : Float}
    (read : Number.readReal (text ++ cut) = some (x, rest ++ cut)) :
    Number.readReal text = some (x, rest) := by
  cases sign : takeSign (text ++ cut) with
  | mk negative middle =>
    rw [Number.readReal, sign] at read
    dsimp only at read
    cases found : readMagnitude negative middle with
    | none =>
      rw [found] at read
      contradiction
    | some magnitude =>
      obtain ⟨d, left⟩ := magnitude
      rw [found] at read
      dsimp only at read
      rw [Option.ite_none_right_eq_some] at read
      obtain ⟨finite, eq⟩ := read
      obtain ⟨rfl, rfl⟩ := Prod.mk.inj (Option.some.inj eq)
      obtain ⟨front, rfl⟩ := (takes_magnitude found).exists_append
      rw [Number.readReal, takeSign_of_append sign]
      dsimp only
      rw [readMagnitude_of_append found]
      dsimp only
      rw [if_pos finite]

theorem readInteger_of_append {low high n : Int}
    (read : readInteger low high (text ++ cut) = some (n, rest ++ cut)) :
    readInteger low high text = some (n, rest) := by
  cases sign : takeSign (text ++ cut) with
  | mk negative middle =>
    cases digits : takeDigits middle with
    | mk taken after =>
      rw [readInteger, sign] at read
      dsimp only at read
      rw [digits, Option.ite_none_left_eq_some] at read
      obtain ⟨inRange, eq⟩ := read
      obtain ⟨rfl, rfl⟩ := Prod.mk.inj (Option.some.inj eq)
      obtain ⟨left, sign, digits⟩ := signedDigits_of_append sign digits
      rw [readInteger, sign]
      dsimp only
      rw [digits, if_neg inRange]

end Fronts

/-- What a reader takes stands at the front of the text and is read the same alone. -/
theorem exists_front {β : Type} {read : List Char → Option (β × List Char)}
    (takes : ∀ {text rest x}, read text = some (x, rest) → Takes text rest)
    (of_append : ∀ {text rest cut x}, read (text ++ cut) = some (x, rest ++ cut) →
      read text = some (x, rest))
    {text rest : List Char} {x : β} (found : read text = some (x, rest)) :
    ∃ front, text = front ++ rest ∧ read front = some (x, []) := by
  obtain ⟨front, rfl, -⟩ := takes found
  exact ⟨front, rfl, of_append found⟩

/-! ### Whole numbers -/

/-- The text is a number from end to end, whatever its size, or a name of infinity or `nan`. -/
def isNumber (text : List Char) : Bool :=
  let (negative, body) := takeSign text
  (readMagnitude negative body).any (·.2.isEmpty)
    || isInfinity (body.map Char.toLower) || isNan (body.map Char.toLower)

section Whole
variable {text rest : List Char}

theorem isNumber_of_magnitude {negative : Bool} {body : List Char} {d : Decimal}
    (sign : takeSign text = (negative, body)) (read : readMagnitude negative body = some (d, [])) :
    isNumber text = true := by
  rw [isNumber, sign]
  dsimp only
  rw [read]
  rfl

theorem isNumber_real {x : Float} (read : Number.readReal text = some (x, [])) :
    isNumber text = true := by
  cases sign : takeSign text with
  | mk negative body =>
    rw [Number.readReal, sign] at read
    dsimp only at read
    cases found : readMagnitude negative body with
    | none =>
      rw [found] at read
      contradiction
    | some magnitude =>
      obtain ⟨d, left⟩ := magnitude
      rw [found] at read
      dsimp only at read
      rw [Option.ite_none_right_eq_some] at read
      obtain ⟨-, rfl⟩ := Prod.mk.inj (Option.some.inj read.2)
      exact isNumber_of_magnitude sign found

theorem isNumber_integer {low high n : Int} (read : readInteger low high text = some (n, [])) :
    isNumber text = true := by
  cases sign : takeSign text with
  | mk negative body =>
    cases digits : takeDigits body with
    | mk taken left =>
      rw [readInteger, sign] at read
      dsimp only at read
      rw [digits, Option.ite_none_left_eq_some, not_or] at read
      obtain ⟨⟨filled, -⟩, eq⟩ := read
      obtain ⟨-, rfl⟩ := Prod.mk.inj (Option.some.inj eq)
      refine isNumber_of_magnitude sign (d := ⟨negative, digitsValue (taken ++ []), 0⟩) ?_
      have nonempty : taken.isEmpty = false := by simpa using filled
      rw [readMagnitude, digits]
      simp [takeFraction, readExponent, nonempty]

theorem isNumber_wholeNumber {x : Float} (read : wholeNumber? text = some x) :
    isNumber text = true := by
  have of_unsigned {negative : Bool} {body : List Char} (sign : takeSign text = (negative, body))
      (read : unsignedNumber? negative body = some x) : isNumber text = true := by
    rw [isNumber, sign]
    unfold unsignedNumber? at read
    dsimp only at read ⊢
    split at read
    · rename_i infinity
      rw [infinity, Bool.or_true, Bool.true_or]
    · split at read
      · rename_i nan
        rw [nan, Bool.or_true]
      · split at read
        · rename_i found
          rw [found]
          rfl
        · contradiction
  cases text with
  | nil => contradiction
  | cons c body =>
    by_cases minus : c = '-'
    · subst minus
      exact of_unsigned rfl read
    rw [wholeNumber?_of_head (by simpa using minus)] at read
    by_cases plus : c = '+'
    · -- Such a number has no plus in front.
      subst plus
      have lower : ('+' :: body).map Char.toLower = '+' :: body.map Char.toLower := rfl
      have unread : readMagnitude false ('+' :: body) = none :=
        readMagnitude_of_letter rfl (by decide) body
      rw [unsignedNumber?_of_other lower (by decide) (by decide) unread] at read
      contradiction
    · exact of_unsigned (takeSign_of_other minus plus body) read

/-- A number is digits with a point and an exponent, or starts with a letter. -/
theorem isNumber_cases (number : isNumber text = true) :
    (∃ d, readMagnitude (takeSign text).1 (takeSign text).2 = some (d, [])) ∨
      readMagnitude (takeSign text).1 (takeSign text).2 = none ∧
        (takeDigits (takeSign text).2).1 = [] := by
  have of_word {letter : Char} {tail : List Char} (above : 97 ≤ letter.toNat)
      (eq : (takeSign text).2.map Char.toLower = letter :: tail) :
      readMagnitude (takeSign text).1 (takeSign text).2 = none ∧
        (takeDigits (takeSign text).2).1 = [] := by
    obtain ⟨c, body, same, lower, -⟩ := List.map_eq_cons_iff.mp eq
    rw [same]
    exact ⟨readMagnitude_of_word lower above body,
      congrArg Prod.fst (takeDigits_of_letter (isDigit_of_word lower above) body)⟩
  rw [isNumber] at number
  dsimp only at number
  simp only [Bool.or_eq_true] at number
  rcases number with (whole | infinity) | nan
  · obtain ⟨⟨d, left⟩, found, ends⟩ := (Option.any_eq_true _ _).mp whole
    obtain rfl : left = [] := by simpa using ends
    exact .inl ⟨d, found⟩
  · rw [isInfinity, Bool.or_eq_true, beq_iff_eq, beq_iff_eq] at infinity
    rcases infinity with eq | eq
    · exact .inr (of_word (by decide) eq)
    · exact .inr (of_word (by decide) eq)
  · unfold isNan at nan
    split at nan
    · rename_i eq
      exact .inr (of_word (by decide) eq)
    · rename_i eq
      exact .inr (of_word (by decide) eq)
    · contradiction

theorem readReal_whole {x : Float} (number : isNumber text = true)
    (read : Number.readReal text = some (x, rest)) : rest = [] := by
  rw [Number.readReal] at read
  dsimp only at read
  rcases isNumber_cases number with ⟨d, whole⟩ | ⟨unread, -⟩
  · rw [whole] at read
    dsimp only at read
    rw [Option.ite_none_right_eq_some] at read
    exact (Prod.mk.inj (Option.some.inj read.2)).2.symm
  · rw [unread] at read
    contradiction

theorem unread_of_word {c letter : Char} (lower : c.toLower = letter) (above : 97 ≤ letter.toNat)
    (body : List Char) : Number.readReal (c :: body) = none ∧
      ∀ low high, readInteger low high (c :: body) = none := by
  have code := toNat_of_letter lower above
  have other {d : Char} (below : d.toNat < 65) : c ≠ d := by
    rintro rfl
    omega
  have sign := takeSign_of_other (other (d := '-') (by decide)) (other (d := '+') (by decide)) body
  constructor
  · rw [Number.readReal, sign]
    dsimp only
    rw [readMagnitude_of_word lower above]
  · intro low high
    rw [readInteger, sign]
    dsimp only
    rw [takeDigits_of_letter (isDigit_of_word lower above)]
    rfl

/-- What a reader of whole numbers leaves of a number: a fraction or an exponent. -/
def IsTail (text : List Char) : Prop := ∃ c ∈ ['.', 'e', 'E'], text.head? = some c

theorem readInteger_whole {low high n : Int} (number : isNumber text = true)
    (read : readInteger low high text = some (n, rest)) : rest = [] ∨ IsTail rest := by
  rw [readInteger] at read
  dsimp only at read
  rw [Option.ite_none_left_eq_some, not_or] at read
  obtain ⟨⟨filled, -⟩, eq⟩ := read
  obtain ⟨-, rfl⟩ := Prod.mk.inj (Option.some.inj eq)
  rcases isNumber_cases number with ⟨d, whole⟩ | ⟨-, nothing⟩
  · rw [readMagnitude] at whole
    dsimp only at whole
    rw [Option.ite_none_left_eq_some] at whole
    obtain ⟨⟨exponent, left⟩, found, eq⟩ := Option.map_eq_some_iff.mp whole.2
    obtain ⟨-, rfl⟩ := Prod.mk.inj eq
    generalize (takeDigits (takeSign text).2).2 = after at found
    cases after with
    | nil => exact .inl rfl
    | cons c after =>
      by_cases point : c = '.'
      · exact .inr ⟨c, by simp [point], rfl⟩
      by_cases mark : c = 'e' ∨ c = 'E'
      · exact .inr ⟨c, by simp [mark], rfl⟩
      rw [takeFraction_of_other point] at found
      dsimp only at found
      rw [readExponent, if_neg mark] at found
      have left := (Prod.mk.inj (Option.some.inj found)).2
      contradiction
  · rw [nothing] at filled
    contradiction

theorem readInteger_tail {low high : Int} (tail : IsTail text) :
    readInteger low high text = none := by
  obtain ⟨c, member, first⟩ := tail
  obtain ⟨body, rfl⟩ := List.head?_eq_some_iff.mp first
  have none {c : Char} (notMinus : c ≠ '-') (notPlus : c ≠ '+') (digit : c.isDigit = false) :
      readInteger low high (c :: body) = none := by
    rw [readInteger, takeSign_of_other notMinus notPlus]
    simp [takeDigits, digit]
  simp only [List.mem_cons, List.not_mem_nil, or_false] at member
  rcases member with rfl | rfl | rfl
  · exact none (by decide) (by decide) rfl
  · exact none (by decide) (by decide) rfl
  · exact none (by decide) (by decide) rfl

end Whole

end GaussianRadial.Input
