import Mathlib
import GaussianRadial.Input.Token
import GaussianRadial.Proofs.Layout

/-!
# Plain tokens

Keywords and texts of numbers hold no blank, no `#` and no `$`. So they are tokens, none of them
starts a comment, and none marks a section. Reading a number takes only such characters off the
front of a text: `Takes`. A keyword of the grid section is not a number: `wholeNumber?_of_word`.
-/

namespace GaussianRadial.Input
open Number

/-- A character that neither ends a token nor starts a comment or a mark. -/
def isPlain (c : Char) : Bool := !isBlank c && c != '#' && c != '$'

theorem isPlain_iff {c : Char} : isPlain c = true ↔
    c.toNat ≠ 32 ∧ (c.toNat < 9 ∨ 13 < c.toNat) ∧ c.toNat ≠ 35 ∧ c.toNat ≠ 36 := by
  have code (d : Char) : c = d ↔ c.toNat = d.toNat := Char.toNat_inj.symm
  simp [isPlain, isBlank, code]
  omega

theorem toNat_toLower (c : Char) :
    c.toLower.toNat = if 65 ≤ c.toNat ∧ c.toNat ≤ 90 then c.toNat + 32 else c.toNat := by
  simp only [Char.toLower, Char.toNat, UInt32.le_iff_toNat_le, ge_iff_le]
  split
  · rename_i upper
    change 65 ≤ c.val.toNat ∧ c.val.toNat ≤ 90 at upper
    have distance : ('a'.val - 'A'.val).toNat = 32 := rfl
    rw [if_pos upper, UInt32.toNat_add, distance]
    omega
  · rename_i notUpper
    exact (if_neg notUpper).symm

/-- Only letters have another case. -/
theorem toLower_eq_iff {c d : Char} (below : d.toNat < 65) : c.toLower = d ↔ c = d := by
  rw [← Char.toNat_inj, ← Char.toNat_inj, toNat_toLower]
  split <;> omega

theorem isPlain_toLower (c : Char) : isPlain c.toLower = isPlain c := by
  rw [Bool.eq_iff_iff, isPlain_iff, isPlain_iff, toNat_toLower]
  split <;> omega

theorem isDigit_iff {c : Char} : c.isDigit = true ↔ 48 ≤ c.toNat ∧ c.toNat ≤ 57 := by
  simp [Char.isDigit, UInt32.le_iff_toNat_le]

theorem isPlain_of_isDigit {c : Char} (digit : c.isDigit = true) : isPlain c = true := by
  rw [isDigit_iff] at digit
  rw [isPlain_iff]
  omega

theorem isPlain_of_isTagChar {c : Char} (tag : isTagChar c = true) : isPlain c = true := by
  rw [isTagChar, Bool.or_eq_true] at tag
  rcases tag with alphanumeric | underscore
  · rw [isPlain_iff]
    simp [Char.isAlphanum, Char.isAlpha, Char.isUpper, Char.isLower, Char.isDigit,
      UInt32.le_iff_toNat_le] at alphanumeric
    omega
  · rw [eq_of_beq underscore]
    decide

/-- A token of plain characters. -/
structure IsPlainToken (token : Token) : Prop where
  ne_nil : token ≠ []
  plain : ∀ c ∈ token, isPlain c = true

theorem IsPlainToken.isToken {token : Token} (plain : IsPlainToken token) : IsToken token := by
  refine ⟨plain.ne_nil, fun c member => ?_, fun first => ?_⟩
  · have here := plain.plain c member
    simp only [isPlain, Bool.and_eq_true, Bool.not_eq_true'] at here
    exact here.1.1
  · exact absurd (plain.plain '#' (List.mem_of_mem_head? first)) (by decide)

/-! ### Readers of numbers -/

/-- The front of a text has been taken, and all of it is plain. -/
def Takes (text rest : List Char) : Prop :=
  ∃ front, text = front ++ rest ∧ ∀ c ∈ front, isPlain c = true

namespace Takes
variable {text middle rest : List Char}

theorem refl (text : List Char) : Takes text text := ⟨[], rfl, fun _ member => nomatch member⟩

theorem cons {c : Char} (plain : isPlain c = true) (takes : Takes text rest) :
    Takes (c :: text) rest := by
  obtain ⟨front, rfl, all⟩ := takes
  exact ⟨c :: front, rfl, List.forall_mem_cons.mpr ⟨plain, all⟩⟩

theorem trans (first : Takes text middle) (second : Takes middle rest) : Takes text rest := by
  obtain ⟨front, rfl, plain⟩ := first
  obtain ⟨front', rfl, plain'⟩ := second
  exact ⟨front ++ front', (List.append_assoc ..).symm,
    List.forall_mem_append.mpr ⟨plain, plain'⟩⟩

theorem all (takes : Takes text []) : ∀ c ∈ text, isPlain c = true := by
  obtain ⟨front, rfl, plain⟩ := takes
  rwa [List.append_nil]

end Takes

theorem takeSign_of_other {c : Char} (notMinus : c ≠ '-') (notPlus : c ≠ '+') (text : List Char) :
    takeSign (c :: text) = (false, c :: text) := by
  unfold takeSign
  split
  · rename_i eq
    exact absurd (List.cons.inj eq).1 notMinus
  · rename_i eq
    exact absurd (List.cons.inj eq).1 notPlus
  · rfl

theorem takeFraction_of_other {c : Char} (notPoint : c ≠ '.') (text : List Char) :
    takeFraction (c :: text) = ([], c :: text) := by
  unfold takeFraction
  split
  · rename_i eq
    exact absurd (List.cons.inj eq).1 notPoint
  · rfl

theorem takes_digits (text : List Char) : Takes text (takeDigits text).2 :=
  ⟨text.takeWhile Char.isDigit, List.takeWhile_append_dropWhile.symm,
    fun _ member => isPlain_of_isDigit (List.mem_takeWhile_imp member)⟩

theorem takes_sign (text : List Char) : Takes text (takeSign text).2 := by
  unfold takeSign
  split
  · exact (Takes.refl _).cons (by decide)
  · exact (Takes.refl _).cons (by decide)
  · exact Takes.refl _

theorem takes_fraction (text : List Char) : Takes text (takeFraction text).2 := by
  unfold takeFraction
  split
  · exact (takes_digits _).cons (by decide)
  · exact Takes.refl _

theorem takes_exponent {text rest : List Char} {exponent : Int}
    (read : readExponent text = some (exponent, rest)) : Takes text rest := by
  unfold readExponent at read
  split at read
  · cases read
    exact Takes.refl _
  · rename_i c after
    split at read
    · rename_i mark
      dsimp only at read
      split at read
      · exact nomatch read
      · obtain ⟨-, rfl⟩ := Prod.mk.inj (Option.some.inj read)
        have plain : isPlain c = true := by rcases mark with rfl | rfl <;> decide
        exact ((takes_sign after).trans (takes_digits _)).cons plain
    · cases read
      exact Takes.refl _

theorem takes_magnitude {negative : Bool} {text rest : List Char} {d : Decimal}
    (read : readMagnitude negative text = some (d, rest)) : Takes text rest := by
  unfold readMagnitude at read
  dsimp only at read
  split at read
  · exact nomatch read
  · obtain ⟨⟨exponent, left⟩, found, eq⟩ := Option.map_eq_some_iff.mp read
    obtain ⟨-, rfl⟩ := Prod.mk.inj eq
    exact ((takes_digits text).trans (takes_fraction _)).trans (takes_exponent found)

theorem takes_real {text rest : List Char} {x : Float}
    (read : Number.readReal text = some (x, rest)) : Takes text rest := by
  unfold Number.readReal at read
  dsimp only at read
  split at read
  · exact nomatch read
  · rename_i found
    split at read
    · obtain ⟨-, rfl⟩ := Prod.mk.inj (Option.some.inj read)
      exact (takes_sign text).trans (takes_magnitude found)
    · exact nomatch read

theorem takes_integer {low high n : Int} {text rest : List Char}
    (read : readInteger low high text = some (n, rest)) : Takes text rest := by
  unfold readInteger at read
  dsimp only at read
  rw [Option.ite_none_left_eq_some] at read
  obtain ⟨-, rfl⟩ := Prod.mk.inj (Option.some.inj read.2)
  exact (takes_sign text).trans (takes_digits _)

theorem isPlainToken_real {token : Token} {x : Float}
    (read : Number.readReal token = some (x, [])) : IsPlainToken token := by
  refine ⟨?_, (takes_real read).all⟩
  rintro rfl
  exact nomatch read

theorem isPlainToken_integer {low high n : Int} {token : Token}
    (read : readInteger low high token = some (n, [])) : IsPlainToken token := by
  refine ⟨?_, (takes_integer read).all⟩
  rintro rfl
  exact nomatch read

/-! ### Whole numbers and keywords -/

theorem plain_of_map_toLower {text : List Char}
    (plain : ∀ c ∈ text.map Char.toLower, isPlain c = true) : ∀ c ∈ text, isPlain c = true := by
  intro c member
  rw [← isPlain_toLower]
  exact plain _ (List.mem_map_of_mem member)

theorem plain_of_isInfinity {text : List Char} (infinity : isInfinity text = true) :
    ∀ c ∈ text, isPlain c = true := by
  rw [isInfinity, Bool.or_eq_true, beq_iff_eq, beq_iff_eq] at infinity
  rcases infinity with rfl | rfl <;> exact List.all_eq_true.mp rfl

theorem plain_of_isNan {text : List Char} (nan : isNan text = true) :
    ∀ c ∈ text, isPlain c = true := by
  unfold isNan at nan
  split at nan
  · exact List.all_eq_true.mp rfl
  · rename_i tag
    have inside : ∀ c ∈ tag, isPlain c = true := by
      rw [← List.takeWhile_append_dropWhile (p := isTagChar) (l := tag), eq_of_beq nan]
      refine List.forall_mem_append.mpr ⟨fun c member => ?_, List.all_eq_true.mp rfl⟩
      exact isPlain_of_isTagChar (List.mem_takeWhile_imp member)
    have before : ∀ c ∈ ['n', 'a', 'n', '('], isPlain c = true := List.all_eq_true.mp rfl
    exact List.forall_mem_append.mpr ⟨before, inside⟩
  · exact nomatch nan

/-- The number that a text denotes after its sign. -/
def unsignedNumber? (negative : Bool) (body : List Char) : Option Float :=
  let lower := body.map Char.toLower
  if isInfinity lower then some (if negative then -(1.0 / 0.0) else 1.0 / 0.0)
  else if isNan lower then some (0.0 / 0.0)
  else
    match readMagnitude negative body with
    | some (d, []) =>
      let x := d.toFloat
      if x.isFinite && (d.coefficient == 0 || x != 0.0) then some x else none
    | _ => none

theorem wholeNumber?_minus (body : List Char) :
    wholeNumber? ('-' :: body) = unsignedNumber? true body := rfl

theorem wholeNumber?_of_head {text : List Char} (unsigned : text.head? ≠ some '-') :
    wholeNumber? text = unsignedNumber? false text := by
  unfold wholeNumber?
  split
  rename_i negative body eq
  split at eq
  · exact absurd rfl unsigned
  · obtain ⟨rfl, rfl⟩ := Prod.mk.inj eq
    rfl

theorem plain_of_unsignedNumber {negative : Bool} {body : List Char} {x : Float}
    (read : unsignedNumber? negative body = some x) : ∀ c ∈ body, isPlain c = true := by
  unfold unsignedNumber? at read
  dsimp only at read
  split at read
  · rename_i infinity
    exact plain_of_map_toLower (plain_of_isInfinity infinity)
  · split at read
    · rename_i nan
      exact plain_of_map_toLower (plain_of_isNan nan)
    · split at read
      · rename_i found
        exact (takes_magnitude found).all
      · exact nomatch read

theorem isPlainToken_wholeNumber {token : Token} {x : Float}
    (read : wholeNumber? token = some x) : IsPlainToken token := by
  refine ⟨?_, ?_⟩
  · rintro rfl
    exact nomatch read
  · cases token with
    | nil => exact fun c member => nomatch member
    | cons c body =>
      by_cases minus : c = '-'
      · subst minus
        rw [wholeNumber?_minus] at read
        exact List.forall_mem_cons.mpr ⟨rfl, plain_of_unsignedNumber read⟩
      · rw [wholeNumber?_of_head (by simpa using minus)] at read
        exact plain_of_unsignedNumber read

theorem takeDigits_of_letter {c : Char} (letter : c.isDigit = false) (body : List Char) :
    takeDigits (c :: body) = ([], c :: body) := by
  simp [takeDigits, letter]

theorem readMagnitude_of_letter {negative : Bool} {c : Char} (letter : c.isDigit = false)
    (point : c ≠ '.') (body : List Char) : readMagnitude negative (c :: body) = none := by
  rw [readMagnitude, takeDigits_of_letter letter]
  dsimp only
  rw [takeFraction_of_other point]
  rfl

/-! ### Keywords -/

theorem keyword_eq_iff {token : Token} {word : String} :
    keyword token = word ↔ token.map Char.toLower = word.toList := by
  rw [keyword, ← String.toList_inj, String.toList_ofList]

theorem lowerCase_ofList (token : Token) : lowerCase (String.ofList token) = keyword token := by
  rw [lowerCase, String.toList_ofList, keyword]

theorem isPlainToken_keyword {token : Token} {word : String} (eq : keyword token = word)
    (filled : word.toList ≠ []) (plain : word.toList.all isPlain = true) :
    IsPlainToken token := by
  rw [keyword_eq_iff] at eq
  refine ⟨?_, ?_⟩
  · rintro rfl
    exact filled eq.symm
  · apply plain_of_map_toLower
    rw [eq]
    exact List.all_eq_true.mp plain

/-- A letter in lower case that starts no number. -/
structure StartsWord (letter : Char) : Prop where
  above : 97 ≤ letter.toNat
  not_infinity : letter ≠ 'i'
  not_nan : letter ≠ 'n'

theorem toNat_of_letter {c letter : Char} (lower : c.toLower = letter) (above : 97 ≤ letter.toNat) :
    65 ≤ c.toNat := by
  have code := toNat_toLower c
  rw [lower] at code
  split at code <;> omega

theorem isDigit_of_word {c letter : Char} (lower : c.toLower = letter)
    (above : 97 ≤ letter.toNat) : c.isDigit = false := by
  have code := toNat_of_letter lower above
  apply Bool.eq_false_iff.mpr
  rw [ne_eq, isDigit_iff]
  omega

theorem readMagnitude_of_word {negative : Bool} {c letter : Char} (lower : c.toLower = letter)
    (above : 97 ≤ letter.toNat) (body : List Char) : readMagnitude negative (c :: body) = none := by
  apply readMagnitude_of_letter (isDigit_of_word lower above)
  rintro rfl
  exact absurd (toNat_of_letter lower above) (by decide)

theorem unsignedNumber?_of_other {negative : Bool} {body : List Char} {letter : Char}
    {rest : List Char} (eq : body.map Char.toLower = letter :: rest) (notInfinity : letter ≠ 'i')
    (notNan : letter ≠ 'n') (unread : readMagnitude negative body = none) :
    unsignedNumber? negative body = none := by
  have infinity : isInfinity (letter :: rest) = false := by simp [isInfinity, notInfinity]
  have nan : isNan (letter :: rest) = false := by
    unfold isNan
    split
    · rename_i eq
      exact absurd (List.cons.inj eq).1 notNan
    · rename_i eq
      exact absurd (List.cons.inj eq).1 notNan
    · rfl
  rw [unsignedNumber?]
  dsimp only
  rw [eq, infinity, nan, unread]
  rfl

theorem wholeNumber?_of_word {token : Token} {letter : Char} {rest : List Char}
    (starts : StartsWord letter) (eq : token.map Char.toLower = letter :: rest) :
    wholeNumber? token = none := by
  obtain ⟨c, body, rfl, lower, tail⟩ := List.map_eq_cons_iff.mp eq
  have notMinus : c ≠ '-' := by
    rintro rfl
    exact absurd (toNat_of_letter lower starts.above) (by decide)
  rw [wholeNumber?_of_head (by simpa using notMinus)]
  exact unsignedNumber?_of_other eq starts.not_infinity starts.not_nan
    (readMagnitude_of_word lower starts.above body)

end GaussianRadial.Input
