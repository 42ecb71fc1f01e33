import Mathlib
import GaussianRadial.Report.JsonReader
import GaussianRadial.Proofs.DecimalDigits

/-!
# Texts of JSON values

The text of a value reads back as the value, whatever follows it: `read_render`. All that this
needs of the texts of doubles is that each is a number with a fraction or an exponent and reads back
as the same double.
-/

namespace GaussianRadial.Report

/-- A finite double is written as a number that is not whole and reads back as the double. -/
class LawfulJsonNumbers [JsonNumbers] : Prop where
  fractional : ∀ x : Float, x.isFinite = true →
    Json.isFractional (JsonNumbers.text x).toList = true
  reads : ∀ x : Float, x.isFinite = true →
    Number.readReal (JsonNumbers.text x).toList = some (x, [])

namespace Json
open Number

/-! ### Strings -/

/-- A character before the characters that were read. -/
def push (c : Char) (read : List Char × List Char) : List Char × List Char := (c :: read.1, read.2)

theorem numbered?_control :
    ∀ code < 32, numbered? ['0', '0', hexDigit (code / 16), hexDigit code] =
      some (Char.ofNat code) := by
  decide

theorem lettered?_of_escape :
    ∀ entry ∈ escapes, entry.2 ≠ 'u' ∧ lettered? entry.2 = some entry.1 := by
  decide

theorem readString_letter {letter c : Char} (other : letter ≠ 'u')
    (letters : lettered? letter = some c) (s : List Char) :
    readString ('\\' :: letter :: s) = (readString s).map (push c) := by
  rw [readString, letters]
  · cases readString s <;> rfl
  · rintro - - - - - rfl
    contradiction

theorem readString_escape (c : Char) (s : List Char) :
    readString (escape c ++ s) = (readString s).map (push c) := by
  unfold escape
  split
  · rename_i letter found
    obtain ⟨before, after, entries, -⟩ := List.lookup_eq_some_iff.mp found
    have member : (c, letter) ∈ escapes := by
      rw [entries]
      exact List.mem_append_right _ List.mem_cons_self
    obtain ⟨other, letters⟩ := lettered?_of_escape _ member
    exact readString_letter other letters s
  · split
    · rename_i control
      have code := numbered?_control c.toNat control
      rw [Char.ofNat_toNat] at code
      change readString ('\\' :: 'u' :: '0' :: '0' :: _ :: _ :: s) = _
      rw [readString, code]
      cases readString s <;> rfl
    · rename_i absent visible
      have notQuote : c ≠ '"' := by
        rintro rfl
        exact absurd absent (by decide)
      have notBackslash : c ≠ '\\' := by
        rintro rfl
        exact absurd absent (by decide)
      change readString (c :: s) = _
      rw [readString, if_neg visible]
      · cases readString s <;> rfl
      · exact notQuote
      · rintro - - - - - rfl
        contradiction
      · rintro - - rfl
        contradiction

theorem readString_flatMap (text s : List Char) :
    readString (text.flatMap escape ++ '"' :: s) = some (text, s) := by
  induction text with
  | nil => rfl
  | cons c text ih =>
    rw [List.flatMap_cons, List.append_assoc, readString_escape, ih]
    rfl

/-! ### Numbers -/

theorem isWhole_decimal (n : ℕ) : isWhole (decimal n) = true := by
  rcases Nat.eq_zero_or_pos n with rfl | positive
  · decide
  · have leading := head?_decimal positive
    have all : ∀ c ∈ decimal n, c.isDigit = true := fun c => isDigit_of_mem_decimal
    cases digits : decimal n with
    | nil => exact absurd digits Nat.toDigits_ne_nil
    | cons c rest =>
      rw [digits] at leading all
      have other : (c != '0') = true := by simpa using leading
      rw [isWhole, List.all_eq_true.mpr all, other, Bool.or_true, Bool.and_self]

theorem takeMinus_decimal (n : ℕ) : takeMinus (decimal n) = (false, decimal n) := by
  unfold takeMinus
  split
  · rename_i s eq
    have minus : '-' ∈ decimal n := by
      rw [eq]
      exact List.mem_cons_self
    exact absurd (isDigit_of_mem_decimal minus) (by decide)
  · rfl

theorem toList_toString (n : ℕ) : (toString n).toList = decimal n := by
  rw [Nat.toString_eq_ofList_toDigits, String.toList_ofList, decimal]

theorem number?_integer (n : ℤ) : number? (toString n).toList = some (.integer n) := by
  cases n with
  | ofNat n =>
    have text : (toString (Int.ofNat n)).toList = decimal n := toList_toString n
    rw [text, number?, takeMinus_decimal]
    dsimp only
    rw [if_pos (isWhole_decimal n), digitsValue_decimal]
    rfl
  | negSucc n =>
    have text : (toString (Int.negSucc n)).toList = '-' :: decimal (n + 1) := by
      change ("-" ++ toString (n + 1)).toList = _
      rw [← toList_toString, String.toList_append]
      rfl
    rw [text, number?, takeMinus]
    dsimp only
    rw [if_pos (isWhole_decimal (n + 1)), digitsValue_decimal]
    rfl

theorem isWhole_of_isFractional {s : List Char} (fractional : isFractional s = true) :
    isWhole (takeMinus s).2 = false := by
  rw [isFractional, takeDigits] at fractional
  generalize (takeMinus s).2 = digits at fractional ⊢
  cases digits with
  | nil => rfl
  | cons c rest =>
    apply Bool.eq_false_iff.mpr
    intro whole
    rw [isWhole, Bool.and_eq_true, List.all_eq_true] at whole
    rw [List.dropWhile_eq_nil_iff.mpr whole.1] at fractional
    simp [isFraction, isExponent] at fractional

/-! ### Characters of numbers -/

theorem isNumberChar_of_isDigit {c : Char} (digit : c.isDigit = true) : isNumberChar c = true := by
  rw [isNumberChar, digit, Bool.true_or]

theorem isNumberChar_of_takeMinus {s : List Char}
    (rest : ∀ c ∈ (takeMinus s).2, isNumberChar c = true) : ∀ c ∈ s, isNumberChar c = true := by
  unfold takeMinus at rest
  split at rest
  · exact List.forall_mem_cons.mpr ⟨by decide, rest⟩
  · exact rest

theorem isNumberChar_of_isWhole {s : List Char} (whole : isWhole s = true) :
    ∀ c ∈ s, isNumberChar c = true := by
  cases s with
  | nil => simp
  | cons d s =>
    rw [isWhole, Bool.and_eq_true, List.all_eq_true] at whole
    exact fun c member => isNumberChar_of_isDigit (whole.1 c member)

theorem isNumberChar_of_isExponent {s : List Char} (exponent : isExponent s = true) :
    ∀ c ∈ s, isNumberChar c = true := by
  cases s with
  | nil => simp
  | cons mark s =>
    simp only [isExponent, Bool.and_eq_true, Bool.or_eq_true, beq_iff_eq, List.all_eq_true]
      at exponent
    obtain ⟨⟨marked, -⟩, digits⟩ := exponent
    refine List.forall_mem_cons.mpr ⟨by rcases marked with rfl | rfl <;> decide, ?_⟩
    unfold takeSign at digits
    split at digits
    · exact List.forall_mem_cons.mpr
        ⟨by decide, fun c member => isNumberChar_of_isDigit (digits c member)⟩
    · exact List.forall_mem_cons.mpr
        ⟨by decide, fun c member => isNumberChar_of_isDigit (digits c member)⟩
    · exact fun c member => isNumberChar_of_isDigit (digits c member)

theorem isNumberChar_of_takeDigits {s : List Char}
    (rest : ∀ c ∈ (takeDigits s).2, isNumberChar c = true) : ∀ c ∈ s, isNumberChar c = true := by
  have split : s = (takeDigits s).1 ++ (takeDigits s).2 := List.takeWhile_append_dropWhile.symm
  rw [split, List.forall_mem_append]
  exact ⟨fun c member => isNumberChar_of_isDigit (List.mem_takeWhile_imp member), rest⟩

theorem isNumberChar_of_isFraction {s : List Char} (fraction : isFraction s = true) :
    ∀ c ∈ s, isNumberChar c = true := by
  unfold isFraction at fraction
  split at fraction
  · rename_i s
    simp only [Bool.and_eq_true, Bool.or_eq_true] at fraction
    refine List.forall_mem_cons.mpr ⟨by decide, isNumberChar_of_takeDigits ?_⟩
    rcases fraction.2 with none | exponent
    · rw [List.isEmpty_iff.mp none]
      simp
    · exact isNumberChar_of_isExponent exponent
  · exact isNumberChar_of_isExponent fraction

theorem isNumberChar_of_number? {s : List Char} {json : Json} (number : number? s = some json) :
    ∀ c ∈ s, isNumberChar c = true := by
  unfold number? at number
  dsimp only at number
  by_cases whole : isWhole (takeMinus s).2 = true
  · exact isNumberChar_of_takeMinus (isNumberChar_of_isWhole whole)
  · rw [if_neg whole] at number
    by_cases fractional : isFractional s = true
    · unfold isFractional at fractional
      rw [Bool.and_eq_true] at fractional
      exact isNumberChar_of_takeMinus
        (isNumberChar_of_takeDigits (isNumberChar_of_isFraction fractional.2))
    · rw [if_neg fractional] at number
      contradiction

/-! ### Texts character by character -/

theorem toList_newLine (level : ℕ) :
    (newLine level).toList = '\n' :: List.replicate (2 * level) ' ' := by
  have blanks := String.toList_ofList (l := List.replicate (2 * level) ' ')
  rw [newLine, String.toList_append, blanks]
  rfl

theorem toList_quote (s : String) :
    (quote s).toList = '"' :: (s.toList.flatMap escape ++ ['"']) := by
  have inner := String.toList_ofList (l := s.toList.flatMap escape)
  rw [quote, String.toList_append, String.toList_append, inner]
  rfl

section Texts
variable [JsonNumbers] (level : ℕ)

theorem toList_array (item : Json) (items : List Json) :
    (render level (.array (item :: items))).toList = '[' :: ((newLine (level + 1)).toList ++
      ((render (level + 1) item).toList ++ ((renderItems (level + 1) items).toList ++
        ((newLine level).toList ++ [']'])))) := by
  simp only [render, String.toList_append, List.append_assoc]
  rfl

theorem toList_renderItems (item : Json) (items : List Json) :
    (renderItems level (item :: items)).toList = ',' :: ((newLine level).toList ++
      ((render level item).toList ++ (renderItems level items).toList)) := by
  simp only [renderItems, String.toList_append, List.append_assoc]
  rfl

variable (key : String) (value : Json) (members : List (String × Json))

theorem toList_object :
    (render level (.object ((key, value) :: members))).toList =
      '{' :: ((newLine (level + 1)).toList ++ ((quote key).toList ++ ':' :: ' ' ::
        ((render (level + 1) value).toList ++ ((renderMembers (level + 1) members).toList ++
          ((newLine level).toList ++ ['}']))))) := by
  simp only [render, String.toList_append, List.append_assoc]
  rfl

theorem exists_render_object :
    ∃ inner, render level (.object ((key, value) :: members)) = "\x7b" ++ inner ++ "\x7d" := by
  refine ⟨newLine (level + 1) ++ quote key ++ ": " ++ render (level + 1) value
    ++ renderMembers (level + 1) members ++ newLine level, ?_⟩
  simp only [render, String.append_assoc]

theorem toList_renderMembers :
    (renderMembers level ((key, value) :: members)).toList = ',' :: ((newLine level).toList ++
      ((quote key).toList ++ ':' :: ' ' ::
        ((render level value).toList ++ (renderMembers level members).toList))) := by
  simp only [renderMembers, String.toList_append, List.append_assoc]
  rfl

end Texts

/-! ### Values -/

theorem skipSpaces_newLine (level : ℕ) (s : List Char) :
    skipSpaces ((newLine level).toList ++ s) = skipSpaces s := by
  have blanks (n : ℕ) : skipSpaces (List.replicate n ' ' ++ s) = skipSpaces s := by
    induction n with
    | zero => rfl
    | succ n ih => exact ih
  rw [toList_newLine]
  exact blanks (2 * level)

theorem skipSpaces_of_not_space {c : Char} (visible : isSpace c = false) (s : List Char) :
    skipSpaces (c :: s) = c :: s :=
  List.dropWhile_cons_of_neg (by simp [visible])

/-- What follows a value does not go on with a number. -/
def Stops (s : List Char) : Prop := ∀ c ∈ s.head?, isNumberChar c = false

theorem isSpace_of_isNumberChar {c : Char} (number : isNumberChar c = true) :
    isSpace c = false := by
  apply Bool.eq_false_iff.mpr
  intro space
  have spaces : c ∈ [' ', '\t', '\n', '\r'] := List.contains_iff_mem.mp space
  simp only [List.mem_cons, List.not_mem_nil, or_false] at spaces
  rcases spaces with rfl | rfl | rfl | rfl <;> exact absurd number (by decide)

theorem takeWhile_of_stop {p : Char → Bool} {text rest : List Char}
    (inside : ∀ c ∈ text, p c = true) (stop : ∀ c ∈ rest.head?, p c = false) :
    (text ++ rest).takeWhile p = text ∧ (text ++ rest).dropWhile p = rest := by
  rw [List.takeWhile_append_of_pos inside, List.dropWhile_append_of_pos inside]
  cases rest with
  | nil => simp
  | cons c rest =>
    have outside : ¬ p c = true := by simpa using stop c rfl
    rw [List.takeWhile_cons_of_neg outside, List.dropWhile_cons_of_neg outside, List.append_nil]
    exact ⟨rfl, rfl⟩

theorem stops_cons {c : Char} (stop : isNumberChar c = false) (s : List Char) : Stops (c :: s) := by
  rintro _ ⟨⟩
  exact stop

theorem stops_newLine (level : ℕ) (s : List Char) : Stops ((newLine level).toList ++ s) := by
  rw [toList_newLine]
  exact stops_cons rfl _

theorem readValue_number {text rest : List Char} {json : Json} (number : number? text = some json)
    (stops : Stops rest) (depth : ℕ) :
    readValue (depth + 1) (text ++ rest) = some (json, rest) := by
  have chars := isNumberChar_of_number? number
  obtain ⟨taken, left⟩ := takeWhile_of_stop chars stops
  cases text with
  | nil => contradiction
  | cons c text =>
    have first := chars c List.mem_cons_self
    rw [List.cons_append] at taken left ⊢
    rw [readValue, skipSpaces_of_not_space (isSpace_of_isNumberChar first)]
    split
    case h_5 =>
      rw [taken, left, number]
      rfl
    all_goals
      rename_i eq
      obtain ⟨rfl, -⟩ := List.cons.inj eq
      exact absurd first (by decide)

/-- A text starts with a character that neither is a blank nor closes an array or an object. -/
def Opens (s : List Char) : Prop :=
  ∃ c rest, s = c :: rest ∧ isSpace c = false ∧ c ≠ ']' ∧ c ≠ '}'

theorem Opens.append {s : List Char} (opens : Opens s) (rest : List Char) : Opens (s ++ rest) := by
  obtain ⟨c, tail, rfl, properties⟩ := opens
  exact ⟨c, tail ++ rest, rfl, properties⟩

theorem Opens.skipSpaces_eq {s : List Char} (opens : Opens s) : skipSpaces s = s := by
  obtain ⟨c, tail, rfl, visible, -⟩ := opens
  exact skipSpaces_of_not_space visible tail

theorem opens_of_number? {s : List Char} {json : Json} (number : number? s = some json) :
    Opens s := by
  have chars := isNumberChar_of_number? number
  cases s with
  | nil => contradiction
  | cons c s =>
    have first := chars c List.mem_cons_self
    refine ⟨c, s, rfl, isSpace_of_isNumberChar first, ?_, ?_⟩ <;> rintro rfl <;>
      exact absurd first (by decide)

theorem readValue_newLine (depth level : ℕ) (s : List Char) :
    readValue depth ((newLine level).toList ++ s) = readValue depth s := by
  cases depth with
  | zero => rfl
  | succ depth => rw [readValue, readValue, skipSpaces_newLine]

theorem readItems_newLine (depth level : ℕ) (s : List Char) :
    readItems depth ((newLine level).toList ++ s) = readItems depth s := by
  cases depth with
  | zero => rfl
  | succ depth => rw [readItems, readItems, readValue_newLine]

theorem readMembers_newLine (depth level : ℕ) (s : List Char) :
    readMembers depth ((newLine level).toList ++ s) = readMembers depth s := by
  cases depth with
  | zero => rfl
  | succ depth => rw [readMembers, readMembers, skipSpaces_newLine]

theorem opens_quote (s : String) : Opens (quote s).toList :=
  ⟨'"', _, toList_quote s, by decide⟩

section Steps
variable {depth : ℕ} {s t u rest : List Char} {item value : Json} {items : List Json} {key : String}
  {members : List (String × Json)}

theorem readItems_last (first : readValue depth s = some (item, t))
    (closed : skipSpaces t = ']' :: rest) : readItems (depth + 1) s = some ([item], rest) := by
  rw [readItems, first]
  simp only [bind, Option.bind, closed]
  rfl

theorem readItems_next (first : readValue depth s = some (item, t))
    (separated : skipSpaces t = ',' :: u) (others : readItems depth u = some (items, rest)) :
    readItems (depth + 1) s = some (item :: items, rest) := by
  rw [readItems, first]
  simp only [bind, Option.bind, separated, others]
  rfl

theorem readMembers_quote (s : List Char) :
    readMembers (depth + 1) ((quote key).toList ++ ':' :: ' ' :: s) = (do
      let (value, t) ← readValue depth s
      match skipSpaces t with
      | '}' :: rest => return ([(key, value)], rest)
      | ',' :: u =>
        let (members, rest) ← readMembers depth u
        return ((key, value) :: members, rest)
      | _ => none) := by
  have skipped : readValue depth (' ' :: s) = readValue depth s := by cases depth <;> rfl
  rw [toList_quote, List.cons_append, List.append_assoc, List.singleton_append, readMembers,
    skipSpaces_of_not_space (by decide)]
  simp only [readString_flatMap, bind, Option.bind, String.ofList_toList]
  rw [skipSpaces_of_not_space (by decide)]
  exact skipped ▸ rfl

theorem readMembers_last (first : readValue depth s = some (value, t))
    (closed : skipSpaces t = '}' :: rest) :
    readMembers (depth + 1) ((quote key).toList ++ ':' :: ' ' :: s) =
      some ([(key, value)], rest) := by
  rw [readMembers_quote, first]
  simp only [bind, Option.bind, closed]
  rfl

theorem readMembers_next (first : readValue depth s = some (value, t))
    (separated : skipSpaces t = ',' :: u) (others : readMembers depth u = some (members, rest)) :
    readMembers (depth + 1) ((quote key).toList ++ ':' :: ' ' :: s) =
      some ((key, value) :: members, rest) := by
  rw [readMembers_quote, first]
  simp only [bind, Option.bind, separated, others]
  rfl

theorem readValue_array (blanks : skipSpaces s = skipSpaces t) (opens : Opens t)
    (read : readItems depth t = some (items, rest)) :
    readValue (depth + 1) ('[' :: s) = some (.array items, rest) := by
  rw [opens.skipSpaces_eq] at blanks
  obtain ⟨c, tail, rfl, -, notClosed, -⟩ := opens
  rw [readValue, skipSpaces_of_not_space (by decide)]
  simp only [blanks]
  split
  · rename_i eq
    exact absurd (List.cons.inj eq).1 notClosed
  · rw [read]
    rfl

theorem readValue_object (blanks : skipSpaces s = skipSpaces t) (opens : Opens t)
    (read : readMembers depth t = some (members, rest)) :
    readValue (depth + 1) ('{' :: s) = some (.object members, rest) := by
  rw [opens.skipSpaces_eq] at blanks
  obtain ⟨c, tail, rfl, -, -, notClosed⟩ := opens
  rw [readValue, skipSpaces_of_not_space (by decide)]
  simp only [blanks]
  split
  · rename_i eq
    exact absurd (List.cons.inj eq).1 notClosed
  · rw [read]
    rfl

end Steps

section Texts
variable [JsonNumbers]

/-- Values whose texts are no longer than `depth` are read back by it. -/
structure ReadsBack (depth : ℕ) : Prop where
  value : ∀ level json rest, (render level json).toList.length ≤ depth → Stops rest →
    readValue depth ((render level json).toList ++ rest) = some (json, rest)
  items : ∀ level outer item items rest,
    (render level item).toList.length + (renderItems level items).toList.length < depth →
    readItems depth ((render level item).toList ++ ((renderItems level items).toList ++
      ((newLine outer).toList ++ ']' :: rest))) = some (item :: items, rest)
  members : ∀ level outer key value members rest,
    (render level value).toList.length + (renderMembers level members).toList.length < depth →
    readMembers depth ((quote key).toList ++ ':' :: ' ' :: ((render level value).toList ++
      ((renderMembers level members).toList ++ ((newLine outer).toList ++ '}' :: rest)))) =
        some ((key, value) :: members, rest)

theorem ReadsBack.items_succ {depth : ℕ} (ih : ReadsBack depth) (level outer : ℕ) (item : Json)
    (items : List Json) (rest : List Char)
    (fits :
      (render level item).toList.length + (renderItems level items).toList.length < depth + 1) :
    readItems (depth + 1) ((render level item).toList ++ ((renderItems level items).toList ++
      ((newLine outer).toList ++ ']' :: rest))) = some (item :: items, rest) := by
  cases items with
  | nil =>
    rw [renderItems, String.toList_empty, List.nil_append]
    apply readItems_last (ih.value level item _ (by omega) (stops_newLine outer _))
    rw [skipSpaces_newLine, skipSpaces_of_not_space (by decide)]
  | cons next items =>
    rw [toList_renderItems] at fits ⊢
    simp only [List.length_cons, List.length_append, List.append_assoc, List.cons_append] at fits ⊢
    apply readItems_next (ih.value level item _ (by omega) (stops_cons (by decide) _))
      (skipSpaces_of_not_space (by decide) _)
    rw [readItems_newLine]
    exact ih.items level outer next items rest (by omega)

theorem ReadsBack.members_succ {depth : ℕ} (ih : ReadsBack depth) (level outer : ℕ) (key : String)
    (value : Json) (members : List (String × Json)) (rest : List Char)
    (fits : (render level value).toList.length + (renderMembers level members).toList.length <
      depth + 1) :
    readMembers (depth + 1) ((quote key).toList ++ ':' :: ' ' :: ((render level value).toList ++
      ((renderMembers level members).toList ++ ((newLine outer).toList ++ '}' :: rest)))) =
        some ((key, value) :: members, rest) := by
  cases members with
  | nil =>
    rw [renderMembers, String.toList_empty, List.nil_append]
    apply readMembers_last (ih.value level value _ (by omega) (stops_newLine outer _))
    rw [skipSpaces_newLine, skipSpaces_of_not_space (by decide)]
  | cons next members =>
    rw [toList_renderMembers] at fits ⊢
    simp only [List.length_cons, List.length_append, List.append_assoc, List.cons_append] at fits ⊢
    apply readMembers_next (ih.value level value _ (by omega) (stops_cons (by decide) _))
      (skipSpaces_of_not_space (by decide) _)
    rw [readMembers_newLine]
    exact ih.members level outer next.1 next.2 members rest (by omega)

variable [LawfulJsonNumbers]

theorem number?_double {x : Float} (finite : x.isFinite = true) :
    number? (JsonNumbers.text x).toList = some (.number x finite) := by
  have fractional := LawfulJsonNumbers.fractional x finite
  have reads := LawfulJsonNumbers.reads x finite
  simp [number?, isWhole_of_isFractional fractional, fractional, reads, finite]

theorem opens_render (level : ℕ) (json : Json) : Opens (render level json).toList := by
  cases json with
  | null => exact ⟨'n', ['u', 'l', 'l'], by rw [render]; rfl, by decide⟩
  | integer n => exact opens_of_number? (number?_integer n)
  | number x finite => exact opens_of_number? (number?_double finite)
  | string s => exact opens_quote s
  | array items =>
    cases items with
    | nil => exact ⟨'[', [']'], by rw [render]; rfl, by decide⟩
    | cons item items => exact ⟨'[', _, toList_array level item items, by decide⟩
  | object members =>
    cases members with
    | nil => exact ⟨'{', ['}'], by rw [render]; rfl, by decide⟩
    | cons member members => exact ⟨'{', _, toList_object level _ _ members, by decide⟩

theorem ReadsBack.value_succ {depth : ℕ} (ih : ReadsBack depth) (level : ℕ) (json : Json)
    (rest : List Char) (fits : (render level json).toList.length ≤ depth + 1) (stops : Stops rest) :
    readValue (depth + 1) ((render level json).toList ++ rest) = some (json, rest) := by
  cases json with
  | null =>
    rw [render]
    rfl
  | integer n =>
    rw [render]
    exact readValue_number (number?_integer n) stops depth
  | number x finite =>
    rw [render]
    exact readValue_number (number?_double finite) stops depth
  | string s =>
    rw [render, toList_quote, List.cons_append, List.append_assoc, List.singleton_append, readValue,
      skipSpaces_of_not_space (by decide)]
    simp only [readString_flatMap, Option.map_some, String.ofList_toList]
  | array items =>
    cases items with
    | nil =>
      rw [render]
      rfl
    | cons item items =>
      rw [toList_array] at fits ⊢
      simp only [List.length_cons, List.length_append, List.append_assoc, List.cons_append,
        List.nil_append] at fits ⊢
      apply readValue_array (skipSpaces_newLine _ _) ((opens_render _ item).append _)
      exact ih.items (level + 1) level item items rest (by omega)
  | object members =>
    cases members with
    | nil =>
      rw [render]
      rfl
    | cons member members =>
      obtain ⟨key, value⟩ := member
      rw [toList_object] at fits ⊢
      simp only [List.length_cons, List.length_append, List.append_assoc, List.cons_append,
        List.nil_append] at fits ⊢
      apply readValue_object (skipSpaces_newLine _ _) ((opens_quote key).append _)
      exact ih.members (level + 1) level key value members rest (by omega)

theorem readsBack (depth : ℕ) : ReadsBack depth := by
  induction depth with
  | zero =>
    refine ⟨fun level json rest fits => ?_, by simp, by simp⟩
    obtain ⟨c, tail, text, -⟩ := opens_render level json
    rw [text] at fits
    exact absurd fits (by simp)
  -- What a value holds has a shorter text than the value, so one level less is deep enough for it.
  | succ depth ih => exact ⟨ih.value_succ, ih.items_succ, ih.members_succ⟩

theorem read_render (level : ℕ) (json : Json) : read (render level json) = some json := by
  have value := (readsBack (render level json).toList.length).value level json [] le_rfl
    (by simp [Stops])
  rw [List.append_nil] at value
  rw [read, value]
  rfl

end Texts

end Json

end GaussianRadial.Report
