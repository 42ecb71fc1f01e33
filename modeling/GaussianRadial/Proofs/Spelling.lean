import Mathlib
import GaussianRadial.Input.Item
import GaussianRadial.Proofs.FileItems
import GaussianRadial.Proofs.PlainTokens

/-!
# How items are written

An item is written as a keyword in upper or lower case and the values after it. A number is written
as any text that is read as the number from end to end. The items of a section are read back from
what is written for them, one after the other: `readItems_written`. The values of a grid have no
end of their own, and what ends them is that no item starts with a number.
-/

namespace GaussianRadial.Input

/-! ### Written items -/

/-- The tokens are written for an option of the grid. -/
inductive SpellsGridOption : GridOption → List Token → Prop
  | kind {word name : Token} {kind : GridKind} (option : keyword word = "type")
      (value : keyword name = kind.name) : SpellsGridOption (.kind kind) [word, name]
  | points {word number : Token} {count : Nat} (option : keyword word = "points")
      (value : Number.readInteger (-9223372036854775808) 9223372036854775807 number =
        some ((count : Int), [])) : SpellsGridOption (.points count) [word, number]
  | radius {word number : Token} {x : Float} (option : keyword word = "rmax")
      (value : Number.readReal number = some (x, [])) : SpellsGridOption (.radius x) [word, number]
  | anisotropy {word number : Token} {x : Float} (option : keyword word = "anisotropy")
      (value : Number.readReal number = some (x, [])) :
      SpellsGridOption (.anisotropy x) [word, number]
  | values {word : Token} {numbers : List Token} {values : List Float}
      (option : keyword word = "values")
      (value : List.Forall₂ (fun x number => Number.wholeNumber? number = some x) values numbers) :
      SpellsGridOption (.values values) (word :: numbers)

/-- Only the inner potential has a second order, which is 0 for the others. -/
inductive SpellsSecondOrder : IntegralKind → Int → List Token → Prop
  | given {number : Token} {l : Int}
      (value : Number.readInteger (-2147483648) 2147483647 number = some (l, [])) :
      SpellsSecondOrder .innerPotential l [number]
  | inner : SpellsSecondOrder .inner 0 []
  | outer : SpellsSecondOrder .outer 0 []

/-- The tokens are written for a request. -/
inductive SpellsRequest : Request Float → List Token → Prop
  | intro {word exponent order : Token} {second : List Token} {kind : IntegralKind} {alpha : Float}
      {l₁ l₂ : Int} (integral : keyword word = kind.name)
      (exponentValue : Number.readReal exponent = some (alpha, []))
      (orderValue : Number.readInteger (-2147483648) 2147483647 order = some (l₁, []))
      (secondValue : SpellsSecondOrder kind l₂ second) :
      SpellsRequest ⟨kind, alpha, l₁, l₂⟩ (word :: exponent :: order :: second)

/-- The words for a truth value. -/
def truthWords : Bool → List String
  | true => ["true", "1"]
  | false => ["false", "0"]

/-- The tokens are written for an option of the output. -/
inductive SpellsOutputOption : OutputOption → List Token → Prop
  | format {word name : Token} {format : ReportFormat} (option : keyword word = "format")
      (value : keyword name = format.name) : SpellsOutputOption (.format format) [word, name]
  | precision {word number : Token} {n : Int} (option : keyword word = "precision")
      (value : Number.readInteger (-2147483648) 2147483647 number = some (n, [])) :
      SpellsOutputOption (.precision n) [word, number]
  | limits {word name : Token} {limits : Bool} (option : keyword word = "limits")
      (value : keyword name ∈ truthWords limits) : SpellsOutputOption (.limits limits) [word, name]

/-- The items are written one after the other. -/
inductive Written {ι : Type} (Spelled : ι → List Token → Prop) : List ι → List Token → Prop
  | nil : Written Spelled [] []
  | cons {item : ι} {items : List ι} {part tokens : List Token} (here : Spelled item part)
      (later : Written Spelled items tokens) : Written Spelled (item :: items) (part ++ tokens)

/-! ### Reading back -/

/-- From the tokens, with any rest after them, the reader takes the item and leaves the rest. -/
def ReadsBack {ι : Type} (read : ItemReader ι) (item : ι) (tokens rest : List Token) : Prop :=
  ∃ first more, tokens = first :: more ∧
    ∀ before, ∃ left, read before first (more ++ rest) = .ok (item, left) ∧ left.val = rest

/--
Items that are read back one by one are read back in order, if what may follow an item is the end or
another item.
-/
theorem readItems_written {ι : Type} {read : ItemReader ι} {Spelled : ι → List Token → Prop}
    (Follows : List Token → Prop) (ends : Follows [])
    (goesOn : ∀ {item part} (rest : List Token), Spelled item part → Follows (part ++ rest))
    (reads : ∀ {item part rest}, Spelled item part → Follows rest → ReadsBack read item part rest)
    {items : List ι} {tokens : List Token} (written : Written Spelled items tokens) (before : Nat) :
    readItems read before tokens = .ok items := by
  induction written generalizing before with
  | nil => exact readItems_nil before
  | @cons item items part tokens here later ih =>
    have follows : Follows tokens := by
      cases later with
      | nil => exact ends
      | cons next _ => exact goesOn _ next
    obtain ⟨first, more, rfl, found⟩ := reads here follows
    obtain ⟨left, ok, rest⟩ := found before
    rw [List.cons_append, readItems_cons ok, rest, ih]
    rfl

theorem readFront_of_whole {β : Type} {read : List Char → Option (β × List Char)} {token : Token}
    {x : β} (whole : read token = some (x, [])) (rest : List Token) :
    readFront read (token :: rest) = some (x, ⟨rest, Nat.le_succ _⟩) := by
  rw [readFront, whole]

/-- The section ends or goes on with a token that is no number. -/
def NoNumber (tokens : List Token) : Prop :=
  ∀ token ∈ tokens.head?, Number.wholeNumber? token = none

theorem readNumbers_of_noNumber {rest : List Token} (noNumber : NoNumber rest) :
    readNumbers rest = ([], .all rest) := by
  cases rest with
  | nil => rfl
  | cons token rest => rw [readNumbers, noNumber token rfl]

theorem readNumbers_append {values : List Float} {numbers rest : List Token}
    (read : List.Forall₂ (fun x number => Number.wholeNumber? number = some x) values numbers)
    (noNumber : NoNumber rest) :
    ∃ left, readNumbers (numbers ++ rest) = (values, left) ∧ left.val = rest := by
  induction read with
  | nil => exact ⟨_, readNumbers_of_noNumber noNumber, rfl⟩
  | cons here _ ih =>
    obtain ⟨left, later, eq⟩ := ih
    rw [List.cons_append, readNumbers, here, later]
    exact ⟨_, rfl, eq⟩

theorem SpellsGridOption.noNumber {option : GridOption} {part : List Token}
    (spelled : SpellsGridOption option part) (rest : List Token) : NoNumber (part ++ rest) := by
  have of_keyword {token : Token} {word : String} {letter : Char} {tail : List Char}
      (eq : keyword token = word) (starts : StartsWord letter)
      (split : word.toList = letter :: tail) :
      ∀ other ∈ some token, Number.wholeNumber? other = none := by
    intro other same
    obtain rfl := Option.some.inj same
    exact wholeNumber?_of_word starts ((keyword_eq_iff.mp eq).trans split)
  cases spelled with
  | kind option _ => exact of_keyword option ⟨by decide, by decide, by decide⟩ rfl
  | points option _ => exact of_keyword option ⟨by decide, by decide, by decide⟩ rfl
  | radius option _ => exact of_keyword option ⟨by decide, by decide, by decide⟩ rfl
  | anisotropy option _ => exact of_keyword option ⟨by decide, by decide, by decide⟩ rfl
  | values option _ => exact of_keyword option ⟨by decide, by decide, by decide⟩ rfl

theorem readsBack_pair {ι : Type} {read : ItemReader ι} {item : ι} {word value : Token}
    {rest : List Token}
    (ok : ∀ before, read before word (value :: rest) = .ok (item, ⟨rest, Nat.le_succ _⟩)) :
    ReadsBack read item [word, value] rest :=
  ⟨word, [value], rfl, fun before => ⟨_, ok before, rfl⟩⟩

theorem SpellsGridOption.readsBack {option : GridOption} {part rest : List Token}
    (spelled : SpellsGridOption option part) (noNumber : NoNumber rest) :
    ReadsBack readGridOption option part rest := by
  cases spelled with
  | @kind word name kind option value =>
    refine readsBack_pair fun before => ?_
    rw [readGridOption, option]
    show readGridKind (name :: rest) = _
    rw [readGridKind, readWord]
    dsimp only
    rw [value]
    cases kind <;> rfl
  | @points word number count option value =>
    refine readsBack_pair fun before => ?_
    rw [readGridOption, option]
    show readPoints word (number :: rest) = _
    rw [readPoints, readInt64, readFront_of_whole value]
    dsimp only
    rw [if_neg (Int.not_lt.mpr (Int.natCast_nonneg count)), Int.toNat_natCast]
  | @radius word number x option value =>
    refine readsBack_pair fun before => ?_
    rw [readGridOption, option]
    show optionOf word GridOption.radius (readReal (number :: rest)) = _
    rw [readReal, readFront_of_whole value]
    rfl
  | @anisotropy word number x option value =>
    refine readsBack_pair fun before => ?_
    rw [readGridOption, option]
    show optionOf word GridOption.anisotropy (readReal (number :: rest)) = _
    rw [readReal, readFront_of_whole value]
    rfl
  | @values word numbers values option value =>
    obtain ⟨left, read, eq⟩ := readNumbers_append value noNumber
    refine ⟨word, numbers, rfl, fun before => ⟨left, ?_, eq⟩⟩
    rw [readGridOption, option]
    show Except.ok (GridOption.values (readNumbers (numbers ++ rest)).1,
      (readNumbers (numbers ++ rest)).2) = _
    rw [read]

theorem kindOf?_of_name {word : Token} {kind : IntegralKind} (eq : keyword word = kind.name) :
    kindOf? word = some kind := by
  rw [kindOf?, eq]
  cases kind <;> rfl

theorem SpellsSecondOrder.read {kind : IntegralKind} {l : Int} {part : List Token}
    (spelled : SpellsSecondOrder kind l part) (rest : List Token) :
    ∃ left, readSecondOrder kind (part ++ rest) = some (l, left) ∧ left.val = rest := by
  cases spelled with
  | given value => exact ⟨_, readFront_of_whole value rest, rfl⟩
  | inner => exact ⟨_, rfl, rfl⟩
  | outer => exact ⟨_, rfl, rfl⟩

theorem SpellsRequest.readsBack {request : Request Float} {part rest : List Token}
    (spelled : SpellsRequest request part) : ReadsBack readRequest request part rest := by
  cases spelled with
  | @intro word exponent order second kind alpha l₁ l₂ integral exponentValue orderValue
      secondValue =>
    obtain ⟨left, read, eq⟩ := secondValue.read rest
    refine ⟨word, exponent :: order :: second, rfl, fun before => ?_⟩
    rw [readRequest, kindOf?_of_name integral]
    dsimp only [List.cons_append]
    rw [readParameters, readReal, readFront_of_whole exponentValue]
    dsimp only
    rw [readInt32, readFront_of_whole orderValue]
    dsimp only
    rw [read]
    exact ⟨_, rfl, eq⟩

theorem readBoolean_of_word {name : Token} {truth : Bool} (value : keyword name ∈ truthWords truth)
    (option sectionName : String) :
    readBoolean (String.ofList name) option sectionName = .ok truth := by
  rw [readBoolean, lowerCase_ofList]
  generalize keyword name = word at value
  cases truth with
  | true =>
    obtain rfl | rfl : word = "true" ∨ word = "1" := by simpa [truthWords] using value
    · rfl
    · rfl
  | false =>
    obtain rfl | rfl : word = "false" ∨ word = "0" := by simpa [truthWords] using value
    · rfl
    · rfl

theorem SpellsOutputOption.readsBack {option : OutputOption} {part rest : List Token}
    (spelled : SpellsOutputOption option part) : ReadsBack readOutputOption option part rest := by
  cases spelled with
  | @format word name format option value =>
    refine readsBack_pair fun before => ?_
    rw [readOutputOption, option]
    show readFormat (name :: rest) = _
    rw [readFormat, readWord]
    dsimp only
    rw [value]
    cases format <;> rfl
  | @precision word number n option value =>
    refine readsBack_pair fun before => ?_
    rw [readOutputOption, option]
    show optionOf word OutputOption.precision (readInt32 (number :: rest)) = _
    rw [readInt32, readFront_of_whole value]
    rfl
  | @limits word name limits option value =>
    refine readsBack_pair fun before => ?_
    rw [readOutputOption, option]
    show readLimits word (name :: rest) = _
    rw [readLimits, readWord]
    dsimp only
    rw [readBoolean_of_word value]

/-! ### Written sections -/

theorem readItems_gridOptions {options : List GridOption} {tokens : List Token}
    (written : Written SpellsGridOption options tokens) :
    readItems readGridOption 0 tokens = .ok options :=
  readItems_written NoNumber (fun _ member => nomatch member)
    (fun rest spelled => spelled.noNumber rest) (fun spelled follows => spelled.readsBack follows)
    written 0

theorem readItems_requests {requests : List (Request Float)} {tokens : List Token}
    (written : Written SpellsRequest requests tokens) :
    readItems readRequest 0 tokens = .ok requests :=
  readItems_written (fun _ => True) trivial (fun _ _ => trivial)
    (fun spelled _ => spelled.readsBack) written 0

theorem readItems_outputOptions {options : List OutputOption} {tokens : List Token}
    (written : Written SpellsOutputOption options tokens) :
    readItems readOutputOption 0 tokens = .ok options :=
  readItems_written (fun _ => True) trivial (fun _ _ => trivial)
    (fun spelled _ => spelled.readsBack) written 0

/-! ### Characters of written items -/

theorem Written.forall_tokens {ι : Type} {Spelled : ι → List Token → Prop} {P : Token → Prop}
    (each : ∀ {item part}, Spelled item part → ∀ token ∈ part, P token) {items : List ι}
    {tokens : List Token} (written : Written Spelled items tokens) : ∀ token ∈ tokens, P token := by
  induction written with
  | nil => exact fun token member => nomatch member
  | cons here _ ih => exact List.forall_mem_append.mpr ⟨each here, ih⟩

theorem isPlainToken_gridKind {word : Token} {kind : GridKind} (eq : keyword word = kind.name) :
    IsPlainToken word := by
  cases kind <;> exact isPlainToken_keyword eq (by decide) rfl

theorem isPlainToken_format {word : Token} {format : ReportFormat}
    (eq : keyword word = format.name) : IsPlainToken word := by
  cases format <;> exact isPlainToken_keyword eq (by decide) rfl

theorem isPlainToken_integral {word : Token} {kind : IntegralKind}
    (eq : keyword word = kind.name) : IsPlainToken word := by
  cases kind <;> exact isPlainToken_keyword eq (by decide) rfl

theorem isPlainToken_truth {word : Token} {truth : Bool} (eq : keyword word ∈ truthWords truth) :
    IsPlainToken word := by
  cases truth <;> obtain eq | eq := by simpa [truthWords] using eq
  all_goals exact isPlainToken_keyword eq (by decide) rfl

theorem isPlainToken_numbers {values : List Float} {numbers : List Token}
    (read : List.Forall₂ (fun x number => Number.wholeNumber? number = some x) values numbers) :
    ∀ number ∈ numbers, IsPlainToken number := by
  induction read with
  | nil => exact fun number member => nomatch member
  | cons here _ ih => exact List.forall_mem_cons.mpr ⟨isPlainToken_wholeNumber here, ih⟩

theorem isPlainToken_pair {first second : Token} (plain : IsPlainToken first)
    (plain' : IsPlainToken second) : ∀ token ∈ [first, second], IsPlainToken token :=
  List.forall_mem_cons.mpr ⟨plain, List.forall_mem_singleton.mpr plain'⟩

theorem SpellsGridOption.isPlain {option : GridOption} {part : List Token}
    (spelled : SpellsGridOption option part) : ∀ token ∈ part, IsPlainToken token := by
  cases spelled with
  | kind option value =>
    exact isPlainToken_pair (isPlainToken_keyword option (by decide) rfl)
      (isPlainToken_gridKind value)
  | points option value =>
    exact isPlainToken_pair (isPlainToken_keyword option (by decide) rfl)
      (isPlainToken_integer value)
  | radius option value =>
    exact isPlainToken_pair (isPlainToken_keyword option (by decide) rfl) (isPlainToken_real value)
  | anisotropy option value =>
    exact isPlainToken_pair (isPlainToken_keyword option (by decide) rfl) (isPlainToken_real value)
  | values option value =>
    exact List.forall_mem_cons.mpr
      ⟨isPlainToken_keyword option (by decide) rfl, isPlainToken_numbers value⟩

theorem SpellsSecondOrder.isPlain {kind : IntegralKind} {l : Int} {part : List Token}
    (spelled : SpellsSecondOrder kind l part) : ∀ token ∈ part, IsPlainToken token := by
  cases spelled with
  | given value => exact List.forall_mem_singleton.mpr (isPlainToken_integer value)
  | inner => exact fun token member => nomatch member
  | outer => exact fun token member => nomatch member

theorem SpellsRequest.isPlain {request : Request Float} {part : List Token}
    (spelled : SpellsRequest request part) : ∀ token ∈ part, IsPlainToken token := by
  cases spelled with
  | intro integral exponentValue orderValue secondValue =>
    exact List.forall_mem_cons.mpr ⟨isPlainToken_integral integral,
      List.forall_mem_cons.mpr ⟨isPlainToken_real exponentValue,
        List.forall_mem_cons.mpr ⟨isPlainToken_integer orderValue, secondValue.isPlain⟩⟩⟩

theorem SpellsOutputOption.isPlain {option : OutputOption} {part : List Token}
    (spelled : SpellsOutputOption option part) : ∀ token ∈ part, IsPlainToken token := by
  cases spelled with
  | format option value =>
    exact isPlainToken_pair (isPlainToken_keyword option (by decide) rfl)
      (isPlainToken_format value)
  | precision option value =>
    exact isPlainToken_pair (isPlainToken_keyword option (by decide) rfl)
      (isPlainToken_integer value)
  | limits option value =>
    exact isPlainToken_pair (isPlainToken_keyword option (by decide) rfl)
      (isPlainToken_truth value)

end GaussianRadial.Input
