import Mathlib
import GaussianRadial.Proofs.NumberFronts
import GaussianRadial.Proofs.Spelling

/-!
# Fields and tokens

Where an item ends is found by reading: a number is read off the front of a token, and what is left
of the token is read on. So the items that are read are written in the tokens up to blanks that are
missing behind numbers, and in the tokens as they are if each of them is one word or one number from
end to end: `readItems_readOff`.
-/

namespace GaussianRadial.Input

/-! ### Whole tokens -/

/-- The names of options and integrals and the words for their values. -/
def words : List String :=
  ["type", "points", "rmax", "anisotropy", "values", "equidistant", "exponential", "explicit",
    "c0", "c0a", "ci", "format", "precision", "limits", "text", "json", "true", "false"]

/-- The token is one word or one number from end to end. -/
def IsWhole (token : Token) : Prop := keyword token ∈ words ∨ isNumber token = true

instance : DecidablePred IsWhole := fun token =>
  inferInstanceAs (Decidable (keyword token ∈ words ∨ isNumber token = true))

/-- No token holds more than one field. -/
def AllWhole (tokens : List Token) : Prop := ∀ token ∈ tokens, IsWhole token

theorem isWhole_pair {first second : Token} (whole : IsWhole first) (whole' : IsWhole second) :
    AllWhole [first, second] :=
  List.forall_mem_cons.mpr ⟨whole, List.forall_mem_singleton.mpr whole'⟩

theorem isWhole_of_word {token : Token} {word : String} (eq : keyword token = word)
    (known : word ∈ words) : IsWhole token := .inl (eq ▸ known)

theorem SpellsGridOption.isWhole {option : GridOption} {part : List Token}
    (spelled : SpellsGridOption option part) : AllWhole part := by
  cases spelled with
  | @kind word name kind option value =>
    refine isWhole_pair (isWhole_of_word option (by decide)) (isWhole_of_word value ?_)
    cases kind <;> decide
  | points option value =>
    exact isWhole_pair (isWhole_of_word option (by decide)) (.inr (isNumber_integer value))
  | radius option value =>
    exact isWhole_pair (isWhole_of_word option (by decide)) (.inr (isNumber_real value))
  | anisotropy option value =>
    exact isWhole_pair (isWhole_of_word option (by decide)) (.inr (isNumber_real value))
  | values option value =>
    refine List.forall_mem_cons.mpr ⟨isWhole_of_word option (by decide), ?_⟩
    induction value with
    | nil => simp
    | cons here _ ih => exact List.forall_mem_cons.mpr ⟨.inr (isNumber_wholeNumber here), ih⟩

theorem SpellsRequest.isWhole {request : Request Float} {part : List Token}
    (spelled : SpellsRequest request part) : AllWhole part := by
  cases spelled with
  | @intro word exponent order second kind alpha l₁ l₂ integral exponentValue orderValue
      secondValue =>
    have name : IsWhole word := by
      refine isWhole_of_word integral ?_
      cases kind <;> decide
    have wholeSecond : AllWhole second := by
      cases secondValue with
      | given value => exact List.forall_mem_singleton.mpr (.inr (isNumber_integer value))
      | inner => exact fun token member => by contradiction
      | outer => exact fun token member => by contradiction
    exact List.forall_mem_cons.mpr ⟨name, List.forall_mem_cons.mpr
      ⟨.inr (isNumber_real exponentValue), List.forall_mem_cons.mpr
        ⟨.inr (isNumber_integer orderValue), wholeSecond⟩⟩⟩

theorem SpellsOutputOption.isWhole {option : OutputOption} {part : List Token}
    (spelled : SpellsOutputOption option part) : AllWhole part := by
  cases spelled with
  | @format word name format option value =>
    refine isWhole_pair (isWhole_of_word option (by decide)) (isWhole_of_word value ?_)
    cases format <;> decide
  | precision option value =>
    exact isWhole_pair (isWhole_of_word option (by decide)) (.inr (isNumber_integer value))
  | @limits word name limits option value =>
    refine isWhole_pair (isWhole_of_word option (by decide)) ?_
    have digit {d : Char} (below : d.toNat < 65) (number : isNumber [d] = true)
        (eq : keyword name = String.ofList [d]) : IsWhole name := by
      rw [keyword_eq_iff, String.toList_ofList] at eq
      obtain ⟨c, rfl, lower⟩ := List.map_eq_singleton_iff.mp eq
      exact .inr ((toLower_eq_iff below).mp lower ▸ number)
    cases limits with
    | true =>
      obtain eq | eq : keyword name = "true" ∨ keyword name = "1" := by
        simpa [truthWords] using value
      · exact isWhole_of_word eq (by decide)
      · exact digit (d := '1') (by decide) rfl eq
    | false =>
      obtain eq | eq : keyword name = "false" ∨ keyword name = "0" := by
        simpa [truthWords] using value
      · exact isWhole_of_word eq (by decide)
      · exact digit (d := '0') (by decide) rfl eq

/-! ### Numbers off the front of a token -/

theorem words_letter {token : Token} (word : keyword token ∈ words) :
    ∃ c body letter, token = c :: body ∧ c.toLower = letter ∧ 97 ≤ letter.toNat := by
  have letters : ∀ word ∈ words, ∃ letter tail, word.toList = letter :: tail ∧
      97 ≤ letter.toNat := by
    intro word member
    have starts : words.all fun word => word.toList.head?.any (97 ≤ ·.toNat) := by decide +kernel
    obtain ⟨letter, first, above⟩ :=
      (Option.any_eq_true _ _).mp (List.all_eq_true.mp starts word member)
    obtain ⟨tail, eq⟩ := List.head?_eq_some_iff.mp first
    exact ⟨letter, tail, eq, by simpa using above⟩
  obtain ⟨letter, tail, eq, above⟩ := letters _ word
  rw [keyword, String.toList_ofList] at eq
  obtain ⟨c, body, rfl, lower, -⟩ := List.map_eq_cons_iff.mp eq
  exact ⟨c, body, letter, rfl, lower, above⟩

theorem IsWhole.readReal {token : Token} (whole : IsWhole token) {x : Float} {rest : List Char}
    (read : Number.readReal token = some (x, rest)) : rest = [] := by
  rcases whole with word | number
  · obtain ⟨c, body, letter, rfl, lower, above⟩ := words_letter word
    rw [(unread_of_word lower above body).1] at read
    contradiction
  · exact readReal_whole number read

theorem IsWhole.readInteger {token : Token} (whole : IsWhole token) {low high n : Int}
    {rest : List Char} (read : Number.readInteger low high token = some (n, rest)) :
    rest = [] ∨ IsTail rest := by
  rcases whole with word | number
  · obtain ⟨c, body, letter, rfl, lower, above⟩ := words_letter word
    rw [(unread_of_word lower above body).2] at read
    contradiction
  · exact readInteger_whole number read

/-- The tokens start with the pieces, where a piece may be a number at the front of a token. -/
inductive CutOff : List Token → List Token → List Token → Prop
  | nil {tokens : List Token} : CutOff tokens [] tokens
  | whole {token : Token} {tokens pieces left : List Token} (later : CutOff tokens pieces left) :
      CutOff (token :: tokens) (token :: pieces) left
  | part {front back : Token} {tokens pieces left : List Token} (number : isNumber front = true)
      (filled : back ≠ []) (later : CutOff (back :: tokens) pieces left) :
      CutOff ((front ++ back) :: tokens) (front :: pieces) left

theorem CutOff.trans {tokens middle left pieces pieces' : List Token}
    (first : CutOff tokens pieces middle) (second : CutOff middle pieces' left) :
    CutOff tokens (pieces ++ pieces') left := by
  induction first with
  | nil => exact second
  | whole _ ih => exact .whole (ih second)
  | part number filled _ ih => exact .part number filled (ih second)

theorem CutOff.append (pieces left : List Token) : CutOff (pieces ++ left) pieces left := by
  induction pieces with
  | nil => exact .nil
  | cons piece pieces ih => exact .whole ih

/-- The tokens go on with a fraction or an exponent. -/
def StartsTail (tokens : List Token) : Prop := ∃ token more, tokens = token :: more ∧ IsTail token

/--
The pieces are taken off the tokens. From tokens that are whole they are taken as they are, or a
tail is left.
-/
structure ReadOff (tokens pieces left : List Token) : Prop where
  cutOff : CutOff tokens pieces left
  whole : AllWhole tokens → tokens = pieces ++ left ∨ StartsTail left

namespace ReadOff
variable {tokens middle left pieces pieces' : List Token}

theorem append (pieces left : List Token) : ReadOff (pieces ++ left) pieces left :=
  ⟨.append pieces left, fun _ => .inl rfl⟩

theorem trans (first : ReadOff tokens pieces middle) (second : ReadOff middle pieces' left)
    (tail : StartsTail middle → StartsTail left) : ReadOff tokens (pieces ++ pieces') left := by
  refine ⟨first.cutOff.trans second.cutOff, fun allWhole => ?_⟩
  rcases first.whole allWhole with rfl | startsTail
  · rcases second.whole fun token member => allWhole token (List.mem_append_right _ member)
      with rfl | startsTail
    · exact .inl (List.append_assoc ..).symm
    · exact .inr startsTail
  · exact .inr (tail startsTail)

end ReadOff

theorem readFront_readOff {β : Type} {read : List Char → Option (β × List Char)}
    (fronts : ∀ {text rest x}, read text = some (x, rest) →
      ∃ front, text = front ++ rest ∧ read front = some (x, []))
    (numbers : ∀ {text x}, read text = some (x, []) → isNumber text = true)
    (wholes : ∀ {text rest x}, IsWhole text → read text = some (x, rest) → rest = [] ∨ IsTail rest)
    {tokens : List Token} {x : β} {left : Rest tokens}
    (ok : readFront read tokens = some (x, left)) :
    ∃ piece, read piece = some (x, []) ∧ ReadOff tokens [piece] left.val := by
  -- Either the token is the value, or the value is a part of it and the rest of it is read on.
  obtain ⟨token, rest, found, ⟨rfl, eq⟩ | ⟨filled, more, eq, leftEq⟩⟩ := readFront_ok ok
  · have readOff := ReadOff.append [token] left.val
    rw [List.singleton_append, ← eq] at readOff
    exact ⟨token, found, readOff⟩
  · obtain ⟨front, same, value⟩ := fronts found
    refine ⟨front, value, ?_, fun allWhole => .inr ?_⟩
    · rw [leftEq, eq, same]
      exact .part (numbers value) filled .nil
    · have whole : IsWhole token := allWhole token (eq ▸ List.mem_cons_self)
      exact ⟨rest, more, leftEq, (wholes whole found).resolve_left filled⟩

theorem readReal_readOff {tokens : List Token} {x : Float} {left : Rest tokens}
    (ok : readReal tokens = some (x, left)) :
    ∃ piece, Number.readReal piece = some (x, []) ∧ ReadOff tokens [piece] left.val :=
  readFront_readOff (exists_front takes_real readReal_of_append) isNumber_real
    (fun whole read => .inl (whole.readReal read)) ok

section Integers
variable {low high : Int} {tokens : List Token}

theorem readInteger_readOff {n : Int} {left : Rest tokens}
    (ok : readFront (Number.readInteger low high) tokens = some (n, left)) :
    ∃ piece, Number.readInteger low high piece = some (n, []) ∧
      ReadOff tokens [piece] left.val :=
  readFront_readOff (exists_front takes_integer readInteger_of_append) isNumber_integer
    (fun whole read => whole.readInteger read) ok

theorem readInteger_startsTail (tail : StartsTail tokens) :
    readFront (Number.readInteger low high) tokens = none := by
  obtain ⟨token, more, rfl, isTail⟩ := tail
  rw [readFront, readInteger_tail isTail]

end Integers

theorem readNumbers_eq (tokens : List Token) :
    ∃ numbers, tokens = numbers ++ (readNumbers tokens).2.val ∧
      List.Forall₂ (fun x number => Number.wholeNumber? number = some x) (readNumbers tokens).1
        numbers := by
  induction tokens with
  | nil => exact ⟨[], rfl, .nil⟩
  | cons token tokens ih =>
    rw [readNumbers]
    cases read : Number.wholeNumber? token with
    | none => exact ⟨[], rfl, .nil⟩
    | some x =>
      obtain ⟨numbers, eq, all⟩ := ih
      exact ⟨token :: numbers, congrArg _ eq, .cons read all⟩

/-! ### Items -/

section Steps
variable {before : Nat} {first : Token} {rest : List Token}

theorem readGridKind_readOff {option : GridOption} {left : Rest rest}
    (word : keyword first = "type") (ok : readGridKind rest = .ok (option, left)) :
    ∃ pieces, SpellsGridOption option (first :: pieces) ∧ ReadOff rest pieces left.val := by
  cases rest with
  | nil => contradiction
  | cons name rest =>
    unfold readGridKind at ok
    dsimp only [readWord] at ok
    split at ok
    · rename_i value
      cases ok
      have named : keyword name = GridKind.equidistant.name := value
      exact ⟨[name], .kind word named, .append [name] rest⟩
    · rename_i value
      cases ok
      have named : keyword name = GridKind.exponential.name := value
      exact ⟨[name], .kind word named, .append [name] rest⟩
    · rename_i value
      cases ok
      have named : keyword name = GridKind.explicit.name := value
      exact ⟨[name], .kind word named, .append [name] rest⟩
    · contradiction

theorem readGridOption_readOff {option : GridOption} {left : Rest rest}
    (ok : readGridOption before first rest = .ok (option, left)) :
    ∃ pieces, SpellsGridOption option (first :: pieces) ∧ ReadOff rest pieces left.val := by
  unfold readGridOption at ok
  split at ok
  · rename_i word
    exact readGridKind_readOff word ok
  · rename_i word
    unfold readPoints at ok
    split at ok
    · contradiction
    · rename_i count left found
      split at ok
      · contradiction
      · rename_i notNegative
        cases ok
        obtain ⟨piece, value, readOff⟩ := readInteger_readOff found
        rw [← Int.toNat_of_nonneg (Int.not_lt.mp notNegative)] at value
        exact ⟨[piece], .points word value, readOff⟩
  · rename_i word
    obtain ⟨x, found, rfl⟩ := optionOf_ok ok
    obtain ⟨piece, value, readOff⟩ := readReal_readOff found
    exact ⟨[piece], .radius word value, readOff⟩
  · rename_i word
    obtain ⟨x, found, rfl⟩ := optionOf_ok ok
    obtain ⟨piece, value, readOff⟩ := readReal_readOff found
    exact ⟨[piece], .anisotropy word value, readOff⟩
  · rename_i word
    cases ok
    obtain ⟨numbers, eq, values⟩ := readNumbers_eq rest
    have readOff := ReadOff.append numbers (readNumbers rest).2.val
    rw [← eq] at readOff
    exact ⟨numbers, .values word values, readOff⟩
  · contradiction

theorem kindOf?_eq_some {token : Token} {kind : IntegralKind} (eq : kindOf? token = some kind) :
    keyword token = kind.name := by
  unfold kindOf? at eq
  split at eq <;> cases eq <;> assumption

theorem readSecondOrder_readOff {kind : IntegralKind} {tokens : List Token} {l : Int}
    {left : Rest tokens} (ok : readSecondOrder kind tokens = some (l, left)) :
    ∃ pieces, SpellsSecondOrder kind l pieces ∧ ReadOff tokens pieces left.val ∧
      (StartsTail tokens → StartsTail left.val) := by
  cases kind with
  | innerPotential =>
    obtain ⟨piece, value, readOff⟩ := readInteger_readOff ok
    refine ⟨[piece], .given value, readOff, fun tail => ?_⟩
    rw [readSecondOrder, readInt32, readInteger_startsTail tail] at ok
    contradiction
  | inner =>
    cases ok
    exact ⟨[], .inner, .append [] tokens, id⟩
  | outer =>
    cases ok
    exact ⟨[], .outer, .append [] tokens, id⟩

theorem readRequest_readOff {request : Request Float} {left : Rest rest}
    (ok : readRequest before first rest = .ok (request, left)) :
    ∃ pieces, SpellsRequest request (first :: pieces) ∧ ReadOff rest pieces left.val := by
  unfold readRequest at ok
  split at ok
  · contradiction
  rename_i kind name
  split at ok
  · contradiction
  rename_i item found
  cases ok
  unfold readParameters at found
  split at found
  · contradiction
  rename_i alpha left₁ exponent
  split at found
  · contradiction
  rename_i l₁ left₂ order
  split at found
  · contradiction
  rename_i l₂ left₃ second
  cases found
  obtain ⟨exponentPiece, exponentValue, exponentOff⟩ := readReal_readOff exponent
  obtain ⟨orderPiece, orderValue, orderOff⟩ := readInteger_readOff order
  obtain ⟨pieces, secondValue, secondOff, tail⟩ := readSecondOrder_readOff second
  -- An order is never read off a tail.
  have noTail (startsTail : StartsTail left₁.val) : StartsTail left₂.val := by
    rw [readInt32, readInteger_startsTail startsTail] at order
    contradiction
  exact ⟨_, .intro (kindOf?_eq_some name) exponentValue orderValue secondValue,
    (exponentOff.trans orderOff noTail).trans secondOff tail⟩

theorem truthWords_of_readBoolean {value : Token} {option sectionName : String} {truth : Bool}
    (ok : readBoolean (String.ofList value) option sectionName = .ok truth) :
    keyword value ∈ truthWords truth := by
  rw [readBoolean, lowerCase_ofList] at ok
  split at ok <;> cases ok
  all_goals
    rename_i word
    simp [word, truthWords]

theorem readOutputOption_readOff {option : OutputOption} {left : Rest rest}
    (ok : readOutputOption before first rest = .ok (option, left)) :
    ∃ pieces, SpellsOutputOption option (first :: pieces) ∧ ReadOff rest pieces left.val := by
  unfold readOutputOption at ok
  split at ok
  · rename_i word
    cases rest with
    | nil => contradiction
    | cons name rest =>
      unfold readFormat at ok
      dsimp only [readWord] at ok
      split at ok
      · rename_i value
        cases ok
        have named : keyword name = ReportFormat.text.name := value
        exact ⟨[name], .format word named, .append [name] rest⟩
      · rename_i value
        cases ok
        have named : keyword name = ReportFormat.json.name := value
        exact ⟨[name], .format word named, .append [name] rest⟩
      · contradiction
  · rename_i word
    obtain ⟨n, found, rfl⟩ := optionOf_ok ok
    obtain ⟨piece, value, readOff⟩ := readInteger_readOff found
    exact ⟨[piece], .precision word value, readOff⟩
  · rename_i word
    cases rest with
    | nil => contradiction
    | cons name rest =>
      unfold readLimits at ok
      dsimp only [readWord] at ok
      split at ok
      · contradiction
      · rename_i truth value
        cases ok
        exact ⟨[name], .limits word (truthWords_of_readBoolean value), .append [name] rest⟩
  · contradiction

end Steps

/-! ### Sections -/

/-- Items that are read are spelled by what is read, and none starts with a tail. -/
structure ReadsSpelled {ι : Type} (read : ItemReader ι) (Spelled : ι → List Token → Prop) :
    Prop where
  step : ∀ {before first rest item} {left : Rest rest},
    read before first rest = .ok (item, left) →
      ∃ pieces, Spelled item (first :: pieces) ∧ ReadOff rest pieces left.val
  start : ∀ {item first pieces}, Spelled item (first :: pieces) → ¬ IsTail first

theorem not_isTail_of_keyword {token : Token} {word : String} (eq : keyword token = word)
    (starts : word.toList.head? ∉ [some '.', some 'e']) : ¬ IsTail token := by
  rintro ⟨c, member, first⟩
  rw [← keyword_eq_iff.mp eq, List.head?_map, first] at starts
  simp only [List.mem_cons, List.not_mem_nil, or_false] at member
  rcases member with rfl | rfl | rfl <;> exact starts (by decide)

theorem readGridOption_spelled : ReadsSpelled readGridOption SpellsGridOption where
  step := readGridOption_readOff
  start spelled := by
    cases spelled with
    | kind option _ => exact not_isTail_of_keyword option (by decide)
    | points option _ => exact not_isTail_of_keyword option (by decide)
    | radius option _ => exact not_isTail_of_keyword option (by decide)
    | anisotropy option _ => exact not_isTail_of_keyword option (by decide)
    | values option _ => exact not_isTail_of_keyword option (by decide)

theorem readRequest_spelled : ReadsSpelled readRequest SpellsRequest where
  step := readRequest_readOff
  start spelled := by
    cases spelled with
    | @intro _ _ _ _ kind _ _ _ integral _ _ _ =>
      refine not_isTail_of_keyword integral ?_
      cases kind <;> decide

theorem readOutputOption_spelled : ReadsSpelled readOutputOption SpellsOutputOption where
  step := readOutputOption_readOff
  start spelled := by
    cases spelled with
    | format option _ => exact not_isTail_of_keyword option (by decide)
    | precision option _ => exact not_isTail_of_keyword option (by decide)
    | limits option _ => exact not_isTail_of_keyword option (by decide)

section Items
variable {ι : Type} {read : ItemReader ι} {Spelled : ι → List Token → Prop}

theorem exists_item_of_readItems {before : Nat} {first : Token} {rest : List Token}
    {items : List ι} (ok : readItems read before (first :: rest) = .ok items) :
    ∃ item left, read before first rest = .ok (item, left) := by
  cases here : read before first rest with
  | error e =>
    rw [readItems, here] at ok
    contradiction
  | ok found => exact ⟨found.1, found.2, rfl⟩

theorem readItems_readOff (reads : ReadsSpelled read Spelled) {before : Nat} {tokens : List Token}
    {items : List ι} (ok : readItems read before tokens = .ok items) :
    ∃ pieces, Written Spelled items pieces ∧ CutOff tokens pieces [] ∧
      (AllWhole tokens → tokens = pieces) := by
  -- The induction follows the reader: one item, then the items in what it leaves.
  fun_induction readItems read before tokens generalizing items with
  | case1 =>
    cases ok
    exact ⟨[], .nil, .nil, fun _ => rfl⟩
  | case2 => contradiction
  | case3 before first rest item left here ih =>
    rw [map_eq_ok_iff] at ok
    obtain ⟨later, ok, rfl⟩ := ok
    obtain ⟨pieces, spelled, readOff⟩ := reads.step here
    obtain ⟨morePieces, written, cutOff, whole⟩ := ih ok
    refine ⟨first :: pieces ++ morePieces, .cons spelled written,
      .whole (readOff.cutOff.trans cutOff), fun allWhole => ?_⟩
    have restWhole : AllWhole rest := (List.forall_mem_cons.mp allWhole).2
    rcases readOff.whole restWhole with eq | ⟨token, more, eq, tail⟩
    · have leftWhole : AllWhole left.val := by
        intro token member
        refine restWhole token ?_
        rw [eq]
        exact List.mem_append_right _ member
      rw [List.cons_append, ← whole leftWhole, ← eq]
    · -- What is left starts with a tail, and no item can be read there.
      rw [eq] at ok
      obtain ⟨next, left', found⟩ := exists_item_of_readItems ok
      obtain ⟨nextPieces, nextSpelled, -⟩ := reads.step found
      exact absurd tail (reads.start nextSpelled)

end Items

end GaussianRadial.Input
