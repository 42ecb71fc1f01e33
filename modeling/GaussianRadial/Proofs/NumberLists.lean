import Mathlib
import GaussianRadial.Proofs.Fields
import GaussianRadial.Proofs.Marks
import GaussianRadial.Proofs.StreamNumbers

/-!
# Lists of numbers

The loops over the stream of a grid section come to an end, with the options that are read off the
tokens of the section: `BlockState.ends_of_stands`. The loop over the numbers of `values` reads the
first word that is no number and gives it back. So what it takes is the longest run of numbers, and
the loop over the options goes on with that word: `BlockState.takesNumbers`.
-/

namespace GaussianRadial.Input
open BlockStream

theorem GridSettings.set_values_append (grid : GridSettings) (xs ys : List Float) :
    (grid.set (.values xs)).set (.values ys) = grid.set (.values (xs ++ ys)) := by
  simp [set, values]

/-- The numbers that an option lists. -/
def GridOption.listed : GridOption → List Float
  | .values xs => xs
  | _ => []

theorem GridSettings.foldl_values (grid : GridSettings) (options : List GridOption) :
    (options.foldl .set grid).values = grid.values ++ options.flatMap GridOption.listed := by
  induction options generalizing grid with
  | nil => simp
  | cons option options ih =>
    have here : (grid.set option).values = grid.values ++ option.listed := by
      cases option with
      | values xs => rfl
      | _ => exact (List.append_nil _).symm
    rw [List.foldl_cons, ih, here, List.flatMap_cons, List.append_assoc]

theorem readNumbers_noNumber (tokens : List Token) : NoNumber (readNumbers tokens).2.val := by
  induction tokens with
  | nil => exact fun token member => by contradiction
  | cons token tokens ih =>
    rw [readNumbers]
    cases read : Number.wholeNumber? token with
    | none =>
      intro other member
      obtain rfl := Option.some.inj member
      exact read
    | some x => exact ih

namespace BlockState
variable {state next : BlockState} {settings : GridSettings} {stream : BlockStream}
  {option first : Token} {tokens rest : List Token} {result : Except Error GridSettings}

/-! ### Runs of the loops -/

/-- Passes of the loops lead from one state to another. -/
def Reaches : BlockState → BlockState → Prop :=
  Relation.ReflTransGen fun state next => state.step = .next next

/-- The loops end with the result after some passes. -/
inductive Ends : BlockState → Except Error GridSettings → Prop
  | now {state : BlockState} {result : Except Error GridSettings}
      (pass : state.step = .ends result) : Ends state result
  | later {state next : BlockState} {result : Except Error GridSettings}
      (pass : state.step = .next next) (ends : Ends next result) : Ends state result

theorem Ends.of_reaches (reaches : Reaches state next) (ends : Ends next result) :
    Ends state result := by
  induction reaches using Relation.ReflTransGen.head_induction_on with
  | refl => exact ends
  | head pass _ ih => exact .later pass ih

theorem Ends.unique {result' : Except Error GridSettings} (ends : Ends state result)
    (ends' : Ends state result') : result = result' := by
  induction ends with
  | now pass =>
    cases ends' with
    | now pass' => exact BlockPass.ends.inj (pass.symm.trans pass')
    | later pass' _ => exact absurd (pass.symm.trans pass') (by simp)
  | later pass _ ih =>
    cases ends' with
    | now pass' => exact absurd (pass.symm.trans pass') (by simp)
    | later pass' later =>
      obtain rfl := BlockPass.next.inj (pass.symm.trans pass')
      exact ih later

/-! ### The numbers of `values` -/

theorem optionPass_nil (stands : stream.Stands []) :
    optionPass settings stream = .ends (.ok settings) := by
  rw [optionPass, stands.readWord_nil]
  rfl

theorem close_of_not_failed (notFailed : stream.failed = false) :
    close settings stream option = .next ⟨settings, stream, none⟩ := by
  simp [close, notFailed]

theorem numberPass_number {x : Float} (behind : stream.BehindWord (first :: rest))
    (read : Number.wholeNumber? first = some x) :
    numberPass settings stream option =
      .next ⟨settings.set (.values [x]), stream.advance (' ' :: first).length, some option⟩ := by
  rw [numberPass, behind.skipBlanks_eq]
  dsimp only
  rw [if_pos behind.before.stands.isGood, behind.readWord_advance]
  dsimp only
  rw [read]

theorem numberPass_noNumber (behind : stream.BehindWord tokens) (noNumber : NoNumber tokens) :
    numberPass settings stream option =
      .next ⟨settings.set (.values []), stream.advance 1, none⟩ := by
  have notFailed : (stream.advance 1).failed = false := behind.failed_eq
  rw [numberPass, behind.skipBlanks_eq]
  dsimp only
  cases tokens with
  | nil =>
    have atEnd : (stream.advance 1).atEnd = true := behind.before.atEnd_eq
    rw [if_neg (by simp [isGood, atEnd]), close_of_not_failed notFailed]
  | cons first rest =>
    rw [if_pos behind.before.stands.isGood, behind.readWord_advance]
    dsimp only
    rw [noNumber first rfl, behind.seek_advance]
    exact close_of_not_failed notFailed

/-- The loop over the numbers takes them all and stops before what is no number. -/
theorem reaches_numbers {values : List Float} {numbers : List Token}
    (read : List.Forall₂ (fun x number => Number.wholeNumber? number = some x) values numbers)
    (noNumber : NoNumber rest) (behind : stream.BehindWord (numbers ++ rest)) :
    Reaches ⟨settings, stream, some option⟩
      ⟨settings.set (.values values), stream.advance (' ' :: blockText numbers).length, none⟩ := by
  induction read generalizing settings stream with
  | nil => exact .single (numberPass_noNumber behind noNumber)
  | @cons x number values numbers here _ ih =>
    have later : Reaches
        ⟨settings.set (.values [x]), stream.advance (' ' :: number).length, some option⟩ _ :=
      ih behind.next
    rw [GridSettings.set_values_append, advance_advance] at later
    have length : (' ' :: number).length + (' ' :: blockText numbers).length =
        (' ' :: blockText (number :: numbers)).length := by
      rw [blockText_cons, ← List.cons_append, List.length_append]
    rw [length] at later
    exact .head (numberPass_number behind here) later

/--
From a state in which the stream is behind a name, the loops take the numbers of the tokens, append
their values to the list, and go on in front of the tokens that are left.
-/
structure TakesNumbers (state : BlockState) (stream : BlockStream)
    (tokens numbers left : List Token) (values : List Float) : Prop where
  tokens_eq : tokens = numbers ++ left
  values_eq : List.Forall₂ (fun x number => Number.wholeNumber? number = some x) values numbers
  noNumber : NoNumber left
  reaches : Reaches state
    ⟨state.settings.set (.values values), stream.advance (' ' :: blockText numbers).length, none⟩
  before : (stream.advance (' ' :: blockText numbers).length).Before left
  ends : left = [] → Ends state (.ok (state.settings.set (.values values)))

theorem takesNumbers (settings : GridSettings) (option : Token)
    (behind : stream.BehindWord tokens) : ∃ numbers,
      TakesNumbers ⟨settings, stream, some option⟩ stream tokens numbers
        (readNumbers tokens).2.val (readNumbers tokens).1 := by
  obtain ⟨numbers, split, read⟩ := readNumbers_eq tokens
  have noNumber := readNumbers_noNumber tokens
  have solid : ∀ token ∈ (readNumbers tokens).2.val, IsSolid token := fun token member =>
    behind.solid token (split ▸ List.mem_append_right _ member)
  have following : stream.BehindWord (numbers ++ (readNumbers tokens).2.val) := by
    rw [← split]
    exact behind
  have ahead_eq : stream.ahead =
      (' ' :: blockText numbers) ++ blockText (readNumbers tokens).2.val := by
    rw [following.ahead_eq, blockText_append, List.cons_append]
  have before := before_advance solid behind.failed_eq ahead_eq
  have reaches : Reaches ⟨settings, stream, some option⟩ _ :=
    reaches_numbers read noNumber following
  refine ⟨numbers, split, read, noNumber, reaches, before, fun none => .of_reaches reaches ?_⟩
  rw [none] at before
  exact .now (optionPass_nil before.stands)

/-! ### The other options -/

/-- The pass does to the stream what the reading of an option does to the tokens. -/
inductive PassOf (settings : GridSettings) (text : List Char) {rest : List Token} :
    Except Error (GridOption × Rest rest) → BlockPass → Prop
  | error {e : Error} : PassOf settings text (.error e) (.ends (.error e))
  | ok {option : GridOption} {left : Rest rest} {after : BlockStream}
      (text_eq : after.text = text) (stands : after.Stands left.val) :
      PassOf settings text (.ok (option, left)) (.next ⟨settings.set option, after, none⟩)

theorem passOf_close {text : List Char} {option : GridOption} {left : Rest rest} {name : Token}
    (text_eq : stream.text = text) (stands : stream.Stands left.val) :
    PassOf settings text (.ok (option, left)) (close (settings.set option) stream name) := by
  rw [close_of_not_failed stands.failed_eq]
  exact .ok text_eq stands

theorem passOf_setRead {β : Type} {read : List Char → Option (β × List Char)}
    (stands : stream.Stands rest) (stops : StopsAtBlank read) (make : β → GridOption) :
    PassOf settings stream.text (optionOf option make (Input.readFront read rest))
      (setRead settings option make (stream.readFront read)) := by
  cases found : Input.readFront read rest with
  | none =>
    rw [stands.readFront_none stops found]
    exact .error
  | some pair =>
    obtain ⟨x, left⟩ := pair
    obtain ⟨count, read, after⟩ := stands.readFront_some stops found
    rw [read]
    exact passOf_close (text_skipBlanks stream) after

theorem passOf_setPoints (stands : stream.Stands rest) :
    PassOf settings stream.text (readPoints option rest)
      (setPoints settings option stream.readInt64) := by
  have stops := stopsAtBlank_integer (-9223372036854775808) 9223372036854775807
  rw [readPoints, readInt64, BlockStream.readInt64]
  cases found : Input.readFront _ rest with
  | none =>
    rw [stands.readFront_none stops found]
    exact .error
  | some pair =>
    obtain ⟨count, left⟩ := pair
    obtain ⟨length, read, after⟩ := stands.readFront_some stops found
    rw [read, setPoints]
    dsimp only
    by_cases negative : count < 0
    · rw [if_pos negative, if_pos negative]
      exact .error
    · rw [if_neg negative, if_neg negative]
      exact passOf_close (text_skipBlanks stream) after

theorem passOf_setKind (stands : stream.Stands rest) :
    PassOf settings stream.text (readGridKind rest) (setKind settings option stream.readWord) := by
  cases rest with
  | nil =>
    rw [stands.readWord_nil]
    exact .error
  | cons name rest =>
    have after := stands.behindWord.stands
    have text_eq := text_skipBlanks stream
    rw [stands.readWord_cons, readGridKind, readWord]
    dsimp only
    split
    · rename_i word
      rw [setKind, word]
      exact passOf_close text_eq after
    · rename_i word
      rw [setKind, word]
      exact passOf_close text_eq after
    · rename_i word
      rw [setKind, word]
      exact passOf_close text_eq after
    · rw [setKind]
      split
      · contradiction
      · contradiction
      · contradiction
      · exact .error

theorem passOf_setOption (stands : stream.Stands rest) (notValues : keyword first ≠ "values")
    (before : Nat) : PassOf settings stream.text (readGridOption before first rest)
      (setOption settings first stream) := by
  rw [readGridOption]
  split
  · rename_i word
    rw [setOption, word]
    exact passOf_setKind stands
  · rename_i word
    rw [setOption, word]
    exact passOf_setPoints stands
  · rename_i word
    rw [setOption, word]
    exact passOf_setRead stands stopsAtBlank_real .radius
  · rename_i word
    rw [setOption, word]
    exact passOf_setRead stands stopsAtBlank_real .anisotropy
  · contradiction
  · rw [setOption]
    split
    · contradiction
    · contradiction
    · contradiction
    · contradiction
    · contradiction
    · exact .error

theorem optionPass_cons (settings : GridSettings) (stands : stream.Stands (first :: rest)) :
    optionPass settings stream =
      setOption settings first (stream.skipBlanks.advance first.length) := by
  rw [optionPass, stands.readWord_cons]
  dsimp only
  rw [if_neg (by simp [stands.behindWord.failed_eq])]

theorem optionPass_values (settings : GridSettings) (stands : stream.Stands (first :: rest))
    (isValues : keyword first = "values") :
    optionPass settings stream =
      .next ⟨settings, stream.skipBlanks.advance first.length, some first⟩ := by
  rw [optionPass_cons settings stands, setOption, isValues]
  rfl

theorem passOf_optionPass (settings : GridSettings) (stands : stream.Stands (first :: rest))
    (notValues : keyword first ≠ "values") (before : Nat) :
    PassOf settings stream.text (readGridOption before first rest)
      (optionPass settings stream) := by
  rw [optionPass_cons settings stands, ← text_skipBlanks stream]
  exact passOf_setOption stands.behindWord.stands notValues before

/-! ### Whole sections -/

theorem map_foldl_cons {x : Except Error (List GridOption)} {option : GridOption} :
    (x.map (option :: ·)).map (·.foldl .set settings) =
      x.map (·.foldl .set (settings.set option)) := by
  cases x <;> rfl

/-- The loops end with the options that are read off the tokens. -/
theorem ends_of_stands (settings : GridSettings) (stands : stream.Stands tokens) (before : Nat) :
    Ends ⟨settings, stream, none⟩
      ((readItems readGridOption before tokens).map (·.foldl .set settings)) := by
  -- Every option takes at least its name off the tokens.
  induction length : tokens.length using Nat.strongRecOn generalizing tokens settings stream before
  with
  | ind n ih =>
    subst length
    cases tokens with
    | nil =>
      rw [readItems_nil]
      exact .now (optionPass_nil stands)
    | cons first rest =>
      by_cases isValues : keyword first = "values"
      · have taken : readGridOption before first rest =
            .ok (.values (readNumbers rest).1, (readNumbers rest).2) := by
          rw [readGridOption, isValues]
          rfl
        obtain ⟨numbers, takes⟩ := takesNumbers settings first stands.behindWord
        rw [readItems_cons taken, map_foldl_cons]
        exact .later (optionPass_values settings stands isValues) (.of_reaches takes.reaches
          (ih _ (Nat.lt_succ_of_le (readNumbers rest).2.property) _ takes.before.stands _ rfl))
      · have pass := passOf_optionPass settings stands isValues before
        generalize eq : optionPass settings stream = led at pass
        cases taken : readGridOption before first rest with
        | error e =>
          rw [taken] at pass
          rw [readItems, taken]
          cases pass with
          | error => exact .now eq
        | ok found =>
          rw [taken] at pass
          rw [readItems_cons taken, map_foldl_cons]
          cases pass with
          | @ok option left after text_eq stands' =>
            exact .later eq (ih _ (Nat.lt_succ_of_le left.property) _ stands' _ rfl)

/-- The stream of the text is in front of tokens. In the loop over numbers it is behind a word. -/
inductive Sound (text : List Char) : BlockState → Prop
  | option {settings : GridSettings} {stream : BlockStream} {tokens : List Token}
      (text_eq : stream.text = text) (stands : stream.Stands tokens) :
      Sound text ⟨settings, stream, none⟩
  | number {settings : GridSettings} {stream : BlockStream} {tokens : List Token} {option : Token}
      (text_eq : stream.text = text) (behind : stream.BehindWord tokens) :
      Sound text ⟨settings, stream, some option⟩

theorem Sound.step {text : List Char} (sound : Sound text state)
    (pass : state.step = .next next) : Sound text next := by
  cases sound with
  | @option settings stream tokens text_eq stands =>
    change optionPass settings stream = .next next at pass
    cases tokens with
    | nil => exact absurd ((optionPass_nil stands).symm.trans pass) (by simp)
    | cons first rest =>
      by_cases isValues : keyword first = "values"
      · have named := optionPass_values settings stands isValues
        obtain rfl := BlockPass.next.inj (named.symm.trans pass)
        exact .number ((text_skipBlanks stream).trans text_eq) stands.behindWord
      · have led := passOf_optionPass settings stands isValues 0
        rw [pass] at led
        generalize readGridOption 0 first rest = taken at led
        cases led with
        | ok same stands' => exact .option (same.trans text_eq) stands'
  | @number settings stream tokens option text_eq behind =>
    change numberPass settings stream option = .next next at pass
    have stops (noNumber : NoNumber tokens) : Sound text next := by
      obtain rfl := BlockPass.next.inj ((numberPass_noNumber behind noNumber).symm.trans pass)
      exact .option text_eq behind.before.stands
    cases tokens with
    | nil => exact stops fun token member => by contradiction
    | cons first rest =>
      cases read : Number.wholeNumber? first with
      | none => exact stops fun token member => Option.some.inj member ▸ read
      | some x =>
        obtain rfl := BlockPass.next.inj ((numberPass_number behind read).symm.trans pass)
        exact .number text_eq behind.next

theorem Sound.reaches {text : List Char} (sound : Sound text state)
    (reaches : Reaches state next) : Sound text next := by
  induction reaches with
  | refl => exact sound
  | tail _ pass ih => exact ih.step pass

/-- The loop over the options has read `values`, and the stream is behind it. -/
structure MeetsValues (state : BlockState) (stream : BlockStream) : Prop where
  listing_eq : state.listing = none
  failed_eq : stream.failed = false
  word : ∃ word, state.stream.readWord = (word, stream) ∧ keyword word = "values"

theorem meetsValues_of_stands (stands : stream.Stands (first :: rest))
    (isValues : keyword first = "values") :
    MeetsValues ⟨settings, stream, none⟩ (stream.skipBlanks.advance first.length) :=
  ⟨rfl, stands.behindWord.failed_eq, first, stands.readWord_cons, isValues⟩

theorem Sound.takesNumbers {text : List Char} (sound : Sound text state)
    (meets : MeetsValues state stream) : ∃ following numbers left values,
      stream.text = text ∧ stream.BehindWord following ∧
        TakesNumbers state stream following numbers left values := by
  obtain ⟨listing_eq, failed_eq, word, read, isValues⟩ := meets
  cases sound with
  | number => contradiction
  | @option settings before tokens text_eq stands =>
    cases tokens with
    | nil =>
      obtain ⟨-, rfl⟩ := Prod.mk.inj (stands.readWord_nil.symm.trans read)
      contradiction
    | cons first rest =>
      obtain ⟨rfl, rfl⟩ := Prod.mk.inj (stands.readWord_cons.symm.trans read)
      obtain ⟨numbers, takes⟩ := BlockState.takesNumbers settings first stands.behindWord
      have pass := optionPass_values settings stands isValues
      exact ⟨rest, numbers, _, _, (text_skipBlanks before).trans text_eq, stands.behindWord,
        { takes with
          reaches := .head pass takes.reaches
          ends := fun none => .later pass (takes.ends none) }⟩

/--
The loops end on every section, as its tokens are read. Wherever they meet `values`, they append the
longest run of numbers after it and go on with the token that ends the run, with the stream in
order. The lists of a section make one list.
-/
theorem values_longest_run (solid : ∀ token ∈ tokens, IsSolid token) :
    (∀ result, Ends (start (blockText tokens)) result ↔
      result = (readItems readGridOption 0 tokens).map (·.foldl .set .empty)) ∧
    (∀ state stream, Reaches (start (blockText tokens)) state → MeetsValues state stream →
      ∃ following numbers left values,
        stream.text = blockText tokens ∧ stream.BehindWord following ∧
          TakesNumbers state stream following numbers left values) ∧
    ∀ grid, Ends (start (blockText tokens)) (.ok grid) →
      ∃ options, readItems readGridOption 0 tokens = .ok options ∧
        grid.values = options.flatMap GridOption.listed := by
  have stands := stands_start solid
  have ends := ends_of_stands .empty stands 0
  refine ⟨fun result => ⟨fun ends' => ends'.unique ends, fun eq => eq ▸ ends⟩, ?_, ?_⟩
  · intro state stream reaches meets
    exact (Sound.reaches (.option rfl stands) reaches).takesNumbers meets
  · intro grid ends'
    obtain ⟨options, read, rfl⟩ := map_eq_ok_iff.mp (ends'.unique ends).symm
    exact ⟨options, read, GridSettings.foldl_values .empty options⟩

/-! ### A section with two lists -/

def listTokens : List Token :=
  ["values", "1", "-2", "type", "explicit", "VALUES", "3"].map String.toList

theorem readItems_listTokens : readItems readGridOption 0 listTokens =
    .ok [.values [1.0, -2.0], .kind .explicit, .values [3.0]] := by
  have pair : SpellsGridOption (.values [1.0, -2.0]) (["values", "1", "-2"].map String.toList) :=
    .values rfl (.cons rfl (.cons rfl .nil))
  have kind : SpellsGridOption (.kind .explicit) (["type", "explicit"].map String.toList) :=
    .kind rfl rfl
  have single : SpellsGridOption (.values [3.0]) (["VALUES", "3"].map String.toList) :=
    .values rfl (.cons rfl .nil)
  exact readItems_gridOptions (.cons pair (.cons kind (.cons single .nil)))

theorem values_longest_run_two_lists :
    (∀ token ∈ listTokens, IsSolid token) ∧
      (∃ stream, MeetsValues (start (blockText listTokens)) stream) ∧
      ∃ grid, Ends (start (blockText listTokens)) (.ok grid) ∧ grid.values = [1.0, -2.0, 3.0] := by
  have solid : ∀ token ∈ listTokens, IsSolid token := by decide +kernel
  obtain ⟨ends, -, -⟩ := values_longest_run solid
  rw [readItems_listTokens] at ends
  have stands : (BlockStream.ofText (blockText listTokens)).Stands listTokens := stands_start solid
  have meets : MeetsValues (start (blockText listTokens)) _ := meetsValues_of_stands stands rfl
  exact ⟨solid, ⟨_, meets⟩, _, (ends _).mpr rfl, rfl⟩

end BlockState

/-! ### Sections of a file -/

theorem Sections.isSolid_grid {text : String} {sections : Sections}
    (ok : Sections.ofText text = .ok sections) : ∀ token ∈ sections.grid, IsSolid token := by
  intro token member
  rw [ofText] at ok
  obtain ⟨found, collected, ok⟩ := bind_eq_ok_iff.mp ok
  split at ok
  · cases ok
    have inFile := mem_grid_of_collect collected member
    rw [map_numberedTokens] at inFile
    have isToken := (layout_fileTokens text.toList).2 token inFile
    exact ⟨isToken.ne_nil, isToken.solid⟩
  · contradiction

/-- The loops over the stream end with the grid settings of the file. -/
theorem Settings.ends_of_ofText {text : String} {settings : Settings}
    (ok : Settings.ofText text = .ok settings) : ∃ sections, Sections.ofText text = .ok sections ∧
      (BlockState.start (blockText sections.grid)).Ends (.ok settings.grid) := by
  obtain ⟨items, ⟨sections, found, inSections⟩, rfl⟩ := settings_ofText_iff.mp ok
  have stands := stands_start (Sections.isSolid_grid found)
  have ends := BlockState.ends_of_stands .empty stands 0
  rw [inSections.grid_eq] at ends
  exact ⟨sections, found, ends⟩

end GaussianRadial.Input
