import Mathlib
import GaussianRadial.Proofs.FoldedNumbers
import GaussianRadial.Proofs.RoundTrip

/-!
# Upper and lower case

An input file is read like the file in lower case, up to the tokens that an error names. So files
that differ in the case of letters alone, wherever they stand, give the same job or none, with the
same warnings.
-/

namespace GaussianRadial.Input

/-! ### Results up to errors -/

theorem toOption_map {ε α β : Type} (f : α → β) (x : Except ε α) :
    (x.map f).toOption = x.toOption.map f := by
  cases x <;> rfl

theorem toOption_bind {ε α β : Type} (x : Except ε α) (f : α → Except ε β) :
    (x >>= f).toOption = x.toOption.bind fun a => (f a).toOption := by
  cases x <;> rfl

/-! ### Tokens -/

theorem split_folded {isSeparator : Char → Bool}
    (same : ∀ c, isSeparator c.toLower = isSeparator c) (text : List Char) :
    split isSeparator (folded text) = (split isSeparator text).map folded := by
  induction text with
  | nil => rfl
  | cons c text ih =>
    show split isSeparator (c.toLower :: folded text) = _
    cases here : isSeparator c with
    | true =>
      rw [split_cons_separator here, split_cons_separator ((same c).trans here), ih]
      rfl
    | false =>
      obtain ⟨run, runs, eq⟩ := exists_split isSeparator text
      rw [split_cons here, split_cons ((same c).trans here), ih, eq]
      rfl

theorem isComment_folded (token : Token) : isComment (folded token) = isComment token := by
  cases token with
  | nil => rfl
  | cons c token =>
    rw [Bool.eq_iff_iff]
    simpa [isComment, folded] using toLower_eq_iff (c := c) (d := '#') (by decide)

theorem lines_folded (text : List Char) : lines (folded text) = (lines text).map folded := by
  apply split_folded
  intro c
  rw [Bool.eq_iff_iff]
  simpa using toLower_eq_iff (c := c) (d := '\n') (by decide)

theorem lineTokens_folded (line : List Char) :
    lineTokens (folded line) = (lineTokens line).map folded := by
  have filled : (fun token : Token => !token.isEmpty) ∘ folded = fun token => !token.isEmpty := by
    funext token
    cases token <;> rfl
  have goesOn : (fun token => !isComment token) ∘ folded = fun token => !isComment token := by
    funext token
    rw [Function.comp_apply, isComment_folded]
  rw [lineTokens, tokens, split_folded isBlank_toLower, List.filter_map, filled,
    List.takeWhile_map, goesOn]
  rfl

theorem numberedTokens_folded (text : List Char) :
    numberedTokens (folded text) = (numberedTokens text).map (Prod.map id folded) := by
  rw [numberedTokens, numberedTokens, lines_folded, List.zipIdx_map, List.flatMap_map,
    List.map_flatMap]
  apply List.flatMap_congr
  rintro ⟨line, number⟩ -
  simp only [Prod.map, id, lineTokens_folded, List.map_map]
  rfl

theorem keyword_folded (token : Token) : keyword (folded token) = keyword token := by
  show String.ofList (folded (folded token)) = _
  rw [folded_folded]
  rfl

/-! ### Sections -/

def Sections.folded (sections : Sections) : Sections where
  hasGrid := sections.hasGrid
  grid := sections.grid.map Input.folded
  integrals := sections.integrals.map Input.folded
  output := sections.output.map Input.folded

theorem Sections.collect_folded (state : Open) (numbered : List (Nat × Token)) :
    (collect state (numbered.map (Prod.map id Input.folded))).toOption =
      (collect state numbered).toOption.map Sections.folded := by
  induction numbered generalizing state with
  | nil => rfl
  | cons entry numbered ih =>
    obtain ⟨line, token⟩ := entry
    rw [List.map_cons]
    show (collect state ((line, Input.folded token) :: _)).toOption = _
    rw [collect, collect, keyword_folded]
    split
    · simp only [toOption_map, ih, Option.map_map]
      rfl
    · exact ih _
    · exact ih _
    · exact ih _
    · split
      · simp only [toOption_map, ih, Option.map_map]
        rfl
      · split
        · simp only [toOption_map, ih, Option.map_map]
          rfl
        · split
          · simp only [toOption_map, ih, Option.map_map]
            rfl
          · rfl

theorem Sections.ofText_folded (text : String) :
    (ofText (lowerCase text)).toOption = (ofText text).toOption.map Sections.folded := by
  have lower : (lowerCase text).toList = Input.folded text.toList := String.toList_ofList
  rw [ofText, ofText, lower, numberedTokens_folded, toOption_bind, toOption_bind, collect_folded]
  cases collect Open.closed (numberedTokens text.toList) with
  | error e => rfl
  | ok sections =>
    obtain ⟨hasGrid, grid, integrals, output⟩ := sections
    cases hasGrid <;> rfl

/-! ### Values -/

def Rest.folded {tokens : List Token} (left : Rest tokens) : Rest (tokens.map Input.folded) :=
  ⟨left.val.map Input.folded, by simpa using left.property⟩

section Values
variable (tokens : List Token)

theorem readFront_folded {β : Type} {read : List Char → Option (β × List Char)}
    (same : ∀ text, read (folded text) = (read text).map (Prod.map id folded)) :
    readFront read (tokens.map folded) =
      (readFront read tokens).map (Prod.map id Rest.folded) := by
  cases tokens with
  | nil => rfl
  | cons token rest =>
    show readFront read (folded token :: rest.map folded) = _
    rw [readFront, readFront, same]
    cases read token with
    | none => rfl
    | some found =>
      obtain ⟨x, left⟩ := found
      cases left <;> rfl

theorem readReal_tokens_folded :
    readReal (tokens.map folded) = (readReal tokens).map (Prod.map id Rest.folded) :=
  readFront_folded tokens readReal_folded

theorem readInt32_folded :
    readInt32 (tokens.map folded) = (readInt32 tokens).map (Prod.map id Rest.folded) :=
  readFront_folded tokens (readInteger_folded _ _)

theorem readInt64_folded :
    readInt64 (tokens.map folded) = (readInt64 tokens).map (Prod.map id Rest.folded) :=
  readFront_folded tokens (readInteger_folded _ _)

theorem readWord_folded :
    readWord (tokens.map folded) = Prod.map folded Rest.folded (readWord tokens) := by
  cases tokens <;> rfl

theorem readNumbers_folded :
    readNumbers (tokens.map folded) = Prod.map id Rest.folded (readNumbers tokens) := by
  induction tokens with
  | nil => rfl
  | cons token rest ih =>
    show readNumbers (folded token :: rest.map folded) = _
    rw [readNumbers, readNumbers, wholeNumber?_folded]
    cases Number.wholeNumber? token with
    | none => rfl
    | some x =>
      dsimp only
      rw [ih]
      rfl

end Values

/-! ### Items -/

/-- From tokens in lower case the reader takes the item that it takes from the tokens. -/
def IgnoresCase {ι : Type} (read : ItemReader ι) : Prop :=
  ∀ before first rest, (read before (folded first) (rest.map folded)).toOption =
    (read before first rest).toOption.map (Prod.map id Rest.folded)

theorem readGridOption_ignoresCase : IgnoresCase readGridOption := by
  intro before option rest
  have real (make : Float → GridOption) :
      (optionOf (folded option) make (readReal (rest.map folded))).toOption =
        (optionOf option make (readReal rest)).toOption.map (Prod.map id Rest.folded) := by
    rw [readReal_tokens_folded]
    cases readReal rest <;> rfl
  simp only [readGridOption, keyword_folded]
  split
  · simp only [readGridKind, readWord_folded, Prod.map, keyword_folded]
    split <;> rfl
  · simp only [readPoints, readInt64_folded]
    cases readInt64 rest with
    | none => rfl
    | some found =>
      dsimp only [Option.map_some, Prod.map, id]
      split <;> rfl
  · exact real .radius
  · exact real .anisotropy
  · rw [readNumbers_folded]
    rfl
  · rfl

theorem readSecondOrder_folded (kind : IntegralKind) (tokens : List Token) :
    readSecondOrder kind (tokens.map folded) =
      (readSecondOrder kind tokens).map (Prod.map id Rest.folded) := by
  cases kind with
  | innerPotential => exact readInt32_folded tokens
  | inner => rfl
  | outer => rfl

theorem readParameters_folded (kind : IntegralKind) (tokens : List Token) :
    readParameters kind (tokens.map folded) =
      (readParameters kind tokens).map (Prod.map id Rest.folded) := by
  rw [readParameters, readParameters, readReal_tokens_folded]
  -- Each number is read from what the one before it leaves, so the equations are used one by one.
  rcases readReal tokens with _ | ⟨alpha, left₁⟩
  · rfl
  have order : readInt32 left₁.folded.val =
      (readInt32 left₁.val).map (Prod.map id Rest.folded) := readInt32_folded _
  dsimp only [Option.map_some, Prod.map, id]
  rw [order]
  rcases readInt32 left₁.val with _ | ⟨l₁, left₂⟩
  · rfl
  have second : readSecondOrder kind left₂.folded.val =
      (readSecondOrder kind left₂.val).map (Prod.map id Rest.folded) := readSecondOrder_folded _ _
  dsimp only [Option.map_some, Prod.map, id]
  rw [second]
  rcases readSecondOrder kind left₂.val with _ | ⟨l₂, left₃⟩ <;> rfl

theorem readRequest_ignoresCase : IgnoresCase readRequest := by
  intro before token rest
  have kind : kindOf? (folded token) = kindOf? token := by
    rw [kindOf?, kindOf?, keyword_folded]
  rw [readRequest, readRequest, kind]
  cases kindOf? token with
  | none => rfl
  | some kind =>
    dsimp only
    rw [readParameters_folded]
    cases readParameters kind rest <;> rfl

-- The option is named in an error only, so it does not matter in which case it is given.
theorem readBoolean_folded (value option : Token) (sectionName : String) :
    (readBoolean (String.ofList (folded value)) (String.ofList (folded option))
      sectionName).toOption =
      (readBoolean (String.ofList value) (String.ofList option) sectionName).toOption := by
  rw [readBoolean, readBoolean, lowerCase_ofList, lowerCase_ofList, keyword_folded]
  split <;> rfl

theorem readLimits_folded (option : Token) (rest : List Token) :
    (readLimits (folded option) (rest.map folded)).toOption =
      (readLimits option rest).toOption.map (Prod.map id Rest.folded) := by
  have truth := readBoolean_folded (readWord rest).1 option "$output"
  simp only [readLimits, readWord_folded, Prod.map]
  cases lower : readBoolean (String.ofList (folded (readWord rest).1))
      (String.ofList (folded option)) "$output" <;>
    cases here : readBoolean (String.ofList (readWord rest).1) (String.ofList option) "$output"
  all_goals
    rw [lower, here] at truth
  · rfl
  · contradiction
  · contradiction
  · obtain rfl := Option.some.inj truth
    rfl

theorem readOutputOption_ignoresCase : IgnoresCase readOutputOption := by
  intro before option rest
  simp only [readOutputOption, keyword_folded]
  split
  · simp only [readFormat, readWord_folded, Prod.map, keyword_folded]
    split <;> rfl
  · rw [readInt32_folded]
    cases readInt32 rest <;> rfl
  · exact readLimits_folded option rest
  · rfl

theorem readItems_folded {ι : Type} {read : ItemReader ι} (ignores : IgnoresCase read)
    (before : Nat) (tokens : List Token) :
    (readItems read before (tokens.map folded)).toOption =
      (readItems read before tokens).toOption := by
  fun_induction readItems read before tokens with
  | case1 => rw [List.map_nil, readItems_nil]
  | case2 before first rest e here =>
    have lower := ignores before first rest
    rw [here] at lower
    rw [List.map_cons, readItems]
    cases found : read before (folded first) (rest.map folded) with
    | error e' => rfl
    | ok found' =>
      rw [found] at lower
      contradiction
  | case3 before first rest item left here ih =>
    have lower := ignores before first rest
    rw [here] at lower
    cases found : read before (folded first) (rest.map folded) with
    | error e =>
      rw [found] at lower
      contradiction
    | ok found' =>
      rw [found] at lower
      obtain rfl := Option.some.inj lower
      rw [List.map_cons, readItems_cons found, toOption_map, toOption_map]
      exact congrArg _ ih

/-! ### Files -/

theorem Settings.ofSections_folded (sections : Sections) :
    (ofSections sections.folded).toOption = (ofSections sections).toOption := by
  simp only [ofSections, toOption_bind, Sections.folded,
    readItems_folded readGridOption_ignoresCase, readItems_folded readRequest_ignoresCase,
    readItems_folded readOutputOption_ignoresCase]

theorem Settings.ofText_lowerCase (text : String) :
    (ofText (lowerCase text)).toOption = (ofText text).toOption := by
  rw [ofText, ofText, toOption_bind, toOption_bind, Sections.ofText_folded, Option.bind_map]
  exact congrArg _ (funext ofSections_folded)

/-- The characters are one letter, or equal. Only ASCII letters have another case. -/
def SameLetter (c d : Char) : Prop := d = c ∨ d = c.toUpper ∨ d = c.toLower

instance (c d : Char) : Decidable (SameLetter c d) :=
  inferInstanceAs (Decidable (d = c ∨ d = c.toUpper ∨ d = c.toLower))

/-- The texts differ in the case of letters at most. -/
def SameLetters (text text' : String) : Prop :=
  List.Forall₂ SameLetter text.toList text'.toList

instance (text text' : String) : Decidable (SameLetters text text') :=
  decidable_of_iff (text.toList.length = text'.toList.length ∧
      ∀ pair ∈ text.toList.zip text'.toList, SameLetter pair.1 pair.2) <| by
    rw [SameLetters, List.forall₂_iff_zip]
    exact and_congr_right fun _ => ⟨fun all c d member => all (c, d) member,
      fun all pair member => all member⟩

theorem SameLetters.lowerCase_eq {text text' : String} (same : SameLetters text text') :
    lowerCase text = lowerCase text' := by
  have each {letters letters' : List Char} (same : List.Forall₂ SameLetter letters letters') :
      folded letters = folded letters' := by
    induction same with
    | nil => rfl
    | @cons c d _ _ here _ ih =>
      have lower : c.toLower = d.toLower := by
        rcases here with rfl | rfl | rfl
        · rfl
        · exact (Char.toLower_toUpper_eq_toLower c).symm
        · exact (Char.toLower_toLower_eq_toLower c).symm
      exact congrArg₂ List.cons lower ih
  exact congrArg String.ofList (each same)

/--
Files that differ in the case of letters, in marks, words, numbers or comments, give the same job or
are both refused, and they have the same warnings in either case.
-/
theorem Reader.read_of_sameLetters {text text' : String} (same : SameLetters text text')
    (reader : Reader) :
    (∀ job, (reader.read (some text)).1 = .ok job ↔ (reader.read (some text')).1 = .ok job) ∧
      (reader.read (some text)).2 = (reader.read (some text')).2 := by
  have settings : (Settings.ofText text).toOption = (Settings.ofText text').toOption := by
    rw [← Settings.ofText_lowerCase text, ← Settings.ofText_lowerCase text', same.lowerCase_eq]
  simp only [read, ofFile, ofText]
  cases here : Settings.ofText text <;> cases there : Settings.ofText text'
  all_goals
    rw [here, there] at settings
  · exact ⟨fun job => ⟨fun ok => by contradiction, fun ok => by contradiction⟩, rfl⟩
  · contradiction
  · contradiction
  · obtain rfl := Option.some.inj settings
    exact ⟨fun job => Iff.rfl, rfl⟩

/-- `scatteredText` with other letters small and capital. -/
def shoutedText : String :=
  "$Integrals C0 0.5 2\n  CI 1E0 0 c0A 2 3 1 # TWO orders\n$END\n"
    ++ "$GRID\tValues 0 .5\n POINTS 3 # unused VALUES\n\n RMAX 2 $End $oUTPUT LiMiTs false $end"

theorem Reader.read_of_sameLetters_shouted :
    SameLetters scatteredText shoutedText ∧
      ∃ job, ((Reader.ofName "letters").read (some scatteredText)).1 = .ok job ∧
        ((Reader.ofName "letters").read (some shoutedText)).1 = .ok job ∧
        ((Reader.ofName "letters").read (some shoutedText)).2.warnings = [.valuesWithoutKind] := by
  have same : SameLetters scatteredText shoutedText := by
    decide +kernel
  obtain ⟨job, accepted⟩ := scattered_job
  obtain ⟨jobs, warnings⟩ := Reader.read_of_sameLetters same (Reader.ofName "letters")
  rw [scattered_read] at jobs warnings ⊢
  exact ⟨same, job, accepted, (jobs job).mp accepted, by rw [← warnings]⟩

end GaussianRadial.Input
