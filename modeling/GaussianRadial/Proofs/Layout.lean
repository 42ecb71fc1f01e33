import Mathlib
import GaussianRadial.Input.Token

/-!
# The layout of tokens

A file lays its tokens out with blanks and comments between them. `Layout` gives the rules, and
`layout_iff` says that the tokens of the lines are those that the rules give, for every text.
-/

namespace GaussianRadial.Input

/-! ### Runs between separators -/

section Split
variable {isSeparator : Char → Bool}

theorem splitFrom_eq (runs : List (List Char)) (run text : List Char) :
    splitFrom isSeparator runs run text =
      runs.reverse ++ (split isSeparator text).modifyHead (run.reverse ++ ·) := by
  induction text generalizing runs run with
  | nil => simp [splitFrom, split]
  | cons c rest ih =>
    rw [split, splitFrom, splitFrom]
    split
    · rw [ih, ih [[].reverse]]
      simp
    · rw [ih, ih [] [c]]
      cases split isSeparator rest <;> simp

theorem split_cons_separator {c : Char} (separator : isSeparator c = true) (text : List Char) :
    split isSeparator (c :: text) = [] :: split isSeparator text := by
  rw [split, splitFrom, if_pos separator, splitFrom_eq]
  cases split isSeparator text <;> simp

theorem split_cons {c : Char} (inside : isSeparator c = false) (text : List Char) :
    split isSeparator (c :: text) = (split isSeparator text).modifyHead (c :: ·) := by
  rw [split, splitFrom, if_neg (by simp [inside]), splitFrom_eq]
  simp

theorem split_append {run : List Char} (inside : ∀ c ∈ run, isSeparator c = false)
    (text : List Char) :
    split isSeparator (run ++ text) = (split isSeparator text).modifyHead (run ++ ·) := by
  induction run with
  | nil => cases h : split isSeparator text <;> simp [h]
  | cons c run ih =>
    obtain ⟨here, later⟩ := List.forall_mem_cons.mp inside
    rw [List.cons_append, split_cons here, ih later]
    cases split isSeparator text <;> simp

theorem exists_split (isSeparator : Char → Bool) (text : List Char) :
    ∃ run runs, split isSeparator text = run :: runs := by
  induction text with
  | nil => exact ⟨[], [], rfl⟩
  | cons c text ih =>
    obtain ⟨run, runs, eq⟩ := ih
    cases h : isSeparator c with
    | true => exact ⟨_, _, split_cons_separator h text⟩
    | false => exact ⟨c :: run, runs, by rw [split_cons h, eq, List.modifyHead_cons]⟩

theorem split_append_separator {c : Char} (separator : isSeparator c = true)
    (text rest : List Char) :
    split isSeparator (text ++ c :: rest) = split isSeparator text ++ split isSeparator rest := by
  induction text with
  | nil => exact split_cons_separator separator rest
  | cons d text ih =>
    obtain ⟨run, runs, eq⟩ := exists_split isSeparator text
    rw [List.cons_append]
    cases here : isSeparator d with
    | true => rw [split_cons_separator here, split_cons_separator here, ih, List.cons_append]
    | false => rw [split_cons here, split_cons here, ih, eq]; rfl

/-- The text ends or goes on with a separator. -/
def Stops (isSeparator : Char → Bool) (text : List Char) : Prop :=
  ∀ c ∈ text.head?, isSeparator c = true

theorem Stops.split_eq {text : List Char} (stops : Stops isSeparator text) :
    ∃ runs, split isSeparator text = [] :: runs := by
  cases text with
  | nil => exact ⟨[], rfl⟩
  | cons c text => exact ⟨_, split_cons_separator (stops c rfl) text⟩

theorem stops_dropWhile (isSeparator : Char → Bool) (text : List Char) :
    Stops isSeparator (text.dropWhile fun c => !isSeparator c) := by
  intro c first
  have := List.head?_dropWhile_not (fun c => !isSeparator c) text
  rw [Option.mem_def.mp first] at this
  simpa using this

end Split

/-! ### Tokens of a line -/

/-- A run without blanks that does not start a comment. -/
structure IsToken (token : Token) : Prop where
  ne_nil : token ≠ []
  solid : ∀ c ∈ token, isBlank c = false
  starts : token.head? ≠ some '#'

theorem tokens_append_blank {c : Char} (blank : isBlank c = true) (front back : List Char) :
    tokens (front ++ c :: back) = tokens front ++ tokens back := by
  rw [tokens, tokens, tokens, split_append_separator blank, List.filter_append]

theorem tokens_blank {c : Char} (blank : isBlank c = true) (line : List Char) :
    tokens (c :: line) = tokens line :=
  tokens_append_blank blank [] line

theorem lineTokens_nil : lineTokens [] = [] := rfl

theorem lineTokens_blank {c : Char} (blank : isBlank c = true) (line : List Char) :
    lineTokens (c :: line) = lineTokens line := by
  simp [lineTokens, tokens, split_cons_separator blank]

theorem lineTokens_comment (body : List Char) : lineTokens ('#' :: body) = [] := by
  obtain ⟨run, runs, eq⟩ := exists_split isBlank body
  rw [lineTokens, tokens, split_cons rfl, eq]
  rfl

theorem lineTokens_append {token : Token} (isToken : IsToken token) {line : List Char}
    (stops : Stops isBlank line) : lineTokens (token ++ line) = token :: lineTokens line := by
  obtain ⟨runs, eq⟩ := stops.split_eq
  have filled : token.isEmpty = false := by simpa using isToken.ne_nil
  have goesOn : isComment token = false := by simpa [isComment] using isToken.starts
  simp [lineTokens, tokens, split_append isToken.solid, eq, filled, goesOn]

/-! ### Lines -/

theorem lines_newLine (text : List Char) : lines ('\n' :: text) = [] :: lines text :=
  split_cons_separator rfl text

theorem lines_append {run : List Char} (within : ∀ c ∈ run, c ≠ '\n') (text : List Char) :
    lines (run ++ text) = (lines text).modifyHead (run ++ ·) :=
  split_append (fun c member => beq_false_of_ne (within c member)) text

theorem exists_lines (text : List Char) : ∃ line later, lines text = line :: later :=
  exists_split _ text

theorem ne_newLine_of_solid {c : Char} (solid : isBlank c = false) : c ≠ '\n' := by
  rintro rfl
  exact absurd solid (by decide)

theorem Stops.first_line {text line : List Char} {later : List (List Char)}
    (stops : Stops isBlank text) (eq : lines text = line :: later) : Stops isBlank line := by
  cases text with
  | nil =>
    obtain ⟨rfl, -⟩ := List.cons.inj eq
    exact fun c first => nomatch first
  | cons c text =>
    by_cases newLine : c = '\n'
    · subst newLine
      obtain ⟨rfl, -⟩ := List.cons.inj ((lines_newLine text).symm.trans eq)
      exact fun c first => nomatch first
    · obtain ⟨rest, others, tail⟩ := exists_lines text
      have here : lines ([c] ++ text) = (c :: rest) :: others := by
        rw [lines_append (by simpa using newLine), tail, List.modifyHead_cons,
          List.singleton_append]
      obtain ⟨rfl, -⟩ := List.cons.inj (here.symm.trans eq)
      exact stops

/-! ### Tokens of a file -/

/-- The tokens of all lines. -/
def fileTokens (text : List Char) : List Token := (lines text).flatMap lineTokens

theorem map_numberedTokens (text : List Char) :
    (numberedTokens text).map Prod.snd = fileTokens text := by
  rw [numberedTokens, fileTokens, List.map_flatMap]
  generalize 1 = first
  induction lines text generalizing first with
  | nil => rfl
  | cons line later ih =>
    rw [List.zipIdx_cons, List.flatMap_cons, ih, List.flatMap_cons]
    simp

theorem fileTokens_blank {c : Char} (blank : isBlank c = true) (text : List Char) :
    fileTokens (c :: text) = fileTokens text := by
  by_cases newLine : c = '\n'
  · subst newLine
    rw [fileTokens, lines_newLine]
    rfl
  · obtain ⟨line, later, eq⟩ := exists_lines text
    have here : lines ([c] ++ text) = (c :: line) :: later := by
      rw [lines_append (by simpa using newLine), eq, List.modifyHead_cons, List.singleton_append]
    rw [List.singleton_append] at here
    rw [fileTokens, fileTokens, here, eq, List.flatMap_cons, List.flatMap_cons,
      lineTokens_blank blank]

theorem fileTokens_comment {body text : List Char} (within : ∀ c ∈ body, c ≠ '\n')
    (stops : Stops (· == '\n') text) : fileTokens ('#' :: body ++ text) = fileTokens text := by
  obtain ⟨later, eq⟩ := stops.split_eq
  replace eq : lines text = [] :: later := eq
  have solid : ∀ c ∈ '#' :: body, c ≠ '\n' := List.forall_mem_cons.mpr ⟨by decide, within⟩
  rw [fileTokens, fileTokens, lines_append solid, eq, List.modifyHead_cons, List.append_nil,
    List.flatMap_cons, List.flatMap_cons, lineTokens_comment, lineTokens_nil]

theorem fileTokens_append {token : Token} (isToken : IsToken token) {text : List Char}
    (stops : Stops isBlank text) : fileTokens (token ++ text) = token :: fileTokens text := by
  have within : ∀ c ∈ token, c ≠ '\n' :=
    fun c member => ne_newLine_of_solid (isToken.solid c member)
  obtain ⟨line, later, eq⟩ := exists_lines text
  rw [fileTokens, fileTokens, lines_append within, eq, List.modifyHead_cons, List.flatMap_cons,
    List.flatMap_cons, lineTokens_append isToken (stops.first_line eq), List.cons_append]

/-! ### Layouts -/

/--
The tokens stand in the text in their order. Between them are blanks, at least one after each
token, and comments, which start where a token could start and take the rest of their line.
-/
inductive Layout : List Char → List Token → Prop
  | done : Layout [] []
  | blank {c : Char} {text : List Char} {tokens : List Token} (blank : isBlank c = true)
      (rest : Layout text tokens) : Layout (c :: text) tokens
  | comment {body text : List Char} {tokens : List Token} (within : ∀ c ∈ body, c ≠ '\n')
      (stops : Stops (· == '\n') text) (rest : Layout text tokens) :
      Layout ('#' :: body ++ text) tokens
  | token {token : Token} {text : List Char} {tokens : List Token} (stops : Stops isBlank text)
      (rest : Layout text tokens) : Layout (token ++ text) (token :: tokens)

theorem Layout.fileTokens_eq {text : List Char} {tokens : List Token}
    (layout : Layout text tokens) (isTokens : ∀ token ∈ tokens, IsToken token) :
    fileTokens text = tokens := by
  induction layout with
  | done => rfl
  | blank blank _ ih => rw [fileTokens_blank blank, ih isTokens]
  | comment within stops _ ih => rw [fileTokens_comment within stops, ih isTokens]
  | token stops _ ih =>
    obtain ⟨here, later⟩ := List.forall_mem_cons.mp isTokens
    rw [fileTokens_append here stops, ih later]

theorem layout_fileTokens (text : List Char) :
    Layout text (fileTokens text) ∧ ∀ token ∈ fileTokens text, IsToken token := by
  -- Each case takes at least one character off the front.
  induction length : text.length using Nat.strongRecOn generalizing text with
  | ind n ih =>
    subst length
    cases text with
    | nil => exact ⟨.done, fun token member => nomatch member⟩
    | cons c rest =>
      cases blank : isBlank c with
      | true =>
        obtain ⟨layout, isTokens⟩ := ih _ (Nat.lt_succ_self _) rest rfl
        rw [fileTokens_blank blank]
        exact ⟨.blank blank layout, isTokens⟩
      | false =>
        by_cases comment : c = '#'
        · subst comment
          rw [← List.takeWhile_append_dropWhile (p := fun c => !(c == '\n')) (l := rest),
            ← List.cons_append]
          have within : ∀ c ∈ rest.takeWhile fun c => !(c == '\n'), c ≠ '\n' := by
            intro c member
            simpa using List.mem_takeWhile_imp member
          have stops := stops_dropWhile (· == '\n') rest
          obtain ⟨layout, isTokens⟩ :=
            ih _ (Nat.lt_succ_of_le (List.dropWhile_sublist _).length_le) _ rfl
          rw [fileTokens_comment within stops]
          exact ⟨.comment within stops layout, isTokens⟩
        · rw [← List.takeWhile_append_dropWhile (p := fun c => !isBlank c) (l := rest),
            ← List.cons_append]
          have isToken : IsToken (c :: rest.takeWhile fun c => !isBlank c) := by
            refine ⟨List.cons_ne_nil _ _, ?_, by simpa using comment⟩
            refine List.forall_mem_cons.mpr ⟨blank, fun c member => ?_⟩
            simpa using List.mem_takeWhile_imp member
          have stops := stops_dropWhile isBlank rest
          obtain ⟨layout, isTokens⟩ :=
            ih _ (Nat.lt_succ_of_le (List.dropWhile_sublist _).length_le) _ rfl
          rw [fileTokens_append isToken stops]
          exact ⟨.token stops layout, List.forall_mem_cons.mpr ⟨isToken, isTokens⟩⟩

/-- The rules of a layout give every text its tokens and no others. -/
theorem layout_iff {text : List Char} {tokens : List Token} :
    Layout text tokens ∧ (∀ token ∈ tokens, IsToken token) ↔ fileTokens text = tokens :=
  ⟨fun h => h.1.fileTokens_eq h.2, fun eq => eq ▸ layout_fileTokens text⟩

end GaussianRadial.Input
