import Mathlib
import GaussianRadial.Proofs.SectionOrder

/-!
# Marks

The scanner sets one flag at each opening mark and clears all of them at `$end`. So it refuses a
text for a token that no opening mark covers, and for nothing else: `collect_ok_iff`. It does not
ask that the marks take turns, which they do in a sequence of blocks: `alternates_iff`.
-/

namespace GaussianRadial.Input

/-- Every token that is no mark comes after an opening mark, with no `$end` between them. -/
def covered (inside : Bool) : List Token → Bool
  | [] => true
  | token :: rest =>
    if IsContent token then inside && covered inside rest
    else covered (keyword token != "$end") rest

/-- Opening marks and `$end` take turns up to a last `$end`, with all other tokens between the two. -/
def alternates (inside : Bool) : List Token → Bool
  | [] => !inside
  | token :: rest =>
    if IsContent token then inside && alternates inside rest
    else inside == (keyword token == "$end") && alternates (!inside) rest

/-! ### Tokens that are covered -/

namespace Sections

/-- Some section is open. -/
def Open.inside (state : Open) : Bool := state.grid || state.integrals || state.output

section Collect
variable {state : Open} {line : Nat} {token : Token} {rest : List (Nat × Token)}

theorem Open.inside_after (isMark : ¬ IsContent token) :
    (state.after (keyword token)).inside = (keyword token != "$end") := by
  rcases not_isContent.mp isMark with eq | ⟨kind, eq⟩
  · rw [eq]
    rfl
  · rw [eq]
    cases kind <;> simp [Open.after, Open.inside, SectionKind.mark]

theorem collect_inside (content : IsContent token) (inside : state.inside = true) :
    ∃ kind, collect state ((line, token) :: rest) =
      (collect state rest).map (prepend kind [token]) := by
  rw [collect_content_token content]
  obtain ⟨grid, integrals, output⟩ := state
  cases grid with
  | true => exact ⟨.grid, rfl⟩
  | false =>
    cases integrals with
    | true => exact ⟨.integrals, rfl⟩
    | false =>
      obtain rfl : output = true := by simpa [Open.inside] using inside
      exact ⟨.output, rfl⟩

theorem collect_outside (content : IsContent token) (outside : state.inside = false) :
    collect state ((line, token) :: rest) = .error (.unexpectedToken line token) := by
  rw [collect_content_token content]
  obtain ⟨grid, integrals, output⟩ := state
  simp only [Open.inside, Bool.or_eq_false_iff] at outside
  obtain ⟨⟨rfl, rfl⟩, rfl⟩ := outside
  rfl

/-- A scan that does not fail puts a token into a section or takes it as a mark. -/
theorem collect_cons_ok {sections : Sections}
    (ok : collect state ((line, token) :: rest) = .ok sections) :
    (IsContent token ∧ ∃ kind later, collect state rest = .ok later ∧
      prepend kind [token] later = sections) ∨
    (¬ IsContent token ∧ ∃ later, collect (state.after (keyword token)) rest = .ok later ∧
      { later with hasGrid := keyword token == "$grid" || later.hasGrid } = sections) := by
  by_cases content : IsContent token
  · cases inside : state.inside with
    | false =>
      rw [collect_outside content inside] at ok
      contradiction
    | true =>
      obtain ⟨kind, eq⟩ := collect_inside content inside
      rw [eq, map_eq_ok_iff] at ok
      obtain ⟨later, ok, same⟩ := ok
      exact .inl ⟨content, kind, later, ok, same⟩
  · rw [collect_mark content, map_eq_ok_iff] at ok
    obtain ⟨later, ok, same⟩ := ok
    exact .inr ⟨content, later, ok, same⟩

end Collect

theorem collect_hasGrid {state : Open} {numbered : List (Nat × Token)} {sections : Sections}
    (ok : collect state numbered = .ok sections) :
    sections.hasGrid = (numbered.map Prod.snd).any (keyword · == "$grid") := by
  induction numbered generalizing state sections with
  | nil =>
    cases ok
    rfl
  | cons entry numbered ih =>
    obtain ⟨line, token⟩ := entry
    rw [List.map_cons, List.any_cons]
    obtain ⟨content, kind, later, scanned, rfl⟩ | ⟨-, later, scanned, rfl⟩ := collect_cons_ok ok
    · have notGrid : (keyword token == "$grid") = false := by
        rw [beq_eq_false_iff_ne]
        exact fun eq => content (eq ▸ List.mem_cons_self)
      rw [notGrid, ← ih scanned]
      cases kind <;> rfl
    · rw [← ih scanned]

theorem mem_grid_of_collect {state : Open} {numbered : List (Nat × Token)} {sections : Sections}
    (ok : collect state numbered = .ok sections) {token : Token} (member : token ∈ sections.grid) :
    token ∈ numbered.map Prod.snd := by
  induction numbered generalizing state sections with
  | nil =>
    cases ok
    exact member
  | cons entry numbered ih =>
    obtain ⟨line, other⟩ := entry
    rw [List.map_cons, List.mem_cons]
    obtain ⟨-, kind, later, scanned, rfl⟩ | ⟨-, later, scanned, rfl⟩ := collect_cons_ok ok
    · cases kind with
      | grid =>
        rcases List.mem_cons.mp member with rfl | member
        · exact .inl rfl
        · exact .inr (ih scanned member)
      | integrals => exact .inr (ih scanned member)
      | output => exact .inr (ih scanned member)
    · exact .inr (ih scanned member)

theorem collect_ok_iff {state : Open} {numbered : List (Nat × Token)} :
    (∃ sections, collect state numbered = .ok sections) ↔
      covered state.inside (numbered.map Prod.snd) = true := by
  induction numbered generalizing state with
  | nil => simp [collect, covered]
  | cons entry numbered ih =>
    obtain ⟨line, token⟩ := entry
    rw [List.map_cons, covered]
    split
    · rename_i content
      cases inside : state.inside with
      | false => simp [collect_outside content inside]
      | true =>
        obtain ⟨kind, eq⟩ := collect_inside content inside
        rw [eq, exists_map_ok_iff, ih, inside, Bool.true_and]
    · rename_i isMark
      rw [collect_mark isMark, exists_map_ok_iff, ih, Open.inside_after isMark]

/-- A text has sections if all that is no mark is covered and the grid section is opened. -/
theorem ofText_ok_iff {text : String} :
    (∃ sections, ofText text = .ok sections) ↔ covered false (fileTokens text.toList) = true ∧
      ∃ token ∈ fileTokens text.toList, keyword token = "$grid" := by
  have scanned : (∃ sections, collect Open.closed (numberedTokens text.toList) = .ok sections) ↔
      covered false (fileTokens text.toList) = true := by
    rw [collect_ok_iff, map_numberedTokens]
    rfl
  have opened {sections : Sections}
      (collected : collect Open.closed (numberedTokens text.toList) = .ok sections) :
      sections.hasGrid = true ↔ ∃ token ∈ fileTokens text.toList, keyword token = "$grid" := by
    rw [collect_hasGrid collected, map_numberedTokens, List.any_eq_true]
    simp only [beq_iff_eq]
  rw [← scanned]
  constructor
  · rintro ⟨sections, ok⟩
    rw [ofText] at ok
    obtain ⟨found, collected, ok⟩ := bind_eq_ok_iff.mp ok
    refine ⟨⟨found, collected⟩, (opened collected).mp ?_⟩
    split at ok
    · assumption
    · contradiction
  · rintro ⟨⟨sections, collected⟩, grid⟩
    refine ⟨sections, ?_⟩
    rw [ofText, collected]
    show (if sections.hasGrid = true then _ else _) = _
    rw [if_pos ((opened collected).mpr grid)]
    rfl

end Sections

/-! ### Marks that take turns -/

theorem alternates_content {content : List Token} (inside : ∀ token ∈ content, IsContent token)
    (rest : List Token) : alternates true (content ++ rest) = alternates true rest := by
  induction content with
  | nil => rfl
  | cons token content ih =>
    obtain ⟨here, later⟩ := List.forall_mem_cons.mp inside
    rw [List.cons_append, alternates, if_pos here, Bool.true_and, ih later]

theorem alternates_block {block : Block} {marked : List Token} (isBlock : block.Marked marked)
    (isPure : block.IsPure) (rest : List Token) :
    alternates false (marked ++ rest) = alternates false rest := by
  cases isBlock with
  | @intro kind content opening closing opens closes =>
    have opensIsMark : ¬ IsContent opening := not_isContent.mpr (.inr ⟨kind, opens⟩)
    have closesIsMark : ¬ IsContent closing := not_isContent.mpr (.inl closes)
    have notEnd : (kind.mark == "$end") = false := by cases kind <;> decide
    rw [List.cons_append, List.append_assoc, alternates, if_neg opensIsMark, opens, notEnd]
    show alternates true (content ++ closing :: rest) = _
    rw [alternates_content isPure, alternates, if_neg closesIsMark, closes]
    rfl

theorem exists_closing {tokens : List Token} (takesTurns : alternates true tokens = true) :
    ∃ content closing rest, (∀ token ∈ content, IsContent token) ∧ keyword closing = "$end" ∧
      alternates false rest = true ∧ tokens = content ++ closing :: rest := by
  induction tokens with
  | nil => contradiction
  | cons token tokens ih =>
    rw [alternates] at takesTurns
    split at takesTurns
    · rename_i here
      rw [Bool.true_and] at takesTurns
      obtain ⟨content, closing, rest, inside, closes, outside, rfl⟩ := ih takesTurns
      exact ⟨token :: content, closing, rest, List.forall_mem_cons.mpr ⟨here, inside⟩, closes,
        outside, rfl⟩
    · rw [Bool.and_eq_true, beq_iff_eq] at takesTurns
      obtain ⟨closes, outside⟩ := takesTurns
      exact ⟨[], token, tokens, by simp, beq_iff_eq.mp closes.symm, outside, rfl⟩

/-- The marks take turns exactly in sequences of blocks. -/
theorem alternates_iff {tokens : List Token} :
    alternates false tokens = true ↔ ∃ blocks marked, List.Forall₂ Block.Marked blocks marked ∧
      (∀ block ∈ blocks, block.IsPure) ∧ tokens = marked.flatten := by
  constructor
  · intro takesTurns
    -- A block is taken off the front, so the induction is on the number of tokens.
    induction length : tokens.length using Nat.strongRecOn generalizing tokens with
    | ind n ih =>
      subst length
      cases tokens with
      | nil => exact ⟨[], [], .nil, by simp, rfl⟩
      | cons opening tokens =>
        rw [alternates] at takesTurns
        split at takesTurns
        · contradiction
        · rename_i isMark
          rw [Bool.and_eq_true, beq_iff_eq] at takesTurns
          obtain ⟨notEnd, inside⟩ := takesTurns
          obtain ⟨kind, opens⟩ : ∃ kind : SectionKind, keyword opening = kind.mark := by
            refine (not_isContent.mp isMark).resolve_left fun closes => ?_
            rw [closes] at notEnd
            contradiction
          obtain ⟨content, closing, rest, isPure, closes, outside, rfl⟩ := exists_closing inside
          have shorter : rest.length < (opening :: (content ++ closing :: rest)).length := by
            simp only [List.length_cons, List.length_append]
            omega
          obtain ⟨blocks, marked, isBlocks, pures, rfl⟩ := ih _ shorter outside rfl
          refine ⟨⟨kind, content⟩ :: blocks, (opening :: (content ++ [closing])) :: marked,
            .cons (.intro opens closes) isBlocks, List.forall_mem_cons.mpr ⟨isPure, pures⟩, ?_⟩
          simp
  · rintro ⟨blocks, marked, isBlocks, isPure, rfl⟩
    induction isBlocks with
    | nil => rfl
    | cons isBlock _ ih =>
      obtain ⟨here, later⟩ := List.forall_mem_cons.mp isPure
      rw [List.flatten_cons, alternates_block isBlock here, ih later]

theorem alternates_iff_madeOf {text : String} :
    alternates false (fileTokens text.toList) = true ↔ ∃ blocks, MadeOf text blocks := by
  rw [alternates_iff]
  constructor
  · rintro ⟨blocks, marked, isBlocks, isPure, eq⟩
    exact ⟨blocks, isPure, marked, isBlocks, eq⟩
  · rintro ⟨blocks, isPure, marked, isBlocks, eq⟩
    exact ⟨blocks, marked, isBlocks, isPure, eq⟩

end GaussianRadial.Input
