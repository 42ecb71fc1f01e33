import Mathlib
import GaussianRadial.Input.Reader
import GaussianRadial.Proofs.RoundTrip

/-!
# The order of sections

What is read from a file of blocks depends on the tokens that its blocks of each kind hold together.
It does not matter how the blocks are laid out, in which order blocks of different kinds stand, and
over how many blocks the tokens of a kind are spread.
-/

namespace GaussianRadial.Input

/-- The tokens of the text are those of the blocks, none of which holds a mark. -/
structure MadeOf (text : String) (blocks : List Block) : Prop where
  isPure : ∀ block ∈ blocks, block.IsPure
  tokens : ∃ marked, List.Forall₂ Block.Marked blocks marked ∧
    fileTokens text.toList = marked.flatten

/-- The blocks of each kind hold the same tokens, and both or neither have a block of the grid. -/
structure SameContents (blocks blocks' : List Block) : Prop where
  joined : ∀ kind, Sections.joined kind blocks = Sections.joined kind blocks'
  grid : (∃ block ∈ blocks, block.kind = .grid) ↔ ∃ block ∈ blocks', block.kind = .grid

namespace SameContents
variable {blocks blocks' blocks'' : List Block}

theorem trans (first : SameContents blocks blocks') (second : SameContents blocks' blocks'') :
    SameContents blocks blocks'' :=
  ⟨fun kind => (first.joined kind).trans (second.joined kind), first.grid.trans second.grid⟩

theorem swap (before after : List Block) {first second : Block}
    (different : first.kind ≠ second.kind) :
    SameContents (before ++ first :: second :: after) (before ++ second :: first :: after) := by
  refine ⟨fun kind => ?_, ?_⟩
  · -- At most one of the two is of the kind.
    by_cases here : first.kind = kind
    · have notSecond : second.kind ≠ kind := fun eq => different (here.trans eq.symm)
      simp [Sections.joined, here, notSecond]
    · simp [Sections.joined, List.filter_cons, here]
  · simp only [List.mem_append, List.mem_cons]
    constructor <;> rintro ⟨block, member, isGrid⟩ <;> exact ⟨block, by tauto, isGrid⟩

theorem split (before after : List Block) (kind : SectionKind) (content content' : List Token) :
    SameContents (before ++ ⟨kind, content ++ content'⟩ :: after)
      (before ++ ⟨kind, content⟩ :: ⟨kind, content'⟩ :: after) := by
  refine ⟨fun other => ?_, ?_⟩
  · by_cases here : kind = other <;> simp [Sections.joined, here]
  · simp only [List.mem_append, List.mem_cons, exists_or, or_and_right, exists_eq_left,
      or_self_left]

end SameContents

theorem Sections.ofText_of_madeOf {text : String} {blocks : List Block}
    (made : MadeOf text blocks) : Sections.ofText text =
      if blocks.any (·.kind == .grid) then .ok (Sections.ofBlocks blocks)
      else .error .noGridSection := by
  obtain ⟨marked, isBlocks, tokens⟩ := made.tokens
  have numbered := (map_numberedTokens text.toList).trans tokens
  rw [Sections.ofText, collect_blocks isBlocks made.isPure numbered, ofBlocks_eq]
  rfl

theorem Sections.ofText_eq_of_sameContents {text text' : String} {blocks blocks' : List Block}
    (made : MadeOf text blocks) (made' : MadeOf text' blocks')
    (same : SameContents blocks blocks') : Sections.ofText text = Sections.ofText text' := by
  have grid : blocks.any (·.kind == .grid) = blocks'.any (·.kind == .grid) := by
    rw [Bool.eq_iff_iff]
    simpa using same.grid
  have sections : ofBlocks blocks = ofBlocks blocks' := by
    rw [ofBlocks_eq, ofBlocks_eq, grid, same.joined, same.joined, same.joined]
  rw [ofText_of_madeOf made, ofText_of_madeOf made', grid, sections]

theorem Reader.read_of_sections {text text' : String}
    (same : Sections.ofText text = Sections.ofText text') (reader : Reader) :
    reader.read (some text) = reader.read (some text') := by
  rw [read, read, ofFile, ofFile, Input.ofText, Input.ofText, Settings.ofText, Settings.ofText,
    same]

/--
Two files of blocks that hold the same tokens for each kind have the same outcome: the same job or
the same error, and the same warnings.
-/
theorem Reader.read_of_sameContents {text text' : String} {blocks blocks' : List Block}
    (made : MadeOf text blocks) (made' : MadeOf text' blocks')
    (same : SameContents blocks blocks') (reader : Reader) :
    reader.read (some text) = reader.read (some text') :=
  read_of_sections (Sections.ofText_eq_of_sameContents made made' same) reader

/-! ### A file with its integrals on both sides of the grid -/

def gridFirstText : String :=
  "$grid points 3 rmax 2 $end $integrals c0 1 0 ci 1 2 $end"

def gridBetweenText : String :=
  "$INTEGRALS # the inner one\n  c0 1\n  0\n$End\n\n$grid\n  points 3 # few\n  rmax 2\n$end\n"
    ++ "$integrals ci 1 2 $end"

def gridTokens : List Token := ["points", "3", "rmax", "2"].map String.toList

def innerTokens : List Token := ["c0", "1", "0"].map String.toList

def outerTokens : List Token := ["ci", "1", "2"].map String.toList

theorem gridFirst_made :
    MadeOf gridFirstText [⟨.grid, gridTokens⟩, ⟨.integrals, innerTokens ++ outerTokens⟩] := by
  have marks := List.Forall₂.cons (Block.marked_tokens ⟨.grid, gridTokens⟩)
    (.cons (Block.marked_tokens ⟨.integrals, innerTokens ++ outerTokens⟩) .nil)
  exact ⟨by decide +kernel, _, marks, by decide +kernel⟩

theorem gridBetween_made : MadeOf gridBetweenText
    [⟨.integrals, innerTokens⟩, ⟨.grid, gridTokens⟩, ⟨.integrals, outerTokens⟩] := by
  have marks : List.Forall₂ Block.Marked
      [⟨.integrals, innerTokens⟩, ⟨.grid, gridTokens⟩, ⟨.integrals, outerTokens⟩]
      [["$INTEGRALS".toList] ++ innerTokens ++ ["$End".toList],
        ["$grid".toList] ++ gridTokens ++ ["$end".toList],
        ["$integrals".toList] ++ outerTokens ++ ["$end".toList]] :=
    .cons (.intro rfl rfl) (.cons (.intro rfl rfl) (.cons (.intro rfl rfl) .nil))
  exact ⟨by decide +kernel, _, marks, by decide +kernel⟩

theorem Reader.read_of_sameContents_between :
    let reader := Reader.ofName "integrals"
    MadeOf gridFirstText [⟨.grid, gridTokens⟩, ⟨.integrals, innerTokens ++ outerTokens⟩] ∧
      MadeOf gridBetweenText
        [⟨.integrals, innerTokens⟩, ⟨.grid, gridTokens⟩, ⟨.integrals, outerTokens⟩] ∧
      SameContents [⟨.grid, gridTokens⟩, ⟨.integrals, innerTokens ++ outerTokens⟩]
        [⟨.integrals, innerTokens⟩, ⟨.grid, gridTokens⟩, ⟨.integrals, outerTokens⟩] ∧
      reader.read (some gridFirstText) = reader.read (some gridBetweenText) := by
  have parted := SameContents.split [⟨.grid, gridTokens⟩] [] .integrals innerTokens outerTokens
  have same := parted.trans (SameContents.swap [] [⟨.integrals, outerTokens⟩] (by decide))
  exact ⟨gridFirst_made, gridBetween_made, same,
    read_of_sameContents gridFirst_made gridBetween_made same _⟩

end GaussianRadial.Input
