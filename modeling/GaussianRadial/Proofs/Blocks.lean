import Mathlib
import GaussianRadial.Input.Section
import GaussianRadial.Proofs.Layout

/-!
# Blocks of a file

A block is a section as it stands in a file: an opening mark, the tokens of the section and `$end`.
A file that is a sequence of blocks has the sections of the blocks, where those of one kind are
joined in their order: `ofText_of_blocks`.
-/

namespace GaussianRadial.Input

inductive SectionKind where
  | grid
  | integrals
  | output
  deriving DecidableEq

def SectionKind.mark : SectionKind → String
  | grid => "$grid"
  | integrals => "$integrals"
  | output => "$output"

/-- No mark, in upper or lower case. -/
def IsContent (token : Token) : Prop :=
  keyword token ∉ ["$grid", "$integrals", "$output", "$end"]

instance : DecidablePred IsContent := fun token => inferInstanceAs (Decidable (keyword token ∉ _))

theorem not_isContent {token : Token} :
    ¬ IsContent token ↔
      keyword token = "$end" ∨ ∃ kind : SectionKind, keyword token = kind.mark := by
  rw [IsContent, not_not]
  simp only [List.mem_cons, List.not_mem_nil, or_false]
  constructor
  · rintro (eq | eq | eq | eq)
    · exact .inr ⟨.grid, eq⟩
    · exact .inr ⟨.integrals, eq⟩
    · exact .inr ⟨.output, eq⟩
    · exact .inl eq
  · rintro (eq | ⟨kind, eq⟩)
    · exact .inr (.inr (.inr eq))
    · cases kind with
      | grid => exact .inl eq
      | integrals => exact .inr (.inl eq)
      | output => exact .inr (.inr (.inl eq))

structure Block where
  kind : SectionKind
  content : List Token

/-- The tokens of a block in a file, where marks may be in upper or lower case. -/
inductive Block.Marked : Block → List Token → Prop
  | intro {kind : SectionKind} {content : List Token} {opening closing : Token}
      (opens : keyword opening = kind.mark) (closes : keyword closing = "$end") :
      Marked ⟨kind, content⟩ (opening :: (content ++ [closing]))

/-- The block holds no mark. -/
def Block.IsPure (block : Block) : Prop := ∀ token ∈ block.content, IsContent token

instance : DecidablePred Block.IsPure := fun block =>
  inferInstanceAs (Decidable (∀ token ∈ block.content, IsContent token))

namespace Sections

/-- Only the section of a kind is open. -/
def Open.only : SectionKind → Open
  | .grid => { closed with grid := true }
  | .integrals => { closed with integrals := true }
  | .output => { closed with output := true }

/-- The sections with more tokens at the start of one. -/
def prepend (kind : SectionKind) (content : List Token) (sections : Sections) : Sections :=
  match kind with
  | .grid => { sections with grid := content ++ sections.grid }
  | .integrals => { sections with integrals := content ++ sections.integrals }
  | .output => { sections with output := content ++ sections.output }

/-- The sections with a block before them. -/
def withBlock (block : Block) (sections : Sections) : Sections :=
  { prepend block.kind block.content sections with
    hasGrid := block.kind == .grid || sections.hasGrid }

/-- The sections of a sequence of blocks. -/
def ofBlocks (blocks : List Block) : Sections := blocks.foldr withBlock empty

/-- The state after a mark. -/
def Open.after (state : Open) (mark : String) : Open :=
  match mark with
  | "$grid" => { state with grid := true }
  | "$integrals" => { state with integrals := true }
  | "$output" => { state with output := true }
  | _ => closed

section Step
variable {state : Open} {line : Nat} {token : Token} {rest : List (Nat × Token)}

theorem collect_mark (isMark : ¬ IsContent token) :
    collect state ((line, token) :: rest) = (collect (state.after (keyword token)) rest).map
      fun s => { s with hasGrid := keyword token == "$grid" || s.hasGrid } := by
  have unchanged (x : Except Error Sections) :
      x = x.map fun s => { s with hasGrid := s.hasGrid } := by
    cases x <;> rfl
  rw [collect]
  rcases not_isContent.mp isMark with eq | ⟨kind, eq⟩
  · rw [eq]
    exact unchanged _
  · rw [eq]
    cases kind with
    | grid => rfl
    | integrals => exact unchanged _
    | output => exact unchanged _

theorem collect_content_token (content : IsContent token) :
    collect state ((line, token) :: rest) =
      if state.grid then (collect state rest).map (prepend .grid [token])
      else if state.integrals then (collect state rest).map (prepend .integrals [token])
      else if state.output then (collect state rest).map (prepend .output [token])
      else .error (.unexpectedToken line token) := by
  simp only [IsContent, List.mem_cons, List.not_mem_nil, or_false, not_or] at content
  obtain ⟨notGrid, notIntegrals, notOutput, notEnd⟩ := content
  rw [collect]
  split
  · contradiction
  · contradiction
  · contradiction
  · contradiction
  · rfl

end Step

theorem collect_content {kind : SectionKind} {content : List (Nat × Token)}
    (inside : ∀ token ∈ content.map Prod.snd, IsContent token) (rest : List (Nat × Token)) :
    collect (Open.only kind) (content ++ rest) =
      (collect (Open.only kind) rest).map (prepend kind (content.map Prod.snd)) := by
  induction content with
  | nil => cases kind <;> cases h : collect (Open.only _) rest <;> simp [h, prepend, Except.map]
  | cons entry content ih =>
    obtain ⟨line, token⟩ := entry
    obtain ⟨here, later⟩ := List.forall_mem_cons.mp inside
    rw [List.cons_append, collect_content_token here, ih later]
    cases kind <;> cases collect (Open.only _) rest <;>
      simp [Open.only, Open.closed, prepend, Except.map]

theorem collect_opening {kind : SectionKind} {opening : Token} (opens : keyword opening = kind.mark)
    (line : Nat) (rest : List (Nat × Token)) :
    collect Open.closed ((line, opening) :: rest) =
      (collect (Open.only kind) rest).map fun sections =>
        { sections with hasGrid := kind == .grid || sections.hasGrid } := by
  have isMark : ¬ IsContent opening := not_isContent.mpr (.inr ⟨kind, opens⟩)
  have after : Open.closed.after kind.mark = Open.only kind := by cases kind <;> rfl
  have isGrid : (kind.mark == "$grid") = (kind == .grid) := by cases kind <;> decide
  rw [collect_mark isMark, opens, after, isGrid]

theorem collect_closing {state : Open} {closing : Token} (closes : keyword closing = "$end")
    (line : Nat) (rest : List (Nat × Token)) :
    collect state ((line, closing) :: rest) = collect Open.closed rest := by
  rw [collect_mark (not_isContent.mpr (.inl closes)), closes]
  show (collect Open.closed rest).map _ = _
  cases collect Open.closed rest <;> rfl

theorem collect_block {block : Block} {marked : List (Nat × Token)}
    (isBlock : block.Marked (marked.map Prod.snd)) (isPure : block.IsPure)
    (rest : List (Nat × Token)) :
    collect Open.closed (marked ++ rest) =
      (collect Open.closed rest).map (withBlock block) := by
  generalize all : marked.map Prod.snd = tokens at isBlock
  cases isBlock with
  | @intro kind content opening closing opens closes =>
    obtain ⟨⟨line, first⟩, later, rfl, rfl, body⟩ := List.map_eq_cons_iff.mp all
    obtain ⟨inner, last, rfl, rfl, ending⟩ := List.map_eq_append_iff.mp body
    obtain ⟨⟨lastLine, token⟩, rfl, rfl⟩ := List.map_eq_singleton_iff.mp ending
    rw [List.cons_append, List.append_assoc, collect_opening opens, collect_content isPure,
      List.singleton_append, collect_closing closes]
    cases collect Open.closed rest <;> cases kind <;> rfl

theorem collect_blocks {blocks : List Block} {marked : List (List Token)}
    (isBlocks : List.Forall₂ Block.Marked blocks marked) (isPure : ∀ block ∈ blocks, block.IsPure)
    {numbered : List (Nat × Token)} (eq : numbered.map Prod.snd = marked.flatten) :
    collect Open.closed numbered = .ok (ofBlocks blocks) := by
  induction isBlocks generalizing numbered with
  | nil =>
    obtain rfl := List.map_eq_nil_iff.mp eq
    rfl
  | cons isBlock _ ih =>
    rw [List.flatten_cons] at eq
    obtain ⟨first, rest, rfl, rfl, later⟩ := List.map_eq_append_iff.mp eq
    obtain ⟨here, others⟩ := List.forall_mem_cons.mp isPure
    rw [collect_block isBlock here, ih others later]
    rfl

/-! ### Joined sections -/

/-- The contents of the blocks of a kind, one after the other. -/
def joined (kind : SectionKind) (blocks : List Block) : List Token :=
  (blocks.filter (·.kind = kind)).flatMap (·.content)

theorem ofBlocks_eq (blocks : List Block) : ofBlocks blocks =
    ⟨blocks.any (·.kind == .grid), joined .grid blocks, joined .integrals blocks,
      joined .output blocks⟩ := by
  induction blocks with
  | nil => rfl
  | cons block blocks ih =>
    obtain ⟨kind, content⟩ := block
    rw [ofBlocks, List.foldr_cons, ← ofBlocks, ih]
    cases kind <;> simp [withBlock, prepend, joined]

/-- A text of blocks, one for the grid among them, has their sections. -/
theorem ofText_of_blocks {text : String} {blocks : List Block} {marked : List (List Token)}
    (isBlocks : List.Forall₂ Block.Marked blocks marked) (isPure : ∀ block ∈ blocks, block.IsPure)
    (tokens_eq : fileTokens text.toList = marked.flatten)
    (hasGrid : ∃ block ∈ blocks, block.kind = .grid) :
    Sections.ofText text = .ok ⟨true, joined .grid blocks, joined .integrals blocks,
      joined .output blocks⟩ := by
  have eq := (map_numberedTokens text.toList).trans tokens_eq
  have some : blocks.any (·.kind == .grid) = true := by simpa using hasGrid
  rw [Sections.ofText, collect_blocks isBlocks isPure eq, ofBlocks_eq, some]
  rfl

end Sections

end GaussianRadial.Input
