import Mathlib
import GaussianRadial.Proofs.Fields
import GaussianRadial.Proofs.Marks

/-!
# Accepted files

A file that is accepted has the documented form exactly if its marks take turns and its fields are
whole tokens: `read_documented`. Nothing else is asked of it, and neither of the two is checked:
`read_undocumented`.
-/

namespace GaussianRadial.Input

/-! ### Files -/

/-- The items are written in the sections, except for blanks that are missing behind numbers. -/
structure FileItems.CutFrom (items : FileItems) (sections : Sections) : Prop where
  grid : ∃ pieces, CutOff sections.grid pieces [] ∧ Written SpellsGridOption items.grid pieces
  requests : ∃ pieces, CutOff sections.integrals pieces [] ∧
    Written SpellsRequest items.requests pieces
  output : ∃ pieces, CutOff sections.output pieces [] ∧
    Written SpellsOutputOption items.output pieces

theorem FileItems.InSections.cutFrom {items : FileItems} {sections : Sections}
    (inSections : items.InSections sections) : items.CutFrom sections := by
  obtain ⟨grid, gridWritten, gridCut, -⟩ :=
    readItems_readOff readGridOption_spelled inSections.grid_eq
  obtain ⟨requests, requestsWritten, requestsCut, -⟩ :=
    readItems_readOff readRequest_spelled inSections.requests_eq
  obtain ⟨output, outputWritten, outputCut, -⟩ :=
    readItems_readOff readOutputOption_spelled inSections.output_eq
  exact ⟨⟨grid, gridCut, gridWritten⟩, ⟨requests, requestsCut, requestsWritten⟩,
    ⟨output, outputCut, outputWritten⟩⟩

/-- No token of the text but its marks holds more than one field. -/
def HasWholeFields (text : String) : Prop :=
  ∀ token ∈ fileTokens text.toList, IsContent token → IsWhole token

instance : DecidablePred HasWholeFields := fun text =>
  inferInstanceAs (Decidable (∀ token ∈ fileTokens text.toList, IsContent token → IsWhole token))

theorem Block.Marked.mem_iff {block : Block} {marked : List Token} (isBlock : block.Marked marked)
    (isPure : block.IsPure) {token : Token} (content : IsContent token) :
    token ∈ marked ↔ token ∈ block.content := by
  cases isBlock with
  | @intro kind inside opening closing opens closes =>
    have notOpening : token ≠ opening := by
      rintro rfl
      exact not_isContent.mpr (.inr ⟨kind, opens⟩) content
    have notClosing : token ≠ closing := by
      rintro rfl
      exact not_isContent.mpr (.inl closes) content
    simp [notOpening, notClosing]

theorem MadeOf.mem_iff {text : String} {blocks : List Block} (made : MadeOf text blocks)
    {token : Token} (content : IsContent token) :
    token ∈ fileTokens text.toList ↔ ∃ kind, token ∈ Sections.joined kind blocks := by
  obtain ⟨isPure, marked, isBlocks, eq⟩ := made
  have inBlocks : token ∈ marked.flatten ↔ ∃ block ∈ blocks, token ∈ block.content := by
    clear eq
    induction isBlocks with
    | nil => simp
    | cons isBlock _ ih =>
      obtain ⟨here, later⟩ := List.forall_mem_cons.mp isPure
      rw [List.flatten_cons, List.mem_append, isBlock.mem_iff here content, ih later]
      simp
  rw [eq, inBlocks]
  constructor
  · rintro ⟨block, member, inside⟩
    exact ⟨block.kind, Sections.mem_joined member inside⟩
  · rintro ⟨kind, joined⟩
    obtain ⟨block, member, inside⟩ := List.mem_flatMap.mp joined
    exact ⟨block, (List.mem_filter.mp member).1, inside⟩

theorem FileItems.WrittenIn.alternates {items : FileItems} {text : String}
    (written : items.WrittenIn text) :
    Input.alternates false (fileTokens text.toList) = true ∧ HasWholeFields text := by
  obtain ⟨blocks, inBlocks⟩ := written.exists_blocks
  have made : MadeOf text blocks := ⟨inBlocks.isPure, inBlocks.tokens⟩
  refine ⟨alternates_iff_madeOf.mpr ⟨blocks, made⟩, fun token member content => ?_⟩
  obtain ⟨kind, joined⟩ := (made.mem_iff content).mp member
  cases kind with
  | grid => exact inBlocks.grid.forall_tokens SpellsGridOption.isWhole token joined
  | integrals => exact inBlocks.requests.forall_tokens SpellsRequest.isWhole token joined
  | output => exact inBlocks.output.forall_tokens SpellsOutputOption.isWhole token joined

theorem FileItems.InText.writtenIn {items : FileItems} {text : String} (inText : items.InText text)
    (takesTurns : alternates false (fileTokens text.toList) = true)
    (whole : HasWholeFields text) : items.WrittenIn text := by
  obtain ⟨blocks, made⟩ := alternates_iff_madeOf.mp takesTurns
  obtain ⟨sections, found, inSections⟩ := inText
  rw [Sections.ofText_of_madeOf made] at found
  split at found
  · rename_i hasGrid
    cases found
    rw [Sections.ofBlocks_eq] at inSections
    have wholeJoined (kind : SectionKind) : AllWhole (Sections.joined kind blocks) := by
      intro token joined
      obtain ⟨block, member, inside⟩ := List.mem_flatMap.mp joined
      have content := made.isPure block (List.mem_filter.mp member).1 token inside
      exact whole token ((made.mem_iff content).mpr ⟨kind, joined⟩) content
    obtain ⟨grid, gridWritten, -, gridEq⟩ :=
      readItems_readOff readGridOption_spelled inSections.grid_eq
    obtain ⟨requests, requestsWritten, -, requestsEq⟩ :=
      readItems_readOff readRequest_spelled inSections.requests_eq
    obtain ⟨output, outputWritten, -, outputEq⟩ :=
      readItems_readOff readOutputOption_spelled inSections.output_eq
    obtain rfl := gridEq (wholeJoined .grid)
    obtain rfl := requestsEq (wholeJoined .integrals)
    obtain rfl := outputEq (wholeJoined .output)
    obtain ⟨marked, isBlocks, eq⟩ := made.tokens
    have layout : Layout text.toList marked.flatten := eq ▸ (layout_fileTokens _).1
    exact .intro layout isBlocks (by simpa using hasGrid) gridWritten requestsWritten outputWritten
  · contradiction

/--
In a file that is accepted the grid section is opened, all tokens but the marks are covered, and the
items of the job are written in the sections up to blanks that are missing behind numbers. The file
has the documented form exactly if its marks take turns and its fields are whole tokens, and reading
checks neither.
-/
theorem Reader.read_documented {text : String} {reader : Reader} {job : Job Float}
    (accepted : (reader.read (some text)).1 = .ok job) :
    (covered false (fileTokens text.toList) = true ∧
      ∃ token ∈ fileTokens text.toList, keyword token = "$grid") ∧
    (∃ items : FileItems, items.settings.job = .ok job ∧
      ∃ sections, Sections.ofText text = .ok sections ∧ items.CutFrom sections) ∧
    ((∃ items : FileItems, items.WrittenIn text ∧ items.settings.job = .ok job) ↔
      alternates false (fileTokens text.toList) = true ∧ HasWholeFields text) := by
  obtain ⟨items, inText, made⟩ := read_ok_iff.mp accepted
  obtain ⟨sections, found, inSections⟩ := inText
  refine ⟨Sections.ofText_ok_iff.mp ⟨sections, found⟩,
    ⟨items, made, sections, found, inSections.cutFrom⟩, ?_⟩
  constructor
  · rintro ⟨others, written, -⟩
    exact written.alternates
  · rintro ⟨takesTurns, whole⟩
    exact ⟨items, FileItems.InText.writtenIn ⟨sections, found, inSections⟩ takesTurns whole, made⟩

theorem Reader.read_documented_scattered :
    ∃ job, ((Reader.ofName "scattered").read (some scatteredText)).1 = .ok job ∧
      alternates false (fileTokens scatteredText.toList) = true ∧ HasWholeFields scatteredText ∧
      ∃ items : FileItems, items.WrittenIn scatteredText ∧ items.settings.job = .ok job := by
  obtain ⟨job, made⟩ := scattered_job
  have accepted : ((Reader.ofName "scattered").read (some scatteredText)).1 = .ok job := by
    rw [scattered_read, made]
  have takesTurns : alternates false (fileTokens scatteredText.toList) = true := by decide +kernel
  have whole : HasWholeFields scatteredText := by decide +kernel
  have documented := (read_documented accepted).2.2.mpr ⟨takesTurns, whole⟩
  exact ⟨job, accepted, takesTurns, whole, documented⟩

/-! ### Files of another form -/

/-- The last section is not closed. -/
def unclosedText : String := "$grid points 2 rmax 1 $end $integrals c0 1 0 ci 1 2"

/-- A section is closed before any is open, and one is opened inside another and closed with it. -/
def nestedText : String :=
  "$end $grid points 2 $integrals rmax 1 $end $integrals c0 1 0 ci 1 2 $end"

/-- Numbers are written together with the fields after them. -/
def joinedText : String := "$grid points 2rmax 1 $end $integrals c0 1 0ci 1 2 $end"

theorem Sections.ofText_of_toOption {text : String} {sections : Sections}
    (eq : (ofText text).toOption = some sections) : ofText text = .ok sections := by
  cases found : ofText text with
  | error e =>
    rw [found] at eq
    contradiction
  | ok other =>
    rw [found] at eq
    rw [Option.some.inj eq]

def looseItems : FileItems :=
  ⟨[.points 2, .radius 1.0], [⟨.inner, 1.0, 0, 0⟩, ⟨.outer, 1.0, 2, 0⟩], []⟩

def looseSections : Sections :=
  ⟨true, ["points", "2", "rmax", "1"].map String.toList,
    ["c0", "1", "0", "ci", "1", "2"].map String.toList, []⟩

def joinedSections : Sections :=
  ⟨true, ["points", "2rmax", "1"].map String.toList,
    ["c0", "1", "0ci", "1", "2"].map String.toList, []⟩

theorem loose_inSections : looseItems.InSections looseSections := by
  have points : SpellsGridOption (.points 2) (["points", "2"].map String.toList) := .points rfl rfl
  have radius : SpellsGridOption (.radius 1.0) (["rmax", "1"].map String.toList) := .radius rfl rfl
  have inner : SpellsRequest ⟨.inner, 1.0, 0, 0⟩ (["c0", "1", "0"].map String.toList) :=
    .intro rfl rfl rfl .inner
  have outer : SpellsRequest ⟨.outer, 1.0, 2, 0⟩ (["ci", "1", "2"].map String.toList) :=
    .intro rfl rfl rfl .outer
  exact ⟨readItems_gridOptions (.cons points (.cons radius .nil)),
    readItems_requests (.cons inner (.cons outer .nil)), readItems_nil 0⟩

theorem joined_inSections : looseItems.InSections joinedSections := by
  have points : readGridOption 0 "points".toList ["2rmax".toList, "1".toList] =
      .ok (.points 2, ⟨["rmax".toList, "1".toList], by decide⟩) := rfl
  have radius : readGridOption 1 "rmax".toList ["1".toList] =
      .ok (.radius 1.0, ⟨[], by decide⟩) := rfl
  have inner : readRequest 0 "c0".toList (["1", "0ci", "1", "2"].map String.toList) =
      .ok (⟨.inner, 1.0, 0, 0⟩, ⟨["ci", "1", "2"].map String.toList, by decide⟩) := rfl
  have outer : readRequest 1 "ci".toList (["1", "2"].map String.toList) =
      .ok (⟨.outer, 1.0, 2, 0⟩, ⟨[], by decide⟩) := rfl
  constructor
  · show readItems readGridOption 0 ["points".toList, "2rmax".toList, "1".toList] = _
    rw [readItems_cons points, readItems_cons radius, readItems_nil]
    rfl
  · show readItems readRequest 0 ("c0".toList :: ["1", "0ci", "1", "2"].map String.toList) = _
    rw [readItems_cons inner]
    show (readItems readRequest 1 ("ci".toList :: ["1", "2"].map String.toList)).map _ = _
    rw [readItems_cons outer, readItems_nil]
    rfl
  · exact readItems_nil 0

theorem loose_accepted {text : String} (sections : Sections)
    (found : (Sections.ofText text).toOption = some sections)
    (inSections : looseItems.InSections sections) (reader : Reader) :
    ∃ job, (reader.read (some text)).1 = .ok job := by
  obtain ⟨grid, built⟩ : ∃ grid, looseItems.settings.grid.build = .ok grid := ⟨_, rfl⟩
  have made := job_ok_iff.mpr ⟨show looseItems.settings.faults = [] from rfl, grid, built, rfl⟩
  exact ⟨_, Reader.read_ok_iff.mpr
    ⟨looseItems, ⟨sections, Sections.ofText_of_toOption found, inSections⟩, made⟩⟩

/-- Files are accepted whose marks do not take turns or whose fields are not whole tokens. -/
theorem Reader.read_undocumented :
    let reader := Reader.ofName "loose"
    ((∃ job, (reader.read (some unclosedText)).1 = .ok job) ∧
      ¬ ∃ items : FileItems, items.WrittenIn unclosedText) ∧
    ((∃ job, (reader.read (some nestedText)).1 = .ok job) ∧
      ¬ ∃ items : FileItems, items.WrittenIn nestedText) ∧
    (∃ job, (reader.read (some joinedText)).1 = .ok job) ∧
      ¬ ∃ items : FileItems, items.WrittenIn joinedText := by
  have unclosed : alternates false (fileTokens unclosedText.toList) = false := by decide +kernel
  have nested : alternates false (fileTokens nestedText.toList) = false := by decide +kernel
  have joined : ¬ HasWholeFields joinedText := by decide +kernel
  refine ⟨⟨loose_accepted looseSections (by decide +kernel) loose_inSections _, ?_⟩,
    ⟨loose_accepted looseSections (by decide +kernel) loose_inSections _, ?_⟩,
    loose_accepted joinedSections (by decide +kernel) joined_inSections _, ?_⟩
  · rintro ⟨items, written⟩
    exact Bool.false_ne_true (unclosed.symm.trans written.alternates.1)
  · rintro ⟨items, written⟩
    exact Bool.false_ne_true (nested.symm.trans written.alternates.1)
  · rintro ⟨items, written⟩
    exact joined written.alternates.2

end GaussianRadial.Input
