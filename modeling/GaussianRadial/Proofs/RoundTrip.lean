import Mathlib
import GaussianRadial.Input.Reader
import GaussianRadial.Proofs.Blocks
import GaussianRadial.Proofs.Spelling

/-!
# Reading undoes writing

Settings are written as one item for each option that is given, in any order, and one for each
request in its order. The items stand in blocks, and the blocks in a text. Whatever the order of the
options and of the blocks, the case of the words, the texts of the numbers and the layout, reading
the text gives the settings back, and the job that is made of them: `read_written`.
-/

namespace GaussianRadial.Input

/-! ### Marks and content -/

theorem IsPlainToken.isContent {token : Token} (plain : IsPlainToken token) : IsContent token := by
  intro isMark
  obtain ⟨tail, eq⟩ : ∃ tail, token.map Char.toLower = '$' :: tail := by
    simp only [List.mem_cons, List.not_mem_nil, or_false, keyword_eq_iff] at isMark
    rcases isMark with eq | eq | eq | eq <;> exact ⟨_, eq⟩
  obtain ⟨c, body, rfl, lower, -⟩ := List.map_eq_cons_iff.mp eq
  have here := plain.plain c List.mem_cons_self
  rw [← isPlain_toLower, lower] at here
  exact absurd here (by decide)

theorem isBlank_toLower (c : Char) : isBlank c.toLower = isBlank c := by
  have code (d : Char) : d = ' ' ↔ d.toNat = 32 := Char.toNat_inj.symm
  rw [Bool.eq_iff_iff]
  simp only [isBlank, Bool.or_eq_true, beq_iff_eq, Bool.and_eq_true, decide_eq_true_eq, code,
    toNat_toLower]
  split <;> omega

theorem isToken_of_keyword {token : Token} {word : String} (eq : keyword token = word)
    (isToken : IsToken word.toList) : IsToken token := by
  rw [← keyword_eq_iff.mp eq] at isToken
  refine ⟨?_, fun c member => ?_, fun first => ?_⟩
  · rintro rfl
    exact isToken.ne_nil rfl
  · rw [← isBlank_toLower]
    exact isToken.solid _ (List.mem_map_of_mem member)
  · refine isToken.starts ?_
    rw [List.head?_map, first]
    rfl

theorem isToken_of_all {token : Token} (filled : token ≠ [])
    (solid : token.all (!isBlank ·) = true) (starts : token.head? ≠ some '#') : IsToken token :=
  ⟨filled, fun c member => by simpa using List.all_eq_true.mp solid c member, starts⟩

theorem isToken_mark (kind : SectionKind) : IsToken kind.mark.toList := by
  cases kind <;> exact isToken_of_all (by decide) rfl (by decide)

theorem isToken_end : IsToken "$end".toList := isToken_of_all (by decide) rfl (by decide)

theorem Block.Marked.isTokens {block : Block} {marked : List Token} (isBlock : block.Marked marked)
    (inside : ∀ token ∈ block.content, IsToken token) : ∀ token ∈ marked, IsToken token := by
  cases isBlock with
  | intro opens closes =>
    refine List.forall_mem_cons.mpr ⟨isToken_of_keyword opens (isToken_mark _), ?_⟩
    exact List.forall_mem_append.mpr ⟨inside,
      List.forall_mem_singleton.mpr (isToken_of_keyword closes isToken_end)⟩

theorem isTokens_of_blocks {blocks : List Block} {marked : List (List Token)}
    (isBlocks : List.Forall₂ Block.Marked blocks marked)
    (inside : ∀ block ∈ blocks, ∀ token ∈ block.content, IsToken token) :
    ∀ token ∈ marked.flatten, IsToken token := by
  induction isBlocks with
  | nil => exact fun token member => nomatch member
  | cons isBlock _ ih =>
    obtain ⟨here, later⟩ := List.forall_mem_cons.mp inside
    exact List.forall_mem_append.mpr ⟨isBlock.isTokens here, ih later⟩

/-! ### Items in a text -/

/--
The items are written in the blocks of the text, in the order of their section. The blocks may be in
any order, and what is written for the items of a section may be spread over several of them.
-/
inductive FileItems.WrittenIn (items : FileItems) (text : String) : Prop
  | intro {blocks : List Block} {marked : List (List Token)}
      (layout : Layout text.toList marked.flatten)
      (marks : List.Forall₂ Block.Marked blocks marked)
      (hasGrid : ∃ block ∈ blocks, block.kind = .grid)
      (grid : Written SpellsGridOption items.grid (Sections.joined .grid blocks))
      (requests : Written SpellsRequest items.requests (Sections.joined .integrals blocks))
      (output : Written SpellsOutputOption items.output (Sections.joined .output blocks))

/-- The tokens of a block with its marks in lower case. -/
def Block.tokens (block : Block) : List Token :=
  block.kind.mark.toList :: (block.content ++ ["$end".toList])

theorem Block.marked_tokens (block : Block) : block.Marked block.tokens := by
  have opens : keyword block.kind.mark.toList = block.kind.mark := by
    cases block.kind <;> decide +kernel
  exact .intro opens (by decide +kernel)

/-- A text with one block for each section, in the order in which the sections are read. -/
theorem FileItems.writtenIn_of_sections {items : FileItems} {text : String}
    {grid integrals output : List Token}
    (tokens_eq : fileTokens text.toList =
      [⟨.grid, grid⟩, ⟨.integrals, integrals⟩, ⟨.output, output⟩].flatMap Block.tokens)
    (gridWritten : Written SpellsGridOption items.grid grid)
    (requestsWritten : Written SpellsRequest items.requests integrals)
    (outputWritten : Written SpellsOutputOption items.output output) : items.WrittenIn text := by
  let blocks : List Block := [⟨.grid, grid⟩, ⟨.integrals, integrals⟩, ⟨.output, output⟩]
  have marks : List.Forall₂ Block.Marked blocks (blocks.map Block.tokens) :=
    .cons (Block.marked_tokens _) (.cons (Block.marked_tokens _)
      (.cons (Block.marked_tokens _) .nil))
  have layout : Layout text.toList (blocks.map Block.tokens).flatten := by
    rw [← List.flatMap_def, ← tokens_eq]
    exact (layout_fileTokens _).1
  refine .intro layout marks ⟨_, .head _, rfl⟩ ?_ ?_ ?_
  · simpa [blocks, Sections.joined] using gridWritten
  · simpa [blocks, Sections.joined] using requestsWritten
  · simpa [blocks, Sections.joined] using outputWritten

theorem Sections.mem_joined {blocks : List Block} {block : Block} (member : block ∈ blocks)
    {token : Token} (inside : token ∈ block.content) : token ∈ joined block.kind blocks :=
  List.mem_flatMap.mpr ⟨block, List.mem_filter.mpr ⟨member, by simp⟩, inside⟩

/-- The text is made of the blocks, and the items are written in them. -/
structure FileItems.InBlocks (items : FileItems) (text : String) (blocks : List Block) : Prop where
  plain : ∀ block ∈ blocks, ∀ token ∈ block.content, IsPlainToken token
  tokens : ∃ marked, List.Forall₂ Block.Marked blocks marked ∧
    fileTokens text.toList = marked.flatten
  hasGrid : ∃ block ∈ blocks, block.kind = .grid
  grid : Written SpellsGridOption items.grid (Sections.joined .grid blocks)
  requests : Written SpellsRequest items.requests (Sections.joined .integrals blocks)
  output : Written SpellsOutputOption items.output (Sections.joined .output blocks)

theorem FileItems.InBlocks.isPure {items : FileItems} {text : String} {blocks : List Block}
    (inBlocks : items.InBlocks text blocks) : ∀ block ∈ blocks, block.IsPure :=
  fun block member token inside => (inBlocks.plain block member token inside).isContent

theorem FileItems.WrittenIn.exists_blocks {items : FileItems} {text : String}
    (written : items.WrittenIn text) : ∃ blocks, items.InBlocks text blocks := by
  obtain @⟨blocks, marked, layout, marks, hasGrid, grid, requests, output⟩ := written
  have plain : ∀ block ∈ blocks, ∀ token ∈ block.content, IsPlainToken token := by
    intro block member token inside
    have joined := Sections.mem_joined member inside
    cases kind : block.kind with
    | grid => exact grid.forall_tokens SpellsGridOption.isPlain token (kind ▸ joined)
    | integrals => exact requests.forall_tokens SpellsRequest.isPlain token (kind ▸ joined)
    | output => exact output.forall_tokens SpellsOutputOption.isPlain token (kind ▸ joined)
  have tokens_eq : fileTokens text.toList = marked.flatten :=
    layout.fileTokens_eq (isTokens_of_blocks marks fun block member token inside =>
      (plain block member token inside).isToken)
  exact ⟨blocks, plain, ⟨marked, marks, tokens_eq⟩, hasGrid, grid, requests, output⟩

theorem FileItems.WrittenIn.inText {items : FileItems} {text : String}
    (written : items.WrittenIn text) : items.InText text := by
  obtain ⟨blocks, inBlocks⟩ := written.exists_blocks
  obtain ⟨marked, marks, tokens_eq⟩ := inBlocks.tokens
  have sections := Sections.ofText_of_blocks marks inBlocks.isPure tokens_eq inBlocks.hasGrid
  exact ⟨_, sections, readItems_gridOptions inBlocks.grid, readItems_requests inBlocks.requests,
    readItems_outputOptions inBlocks.output⟩

/-! ### Options that are given -/

/-- The options that are given, each of them once. -/
def GridSettings.given (grid : GridSettings) : List GridOption :=
  (grid.kind?.map .kind).toList ++ (grid.points?.map .points).toList
    ++ (grid.radius?.map .radius).toList ++ (grid.anisotropy?.map .anisotropy).toList
    ++ (grid.values?.map .values).toList

/-- The options that are given, each of them once. -/
def OutputSettings.given (output : OutputSettings) : List OutputOption :=
  (output.format?.map .format).toList ++ (output.precision?.map .precision).toList
    ++ (output.limits?.map .limits).toList

theorem GridSettings.foldl_given (grid : GridSettings) :
    grid.given.foldl .set .empty = grid := by
  obtain ⟨kind?, points?, radius?, anisotropy?, values?⟩ := grid
  cases kind? <;> cases points? <;> cases radius? <;> cases anisotropy? <;> cases values? <;> rfl

theorem OutputSettings.foldl_given (output : OutputSettings) :
    output.given.foldl .set .empty = output := by
  obtain ⟨format?, precision?, limits?⟩ := output
  cases format? <;> cases precision? <;> cases limits? <;> rfl

/-- The order in which two options that are given are set does not matter. -/
theorem GridSettings.set_comm {grid : GridSettings} {x y : GridOption} (given : x ∈ grid.given)
    (given' : y ∈ grid.given) (start : GridSettings) :
    (start.set x).set y = (start.set y).set x := by
  -- Two options of one name are the same option, since each name is given once.
  cases x <;> cases y <;> try rfl
  all_goals
    simp only [GridSettings.given, List.mem_append, Option.mem_toList, Option.map_eq_some_iff,
      reduceCtorEq, and_false, exists_false, or_false, false_or, GridOption.kind.injEq,
      GridOption.points.injEq, GridOption.radius.injEq, GridOption.anisotropy.injEq,
      GridOption.values.injEq, exists_eq_right] at given given'
    obtain rfl := Option.some.inj (given.symm.trans given')
    rfl

theorem OutputSettings.set_comm {output : OutputSettings} {x y : OutputOption}
    (given : x ∈ output.given) (given' : y ∈ output.given) (start : OutputSettings) :
    (start.set x).set y = (start.set y).set x := by
  cases x <;> cases y <;> try rfl
  all_goals
    simp only [OutputSettings.given, List.mem_append, Option.mem_toList, Option.map_eq_some_iff,
      reduceCtorEq, and_false, exists_false, or_false, false_or, OutputOption.format.injEq,
      OutputOption.precision.injEq, OutputOption.limits.injEq, exists_eq_right] at given given'
    obtain rfl := Option.some.inj (given.symm.trans given')
    rfl

theorem GridSettings.foldl_perm {grid : GridSettings} {options : List GridOption}
    (perm : options.Perm grid.given) : options.foldl .set .empty = grid := by
  rw [perm.foldl_eq' fun x given y given' start => (set_comm (perm.mem_iff.mp given)
    (perm.mem_iff.mp given') start), grid.foldl_given]

theorem OutputSettings.foldl_perm {output : OutputSettings} {options : List OutputOption}
    (perm : options.Perm output.given) : options.foldl .set .empty = output := by
  rw [perm.foldl_eq' fun x given y given' start => (set_comm (perm.mem_iff.mp given)
    (perm.mem_iff.mp given') start), output.foldl_given]

/-! ### Settings in a text -/

/-- The settings are written in the text, each option that is given once and in any order. -/
inductive Settings.WrittenIn (settings : Settings) (text : String) : Prop
  | intro {items : FileItems} (grid : items.grid.Perm settings.grid.given)
      (requests : items.requests = settings.requests)
      (output : items.output.Perm settings.output.given) (written : items.WrittenIn text)

theorem settings_ofText_written {settings : Settings} {text : String}
    (written : settings.WrittenIn text) : Settings.ofText text = .ok settings := by
  obtain ⟨grid, requests, output, written⟩ := written
  refine settings_ofText_iff.mpr ⟨_, written.inText, ?_⟩
  rw [FileItems.settings, GridSettings.foldl_perm grid, OutputSettings.foldl_perm output, requests]

theorem Reader.read_ok_iff {text : String} {reader : Reader} {job : Job Float} :
    (reader.read (some text)).1 = .ok job ↔
      ∃ items : FileItems, items.InText text ∧ items.settings.job = .ok job := by
  show (ofText text).1 = .ok job ↔ _
  rw [ofText]
  constructor
  · intro accepted
    cases read : Settings.ofText text with
    | error e =>
      rw [read] at accepted
      contradiction
    | ok settings =>
      rw [read] at accepted
      obtain ⟨items, inText, rfl⟩ := settings_ofText_iff.mp read
      exact ⟨items, inText, accepted⟩
  · rintro ⟨items, inText, ok⟩
    rw [settings_ofText_iff.mpr ⟨items, inText, rfl⟩]
    exact ok

/-- The grid of a kind. The values make an explicit grid, the other parameters any other. -/
def gridOf (kind : GridKind) (points : Nat) (radius anisotropy : Float) (values : List Float) :
    Except (GridError Float) (Grid Float) :=
  match kind with
  | .equidistant => Grid.equidistant points radius
  | .exponential => Grid.exponential points radius anisotropy
  | .explicit => Grid.ofPoints values

/--
Settings without a fault whose grid can be built are read back from every text that they are written
in: the job has their grid, their requests and their output options, with the defaults for those
that are not given.
-/
theorem Reader.read_written {settings : Settings} {text : String} {grid : Grid Float}
    (written : settings.WrittenIn text) (valid : settings.faults = [])
    (built : gridOf (settings.grid.kind?.getD .equidistant) (settings.grid.points?.getD 100)
      (settings.grid.radius?.getD 10.0) (settings.grid.anisotropy?.getD 0.05)
      (settings.grid.values?.getD []) = .ok grid) (reader : Reader) :
    reader.read (some text) =
      (.ok ⟨grid, settings.requests, ⟨settings.output.format?.getD .text,
        settings.output.precision?.getD 10, settings.output.limits?.getD true⟩⟩,
        { reader with warnings := settings.warnings }) := by
  replace built : settings.grid.build = .ok grid := built
  rw [read, ofFile, ofText, settings_ofText_written written]
  dsimp only
  rw [job_ok_iff.mpr ⟨valid, grid, built, rfl⟩]
  rfl

/-- Blocks and options out of their order, values that another option follows, and comments. -/
def scatteredText : String :=
  "$INTEGRALS c0 0.5 2\n  ci 1e0 0 c0a 2 3 1 # two orders\n$end\n"
    ++ "$grid\tvalues 0 .5\n points 3 # unused values\n\n rmax 2 $end $Output limits FALSE $end"

def scatteredSettings : Settings where
  grid := ⟨none, some 3, some 2.0, none, some [0.0, 0.5]⟩
  requests := [⟨.inner, 0.5, 2, 0⟩, ⟨.outer, 1.0, 0, 0⟩, ⟨.innerPotential, 2.0, 3, 1⟩]
  output := ⟨none, none, some false⟩

def scatteredBlocks : List Block := [
  ⟨.integrals, ["c0", "0.5", "2", "ci", "1e0", "0", "c0a", "2", "3", "1"].map String.toList⟩,
  ⟨.grid, ["values", "0", ".5", "points", "3", "rmax", "2"].map String.toList⟩,
  ⟨.output, ["limits", "FALSE"].map String.toList⟩]

def scatteredMarks : List (List Token) :=
  List.zipWith (fun opening block => opening.toList :: (block.content ++ ["$end".toList]))
    ["$INTEGRALS", "$grid", "$Output"] scatteredBlocks

theorem scattered_written : scatteredSettings.WrittenIn scatteredText := by
  have values : SpellsGridOption (.values [0.0, 0.5]) (["values", "0", ".5"].map String.toList) :=
    .values rfl (.cons rfl (.cons rfl .nil))
  have points : SpellsGridOption (.points 3) (["points", "3"].map String.toList) := .points rfl rfl
  have radius : SpellsGridOption (.radius 2.0) (["rmax", "2"].map String.toList) := .radius rfl rfl
  have inner : SpellsRequest ⟨.inner, 0.5, 2, 0⟩ (["c0", "0.5", "2"].map String.toList) :=
    .intro rfl rfl rfl .inner
  have outer : SpellsRequest ⟨.outer, 1.0, 0, 0⟩ (["ci", "1e0", "0"].map String.toList) :=
    .intro rfl rfl rfl .outer
  have potential : SpellsRequest ⟨.innerPotential, 2.0, 3, 1⟩
      (["c0a", "2", "3", "1"].map String.toList) := .intro rfl rfl rfl (.given rfl)
  have limits : SpellsOutputOption (.limits false) (["limits", "FALSE"].map String.toList) :=
    .limits rfl (by decide)
  have grid := Written.cons values (.cons points (.cons radius .nil))
  have requests := Written.cons inner (.cons outer (.cons potential .nil))
  have output := Written.cons limits .nil
  have marks : List.Forall₂ Block.Marked scatteredBlocks scatteredMarks :=
    .cons (.intro rfl rfl) (.cons (.intro rfl rfl) (.cons (.intro rfl rfl) .nil))
  have tokens_eq : fileTokens scatteredText.toList = scatteredMarks.flatten := by decide +kernel
  have layout : Layout scatteredText.toList scatteredMarks.flatten :=
    tokens_eq ▸ (layout_fileTokens _).1
  have hasGrid : ∃ block ∈ scatteredBlocks, block.kind = .grid := ⟨_, .tail _ (.head _), rfl⟩
  have items : FileItems.WrittenIn ⟨[.values [0.0, 0.5]] ++ [.points 3, .radius 2.0],
      scatteredSettings.requests, [.limits false]⟩ scatteredText :=
    .intro layout marks hasGrid grid requests output
  exact .intro List.perm_append_comm rfl (List.Perm.refl _) items

theorem scattered_valid : scatteredSettings.faults = [] := rfl

theorem scattered_build : ∃ grid, scatteredSettings.grid.build = .ok grid := ⟨_, rfl⟩

theorem scattered_job : ∃ job, scatteredSettings.job = .ok job := by
  obtain ⟨grid, built⟩ := scattered_build
  exact ⟨_, job_ok_iff.mpr ⟨scattered_valid, grid, built, rfl⟩⟩

theorem scattered_read (reader : Reader) : reader.read (some scatteredText) =
    (scatteredSettings.job, { reader with warnings := [.valuesWithoutKind] }) := by
  rw [Reader.read, ofFile, ofText, settings_ofText_written scattered_written]
  rfl

theorem Reader.read_written_scattered :
    scatteredSettings.WrittenIn scatteredText ∧ scatteredSettings.faults = [] ∧
      ∃ grid, gridOf .equidistant 3 2.0 0.05 [0.0, 0.5] = .ok grid ∧
        (Reader.ofName "scattered").read (some scatteredText) =
          (.ok ⟨grid, scatteredSettings.requests, ⟨.text, 10, false⟩⟩,
            ⟨"scattered", [.valuesWithoutKind]⟩) := by
  obtain ⟨grid, built⟩ := scattered_build
  exact ⟨scattered_written, scattered_valid, grid, built,
    read_written scattered_written scattered_valid built (Reader.ofName "scattered")⟩

end GaussianRadial.Input
