import Mathlib
import GaussianRadial.Input.Reader
import GaussianRadial.Proofs.GridValidation
import GaussianRadial.Proofs.RoundTrip
import GaussianRadial.Report
import GaussianRadial.Report.ShortestNumbers

/-!
# Options without effect

A warning says that an option has no effect. Two files that differ in this option alone have the
same outcome, the report included, if the option has the same faults in both: `unused_option`. The
values of a grid that is not explicit and the precision of a json report are checked, so for them a
file that can be read and one that differs in the option alone need not have the same outcome.
-/

namespace GaussianRadial.Input

/-! ### Without an option -/

/-- The option of the grid that a warning is about. -/
def Warning.concerns : Warning → GridOption → Bool
  | .anisotropyUnused, .anisotropy _ => true
  | .valuesUnused, .values _ => true
  | .valuesWithoutKind, .values _ => true
  | .pointsUnused, .points _ => true
  | .radiusUnused, .radius _ => true
  | _, _ => false

/-- The option of the output that a warning is about. -/
def Warning.concernsOutput : Warning → OutputOption → Bool
  | .precisionUnused, .precision _ => true
  | _, _ => false

def GridSettings.without (warning : Warning) (grid : GridSettings) : GridSettings :=
  match warning with
  | .anisotropyUnused => { grid with anisotropy? := none }
  | .valuesUnused => { grid with values? := none }
  | .valuesWithoutKind => { grid with values? := none }
  | .pointsUnused => { grid with points? := none }
  | .radiusUnused => { grid with radius? := none }
  | .precisionUnused => grid

def OutputSettings.without (warning : Warning) (output : OutputSettings) : OutputSettings :=
  match warning with
  | .precisionUnused => { output with precision? := none }
  | _ => output

/-- The settings as if the option of the warning were not given. -/
def Settings.without (warning : Warning) (settings : Settings) : Settings :=
  ⟨settings.grid.without warning, settings.requests, settings.output.without warning⟩

/-- The items but those of the option of the warning. -/
def FileItems.without (warning : Warning) (items : FileItems) : FileItems :=
  ⟨items.grid.filter (!warning.concerns ·), items.requests,
    items.output.filter (!warning.concernsOutput ·)⟩

theorem GridSettings.without_set (warning : Warning) (grid : GridSettings) (option : GridOption) :
    (grid.set option).without warning =
      if warning.concerns option then grid.without warning
      else (grid.without warning).set option := by
  cases warning <;> cases option <;> rfl

theorem OutputSettings.without_set (warning : Warning) (output : OutputSettings)
    (option : OutputOption) :
    (output.set option).without warning =
      if warning.concernsOutput option then output.without warning
      else (output.without warning).set option := by
  cases warning <;> cases option <;> rfl

theorem GridSettings.without_foldl (warning : Warning) (grid : GridSettings)
    (options : List GridOption) :
    (options.foldl .set grid).without warning =
      (options.filter (!warning.concerns ·)).foldl .set (grid.without warning) := by
  induction options generalizing grid with
  | nil => rfl
  | cons option rest ih =>
    rw [List.foldl_cons, ih, without_set]
    cases h : warning.concerns option <;> simp [h]

theorem OutputSettings.without_foldl (warning : Warning) (output : OutputSettings)
    (options : List OutputOption) :
    (options.foldl .set output).without warning =
      (options.filter (!warning.concernsOutput ·)).foldl .set (output.without warning) := by
  induction options generalizing output with
  | nil => rfl
  | cons option rest ih =>
    rw [List.foldl_cons, ih, without_set]
    cases h : warning.concernsOutput option <;> simp [h]

theorem FileItems.settings_without (warning : Warning) (items : FileItems) :
    items.settings.without warning = (items.without warning).settings := by
  have grid : GridSettings.empty.without warning = .empty := by cases warning <;> rfl
  have output : OutputSettings.empty.without warning = .empty := by cases warning <;> rfl
  rw [Settings.without, settings, settings, GridSettings.without_foldl,
    OutputSettings.without_foldl, grid, output]
  rfl

/-! ### Unused options -/

/-- The option of the warning is not used. -/
def Warning.Applies (settings : Settings) : Warning → Prop
  | .anisotropyUnused => settings.grid.kind ≠ .exponential
  | .valuesUnused => settings.grid.kind ≠ .explicit
  | .valuesWithoutKind => settings.grid.kind ≠ .explicit
  | .pointsUnused => settings.grid.kind = .explicit
  | .radiusUnused => settings.grid.kind = .explicit
  | .precisionUnused => settings.output.options.format = .json

theorem Warning.applies_of_mem {settings : Settings} {warning : Warning}
    (warned : warning ∈ settings.warnings) : warning.Applies settings := by
  simp only [Settings.warnings, List.mem_append, mem_faultIf, Bool.and_eq_true, bne_iff_ne,
    Bool.not_eq_true', beq_eq_false_iff_ne, beq_iff_eq] at warned
  obtain (((⟨⟨-, kind⟩, rfl⟩ | ⟨⟨-, kind⟩, eq⟩) | ⟨⟨-, kind⟩, rfl⟩) | ⟨⟨-, kind⟩, rfl⟩) |
    ⟨⟨-, format⟩, rfl⟩ := warned
  · exact kind
  · split at eq <;> subst eq <;> exact kind
  · exact kind
  · exact kind
  · exact format

/-! ### What is used -/

/-- The grids have one kind and agree in what a grid of this kind is made of. -/
structure GridSettings.SameUse (grid grid' : GridSettings) : Prop where
  kind : grid.kind = grid'.kind
  points : grid.kind ≠ .explicit → grid.points = grid'.points
  radius : grid.kind ≠ .explicit → grid.radius = grid'.radius
  anisotropy : grid.kind = .exponential → grid.anisotropy = grid'.anisotropy
  values : grid.kind = .explicit → grid.values = grid'.values

/-- The options agree in what a report of their format shows. -/
structure SameReport (options options' : ReportOptions) : Prop where
  format : options.format = options'.format
  precision : options.format ≠ .json → options.precision = options'.precision
  limits : options.limits = options'.limits

theorem GridSettings.SameUse.build_eq {grid grid' : GridSettings} (same : grid.SameUse grid') :
    grid.build = grid'.build := by
  rw [build, build, ← same.kind]
  cases kind : grid.kind with
  | equidistant =>
    have generated : grid.kind ≠ .explicit := by simp [kind]
    rw [same.points generated, same.radius generated]
  | exponential =>
    have generated : grid.kind ≠ .explicit := by simp [kind]
    rw [same.points generated, same.radius generated, same.anisotropy kind]
  | explicit => rw [same.values kind]

theorem GridSettings.SameUse.faults_eq {grid grid' : GridSettings} (same : grid.SameUse grid')
    (values : valueFaults 1 none grid.values = valueFaults 1 none grid'.values) :
    grid.faults = grid'.faults := by
  rw [faults, faults, ← same.kind, values]
  cases kind : grid.kind with
  | equidistant =>
    have generated : grid.kind ≠ .explicit := by simp [kind]
    have notExponential : (GridKind.equidistant == GridKind.exponential) = false := rfl
    have notExplicit : (GridKind.equidistant == GridKind.explicit) = false := rfl
    simp only [notExponential, notExplicit, Bool.false_and, faultIf_false]
    rw [same.points generated, same.radius generated]
  | exponential =>
    have generated : grid.kind ≠ .explicit := by simp [kind]
    have notExplicit : (GridKind.exponential == GridKind.explicit) = false := rfl
    simp only [notExplicit, Bool.false_and, faultIf_false, overflows]
    rw [same.points generated, same.radius generated, same.anisotropy kind]
  | explicit =>
    have notExponential : (GridKind.explicit == GridKind.exponential) = false := rfl
    have isExplicit : (GridKind.explicit == GridKind.explicit) = true := rfl
    simp only [notExponential, isExplicit, Bool.not_true, Bool.false_and, faultIf_false]
    rw [same.values kind]

theorem run_eq [Report.JsonNumbers] {job job' : Job Float} (grid : job.grid = job'.grid)
    (requests : job.requests = job'.requests) (options : SameReport job.options job'.options) :
    (Session.start job).run.1 = (Session.start job').run.1 := by
  obtain ⟨points, entries, ⟨format, precision, limits⟩⟩ := job
  obtain ⟨points', entries', ⟨format', precision', limits'⟩⟩ := job'
  obtain ⟨rfl, precisions, rfl⟩ := options
  obtain rfl : points = points' := grid
  obtain rfl : entries = entries' := requests
  cases format with
  | text =>
    obtain rfl : precision = precision' := precisions (fun json => nomatch json)
    rfl
  | json =>
    -- Neither the evaluation nor a document reads the precision.
    rw [Session.run, Session.run, Session.evaluate, Session.evaluate]
    dsimp only [Session.start]
    cases (AuxiliaryCache.evaluateAll points.points [] entries).1 <;> rfl

/-! ### Settings that differ in an unused option -/

namespace GridSettings
variable {warning : Warning}

theorem without_kind (warning : Warning) (grid : GridSettings) :
    (grid.without warning).kind = grid.kind := by
  cases warning <;> rfl

theorem without_points (other : warning ≠ .pointsUnused) (grid : GridSettings) :
    (grid.without warning).points = grid.points := by
  cases warning <;> first | rfl | exact absurd rfl other

theorem without_radius (other : warning ≠ .radiusUnused) (grid : GridSettings) :
    (grid.without warning).radius = grid.radius := by
  cases warning <;> first | rfl | exact absurd rfl other

theorem without_anisotropy (other : warning ≠ .anisotropyUnused) (grid : GridSettings) :
    (grid.without warning).anisotropy = grid.anisotropy := by
  cases warning <;> first | rfl | exact absurd rfl other

theorem without_values (other : warning ≠ .valuesUnused) (other' : warning ≠ .valuesWithoutKind)
    (grid : GridSettings) : (grid.without warning).values = grid.values := by
  cases warning <;> first | rfl | exact absurd rfl other | exact absurd rfl other'

end GridSettings

section Same
variable {settings settings' : Settings} {warning : Warning}

theorem sameUse_of_without (applies : warning.Applies settings)
    (same : settings.grid.without warning = settings'.grid.without warning) :
    settings.grid.SameUse settings'.grid := by
  -- A parameter that a grid of this kind is made of is not the one that the warning is about.
  refine ⟨?_, fun generated => ?_, fun generated => ?_, fun exponential => ?_, fun explicit => ?_⟩
  · rw [← GridSettings.without_kind warning, same, GridSettings.without_kind]
  · have used : warning ≠ .pointsUnused := by
      rintro rfl
      exact generated applies
    rw [← GridSettings.without_points used, same, GridSettings.without_points used]
  · have used : warning ≠ .radiusUnused := by
      rintro rfl
      exact generated applies
    rw [← GridSettings.without_radius used, same, GridSettings.without_radius used]
  · have used : warning ≠ .anisotropyUnused := by
      rintro rfl
      exact applies exponential
    rw [← GridSettings.without_anisotropy used, same, GridSettings.without_anisotropy used]
  · have used : warning ≠ .valuesUnused := by
      rintro rfl
      exact applies explicit
    have used' : warning ≠ .valuesWithoutKind := by
      rintro rfl
      exact applies explicit
    rw [← GridSettings.without_values used used', same, GridSettings.without_values used used']

theorem OutputSettings.without_eq (other : warning ≠ .precisionUnused)
    (output : OutputSettings) : output.without warning = output := by
  cases warning <;> first | rfl | exact absurd rfl other

theorem sameReport_of_without (applies : warning.Applies settings)
    (same : settings.output.without warning = settings'.output.without warning) :
    SameReport settings.output.options settings'.output.options := by
  by_cases json : warning = .precisionUnused
  · subst json
    rw [OutputSettings.without, OutputSettings.without, OutputSettings.mk.injEq] at same
    obtain ⟨format, -, limits⟩ := same
    refine ⟨?_, fun text => absurd applies text, ?_⟩
    · rw [OutputSettings.options, OutputSettings.options, format]
    · rw [OutputSettings.options, OutputSettings.options, limits]
  · rw [OutputSettings.without_eq json, OutputSettings.without_eq json] at same
    rw [same]
    exact ⟨rfl, fun _ => rfl, rfl⟩

/-- What can be wrong with an unused option. Only values and a precision are checked if unused. -/
def Warning.optionFaults (settings : Settings) : Warning → List Fault
  | .valuesUnused => valueFaults 1 none settings.grid.values
  | .valuesWithoutKind => valueFaults 1 none settings.grid.values
  | .precisionUnused => outputFaults settings.output.options
  | _ => []

theorem optionFaults_of_valid (valid : settings.faults = []) (warning : Warning) :
    warning.optionFaults settings = [] := by
  simp only [Settings.faults, GridSettings.faults, List.append_eq_nil_iff] at valid
  obtain ⟨⟨⟨⟨-, values⟩, -⟩, -⟩, precision⟩ := valid
  cases warning with
  | valuesUnused => exact values
  | valuesWithoutKind => exact values
  | precisionUnused => exact precision
  | _ => rfl

theorem valueFaults_eq_of_without
    (same : settings.grid.without warning = settings'.grid.without warning)
    (equal : warning.optionFaults settings = warning.optionFaults settings') :
    valueFaults 1 none settings.grid.values = valueFaults 1 none settings'.grid.values := by
  by_cases unused : warning = .valuesUnused
  · subst unused
    exact equal
  · by_cases unused' : warning = .valuesWithoutKind
    · subst unused'
      exact equal
    · rw [← GridSettings.without_values unused unused', same,
        GridSettings.without_values unused unused']

theorem outputFaults_eq_of_without
    (same : settings.output.without warning = settings'.output.without warning)
    (equal : warning.optionFaults settings = warning.optionFaults settings') :
    outputFaults settings.output.options = outputFaults settings'.output.options := by
  by_cases unused : warning = .precisionUnused
  · subst unused
    exact equal
  · rw [OutputSettings.without_eq unused, OutputSettings.without_eq unused] at same
    rw [same]

theorem faults_eq_of_without (applies : warning.Applies settings)
    (same : settings.without warning = settings'.without warning)
    (equal : warning.optionFaults settings = warning.optionFaults settings') :
    settings.faults = settings'.faults := by
  obtain ⟨grid, requests, output⟩ := Settings.mk.inj same
  rw [Settings.faults, Settings.faults, requests, outputFaults_eq_of_without output equal,
    (sameUse_of_without applies grid).faults_eq (valueFaults_eq_of_without grid equal)]

/-- What is seen of an outcome: a message, or the grid, the requests and what a session reports. -/
def observed [Report.JsonNumbers] : Except Error (Job Float) →
    Except String (Grid Float × List (Request Float) × ReportRun)
  | .error e => .error e.message
  | .ok job => .ok (job.grid, job.requests, (Session.start job).run.1)

theorem observed_eq_of_without [Report.JsonNumbers] (applies : warning.Applies settings)
    (same : settings.without warning = settings'.without warning)
    (equal : warning.optionFaults settings = warning.optionFaults settings') :
    observed settings.job = observed settings'.job := by
  have faults := faults_eq_of_without applies same equal
  obtain ⟨grid, requests, output⟩ := Settings.mk.inj same
  have report := sameReport_of_without applies output
  rw [Settings.job, Settings.job, ← faults, ← (sameUse_of_without applies grid).build_eq]
  split
  · cases settings.grid.build with
    | error e => rfl
    | ok built =>
      have runs : (Session.start ⟨built, settings.requests, settings.output.options⟩).run.1 =
          (Session.start ⟨built, settings'.requests, settings'.output.options⟩).run.1 :=
        run_eq rfl requests report
      dsimp only [observed]
      rw [runs, requests]
  · rfl

end Same

theorem exists_job_of_observed [Report.JsonNumbers] {outcome outcome' : Except Error (Job Float)}
    (same : observed outcome = observed outcome') {job : Job Float} (ok : outcome = .ok job) :
    ∃ job', outcome' = .ok job' := by
  subst ok
  cases outcome' with
  | error e => exact nomatch same
  | ok job' => exact ⟨job', rfl⟩

theorem ofText_of_inText {items : FileItems} {text : String} (inText : items.InText text) :
    ofText text = (items.settings.job, items.settings.warnings) := by
  rw [ofText, settings_ofText_iff.mpr ⟨items, inText, rfl⟩]

/--
Two files whose items differ in an option alone, of which it is warned that it has no effect, have
the same outcome if the same is wrong with the option in both. If one of them gives a job, nothing
is wrong with the option there, and the outcome is the same exactly if this is so in the other.
-/
theorem unused_option [Report.JsonNumbers] {text text' : String} {items items' : FileItems}
    {warning : Warning} (inText : items.InText text) (inText' : items'.InText text')
    (reader : Reader) (warned : warning ∈ (reader.read (some text)).2.warnings)
    (same : items.without warning = items'.without warning) :
    let outcome := (reader.read (some text)).1
    let outcome' := (reader.read (some text')).1
    (warning.optionFaults items.settings = warning.optionFaults items'.settings →
      observed outcome = observed outcome') ∧
    ∀ job, outcome = .ok job →
      (observed outcome = observed outcome' ↔ warning.optionFaults items'.settings = []) := by
  simp only [Reader.read, ofFile, ofText_of_inText inText, ofText_of_inText inText'] at warned ⊢
  have applies := Warning.applies_of_mem warned
  have sameSettings : items.settings.without warning = items'.settings.without warning := by
    rw [FileItems.settings_without, FileItems.settings_without, same]
  refine ⟨observed_eq_of_without applies sameSettings, fun job ok => ?_⟩
  refine ⟨fun equal => ?_, fun none => ?_⟩
  · obtain ⟨job', ok'⟩ := exists_job_of_observed equal ok
    exact optionFaults_of_valid (job_ok_iff.mp ok').1 warning
  · refine observed_eq_of_without applies sameSettings ?_
    rw [none, optionFaults_of_valid (job_ok_iff.mp ok).1]

/-! ### A file with two unused options -/

def unusedText (value digits : String) : String :=
  "$grid points 2 values " ++ value ++ " $end $integrals c0 1 0 $end $output format json precision "
    ++ digits ++ " $end"

def unusedBlocks (value digits : String) : List Block := [
  ⟨.grid, ["points", "2", "values", value].map String.toList⟩,
  ⟨.integrals, ["c0", "1", "0"].map String.toList⟩,
  ⟨.output, ["format", "json", "precision", digits].map String.toList⟩]

def unusedItems (x : Float) (n : Int) : FileItems :=
  ⟨[.points 2, .values [x]], [⟨.inner, 1.0, 0, 0⟩], [.format .json, .precision n]⟩

theorem unused_inText (value digits : String) {x : Float} {n : Int}
    (tokens_eq : fileTokens (unusedText value digits).toList =
      (unusedBlocks value digits).flatMap Block.tokens)
    (number : Number.wholeNumber? value.toList = some x)
    (integer : Number.readInteger (-2147483648) 2147483647 digits.toList = some (n, [])) :
    (unusedItems x n).InText (unusedText value digits) := by
  have points : SpellsGridOption (.points 2) (["points", "2"].map String.toList) := .points rfl rfl
  have values : SpellsGridOption (.values [x]) ["values".toList, value.toList] :=
    .values rfl (.cons number .nil)
  have request : SpellsRequest ⟨.inner, 1.0, 0, 0⟩ (["c0", "1", "0"].map String.toList) :=
    .intro rfl rfl rfl .inner
  have format : SpellsOutputOption (.format .json) (["format", "json"].map String.toList) :=
    .format rfl rfl
  have precision : SpellsOutputOption (.precision n) ["precision".toList, digits.toList] :=
    .precision rfl integer
  exact (FileItems.writtenIn_of_sections tokens_eq (.cons points (.cons values .nil))
    (.cons request .nil) (.cons format (.cons precision .nil))).inText

theorem unused_one : (unusedItems 1.0 10).InText (unusedText "1" "10") :=
  unused_inText "1" "10" (by decide +kernel) rfl rfl

theorem unused_option_precision :
    let reader := Reader.ofName "unused"
    (unusedItems 1.0 10).InText (unusedText "1" "10") ∧
      (unusedItems 1.0 7).InText (unusedText "1" "7") ∧
      .precisionUnused ∈ (reader.read (some (unusedText "1" "10"))).2.warnings ∧
      (unusedItems 1.0 10).without .precisionUnused = (unusedItems 1.0 7).without .precisionUnused ∧
      observed (reader.read (some (unusedText "1" "10"))).1 =
        observed (reader.read (some (unusedText "1" "7"))).1 := by
  intro reader
  have precise : (unusedItems 1.0 7).InText (unusedText "1" "7") :=
    unused_inText "1" "7" (by decide +kernel) rfl rfl
  have warned : .precisionUnused ∈ (reader.read (some (unusedText "1" "10"))).2.warnings := by
    simp only [Reader.read, ofFile, ofText_of_inText unused_one]
    exact .tail _ (.head _)
  exact ⟨unused_one, precise, warned, rfl,
    (unused_option unused_one precise reader warned rfl).1 rfl⟩

/-- The files differ in the option of a warning alone, and yet in their outcomes. -/
def HasEffect [Report.JsonNumbers] (warning : Warning) (text text' : String) : Prop :=
  ∃ items items' : FileItems, items.InText text ∧ items'.InText text' ∧
    items.without warning = items'.without warning ∧ warning ∈ (ofText text).2 ∧
    observed (ofText text).1 ≠ observed (ofText text').1

theorem unused_options_have_effect :
    HasEffect .valuesWithoutKind (unusedText "1" "10") (unusedText "-1" "10") ∧
      HasEffect .precisionUnused (unusedText "1" "10") (unusedText "1" "40") := by
  have negative : (unusedItems (-1.0) 10).InText (unusedText "-1" "10") :=
    unused_inText "-1" "10" (by decide +kernel) rfl rfl
  have precise : (unusedItems 1.0 40).InText (unusedText "1" "40") :=
    unused_inText "1" "40" (by decide +kernel) rfl rfl
  refine ⟨⟨_, _, unused_one, negative, rfl, ?_, ?_⟩, ⟨_, _, unused_one, precise, rfl, ?_, ?_⟩⟩
  · rw [ofText_of_inText unused_one]
    exact .head _
  · rw [ofText_of_inText unused_one, ofText_of_inText negative]
    exact fun same => nomatch same
  · rw [ofText_of_inText unused_one]
    exact .tail _ (.head _)
  · rw [ofText_of_inText unused_one, ofText_of_inText precise]
    exact fun same => nomatch same

end GaussianRadial.Input
