import Mathlib
import GaussianRadial.Proofs.NumberLayouts
import GaussianRadial.Proofs.WholeReports

/-!
# The data of a report

Both formats report one set of data: the requests with their limits, and the columns of their
values. They are read from the text of the document, and the words of the text report are those of
the same numbers: `reports_agree`.
-/

namespace GaussianRadial
open Number Report

/-- Requests that are admitted have one list of columns, whatever the options of the report are. -/
theorem exists_columns {requests : List (Request Float)}
    (admitted : ∀ request ∈ requests, request.Admitted) (grid : Grid Float) :
    ∃ columns, (columns.length = requests.length ∧
        ∀ column ∈ columns, column.length = grid.points.length) ∧
      ∀ options, (Session.start ⟨grid, requests, options⟩).evaluate.1 = .ok columns := by
  obtain ⟨columns, all⟩ := mapM_ok fun request member =>
    ((admitted request member).completes grid.points).evaluateFresh
  refine ⟨columns, shape_of_mapM all, fun options => ?_⟩
  have fresh := (Session.start_holds ⟨grid, requests, options⟩).evaluate_fresh
    fun request member => (admitted request member).comparable
  exact fresh.trans all

section Formats
variable [JsonNumbers] {job : Job Float} {columns : List (List Float)}
  (evaluated : (Session.start job).evaluate.1 = .ok columns)
  (admitted : ∀ request ∈ job.requests, request.Admitted)
include evaluated admitted

/-- The options of a document are whether it has limits: it is not written with a precision. -/
theorem run_json (format : job.options.format = .json) :
    (Session.start job).run.1 = ⟨[(Document.json ⟨job.grid,
      entriesFor job.options.limits job.requests columns⟩).render 0 ++ "\n"], none⟩ := by
  have pieces : reportPieces (Session.start job).job columns = _ := reportPieces_json format admitted
  rw [Session.run_of_evaluate evaluated, pieces]
  rfl

theorem run_text {places : ℕ} (format : job.options.format = .text)
    (precision : job.options.precision = places) (positive : 1 ≤ places)
    (shape : columns.length = job.requests.length) :
    ∃ pieces, (Session.start job).run.1 = ⟨pieces, none⟩ ∧
      HasWords (String.join pieces) (reportWords job places columns) := by
  have limits := fun request member => (admitted request member).limit
  have noError := untilError_ok (reportPieces_ok limits (by omega) columns)
  have made : (Session.start job).run.1 = ⟨(untilError (reportPieces job columns)).1, none⟩ :=
    (Session.run_of_evaluate evaluated).trans (congrArg _ noError)
  refine ⟨_, made, ?_⟩
  rw [reportPieces_text precision positive format admitted]
  exact hasWords_reportLines precision positive shape

end Formats

/--
A job of admitted requests is reported in both formats, with limits or without, from one list of
columns. A reader of the JSON text gets the points of the grid and one entry for each request, with
the request, its limit and its values. The words of the text report are those of the same points,
limits and values.
-/
theorem reports_agree [JsonNumbers] [LawfulJsonNumbers] {grid : Grid Float}
    {requests : List (Request Float)} {places : ℕ}
    (admitted : ∀ request ∈ requests, request.Admitted) (positive : 1 ≤ places) (limits : Bool)
    (ignored : ℤ) :
    ∃ columns text json entries pieces,
      (columns.length = requests.length ∧
        ∀ column ∈ columns, column.length = grid.points.length) ∧
      (Session.start ⟨grid, requests, ⟨.json, ignored, limits⟩⟩).run.1 = ⟨[text ++ "\n"], none⟩ ∧
      Json.read text = some json ∧ DocumentData grid requests limits columns json entries ∧
      (Session.start ⟨grid, requests, ⟨.text, places, limits⟩⟩).run.1 = ⟨pieces, none⟩ ∧
      HasWords (String.join pieces)
        (reportWords ⟨grid, requests, ⟨.text, places, limits⟩⟩ places columns) ∧
      ((∀ request ∈ requests, request.kind ≠ .innerPotential → request.l₂ = 0) →
        entries.mapM Json.request? = some requests) := by
  obtain ⟨columns, shape, evaluated⟩ := exists_columns admitted grid
  have data := @documentData grid requests columns admitted limits shape.1
  obtain ⟨pieces, run, words⟩ := run_text (evaluated ⟨.text, places, limits⟩) admitted rfl rfl
    positive shape.1
  refine ⟨columns, _, _, _, pieces, shape, run_json (evaluated _) admitted rfl,
    Json.read_render 0 _, data, run, words, fun single => ?_⟩
  have same : requests.map Request.reported = requests := by
    rw [List.map_congr_left fun request member => reported_eq (single request member), List.map_id']
  exact data.reported.trans (congrArg some same)

def twoPointGrid : Grid Float := ⟨.explicit, 0, [0, 1], false⟩

def threeKinds : List (Request Float) :=
  [⟨.inner, 2, 2, 0⟩, ⟨.innerPotential, 0.5, 3, 1⟩, ⟨.outer, 2, 0, 0⟩]

theorem threeKinds_admitted : ∀ request ∈ threeKinds, request.Admitted := by
  simp only [threeKinds, List.forall_mem_cons, List.not_mem_nil, false_implies, implies_true,
    and_true]
  refine ⟨⟨?_, ?_, ?_⟩, ⟨?_, ?_, ?_⟩, ⟨?_, ?_, ?_⟩⟩
  all_goals decide

theorem threeKinds_limits : ∃ atInfinity atOrigin,
    threeKinds.map Request.limitValue = [some atInfinity, none, some atOrigin] := by
  have admitted := threeKinds_admitted
  simp only [threeKinds, List.forall_mem_cons] at admitted
  obtain ⟨inner, potential, outer, -⟩ := admitted
  obtain ⟨atInfinity, first⟩ := Option.isSome_iff_exists.mp inner.limitValue_isSome
  obtain ⟨atOrigin, last⟩ := Option.isSome_iff_exists.mp outer.limitValue_isSome
  have between : (⟨.innerPotential, 0.5, 3, 1⟩ : Request Float).limitValue = none :=
    Option.isNone_iff_eq_none.mp (Option.isSome_eq_false_iff.mp potential.limitValue_isSome)
  exact ⟨atInfinity, atOrigin, by simp [threeKinds, first, between, last]⟩

/-- The words of a text report of the three requests at the two points. -/
def threeKindsWords (atInfinity atOrigin : Float) (columns : List (List Float)) :
    List (List String) :=
  let rule := String.ofList (List.replicate 99 '-')
  let number := scientificText 3
  let row (i : ℕ) := columns.map fun column => number (column.getD i 0)
  [["Radial", "grid", "(explicit):"], ["Number", "of", "points:", "2"],
    ["Range:", "[0.00000000,", "1.00000000]"], [], ["Full-range", "limits:"],
    ["c0(a=2,l=2)", "x", "->", "inf:", number atInfinity],
    ["ci(a=2,l=0)", "x", "=", "0:", number atOrigin], [], [rule],
    ["Radial", "integrals", "(2", "points,", "3", "integrals)"], [rule],
    ["r", "c0(a=2,l=2)", "c0a(a=0.5,l1=3,l2=1)", "ci(a=2,l=0)"],
    "0.000e+00" :: row 0, "1.000e+00" :: row 1, [rule]]

theorem reportWords_threeKinds {atInfinity atOrigin : Float}
    (limits : threeKinds.map Request.limitValue = [some atInfinity, none, some atOrigin])
    (columns : List (List Float)) :
    reportWords ⟨twoPointGrid, threeKinds, ⟨.text, 3, true⟩⟩ 3 columns =
      threeKindsWords atInfinity atOrigin columns := by
  have grid : twoPointGrid.words = [["Radial", "grid", "(explicit):"],
      ["Number", "of", "points:", "2"], ["Range:", "[0.00000000,", "1.00000000]"]] := by
    decide +kernel
  have labels : threeKinds.map Request.label =
      ["c0(a=2,l=2)", "c0a(a=0.5,l1=3,l2=1)", "ci(a=2,l=0)"] := by decide +kernel
  have points : twoPointGrid.points.map (scientificText 3) = ["0.000e+00", "1.000e+00"] := by
    decide +kernel
  obtain ⟨first, second⟩ : _ ∧ _ := by simpa [twoPointGrid] using points
  obtain ⟨limit, none, origin⟩ : _ ∧ _ ∧ _ := by simpa [threeKinds] using limits
  have title : titleWords twoPointGrid.points.length threeKinds.length =
      ["Radial", "integrals", "(2", "points,", "3", "integrals)"] := by decide +kernel
  have zipped : twoPointGrid.points.zipIdx = [(0, 0), (1, 1)] := rfl
  obtain ⟨label₁, -, label₃⟩ : _ ∧ _ ∧ _ := by simpa [threeKinds] using labels
  have lines : (threeKinds.filterMap fun request =>
      request.limitValue.map (limitWords 3 request)) =
      [["c0(a=2,l=2)", "x", "->", "inf:", scientificText 3 atInfinity],
        ["ci(a=2,l=0)", "x", "=", "0:", scientificText 3 atOrigin]] := by
    simp [threeKinds, limit, none, origin, limitWords, limitPlace, label₁, label₃]
  rw [reportWords, grid, title, lines, tableWords, labels, zipped]
  simp [threeKindsWords, first, second, Function.comp_def]

theorem reports_agree_three_kinds :
    (∀ request ∈ threeKinds, request.Admitted) ∧ 1 ≤ 3 ∧
      (∀ request ∈ threeKinds, request.kind ≠ .innerPotential → request.l₂ = 0) ∧
      ∃ atInfinity atOrigin columns text json entries pieces,
        threeKinds.map Request.limitValue = [some atInfinity, none, some atOrigin] ∧
        (Session.start ⟨twoPointGrid, threeKinds, ⟨.json, 17, true⟩⟩).run.1 =
          ⟨[text ++ "\n"], none⟩ ∧
        Json.read text = some json ∧ entries.mapM Json.request? = some threeKinds ∧
        DocumentData twoPointGrid threeKinds true columns json entries ∧
        (Session.start ⟨twoPointGrid, threeKinds, ⟨.text, 3, true⟩⟩).run.1 = ⟨pieces, none⟩ ∧
        HasWords (String.join pieces) (threeKindsWords atInfinity atOrigin columns) := by
  have single : ∀ request ∈ threeKinds, request.kind ≠ .innerPotential → request.l₂ = 0 := by
    simp [threeKinds]
  obtain ⟨atInfinity, atOrigin, limits⟩ := threeKinds_limits
  obtain ⟨columns, text, json, entries, pieces, -, document, read, data, report, words, requests⟩ :=
    @reports_agree _ _ twoPointGrid threeKinds 3 threeKinds_admitted (by decide) true 17
  exact ⟨threeKinds_admitted, by decide, single, atInfinity, atOrigin, columns, text, json, entries,
    pieces, limits, document, read, requests single, data, report,
    reportWords_threeKinds limits columns ▸ words⟩

end GaussianRadial
