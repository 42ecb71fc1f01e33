import Mathlib
import GaussianRadial.Proofs.DocumentData

/-!
# Whole reports

A JSON report is one text that is read as a document with the data of the job, and the end of a
line. A text report has all the words of the job, its table in columns. A run of a session whose
requests are admitted makes a whole report in either format: `Session.run_whole`.
-/

namespace GaussianRadial
open Report

section Report
variable (job : Job Float) (columns : List (List Float)) (report : String)

/--
One JSON text, from brace to brace, and the end of its last line. The data of the job are read from
the text.
-/
def IsJsonReport : Prop :=
  ∃ inner text json entries, text = "\x7b" ++ inner ++ "\x7d" ∧ report = text ++ "\n" ∧
    Json.read text = some json ∧
    DocumentData job.grid job.requests job.options.limits columns json entries

/-- Lines with the words of the job, the lines of the aligned table among them. -/
def IsTextReport : Prop :=
  HasWords report (reportWords job job.options.precision.toNat columns) ∧
    ∃ before after, report = before ++ table job columns ++ after

/-- The text is the whole report of a job with the given columns. -/
structure WholeReport : Prop where
  columns_length : columns.length = job.requests.length
  column_length : ∀ column ∈ columns, column.length = job.grid.points.length
  json : job.options.format = .json → IsJsonReport job columns report
  text : job.options.format = .text → IsTextReport job columns report

end Report

section Pieces
variable [JsonNumbers] {job : Job Float} {columns : List (List Float)}

/-- The one piece of a JSON report is the text of its document. -/
theorem reportPieces_json (format : job.options.format = .json)
    (admitted : ∀ request ∈ job.requests, request.Admitted) :
    reportPieces job columns = [.ok ((Document.json ⟨job.grid,
      entriesFor job.options.limits job.requests columns⟩).render 0 ++ "\n")] := by
  have made := @entriesOf_eq (job.requests.zip columns)
    (fun result member => admitted result.1 (List.of_mem_zip member).1) job.options.limits
  rw [reportPieces, format]
  dsimp only
  rw [Document.of, made]
  rfl

theorem wholeReport_of_pieces [LawfulJsonNumbers]
    (admitted : ∀ request ∈ job.requests, request.Admitted) (precision : 1 ≤ job.options.precision)
    (shape : columns.length = job.requests.length)
    (lengths : ∀ column ∈ columns, column.length = job.grid.points.length) :
    WholeReport job columns (String.join (untilError (reportPieces job columns)).1) := by
  refine ⟨shape, lengths, fun format => ?_, fun format => ?_⟩
  · rw [reportPieces_json format admitted]
    obtain ⟨inner, text⟩ := Json.exists_render_object 0 _ _ _
    exact ⟨inner, _, _, _, text, String.empty_append, Json.read_render 0 _,
      documentData admitted job.options.limits shape⟩
  · have places : job.options.precision = (job.options.precision.toNat : ℤ) := by omega
    have positive : 1 ≤ job.options.precision.toNat := by omega
    rw [reportPieces_text places positive format admitted]
    refine ⟨hasWords_reportLines places positive shape, ?_⟩
    rw [reportLines, ofLines_append, ofLines_append]
    exact ⟨_, _, rfl⟩

end Pieces

/-- Evaluated columns are one for each request and hold one value for each point. -/
theorem shape_of_mapM {points : List Float} {requests : List (Request Float)}
    {columns : List (List Float)}
    (ok : requests.mapM (Request.evaluateFresh points) = .ok columns) :
    columns.length = requests.length ∧ ∀ column ∈ columns, column.length = points.length := by
  have evaluated := mapM_ok_forall₂ ok
  have lengths := evaluated.flip.imp fun column request ok => And.intro (evaluateFresh_length ok) ok
  exact ⟨evaluated.length_eq.symm, ((List.forall₂_and_left _ _).mp lengths).1⟩

theorem Session.run_whole [JsonNumbers] [LawfulJsonNumbers] {job : Job Float}
    (admitted : Input.JobAdmitted job) :
    ∃ columns, (start job).evaluate.1 = .ok columns ∧ (start job).run.1.error = none ∧
      WholeReport job columns (String.join (start job).run.1.pieces) := by
  obtain ⟨⟨columns, evaluated⟩, noError⟩ := (start_holds job).complete admitted.comparable
    admitted.completes (Int.le_of_lt admitted.precision.1)
  have fresh := ((start_holds job).evaluate_fresh admitted.comparable).symm.trans evaluated
  obtain ⟨shape, lengths⟩ := shape_of_mapM fresh
  refine ⟨columns, evaluated, noError, ?_⟩
  rw [run_of_evaluate evaluated]
  exact wholeReport_of_pieces admitted.requests admitted.precision.1 shape lengths

end GaussianRadial
