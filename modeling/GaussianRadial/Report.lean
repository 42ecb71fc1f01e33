import GaussianRadial.Log
import GaussianRadial.Report.Document
import GaussianRadial.Report.Table

/-!
# Reports

A report is a sequence of pieces that are appended one after the other. Evaluation comes first, so
that a job that fails leaves no piece behind.
-/

namespace GaussianRadial

open Report

section Texts
variable [JsonNumbers]

/-- The pieces of a report over evaluated columns. A piece that cannot be made ends the report. -/
def reportPieces (job : Job Float) (columns : List (List Float)) :
    List (Except ReportError String) :=
  match job.options.format with
  | .json =>
    [((Document.of job columns).map fun document => document.text ++ "\n").mapError .integral]
  | .text =>
    let points := job.grid.points.length
    let integrals := job.requests.length
    let title := s!"Radial integrals ({points} points, {integrals} integrals)"
    [.ok (job.grid.describe ++ "\n")]
      ++ (if job.options.limits then [limits job] else [])
      ++ [.ok (headerText title '-' lineLength), checkedTable job columns,
        .ok (separatorText '-' lineLength)]

/-- The values up to the first error, and that error. -/
def untilError {ε β : Type} : List (Except ε β) → List β × Option ε
  | [] => ([], none)
  | .error e :: _ => ([], some e)
  | .ok x :: rest =>
    let (xs, e) := untilError rest
    (x :: xs, e)

/-- What a session has to append, and the error that ended it. -/
structure ReportRun where
  pieces : List String
  error : Option ReportError

/-- Evaluates the requests and makes the report. -/
def Session.run (session : Session Float) : ReportRun × Session Float :=
  match session.evaluate with
  | (.error e, session) => (⟨[], some (.integral e)⟩, session)
  | (.ok columns, session) =>
    let (pieces, error) := untilError (reportPieces session.job columns)
    (⟨pieces, error⟩, session)

end Texts

end GaussianRadial
