import GaussianRadial.Input.Reader
import GaussianRadial.Report

/-!
# The command line

A run opens the report file, reads the input file and appends the report. An error is appended to
the report and printed. Warnings go into a text report, and beside a JSON report they are printed.
-/

namespace GaussianRadial.CommandLine

open Report (JsonNumbers ReportError)

/-- How a run ended: its exit code and what it printed to standard error. -/
structure Outcome where
  exitCode : Nat
  printed : String
  deriving DecidableEq

/-- What a run appends to the report, what it prints, and the message of the error that ends it. -/
structure Plan where
  pieces : List String
  printed : String
  error : Option String

/-- A text without the line ends at its start and its end. -/
def trimLines (text : String) : String :=
  let start := text.toList.dropWhile (· == '\n')
  String.ofList (start.reverse.dropWhile (· == '\n')).reverse

/-- The input as it is shown in a text report. -/
def echo (text : String) : List String :=
  [headerText "User Input:" '-' lineLength, trimLines text ++ "\n",
    separatorText '-' lineLength, "\n"]

def warningLine (warning : Input.Warning) : String := "WARNING: " ++ warning.message ++ "\n"

/-- What comes before the report itself. -/
def preamble (format : ReportFormat) (text : String) (warnings : List Input.Warning) :
    List String × String :=
  let warningLines := warnings.map warningLine
  match format with
  | .text => (echo text ++ warningLines ++ (if warnings.isEmpty then [] else ["\n"]), "")
  | .json => ([], String.join warningLines)

/-- The plan for an input file with the given contents. -/
def Plan.of [JsonNumbers] (input : String) (contents : Option String) : Plan :=
  match Input.ofFile input contents with
  | (.error e, _) => ⟨[], "", some e.message⟩
  | (.ok job, warnings) =>
    let (pieces, printed) := preamble job.options.format (contents.getD "") warnings
    let (run, _) := (Session.start job).run
    ⟨pieces ++ run.pieces, printed, run.error.map ReportError.message⟩

def errorLine (message : String) : String := "Error: " ++ message ++ "\n"

variable {m : Type → Type} [Monad m] [Files m]

/-- Appends an error to the report and prints it. -/
def fail (log : Log) (printed message : String) : m Outcome := do
  match ← log.append (errorLine message) with
  | .ok () => return ⟨1, printed ++ errorLine message⟩
  | .error e => return ⟨1, printed ++ errorLine message ++ errorLine e.message⟩

/-- Appends the pieces of a plan. -/
def Plan.carryOut (plan : Plan) (log : Log) : m Outcome := do
  match ← log.appendAll plan.pieces with
  | .error e => fail log plan.printed e.message
  | .ok () =>
    match plan.error with
    | some message => fail log plan.printed message
    | none => return ⟨0, plan.printed⟩

def usage (program : String) : String :=
  "Usage: " ++ program ++ " <input_file> <output_file>\n"

/-- Runs the program on its arguments. -/
def run [JsonNumbers] (program : String) (arguments : List String) : m Outcome := do
  match arguments with
  | [input, output] =>
    match ← Log.create output with
    | .error e => return ⟨1, errorLine e.message⟩
    | .ok log =>
      let contents ← Files.read input
      (Plan.of input contents).carryOut log
  | _ => return ⟨1, usage program⟩

end GaussianRadial.CommandLine
