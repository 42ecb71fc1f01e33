import GaussianRadial.Double
import GaussianRadial.Session

/-!
# Text reports

The table has a header line and one line per grid point, with every column as wide as its header
and the widest number.
-/

namespace GaussianRadial.Report

open Number

/-- Why a report ends before it is whole. -/
inductive ReportError where
  | integral (e : IntegralError Float)
  /-- No number is written with fewer than no places. -/
  | negativePrecision

def ReportError.message : ReportError → String
  | integral e => e.message
  | negativePrecision => "negative precision"

/-- Checked with each number that is written. -/
def checkPrecision (precision : Int) : Except ReportError Unit :=
  if precision < 0 then .error .negativePrecision else .ok ()

/-- Room for a sign, a digit, the point, the places and an exponent of three digits. -/
def columnWidth (precision : Int) : Nat := if precision < 8 then 16 else (precision + 8).toNat

/-- The width of a request's column. -/
def requestWidth (precision : Int) (request : Request Float) : Nat :=
  let label := request.label.length
  if columnWidth precision < label then label else columnWidth precision

/-- Text padded on the left with blanks. -/
def alignRight (width : Nat) (text : String) : String :=
  String.ofList (padLeft ' ' width text.toList)

/-- Text padded on the right with blanks. -/
def alignLeft (width : Nat) (text : String) : String :=
  String.ofList (text.toList ++ List.replicate (width - text.length) ' ')

/-- The lines of a matrix that is given by columns, each with its grid point. -/
def rows (columns : List (List Float)) : List Float → List (Float × List Float)
  | [] => []
  | x :: rest => (x, columns.map (·.headD 0)) :: rows (columns.map List.tail) rest

def headerLine (precision : Int) (requests : List (Request Float)) : String :=
  alignRight (columnWidth precision) "r"
    ++ String.join (requests.map fun request =>
      " " ++ alignRight (requestWidth precision request) request.label)

def rowLine (precision : Int) (requests : List (Request Float)) (x : Float) (values : List Float) :
    String :=
  let number := scientificText precision.toNat
  alignRight (columnWidth precision) (number x)
    ++ String.join ((requests.zip values).map fun (request, value) =>
      " " ++ alignRight (requestWidth precision request) (number value))

/-- The lines of the table, the header first. -/
def tableLines (job : Job Float) (columns : List (List Float)) : List String :=
  let precision := job.options.precision
  headerLine precision job.requests
    :: (rows columns job.grid.points).map fun (x, values) =>
      rowLine precision job.requests x values

def table (job : Job Float) (columns : List (List Float)) : String :=
  String.join ((tableLines job columns).map (· ++ "\n"))

/-- The table of a job whose numbers can be written. Without grid points it has none. -/
def checkedTable (job : Job Float) (columns : List (List Float)) : Except ReportError String := do
  if !job.grid.points.isEmpty then checkPrecision job.options.precision
  return table job columns

/-- The line of a request's full-range limit, empty for a request that has none. -/
def limitLine (precision : Int) (request : Request Float) : Except ReportError String := do
  match ← request.limit?.mapError ReportError.integral with
  | none => return ""
  | some limit =>
    checkPrecision precision
    let place := if request.kind = .inner then "x -> inf: " else "x = 0:    "
    return "\t" ++ alignLeft 28 request.label ++ " " ++ place
      ++ scientificText precision.toNat limit ++ "\n"

/-- The lines of the limits of all requests that have one. -/
def limitLines (precision : Int) : List (Request Float) → Except ReportError String
  | [] => .ok ""
  | request :: rest => do
    let line ← limitLine precision request
    let lines ← limitLines precision rest
    return line ++ lines

def limits (job : Job Float) : Except ReportError String := do
  let lines ← limitLines job.options.precision job.requests
  return "Full-range limits:\n" ++ lines ++ "\n"

end GaussianRadial.Report
