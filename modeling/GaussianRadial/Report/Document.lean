import GaussianRadial.Double
import GaussianRadial.Report.Json
import GaussianRadial.Session

/-!
# JSON reports

A document holds the grid and one entry per request, with the request's data, its full-range limit
if that is asked for, and its values.
-/

namespace GaussianRadial.Report

/-- The result of one request. -/
structure Entry where
  request : Request Float
  limit : Option Float
  values : List Float

structure Document where
  grid : Grid Float
  entries : List Entry

/-- The entry of a request with the column of its values. -/
def Entry.of (withLimit : Bool) (request : Request Float) (values : List Float) :
    Except (IntegralError Float) Entry := do
  let limit ← if withLimit then request.limit? else pure none
  return ⟨request, limit, values⟩

/-- The entries of all requests. -/
def entriesOf (withLimits : Bool) :
    List (Request Float × List Float) → Except (IntegralError Float) (List Entry)
  | [] => .ok []
  | (request, values) :: rest => do
    let entry ← Entry.of withLimits request values
    let entries ← entriesOf withLimits rest
    return entry :: entries

def Document.of (job : Job Float) (columns : List (List Float)) :
    Except (IntegralError Float) Document := do
  let entries ← entriesOf job.options.limits (job.requests.zip columns)
  return ⟨job.grid, entries⟩

def numbers (values : List Float) : Json := .array (values.map .ofFloat)

/-- The orders of a request: two for the inner potential, one for the others. -/
def Entry.orders (entry : Entry) : List (String × Json) :=
  match entry.request.kind with
  | .innerPotential =>
    [("l1", .integer entry.request.l₁), ("l2", .integer entry.request.l₂)]
  | _ => [("l", .integer entry.request.l₁)]

/-- The limit of an inner integral at infinity, of an outer one at the origin. -/
def Entry.limitMember (entry : Entry) : List (String × Json) :=
  match entry.limit with
  | none => []
  | some limit => [(if entry.request.kind = .outer then "origin" else "limit", .ofFloat limit)]

def Entry.json (entry : Entry) : Json :=
  .object ([("alpha", .ofFloat entry.request.alpha), ("kind", .string entry.request.kind.name)]
    ++ entry.orders ++ entry.limitMember ++ [("values", numbers entry.values)])

def gridJson (grid : Grid Float) : Json :=
  .object ((if grid.kind = .exponential then [("anisotropy", .ofFloat grid.anisotropy)] else [])
    ++ [("points", numbers grid.points), ("type", .string grid.kind.name)])

def Document.json (document : Document) : Json :=
  .object [("grid", gridJson document.grid),
    ("integrals", .array (document.entries.map Entry.json))]

/-- The text of a document. -/
def Document.text [JsonNumbers] (document : Document) : String := document.json.render 0

end GaussianRadial.Report
