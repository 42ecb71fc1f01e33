import GaussianRadial.Grid
import GaussianRadial.Request

/-!
# Sessions

A session evaluates the requests of a job over its grid. The values of `e^(-αx²)` and `erf (√α x)`
are computed once per exponent and kept for later requests and later evaluations.
-/

namespace GaussianRadial

inductive ReportFormat where
  | text
  | json
  deriving DecidableEq

def ReportFormat.name : ReportFormat → String
  | text => "text"
  | json => "json"

/-- How results are reported. -/
structure ReportOptions where
  format : ReportFormat
  /-- The places after the point in a text report. -/
  precision : Int
  /-- Whether the full-range limits are reported. -/
  limits : Bool
  deriving DecidableEq

/-- The requests to evaluate over a grid, and how to report them. -/
structure Job (α : Type) where
  grid : Grid α
  requests : List (Request α)
  options : ReportOptions

/-- Auxiliary arrays by their exponents, in increasing order. -/
abbrev AuxiliaryCache (α : Type) := List (α × Auxiliary α)

namespace AuxiliaryCache

variable {α : Type} [LT α] [DecidableLT α]

/--
The arrays of the first exponent that is not below `alpha`, if it is not above `alpha` either.
A number that is not comparable with any other finds the least exponent.
-/
def find? (alpha : α) : AuxiliaryCache α → Option (Auxiliary α)
  | [] => none
  | (key, aux) :: rest =>
    if key < alpha then find? alpha rest else if alpha < key then none else some aux

/-- The cache with the arrays of one more exponent. -/
def insert (alpha : α) (aux : Auxiliary α) : AuxiliaryCache α → AuxiliaryCache α
  | [] => [(alpha, aux)]
  | (key, other) :: rest =>
    if key < alpha then (key, other) :: insert alpha aux rest
    else (alpha, aux) :: (key, other) :: rest

variable [NatCast α] [Add α] [Sub α] [Mul α] [Div α] [Neg α] [Pow α Nat] [Elementary α]

/-- The arrays of an exponent over the given samples, computed unless the cache has them. -/
def fetch (samples : List α) (alpha : α) (cache : AuxiliaryCache α) :
    Except (IntegralError α) (Auxiliary α × AuxiliaryCache α) :=
  match cache.find? alpha with
  | some aux => .ok (aux, cache)
  | none =>
    match auxiliary samples alpha with
    | .error e => .error e
    | .ok aux => .ok (aux, cache.insert alpha aux)

/-- One column per request, up to the first that fails, and the cache after them. -/
def evaluateAll (samples : List α) (cache : AuxiliaryCache α) :
    List (Request α) → Except (IntegralError α) (List (List α)) × AuxiliaryCache α
  | [] => (.ok [], cache)
  | request :: rest =>
    match cache.fetch samples request.alpha with
    | .error e => (.error e, cache)
    | .ok (aux, cache) =>
      match request.evaluate samples aux with
      | .error e => (.error e, cache)
      | .ok column =>
        let (columns, cache) := evaluateAll samples cache rest
        (columns.map (column :: ·), cache)

end AuxiliaryCache

/-- A job with the auxiliary arrays that have been computed for it. -/
structure Session (α : Type) where
  job : Job α
  cache : AuxiliaryCache α

namespace Session

variable {α : Type}

def start (job : Job α) : Session α := ⟨job, []⟩

/-- The number of exponents whose auxiliary arrays have been computed. -/
def auxiliaryCount (session : Session α) : Nat := session.cache.length

variable [NatCast α] [LT α] [DecidableLT α]
variable [Add α] [Sub α] [Mul α] [Div α] [Neg α] [Pow α Nat] [Elementary α]

/-- One column of values per request. -/
def evaluate (session : Session α) : Except (IntegralError α) (List (List α)) × Session α :=
  let (columns, cache) := session.cache.evaluateAll session.job.grid.points session.job.requests
  (columns, { session with cache })

end Session

end GaussianRadial
