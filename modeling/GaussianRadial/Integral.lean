import GaussianRadial.ClosedForm
import GaussianRadial.Number.Text
import GaussianRadial.Series

/-!
# Radial integrals of Gaussians

Over the samples `x` of a radial coordinate,

* the inner integral is `∫ y^(2+l) e^(-αy²)` from 0 to `x`,
* the inner potential is `∫ y^(2+l₁+l₂) e^(-αy²)` from 0 to `x`, over `x^(l₂+1)`,
* the outer integral is `∫ y^(l+1) e^(-αy²)` from `x` to infinity.

All take the values of `e^(-αx²)` and `erf (√α x)` at the samples beside the samples themselves.
-/

namespace GaussianRadial

/-- The arrays whose lengths must match that of the samples. -/
inductive SampleArray where
  | output
  | exponential
  | errorFunction
  deriving DecidableEq

def SampleArray.name : SampleArray → String
  | output => "output"
  | exponential => "exp(-alpha*r^2)"
  | errorFunction => "erf(sqrt(alpha)*r)"

/-- Why an integral is not evaluated. -/
inductive IntegralError (α : Type) where
  | oddOrder
  | oddTotalOrder
  | ordersNotDescending (l₁ l₂ : Int)
  | negativeOrder (l : Int)
  | exponentNotPositive (alpha : α)
  | lengthMismatch (array : SampleArray) (actual expected : Nat)
  deriving DecidableEq

def IntegralError.message : IntegralError Float → String
  | oddOrder => "Angular momentum has to be even"
  | oddTotalOrder => "Total angular momentum has to be even"
  | ordersNotDescending l₁ l₂ => s!"l1 >= l2 required, got l1 = {l₁}, l2 = {l₂}"
  | negativeOrder l => s!"Angular momentum has to be non-negative, got {l}"
  | exponentNotPositive alpha =>
    "Exponent has to be positive, got " ++ Number.shortestText alpha
  | lengthMismatch array actual expected =>
    let name := array.name
    s!"Length of {name} ({actual}) does not match the number of points ({expected})"

/-- The values of `e^(-αx²)` and `erf (√α x)` at the samples. -/
structure Auxiliary (α : Type) where
  expa : List α
  erfa : List α

variable {α : Type} [NatCast α] [LT α] [DecidableLT α]

/-! ### Preconditions -/

def checkEven (l : Int) (error : IntegralError α) : Except (IntegralError α) Unit :=
  if l % 2 = 0 then .ok () else .error error

def checkNonNegative (l : Int) : Except (IntegralError α) Unit :=
  if l < 0 then .error (.negativeOrder l) else .ok ()

/-- Not a number is not positive. -/
def checkExponent (alpha : α) : Except (IntegralError α) Unit :=
  if ((0 : Nat) : α) < alpha then .ok () else .error (.exponentNotPositive alpha)

def checkLength (array : SampleArray) (actual expected : Nat) : Except (IntegralError α) Unit :=
  if actual = expected then .ok () else .error (.lengthMismatch array actual expected)

/-- The order of an inner or outer integral is even and not negative, its exponent positive. -/
def checkOrder (alpha : α) (l : Int) : Except (IntegralError α) Unit := do
  checkEven l .oddOrder
  checkNonNegative l
  checkExponent alpha

/-- The orders of an inner potential descend to one that is not negative and have an even sum. -/
def checkOrders (alpha : α) (l₁ l₂ : Int) : Except (IntegralError α) Unit := do
  checkEven (l₁ + l₂) .oddTotalOrder
  if l₁ < l₂ then throw (.ordersNotDescending l₁ l₂)
  checkNonNegative l₂
  checkExponent alpha

variable [Add α] [Sub α] [Mul α] [Div α] [Neg α] [Pow α Nat] [Elementary α]

/-! ### Values at one sample -/

/-- The inner integral up to `x`, given the coefficients of its closed form. -/
def innerAt (coefficients : List α) (alpha : α) (l : Nat) (x expa erfa : α) : α :=
  let t := Elementary.sqrt alpha
  if InSeriesRange x alpha l then x ^ (l + 3) * positiveSeries x alpha expa l
  else
    match innerRows[l / 2]? with
    | some row => row.value (t * x) expa erfa * (((1 : Nat) : α) / t ^ (l + 3))
    | none => closedForm x t alpha expa erfa l coefficients

/-- Below this value of `√α x` the inner potential is taken from its Taylor series. -/
def taylorThreshold : α := ((1 : Nat) : α) / ((100 : Nat) : α)

/-- The inner potential at `x`, given the coefficients of the closed form of order `l₁ + l₂`. -/
def innerPotentialAt (coefficients : List α) (alpha : α) (l₁ l₂ : Nat) (x expa erfa : α) : α :=
  let t := Elementary.sqrt alpha
  let l := l₁ + l₂
  if t * x < taylorThreshold then x ^ l₁ * taylorSeries x alpha l
  else if InSeriesRange x alpha l then x ^ (l₁ + 2) * positiveSeries x alpha expa l
  else closedForm x t alpha expa erfa l coefficients / x ^ (l₂ + 1)

/-- The outer integral from `x` on. -/
def outerAt (alpha : α) (l : Nat) (x expa : α) : α :=
  let m := l / 2
  let v := alpha * x * x
  let scale := ((1 : Nat) : α) / ((2 : Nat) : α) / alpha ^ (m + 1)
  match outerRows[m]? with
  | some row => polynomial row v * expa * scale
  | none => outerPolynomial v m * expa * scale

/-! ### Integrals over samples -/

/-- The values of `e^(-αx²)` and `erf (√α x)` at every sample. -/
def auxiliary (samples : List α) (alpha : α) : Except (IntegralError α) (Auxiliary α) := do
  checkExponent alpha
  let t := Elementary.sqrt alpha
  return ⟨samples.map fun x => Elementary.exp (-alpha * x * x),
    samples.map fun x => Elementary.erf (t * x)⟩

/-- The inner integral at every sample, for an output of the given length. -/
def innerIntegral (samples : List α) (aux : Auxiliary α) (alpha : α) (l : Int)
    (outputLength : Nat) : Except (IntegralError α) (List α) := do
  checkOrder alpha l
  checkLength .output outputLength samples.length
  checkLength .exponential aux.expa.length samples.length
  checkLength .errorFunction aux.erfa.length samples.length
  let coefficients := closedCoefficients l.toNat
  return (samples.zip (aux.expa.zip aux.erfa)).map fun (x, expa, erfa) =>
    innerAt coefficients alpha l.toNat x expa erfa

/-- The inner potential at every sample, for an output of the given length. -/
def innerPotential (samples : List α) (aux : Auxiliary α) (alpha : α) (l₁ l₂ : Int)
    (outputLength : Nat) : Except (IntegralError α) (List α) := do
  checkOrders alpha l₁ l₂
  checkLength .output outputLength samples.length
  checkLength .exponential aux.expa.length samples.length
  checkLength .errorFunction aux.erfa.length samples.length
  let coefficients := closedCoefficients (l₁.toNat + l₂.toNat)
  return (samples.zip (aux.expa.zip aux.erfa)).map fun (x, expa, erfa) =>
    innerPotentialAt coefficients alpha l₁.toNat l₂.toNat x expa erfa

/-- The outer integral at every sample, for an output of the given length. -/
def outerIntegral (samples expa : List α) (alpha : α) (l : Int) (outputLength : Nat) :
    Except (IntegralError α) (List α) := do
  checkOrder alpha l
  checkLength .output outputLength samples.length
  checkLength .exponential expa.length samples.length
  return (samples.zip expa).map fun (x, e) => outerAt alpha l.toNat x e

/--
Writes an integral into an output array, given its values for an output of any length. On an error
the array stays as it was.
-/
def writeInto {ε : Type} (output : List α) (integral : Nat → Except ε (List α)) :
    Option ε × List α :=
  match integral output.length with
  | .error e => (some e, output)
  | .ok values => (none, values)

/-! ### Full-range limits -/

/-- The inner integral up to infinity: `(l + 1)‼ √π / (2^(l/2 + 2) α^((l + 3)/2))`. -/
def innerLimit (alpha : α) (l : Int) : Except (IntegralError α) α := do
  checkOrder alpha l
  let n := l.toNat
  return doubleFactorial (n + 1) * Elementary.rootPi / ((2 : Nat) : α) ^ (n / 2 + 2)
    / Elementary.rpow alpha (((n + 3 : Nat) : α) / ((2 : Nat) : α))

/-- The outer integral from 0 on: `(l/2)! / (2 α^(l/2 + 1))`. -/
def outerOrigin (alpha : α) (l : Int) : Except (IntegralError α) α := do
  checkOrder alpha l
  let m := l.toNat / 2
  return factorial m / (((2 : Nat) : α) * alpha ^ (m + 1))

end GaussianRadial
