import GaussianRadial.Integral
import GaussianRadial.Word

/-!
# Integrals with orders of 32 bits

The factorials, integrals and limits for orders that are words, with all sums, products and loop
counters in words too. Each has a value only if none of these is out of range. They start where the
preconditions have been checked.
-/

namespace GaussianRadial

namespace Word

variable {α : Type} [NatCast α]

/-- The number that a word is converted to. All that are converted are not negative. -/
def cast (a : Word) : α := (a.toNat : α)

/-! ### Factorials -/

section Factorials
variable [Mul α]

/-- `2 · 3 · … · n` with a counter that goes up. -/
def factorial (n : Word) : Option α :=
  countUp n (fun i product => some (true, product * i.cast)) (ofFin 2) ((1 : Nat) : α)

/-- `product · i · (i - 2) · …` with a counter that goes down. -/
def fallingProduct (i : Word) (product : α) : Option α :=
  if 1 < i.val then
    match _lowered : i.add? (-2) with
    | none => none
    | some next => fallingProduct next (product * i.cast)
  else some product
termination_by i.val.toNat
decreasing_by
  have next := val_eq_of_ofInt? _lowered
  omega

def doubleFactorial (n : Word) : Option α := fallingProduct n ((1 : Nat) : α)

end Factorials

variable [Add α] [Mul α] [Sub α] [Div α] [Neg α] [Pow α Nat] [Elementary α]

/-! ### The inner integral -/

/-- The divisor `l + 3 + 2n` of a term of a series. -/
def seriesDivisor (l n : Word) : Option Word := do
  let base ← l.add? 3
  let double ← n.twice?
  base.add? double.val

/-- A round of the loop over the coefficients of the closed form. -/
def coefficientRound (leading : α) (k : Word) (found : List α) : Option (Bool × List α) := do
  let double ← k.twice?
  let odd ← double.add? 1
  let product ← doubleFactorial odd
  let exponent ← k.add? 1
  return (true, found ++ [leading / product * ((2 : Nat) : α) ^ exponent.toNat])

/-- The coefficients of the closed form, whose count is `l / 2 + 1`. -/
def closedCoefficients (l : Word) : Option (List α) := do
  let top ← l.add? 1
  let leading ← doubleFactorial top
  let _ ← l.half.add? 1
  countUp l.half (coefficientRound leading) (ofFin 0) []

def closedForm (x t alpha expa erfa : α) (l : Word) (coefficients : List α) : Option α := do
  let top ← l.add? 1
  let product ← doubleFactorial top
  let start := -Elementary.rootPi * erfa * alpha * product
  let difference := -closedSum expa (x * x) alpha x (t * t * t) start coefficients
  let exponent ← l.half.add? 2
  let order ← l.add? 5
  return difference / ((2 : Nat) : α) ^ exponent.toNat / t ^ order.toNat

/-- A round of the loop over the Taylor terms. The state is a term and the sum before it. -/
def taylorRound (square alpha : α) (l n : Word) (state : α × α) : Option (Bool × (α × α)) := do
  let divisor ← seriesDivisor l n
  let next ← n.add? 1
  return (true, state.1 * (-alpha * square / next.cast), state.2 + state.1 / divisor.cast)

/-- The Taylor series, whose terms are numbered from 0 to 5. -/
def taylorSeries (x alpha : α) (l : Word) : Option α := do
  let square := x * x
  let state ← countUp (ofFin 5) (taylorRound square alpha l) (ofFin 0) (square, ((0 : Nat) : α))
  return state.2

variable [LT α] [DecidableLT α]

def inSeriesRange (x alpha : α) (l : Word) : Option Bool := do
  let order ← l.add? 3
  return decide (alpha * x * x < order.cast / ((2 : Nat) : α) + ((2 : Nat) : α))

/-- A round of the loop over the positive terms. The state is a term and the sum up to it. -/
def positiveRound (z : α) (l k : Word) (state : α × α) : Option (Bool × (α × α)) := do
  let divisor ← seriesDivisor l k
  let next := state.1 * (z / divisor.cast)
  let total := state.2 + next
  return (!decide (next < seriesTolerance * total), next, total)

/-- The positive series, whose terms are numbered from 0 to 999. -/
def positiveSeries (x alpha expa : α) (l : Word) : Option α := do
  let z := ((2 : Nat) : α) * alpha * x * x
  let order ← l.add? 3
  let first := ((1 : Nat) : α) / order.cast
  let state ← countUp (ofFin 999) (positiveRound z l) (ofFin 1) (first, first)
  return state.2 * expa

/-- The inner integral at `x`, where `order` is `l + 3`. -/
def innerAt (coefficients : List α) (alpha : α) (l order : Word) (x expa erfa : α) : Option α := do
  let t := Elementary.sqrt alpha
  if ← inSeriesRange x alpha l then
    let series ← positiveSeries x alpha expa l
    return x ^ order.toNat * series
  else
    match innerRows[l.half.toNat]? with
    | some row => return row.value (t * x) expa erfa * (((1 : Nat) : α) / t ^ order.toNat)
    | none => closedForm x t alpha expa erfa l coefficients

def innerIntegral (samples : List α) (aux : Auxiliary α) (alpha : α) (l : Word) :
    Option (List α) := do
  let order ← l.add? 3
  let coefficients ← if l.half.toNat < innerRows.length then some [] else closedCoefficients l
  (samples.zip (aux.expa.zip aux.erfa)).mapM fun (x, expa, erfa) =>
    innerAt coefficients alpha l order x expa erfa

/-! ### The inner potential -/

/-- The inner potential at `x`, where `l` is the sum of the orders. -/
def innerPotentialAt (coefficients : List α) (alpha : α) (l₁ l₂ l : Word) (x expa erfa : α) :
    Option α := do
  let t := Elementary.sqrt alpha
  if t * x < taylorThreshold then
    let series ← taylorSeries x alpha l
    return x ^ l₁.toNat * series
  else if ← inSeriesRange x alpha l then
    let order ← l₁.add? 2
    let series ← positiveSeries x alpha expa l
    return x ^ order.toNat * series
  else
    let integral ← closedForm x t alpha expa erfa l coefficients
    let order ← l₂.add? 1
    return integral / x ^ order.toNat

def innerPotential (samples : List α) (aux : Auxiliary α) (alpha : α) (l₁ l₂ : Word) :
    Option (List α) := do
  let l ← l₁.add? l₂.val
  let coefficients ← closedCoefficients l
  (samples.zip (aux.expa.zip aux.erfa)).mapM fun (x, expa, erfa) =>
    innerPotentialAt coefficients alpha l₁ l₂ l x expa erfa

/-! ### The outer integral -/

/-- A round of the loop over the terms `v^k · top / k!`. The state is a power and a sum. -/
def outerRound (v top : α) (k : Word) (state : α × α) : Option (Bool × (α × α)) := do
  let bottom ← factorial k
  return (true, state.1 * v, state.2 + state.1 * top / bottom)

/-- The sum of `v^k · top / k!` for `k = 0, …, m`, with a factorial for each term. -/
def outerPolynomial (v top : α) (m : Word) : Option α := do
  let state ← countUp m (outerRound v top) (ofFin 0) (((1 : Nat) : α), ((0 : Nat) : α))
  return state.2

def outerIntegral (samples expa : List α) (alpha : α) (l : Word) : Option (List α) := do
  let m := l.half
  let exponent ← m.add? 1
  let scale := ((1 : Nat) : α) / ((2 : Nat) : α) / alpha ^ exponent.toNat
  match outerRows[m.toNat]? with
  | some row =>
    return (samples.zip expa).map fun (x, e) => polynomial row (alpha * x * x) * e * scale
  | none =>
    let top ← factorial m
    (samples.zip expa).mapM fun (x, e) => do
      let sum ← outerPolynomial (alpha * x * x) top m
      return sum * e * scale

/-! ### Full-range limits -/

def innerLimit (alpha : α) (l : Word) : Option α := do
  let top ← l.add? 1
  let product ← doubleFactorial top
  let power ← l.half.add? 2
  let order ← l.add? 3
  return product * Elementary.rootPi / ((2 : Nat) : α) ^ power.toNat
    / Elementary.rpow alpha (order.cast / ((2 : Nat) : α))

def outerOrigin (alpha : α) (l : Word) : Option α := do
  let product ← factorial l.half
  let exponent ← l.half.add? 1
  return product / (((2 : Nat) : α) * alpha ^ exponent.toNat)

end Word

end GaussianRadial
