import GaussianRadial.Elementary
import GaussianRadial.Factorial

/-!
# Closed forms

The integrals of even order `l` in terms of `e^(-αx²)` and `erf (√α x)`: rows of whole numbers for
the orders up to 14, and finite sums for every order.
-/

namespace GaussianRadial

variable {α : Type} [Add α] [Mul α] [NatCast α]

/-- The polynomial with the given coefficients, the constant one first, by nested products. -/
def polynomial : List Nat → α → α
  | [], _ => ((0 : Nat) : α)
  | [c], _ => (c : α)
  | c :: rest, v => (c : α) + v * polynomial rest v

/-- An inner integral of fixed order: `(leading · √π · erf - u · exp · P(u²)) / divisor`. -/
structure InnerRow where
  leading : Nat
  coefficients : List Nat
  divisor : Nat
  deriving DecidableEq

/-- The rows for the orders 0, 2, …, 14. -/
def innerRows : List InnerRow := [
  ⟨1, [2], 4⟩,
  ⟨3, [6, 4], 8⟩,
  ⟨15, [30, 20, 8], 16⟩,
  ⟨105, [210, 140, 56, 16], 32⟩,
  ⟨945, [1890, 1260, 504, 144, 32], 64⟩,
  ⟨10395, [20790, 13860, 5544, 1584, 352, 64], 128⟩,
  ⟨135135, [270270, 180180, 72072, 20592, 4576, 832, 128], 256⟩,
  ⟨2027025, [4054050, 2702700, 1081080, 308880, 68640, 12480, 1920, 256], 512⟩]

/-- The outer integrals' polynomials in `αx²` for the orders 0, 2, …, 14. -/
def outerRows : List (List Nat) := [
  [1],
  [1, 1],
  [2, 2, 1],
  [6, 6, 3, 1],
  [24, 24, 12, 4, 1],
  [120, 120, 60, 20, 5, 1],
  [720, 720, 360, 120, 30, 6, 1],
  [5040, 5040, 2520, 840, 210, 42, 7, 1]]

variable [Sub α] [Div α] [Neg α] [Pow α Nat] [Elementary α]

/-- The subtracted part `u · exp · P(u²)`. A constant polynomial multiplies first. -/
def InnerRow.subtrahend (row : InnerRow) (u expa : α) : α :=
  match row.coefficients with
  | [c] => (c : α) * u * expa
  | cs => u * expa * polynomial cs (u * u)

/-- The row's integral times `√α ^ (l + 3)`, at `u = √α x`. -/
def InnerRow.value (row : InnerRow) (u expa erfa : α) : α :=
  ((row.leading : α) * Elementary.rootPi * erfa - row.subtrahend u expa) / (row.divisor : α)

/-- The coefficients `(l + 1)‼ / (2k + 1)‼ · 2^(k + 1)` for `k = 0, …, l / 2`. -/
def closedCoefficients (l : Nat) : List α :=
  let leading : α := doubleFactorial (l + 1)
  (List.range (l / 2 + 1)).map fun k =>
    leading / doubleFactorial (2 * k + 1) * ((2 : Nat) : α) ^ (k + 1)

/--
Adds `exp · x^(2k + 1) · t^(2k + 3) · c` to `sum` for each coefficient, where `xPower` and `tPower`
are the powers for the first of them and `square` and `alpha` take them to the next.
-/
def closedSum (expa square alpha xPower tPower sum : α) : List α → α
  | [] => sum
  | c :: rest =>
    closedSum expa square alpha (xPower * square) (tPower * alpha)
      (sum + expa * xPower * tPower * c) rest

/-- The inner integral of even order `l`, where `t` stands for `√α`. -/
def closedForm (x t alpha expa erfa : α) (l : Nat) (coefficients : List α) : α :=
  let start := -Elementary.rootPi * erfa * alpha * doubleFactorial (l + 1)
  let difference := -closedSum expa (x * x) alpha x (t * t * t) start coefficients
  difference / ((2 : Nat) : α) ^ (l / 2 + 2) / t ^ (l + 5)

/--
Adds `v^k · top / k!` to `sum` for `count` values of `k`, where `power` is `v^k` and `bottom` is
`k!` for the first of them.
-/
def outerSum (v top : α) (k : Nat) (power bottom sum : α) : Nat → α
  | 0 => sum
  | count + 1 =>
    outerSum v top (k + 1) (power * v) (bottom * ((k + 1 : Nat) : α)) (sum + power * top / bottom)
      count

/-- The polynomial `Σ v^k · m! / k!` for `k = 0, …, m`. -/
def outerPolynomial (v : α) (m : Nat) : α :=
  outerSum v (factorial m) 0 ((1 : Nat) : α) ((1 : Nat) : α) ((0 : Nat) : α) (m + 1)

end GaussianRadial
