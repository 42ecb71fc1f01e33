import GaussianRadial.Elementary

/-!
# Factorials

Products in a fixed order: `factorial` multiplies upwards, `doubleFactorial` downwards, so that
rounded products are reproducible. A product that has become infinite stays as it is and takes no
more factors. `factorial?` and `doubleFactorial?` also take negative numbers, for which they are
mostly undefined.
-/

namespace GaussianRadial

variable {α : Type} [Mul α] [NatCast α] [Elementary α]

/-- `start · k · (k + 1) · …` with `count` factors. -/
def risingProduct (start : α) (k : Nat) : Nat → α
  | 0 => start
  | count + 1 =>
    if Elementary.isFinite start then risingProduct (start * (k : α)) (k + 1) count else start

/-- `n! = 2 · 3 · … · n`. -/
def factorial (n : Nat) : α := risingProduct ((1 : Nat) : α) 2 (n - 1)

/-- `start · n · (n - 2) · …` down to 2 or 3. -/
def fallingProduct (start : α) : Nat → α
  | 0 => start
  | 1 => start
  | n + 2 =>
    if Elementary.isFinite start then fallingProduct (start * ((n + 2 : Nat) : α)) n else start

/-- `n!! = n · (n - 2) · …` down to 2 or 3. -/
def doubleFactorial (n : Nat) : α := fallingProduct ((1 : Nat) : α) n

/-- Why a factorial has no value. -/
inductive FactorialError where
  | factorialUndefined (n : Int)
  | doubleFactorialUndefined (n : Int)
  deriving DecidableEq

def FactorialError.message : FactorialError → String
  | factorialUndefined n => s!"Factorial is undefined for n = {n}"
  | doubleFactorialUndefined n => s!"Double factorial is undefined for n = {n}"

/-- The factorial of a non-negative number. -/
def factorial? (n : Int) : Except FactorialError α :=
  if n < 0 then .error (.factorialUndefined n) else .ok (factorial n.toNat)

/-- The double factorial of a number from -1 on, 1 for -1 and 0. -/
def doubleFactorial? (n : Int) : Except FactorialError α :=
  if n < -1 then .error (.doubleFactorialUndefined n) else .ok (doubleFactorial n.toNat)

end GaussianRadial
