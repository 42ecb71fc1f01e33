/-!
# Non-negative quotients

A `Ratio` is a quotient of natural numbers. `Ratio.round` takes it to the nearest whole number, a
tie going to the even one.
-/

namespace GaussianRadial.Number

/-- The quotient `num / den`. -/
structure Ratio where
  num : Nat
  den : Nat
  deriving DecidableEq

namespace Ratio

/-- The whole number `n`. -/
def ofNat (n : Nat) : Ratio := ⟨n, 1⟩

/-- The quotient times `base ^ k`. -/
def scale (base : Nat) (k : Int) (r : Ratio) : Ratio :=
  match k with
  | .ofNat n => ⟨r.num * Nat.pow base n, r.den⟩
  | .negSucc n => ⟨r.num, r.den * Nat.pow base (n + 1)⟩

/-- The greatest whole number that is not above the quotient. -/
def floor (r : Ratio) : Nat := r.num / r.den

/-- The nearest whole number, the even one of two that are equally near. -/
def round (r : Ratio) : Nat :=
  let twice := 2 * (r.num % r.den)
  if r.den < twice then r.floor + 1
  else if twice = r.den then r.floor + r.floor % 2
  else r.floor

end Ratio

end GaussianRadial.Number
