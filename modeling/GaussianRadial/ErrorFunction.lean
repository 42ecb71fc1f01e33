import GaussianRadial.Number.Binary64

/-!
# The error function

`erf x = 2 / √π · x · Σ (-x²)^k / (k! (2k + 1))`, summed in fixed-point arithmetic with 192 binary
places and rounded to a double once. The terms stay below `e ^ 36` for arguments below 6, so the
sum keeps more than a hundred correct places; from 6 on the nearest double is 1.
-/

namespace GaussianRadial.ErrorFunction

open Number

/-- The binary places of the fixed-point numbers. -/
def places : Int := 192

/-- The fixed-point number one. -/
def one : Nat := 1 <<< 192

/-- The fixed-point number `2 / √π`. -/
def twoOverRootPi : Nat := 7082950827949419406546779429796514218173736946937360083502

/--
Adds `± z ^ k / (k! (2k + 1))` to `sum` for `count` values of `k`, where `term` is `z ^ k / k!` of
the first of them.
-/
def alternatingSum (z : Nat) (k term : Nat) (sum : Int) : Nat → Int
  | 0 => sum
  | count + 1 =>
    let summand : Int := term / (2 * k + 1)
    alternatingSum z (k + 1) (term * z / one / (k + 1))
      (if k % 2 = 0 then sum + summand else sum - summand) count

/-- The terms that do not vanish in fixed-point arithmetic for arguments below 6. -/
def termCount : Nat := 256

/-- The error function of a positive magnitude below 6. -/
def ofMagnitude (x : Ratio) : Ratio :=
  let square : Ratio := ⟨x.num * x.num, x.den * x.den⟩
  let sum := alternatingSum (square.scale 2 places).floor 0 one 0 termCount
  Ratio.scale 2 (-(places + places)) ⟨x.num * twoOverRootPi * sum.toNat, x.den⟩

/-- The double nearest to the error function. -/
def erf (x : Float) : Float :=
  match Binary64.ofFloat x with
  | .nan => x
  | .infinite negative => nearest negative (Ratio.ofNat 1)
  | .finite negative r =>
    if 6 * r.den ≤ r.num then nearest negative (Ratio.ofNat 1)
    else nearest negative (ofMagnitude r)

end GaussianRadial.ErrorFunction
