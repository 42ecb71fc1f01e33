import GaussianRadial.Elementary

/-!
# Power series of the inner integral

The inner integral `∫ y^(2+l) e^(-αy²)` from 0 to `x`, by the Taylor series of its integrand at the
origin and by the series of the lower incomplete gamma function, whose terms are all positive.
-/

namespace GaussianRadial

variable {α : Type} [Add α] [Mul α] [Div α] [Neg α] [NatCast α]

/-- The number of terms of the Taylor series. -/
def taylorTerms : Nat := 6

/--
Adds `count` Taylor terms to `sum`, from index `n` on, where `term` is `x² (-αx²)^n / n!` of the
first of them.
-/
def taylorSum (square alpha : α) (l n : Nat) (term sum : α) : Nat → α
  | 0 => sum
  | count + 1 =>
    taylorSum square alpha l (n + 1) (term * (-alpha * square / ((n + 1 : Nat) : α)))
      (sum + term / ((l + 3 + 2 * n : Nat) : α)) count

/-- The inner integral over `x ^ l`, as `Σ x² (-αx²)^n / (n! (l + 3 + 2n))`. -/
def taylorSeries (x alpha : α) (l : Nat) : α :=
  taylorSum (x * x) alpha l 0 (x * x) ((0 : Nat) : α) taylorTerms

/-- The greatest number of terms of the positive series. -/
def maxPositiveTerms : Nat := 1000

variable [LT α]

/-- Below this line the closed form would subtract nearly equal numbers. -/
def InSeriesRange (x alpha : α) (l : Nat) : Prop :=
  alpha * x * x < ((l + 3 : Nat) : α) / ((2 : Nat) : α) + ((2 : Nat) : α)

variable [DecidableLT α]

instance decidableInSeriesRange (x alpha : α) (l : Nat) : Decidable (InSeriesRange x alpha l) :=
  inferInstanceAs (Decidable (_ < _))

/-- A term below this part of the sum ends the positive series. -/
def seriesTolerance : α := ((1 : Nat) : α) / ((100000000000000000 : Nat) : α)

/-- A partial sum, the index of its last term, and whether that term was small enough to stop. -/
structure PartialSum (α : Type) where
  value : α
  lastIndex : Nat
  converged : Bool

/--
Adds up to `count` terms `z^k / ((l + 3) (l + 5) ⋯ (l + 3 + 2k))` to `sum`, from index `k` on, where
`term` is the one before.
-/
def positiveSum (z : α) (l k : Nat) (term sum : α) : Nat → PartialSum α
  | 0 => ⟨sum, k - 1, false⟩
  | count + 1 =>
    let next := term * (z / ((l + 3 + 2 * k : Nat) : α))
    let total := sum + next
    if next < seriesTolerance * total then ⟨total, k, true⟩
    else positiveSum z l (k + 1) next total count

/-- The positive series of order `l` at `z = 2αx²`. -/
def positiveTotal (z : α) (l : Nat) : PartialSum α :=
  let first := ((1 : Nat) : α) / ((l + 3 : Nat) : α)
  positiveSum z l 1 first first (maxPositiveTerms - 1)

/-- The inner integral over `x ^ (l + 3)`, where `expa` stands for `e^(-αx²)`. -/
def positiveSeries (x alpha expa : α) (l : Nat) : α :=
  (positiveTotal (((2 : Nat) : α) * alpha * x * x) l).value * expa

end GaussianRadial
