import GaussianRadial.Number.Binary64

/-!
# Decimal digits of exact magnitudes

`rounded` gives a fixed count of significant digits, `shortest` the fewest that read back as the
same double.
-/

namespace GaussianRadial.Number

/-- A decimal `d₀.d₁d₂… · 10 ^ exponent`. -/
structure Digits where
  digits : List Char
  exponent : Int
  deriving DecidableEq

/-- The decimal digits of a natural number. -/
def decimal (n : Nat) : List Char := Nat.toDigits 10 n

/--
The exponent of ten of the leading digit of a positive quotient. A power of two has 0.30103 decimal
places a binary place, which gives the exponent or a neighbour of it.
-/
def decimalExponent (r : Ratio) : Int :=
  let binary : Int := (Nat.log2 r.num : Int) - (Nat.log2 r.den : Int)
  let estimate : Int := Int.fdiv (binary * 30103) 100000
  if 0 < (r.scale 10 (-(estimate + 1))).floor then estimate + 1
  else if 0 < (r.scale 10 (-estimate)).floor then estimate
  else estimate - 1

/-- The decimal `coefficient · 10 ^ place`. -/
def Digits.ofCoefficient (coefficient : Nat) (place : Int) : Digits :=
  let digits := decimal coefficient
  ⟨digits, place + digits.length - 1⟩

/-- Without the zeros at the end, the first digit apart. -/
def Digits.trim (d : Digits) : Digits :=
  match d.digits with
  | [] => d
  | first :: rest => ⟨first :: (rest.reverse.dropWhile (· == '0')).reverse, d.exponent⟩

/-- The `count + 1` leading digits, rounded to nearest with ties to even. -/
def rounded (count : Nat) (r : Ratio) : Digits :=
  if r.num = 0 then ⟨List.replicate (count + 1) '0', 0⟩
  else
    let place := decimalExponent r - count
    let d := Digits.ofCoefficient (r.scale 10 (-place)).round place
    ⟨d.digits.take (count + 1), d.exponent⟩

/--
A decimal of `count + 1` digits that reads back as the double of magnitude `r`, the nearer of two,
where `exponent` is the exponent of ten of its leading digit.
-/
def readsBack? (r : Ratio) (exponent : Int) (count : Nat) : Option Digits :=
  let place := exponent - count
  let scaled := r.scale 10 (-place)
  let reads (coefficient : Nat) : Bool :=
    magnitudeBits ((Ratio.ofNat coefficient).scale 10 place) == magnitudeBits r
  let below := scaled.floor
  let choice : Option Nat :=
    match reads below, reads (below + 1) with
    | true, true => some scaled.round
    | true, false => some below
    | false, true => some (below + 1)
    | false, false => none
  choice.map (Digits.ofCoefficient · place)

/-- The fewest digits that read back as the same double. Seventeen always do. -/
def shortest (r : Ratio) : Digits :=
  if r.num = 0 then ⟨['0'], 0⟩
  else (((List.range 17).findSome? (readsBack? r (decimalExponent r))).getD (rounded 16 r)).trim

end GaussianRadial.Number
