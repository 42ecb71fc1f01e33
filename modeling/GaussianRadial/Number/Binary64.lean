import GaussianRadial.Number.Ratio

/-!
# Doubles by their parts

`Binary64.ofFloat` takes a double apart into a sign and an exact magnitude, and `nearest` puts the
double together that is nearest to an exact magnitude, a tie going to the even significand.
-/

namespace GaussianRadial.Number

/-- A double: not a number, infinite, or a sign with an exact magnitude. -/
inductive Binary64 where
  | nan
  | infinite (negative : Bool)
  | finite (negative : Bool) (magnitude : Ratio)

/-- The weight of the lowest exponent bit: a significand has 52 bits after its leading one. -/
def exponentUnit : Nat := 1 <<< 52

/-- The bits of positive infinity. -/
def infinityBits : Nat := 2047 * exponentUnit

/-- The sign bit. -/
def signBit : Nat := 1 <<< 63

def Binary64.ofFloat (x : Float) : Binary64 :=
  let bits := x.toBits.toNat
  let negative := decide (signBit ≤ bits)
  let exponent := bits / exponentUnit % 2048
  let fraction := bits % exponentUnit
  if exponent = 2047 then
    if fraction = 0 then .infinite negative else .nan
  else if exponent = 0 then
    .finite negative ((Ratio.ofNat fraction).scale 2 (-1074))
  else
    .finite negative ((Ratio.ofNat (exponentUnit + fraction)).scale 2 ((exponent : Int) - 1075))

/--
The binary place of the last significand bit of the double nearest to a positive quotient, that of
subnormal numbers at least.
-/
def lastPlace (r : Ratio) : Int :=
  let estimate : Int := (Nat.log2 r.num : Int) - (Nat.log2 r.den : Int) - 52
  let place := if (r.scale 2 (-estimate)).floor < exponentUnit then estimate - 1 else estimate
  if place < -1074 then -1074 else place

/--
The bits of the double nearest to a quotient. The significand's leading one adds to the exponent
field, so a significand that rounds up to the next power of two carries into it.
-/
def magnitudeBits (r : Ratio) : Nat :=
  if r.num = 0 then 0
  else
    let place := lastPlace r
    let bits := (place + 1074).toNat * exponentUnit + (r.scale 2 (-place)).round
    if infinityBits < bits then infinityBits else bits

/-- The double nearest to a signed magnitude, an infinity beyond the largest finite double. -/
def nearest (negative : Bool) (r : Ratio) : Float :=
  Float.ofBits (UInt64.ofNat (magnitudeBits r + if negative then signBit else 0))

end GaussianRadial.Number
