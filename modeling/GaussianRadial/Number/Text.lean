import GaussianRadial.Number.Digits

/-!
# Texts of doubles

The four layouts in which numbers are written: `scientific` and `fixed` with a given number of
places, `general` with six significant digits, and `shortest`, which reads back as the same double.
Digits are those of the exact value, rounded once with ties to even.
-/

namespace GaussianRadial.Number

/-- Text padded on the left with `fill` to at least `width` characters. -/
def padLeft (fill : Char) (width : Nat) (text : List Char) : List Char :=
  List.replicate (width - text.length) fill ++ text

/-- Digits with a point before the last `places` of them, none if there are no places. -/
def withPoint (places : Nat) (digits : List Char) : List Char :=
  if places = 0 then digits
  else digits.take (digits.length - places) ++ '.' :: digits.drop (digits.length - places)

/-- An exponent has a sign and at least two digits. -/
def exponentText (exponent : Int) : List Char :=
  'e' :: (if exponent < 0 then '-' else '+') :: padLeft '0' 2 (decimal exponent.natAbs)

namespace Digits

/-- One digit, the others after a point, and the exponent. -/
def scientific (d : Digits) : List Char :=
  withPoint (d.digits.length - 1) d.digits ++ exponentText d.exponent

/-- All digits at their places, with zeros up to the point. -/
def positional (d : Digits) : List Char :=
  match d.exponent with
  | .ofNat n =>
    let filled := d.digits ++ List.replicate (n + 1 - d.digits.length) '0'
    withPoint (filled.length - (n + 1)) filled
  | .negSucc n => '0' :: '.' :: List.replicate n '0' ++ d.digits

/-- Positional for exponents from -4 to below `limit`, scientific beyond. -/
def layout (limit : Int) (d : Digits) : List Char :=
  if -4 ≤ d.exponent ∧ d.exponent < limit then d.positional else d.scientific

end Digits

/--
The sign of a double and the text of its magnitude. What is not a number has a sign as well, but
`Float` does not keep it, so it is given apart.
-/
def signed (negativeNan : Bool) (body : Ratio → List Char) (x : Float) : String :=
  let sign (negative : Bool) : List Char := if negative then ['-'] else []
  match Binary64.ofFloat x with
  | .nan => String.ofList (sign negativeNan ++ ['n', 'a', 'n'])
  | .infinite negative => String.ofList (sign negative ++ ['i', 'n', 'f'])
  | .finite negative r => String.ofList (sign negative ++ body r)

/-- One digit before the point, `places` after it, and an exponent. -/
def scientificText (places : Nat) : Float → String :=
  signed false fun r => (rounded places r).scientific

/-- `places` digits after the point and no exponent. -/
def fixed (places : Nat) (r : Ratio) : List Char :=
  withPoint places (padLeft '0' (places + 1) (decimal (r.scale 10 places).round))

def fixedText (places : Nat) : Float → String := signed false (fixed places)

/-- Six significant digits without zeros at the end, positional for exponents from -4 to 5. -/
def generalText : Float → String :=
  signed false fun r => (rounded 5 r).trim.layout 6

/-- The fewest digits that read back, positional for exponents from -4 to 15. -/
def shortestText : Float → String :=
  signed false fun r => (shortest r).layout 16

end GaussianRadial.Number
