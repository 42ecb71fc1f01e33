import GaussianRadial.Number.Binary64

/-!
# Reading numbers

`readReal` and `readInteger` take a number from the front of a text and give the text after it.
`wholeNumber?` reads a text that is one number from end to end.
-/

namespace GaussianRadial.Number

/-- The decimal number `± coefficient · 10 ^ exponent`. -/
structure Decimal where
  negative : Bool
  coefficient : Nat
  exponent : Int
  deriving DecidableEq

/--
The nearest double. A number of at least `10 ^ 310` is infinite and one below `10 ^ -330` zero
whatever its digits.
-/
def Decimal.toFloat (d : Decimal) : Float :=
  let leading : Int := d.exponent + (Nat.toDigits 10 d.coefficient).length
  if d.coefficient = 0 ∨ leading < -330 then nearest d.negative (Ratio.ofNat 0)
  else if 310 < leading then nearest d.negative ((Ratio.ofNat 10).scale 10 310)
  else nearest d.negative ((Ratio.ofNat d.coefficient).scale 10 d.exponent)

/-- The digits at the front of a text, and the text after them. -/
def takeDigits (s : List Char) : List Char × List Char :=
  (s.takeWhile Char.isDigit, s.dropWhile Char.isDigit)

/-- The value of a digit. -/
def digitValue (c : Char) : Nat := c.toNat - '0'.toNat

/-- The value of a row of digits. -/
def digitsValue (digits : List Char) : Nat :=
  digits.foldl (fun value c => 10 * value + digitValue c) 0

/-- An optional sign, and the text after it. -/
def takeSign : List Char → Bool × List Char
  | '-' :: s => (true, s)
  | '+' :: s => (false, s)
  | s => (false, s)

/-- The digits after a point, if the text starts with one. -/
def takeFraction : List Char → List Char × List Char
  | '.' :: s => takeDigits s
  | s => ([], s)

/-- An exponent of ten: zero if the text has no exponent mark, nothing if the mark has no digits. -/
def readExponent (s : List Char) : Option (Int × List Char) :=
  match s with
  | [] => some (0, [])
  | c :: s' =>
    if c = 'e' ∨ c = 'E' then
      let (negative, t) := takeSign s'
      let (digits, rest) := takeDigits t
      if digits.isEmpty then none
      else some (if negative then -(digitsValue digits : Int) else digitsValue digits, rest)
    else some (0, s)

/--
An unsigned number: digits with at most one point and at least one digit, then an exponent if the
letter `e` follows.
-/
def readMagnitude (negative : Bool) (s : List Char) : Option (Decimal × List Char) :=
  let (whole, s₁) := takeDigits s
  let (fraction, s₂) := takeFraction s₁
  if whole.isEmpty && fraction.isEmpty then none
  else
    (readExponent s₂).map fun (exponent, rest) =>
      (⟨negative, digitsValue (whole ++ fraction), exponent - fraction.length⟩, rest)

/-- A double from the front of a text. A number that is too large for a double is refused. -/
def readReal (s : List Char) : Option (Float × List Char) :=
  let (negative, t) := takeSign s
  match readMagnitude negative t with
  | none => none
  | some (d, rest) => if d.toFloat.isFinite then some (d.toFloat, rest) else none

/-- A whole number between `low` and `high` from the front of a text. -/
def readInteger (low high : Int) (s : List Char) : Option (Int × List Char) :=
  let (negative, t) := takeSign s
  let (digits, rest) := takeDigits t
  let value : Int := if negative then -(digitsValue digits : Int) else digitsValue digits
  if digits.isEmpty ∨ value < low ∨ high < value then none else some (value, rest)

/-- What may stand between the brackets of a `nan(…)`. -/
def isTagChar (c : Char) : Bool := c.isAlphanum || c == '_'

/-- Whether a lower-case text is `nan`, alone or with a tag in brackets. -/
def isNan : List Char → Bool
  | ['n', 'a', 'n'] => true
  | 'n' :: 'a' :: 'n' :: '(' :: tag => tag.dropWhile isTagChar == [')']
  | _ => false

/-- Whether a lower-case text is a name of infinity. -/
def isInfinity (s : List Char) : Bool :=
  s == ['i', 'n', 'f'] || s == ['i', 'n', 'f', 'i', 'n', 'i', 't', 'y']

/--
The double that a text denotes from end to end. There may be a minus but no plus in front, and
infinity and `nan` count as numbers. A finite number that rounds to infinity or to zero is none,
zero itself apart.
-/
def wholeNumber? (s : List Char) : Option Float :=
  let (negative, body) :=
    match s with
    | '-' :: body => (true, body)
    | body => (false, body)
  let lower := body.map Char.toLower
  if isInfinity lower then some (if negative then -(1.0 / 0.0) else 1.0 / 0.0)
  else if isNan lower then some (0.0 / 0.0)
  else
    match readMagnitude negative body with
    | some (d, []) =>
      let x := d.toFloat
      if x.isFinite && (d.coefficient == 0 || x != 0.0) then some x else none
    | _ => none

end GaussianRadial.Number
