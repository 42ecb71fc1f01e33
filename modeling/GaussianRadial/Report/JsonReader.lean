import GaussianRadial.Number.Reading
import GaussianRadial.Report.Json

/-!
# Reading JSON texts

`read` takes a text that is one JSON value between blanks. A number with a fraction or an exponent
is the nearest double, any other number a whole one.
-/

namespace GaussianRadial.Report.Json

open Number (readReal takeDigits takeSign digitsValue)

/-! ### Numbers -/

def isNumberChar (c : Char) : Bool := c.isDigit || ['-', '+', '.', 'e', 'E'].contains c

/-- At least one digit, and no zero before another digit. -/
def isWhole : List Char → Bool
  | [] => false
  | c :: rest => (c :: rest).all Char.isDigit && (rest.isEmpty || c != '0')

/-- A number may have a minus. -/
def takeMinus : List Char → Bool × List Char
  | '-' :: s => (true, s)
  | s => (false, s)

/-- The letter `e`, a sign or none, and digits. -/
def isExponent : List Char → Bool
  | [] => false
  | c :: s =>
    let digits := (takeSign s).2
    (c == 'e' || c == 'E') && !digits.isEmpty && digits.all Char.isDigit

/-- Digits after a point with an exponent or none, or an exponent alone. -/
def isFraction : List Char → Bool
  | '.' :: s =>
    let (digits, exponent) := takeDigits s
    !digits.isEmpty && (exponent.isEmpty || isExponent exponent)
  | exponent => isExponent exponent

/-- Whether a text is a number that is not written as a whole one. -/
def isFractional (s : List Char) : Bool :=
  let (whole, fraction) := takeDigits (takeMinus s).2
  isWhole whole && isFraction fraction

/-- The number that a text is from end to end. -/
def number? (s : List Char) : Option Json :=
  let (negative, digits) := takeMinus s
  if isWhole digits then
    some (.integer (if negative then -(digitsValue digits : Int) else digitsValue digits))
  else if isFractional s then
    match readReal s with
    | some (x, []) => if finite : x.isFinite = true then some (.number x finite) else none
    | _ => none
  else none

/-! ### Strings -/

/-- The value of a hexadecimal digit. -/
def hexValue? (c : Char) : Option Nat :=
  if c.isDigit then some (c.toNat - '0'.toNat)
  else if 'a' ≤ c ∧ c ≤ 'f' then some (c.toNat - 'a'.toNat + 10)
  else if 'A' ≤ c ∧ c ≤ 'F' then some (c.toNat - 'A'.toNat + 10)
  else none

/-- The character with a number of four hexadecimal digits. -/
def numbered? (digits : List Char) : Option Char := do
  let values ← digits.mapM hexValue?
  let code := values.foldl (fun value digit => 16 * value + digit) 0
  if code.isValidChar then some (Char.ofNat code) else none

/-- The character that a letter after a backslash stands for. A slash stands for itself. -/
def lettered? (letter : Char) : Option Char :=
  if letter = '/' then some '/'
  else (escapes.find? fun entry => entry.2 == letter).map Prod.fst

/-- The characters up to the closing quote, and the text after it. -/
def readString : List Char → Option (List Char × List Char)
  | [] => none
  | '"' :: s => some ([], s)
  | '\\' :: 'u' :: a :: b :: c :: d :: s => do
    let character ← numbered? [a, b, c, d]
    let (rest, s) ← readString s
    return (character :: rest, s)
  | '\\' :: letter :: s => do
    let character ← lettered? letter
    let (rest, s) ← readString s
    return (character :: rest, s)
  | c :: s => do
    if c.toNat < 32 then none
    let (rest, s) ← readString s
    return (c :: rest, s)

/-! ### Values -/

def isSpace (c : Char) : Bool := [' ', '\t', '\n', '\r'].contains c

def skipSpaces (s : List Char) : List Char := s.dropWhile isSpace

mutual

/-- The value at the front of a text, and the text after it. None is nested deeper than `depth`. -/
def readValue (depth : Nat) (s : List Char) : Option (Json × List Char) :=
  match depth with
  | 0 => none
  | depth + 1 =>
    match skipSpaces s with
    | '"' :: s => (readString s).map fun (text, s) => (.string (String.ofList text), s)
    | '[' :: s =>
      match skipSpaces s with
      | ']' :: s => some (.array [], s)
      | s => (readItems depth s).map fun (items, s) => (.array items, s)
    | '\x7b' :: s =>
      match skipSpaces s with
      | '\x7d' :: s => some (.object [], s)
      | s => (readMembers depth s).map fun (members, s) => (.object members, s)
    | 'n' :: 'u' :: 'l' :: 'l' :: s => some (.null, s)
    | s => (number? (s.takeWhile isNumberChar)).map fun json => (json, s.dropWhile isNumberChar)

/-- The items up to the closing bracket, and the text after it. -/
def readItems (depth : Nat) (s : List Char) : Option (List Json × List Char) :=
  match depth with
  | 0 => none
  | depth + 1 => do
    let (item, s) ← readValue depth s
    match skipSpaces s with
    | ']' :: s => return ([item], s)
    | ',' :: s =>
      let (items, s) ← readItems depth s
      return (item :: items, s)
    | _ => none

/-- The members up to the closing brace, and the text after it. -/
def readMembers (depth : Nat) (s : List Char) : Option (List (String × Json) × List Char) :=
  match depth with
  | 0 => none
  | depth + 1 =>
    match skipSpaces s with
    | '"' :: s => do
      let (key, s) ← readString s
      match skipSpaces s with
      | ':' :: s =>
        let (value, s) ← readValue depth s
        let member := (String.ofList key, value)
        match skipSpaces s with
        | '\x7d' :: s => return ([member], s)
        | ',' :: s =>
          let (members, s) ← readMembers depth s
          return (member :: members, s)
        | _ => none
      | _ => none
    | _ => none

end

/-- The value that a text is. A value is nested no deeper than its text is long. -/
def read (text : String) : Option Json := do
  let (json, rest) ← readValue text.toList.length text.toList
  if (skipSpaces rest).isEmpty then some json else none

end GaussianRadial.Report.Json
