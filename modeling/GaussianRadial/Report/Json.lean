import GaussianRadial.Number.Text

/-!
# JSON values

Values and their texts, indented by two blanks a level. The format has no numbers that are not
finite, so `null` stands for them. Which digits a number is written with is left to `JsonNumbers`.
-/

namespace GaussianRadial.Report

/-- How finite numbers are written in a JSON text. -/
class JsonNumbers where
  text : Float → String

inductive Json where
  | null
  | integer (n : Int)
  | number (x : Float) (finite : x.isFinite = true)
  | string (s : String)
  | array (items : List Json)
  | object (members : List (String × Json))

namespace Json

/-- A double, `null` if it is not finite. -/
def ofFloat (x : Float) : Json :=
  if finite : x.isFinite = true then .number x finite else .null

/-- The characters that are written as a backslash and a letter, with their letters. -/
def escapes : List (Char × Char) :=
  [('"', '"'), ('\\', '\\'), ('\x08', 'b'), ('\t', 't'), ('\n', 'n'), ('\x0c', 'f'), ('\r', 'r')]

/-- A hexadecimal digit. -/
def hexDigit (n : Nat) : Char := Nat.digitChar (n % 16)

/-- A character in a string. A control character without a letter is written by its number. -/
def escape (c : Char) : List Char :=
  match escapes.lookup c with
  | some letter => ['\\', letter]
  | none =>
    if c.toNat < 32 then ['\\', 'u', '0', '0', hexDigit (c.toNat / 16), hexDigit c.toNat] else [c]

def quote (s : String) : String := "\"" ++ String.ofList (s.toList.flatMap escape) ++ "\""

/-- A new line at a level of indentation. -/
def newLine (level : Nat) : String := "\n" ++ String.ofList (List.replicate (2 * level) ' ')

section Texts
variable [JsonNumbers]

mutual

/-- The text of a value whose lines are indented by `level` levels. -/
def render (level : Nat) : Json → String
  | null => "null"
  | integer n => toString n
  | number x _ => JsonNumbers.text x
  | string s => quote s
  | array [] => "[]"
  | array (item :: items) =>
    "[" ++ newLine (level + 1) ++ render (level + 1) item ++ renderItems (level + 1) items
      ++ newLine level ++ "]"
  | object [] => "\x7b\x7d"
  | object ((key, value) :: members) =>
    "\x7b" ++ newLine (level + 1) ++ quote key ++ ": " ++ render (level + 1) value
      ++ renderMembers (level + 1) members ++ newLine level ++ "\x7d"

/-- The items of an array after the first. -/
def renderItems (level : Nat) : List Json → String
  | [] => ""
  | item :: items => "," ++ newLine level ++ render level item ++ renderItems level items

/-- The members of an object after the first. -/
def renderMembers (level : Nat) : List (String × Json) → String
  | [] => ""
  | (key, value) :: members =>
    "," ++ newLine level ++ quote key ++ ": " ++ render level value ++ renderMembers level members

end

end Texts

end Json

end GaussianRadial.Report
