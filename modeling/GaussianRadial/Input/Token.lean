import GaussianRadial.Number.Reading

/-!
# Tokens of an input file

A file is read as numbered lines of tokens, which blanks separate. A token that starts with `#` ends
its line. Numbers are read from the front of the first token, and what is left of it is the next
one.
-/

namespace GaussianRadial.Input

abbrev Token := List Char

/-- The space, and the control characters from the tabulator to the carriage return. -/
def isBlank (c : Char) : Bool := c == ' ' || (9 ≤ c.toNat && c.toNat ≤ 13)

/--
The runs between separators, where `runs` are the runs before the current one and `run` is the part
of it that has been read, both in reverse.
-/
def splitFrom (isSeparator : Char → Bool) (runs : List (List Char)) (run : List Char) :
    List Char → List (List Char)
  | [] => (run.reverse :: runs).reverse
  | c :: rest =>
    if isSeparator c then splitFrom isSeparator (run.reverse :: runs) [] rest
    else splitFrom isSeparator runs (c :: run) rest

/-- The runs between separators, among them empty ones. -/
def split (isSeparator : Char → Bool) (text : List Char) : List (List Char) :=
  splitFrom isSeparator [] [] text

/-- The lines of a text. -/
def lines (text : List Char) : List (List Char) := split (· == '\n') text

/-- The tokens of a line. -/
def tokens (line : List Char) : List Token := (split isBlank line).filter (!·.isEmpty)

/-- Whether a token starts a comment. -/
def isComment (token : Token) : Bool := token.head? == some '#'

/-- The tokens of a line up to a comment. -/
def lineTokens (line : List Char) : List Token := (tokens line).takeWhile (!isComment ·)

/-- The tokens of a text with the numbers of their lines, which count from 1. -/
def numberedTokens (text : List Char) : List (Nat × Token) :=
  ((lines text).zipIdx 1).flatMap fun (line, number) => (lineTokens line).map (number, ·)

/-- Keywords are compared in lower case. Only ASCII letters have one. -/
def lowerCase (text : String) : String := String.ofList (text.toList.map Char.toLower)

/-- A token in lower case. -/
def keyword (token : Token) : String := String.ofList (token.map Char.toLower)

/-- The part of a list of tokens that is left after reading from it. -/
abbrev Rest (tokens : List Token) := { rest : List Token // rest.length ≤ tokens.length }

namespace Rest

/-- Nothing has been read. -/
def all (tokens : List Token) : Rest tokens := ⟨tokens, Nat.le_refl _⟩

/-- What is left of what was left. -/
def trans {tokens : List Token} (first : Rest tokens) (second : Rest first.val) : Rest tokens :=
  ⟨second.val, Nat.le_trans second.property first.property⟩

end Rest

/-- A reader of the front of a text, applied to the first token. -/
def readFront {β : Type} (read : List Char → Option (β × List Char)) (tokens : List Token) :
    Option (β × Rest tokens) :=
  match tokens with
  | [] => none
  | token :: rest =>
    match read token with
    | none => none
    | some (x, []) => some (x, ⟨rest, Nat.le_succ _⟩)
    | some (x, c :: left) => some (x, ⟨(c :: left) :: rest, Nat.le_refl _⟩)

def readReal (tokens : List Token) : Option (Float × Rest tokens) :=
  readFront Number.readReal tokens

/-- A whole number in the range of 32 bits. -/
def readInt32 (tokens : List Token) : Option (Int × Rest tokens) :=
  readFront (Number.readInteger (-2147483648) 2147483647) tokens

/-- A whole number in the range of 64 bits. -/
def readInt64 (tokens : List Token) : Option (Int × Rest tokens) :=
  readFront (Number.readInteger (-9223372036854775808) 9223372036854775807) tokens

/-- The next token, empty if there is none. -/
def readWord (tokens : List Token) : Token × Rest tokens :=
  match tokens with
  | [] => ([], .all [])
  | token :: rest => (token, ⟨rest, Nat.le_succ _⟩)

/-- The longest run of tokens that are numbers. -/
def readNumbers (tokens : List Token) : List Float × Rest tokens :=
  match tokens with
  | [] => ([], .all [])
  | token :: rest =>
    match Number.wholeNumber? token with
    | none => ([], .all (token :: rest))
    | some x =>
      let (xs, left) := readNumbers rest
      (x :: xs, ⟨left.val, Nat.le_succ_of_le left.property⟩)

end GaussianRadial.Input
