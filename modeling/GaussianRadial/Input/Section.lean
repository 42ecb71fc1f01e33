import GaussianRadial.Input.Error

/-!
# Sections of an input file

The marks `$grid`, `$integrals` and `$output` open a section and `$end` closes all that are open.
A token belongs to the grid section if that is open, else to the integrals, else to the output.
Sections of one name are joined.
-/

namespace GaussianRadial.Input

/-- The tokens of the sections, and whether the file has a grid section. -/
structure Sections where
  hasGrid : Bool
  grid : List Token
  integrals : List Token
  output : List Token
  deriving DecidableEq

namespace Sections

def empty : Sections := ⟨false, [], [], []⟩

/-- Which sections are open. -/
structure Open where
  grid : Bool
  integrals : Bool
  output : Bool
  deriving DecidableEq

/-- No section is open. -/
def Open.closed : Open := ⟨false, false, false⟩

/-- The sections of numbered tokens. A token outside all sections is an error. -/
def collect (state : Open) : List (Nat × Token) → Except Error Sections
  | [] => .ok empty
  | (line, token) :: rest =>
    match keyword token with
    | "$grid" =>
      (collect { state with grid := true } rest).map fun s => { s with hasGrid := true }
    | "$integrals" => collect { state with integrals := true } rest
    | "$output" => collect { state with output := true } rest
    | "$end" => collect Open.closed rest
    | _ =>
      if state.grid then (collect state rest).map fun s => { s with grid := token :: s.grid }
      else if state.integrals then
        (collect state rest).map fun s => { s with integrals := token :: s.integrals }
      else if state.output then
        (collect state rest).map fun s => { s with output := token :: s.output }
      else .error (.unexpectedToken line token)

/-- The sections of a text. One without a grid section is refused. -/
def ofText (text : String) : Except Error Sections := do
  let sections ← collect Open.closed (numberedTokens text.toList)
  if sections.hasGrid then return sections else throw .noGridSection

end Sections

end GaussianRadial.Input
