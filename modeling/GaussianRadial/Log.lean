import GaussianRadial.Files
import GaussianRadial.Message

/-!
# Report files

A log is a file that is emptied when it is opened and only appended to afterwards. It is named and
not held open: a file that was removed comes back with the next text, and two logs of one name
write to one file.
-/

namespace GaussianRadial

/-- Why a text was not written. -/
inductive LogError where
  | cannotOpen (name : String)
  | cannotWrite (name : String)
  deriving DecidableEq

def LogError.message : LogError → String
  | cannotOpen name => messageText ("Could not open output file: " ++ name)
  | cannotWrite name => messageText ("Could not write to output file: " ++ name)

/-- The length of a separator line. -/
def lineLength : Nat := 99

def lineText (mark : Char) (length : Nat) : String := String.ofList (List.replicate length mark)

def separatorText (mark : Char) (length : Nat) : String := lineText mark length ++ "\n"

/-- A title between two lines. -/
def headerText (title : String) (mark : Char) (length : Nat) : String :=
  let line := lineText mark length
  line ++ "\n" ++ title ++ "\n" ++ line ++ "\n"

structure Log where
  name : String
  deriving DecidableEq

namespace Log

variable {m : Type → Type} [Monad m] [Files m]

/-- Opens a log, which empties its file. -/
def create (name : String) : m (Except LogError Log) := do
  if ← Files.clear name then return .ok ⟨name⟩ else return .error (.cannotOpen name)

def append (log : Log) (text : String) : m (Except LogError Unit) := do
  match ← Files.append log.name text with
  | .added => return .ok ()
  | .notOpened => return .error (.cannotOpen log.name)
  | .notAdded => return .error (.cannotWrite log.name)

/-- Appends texts one after the other, up to the first that fails. -/
def appendAll (log : Log) : List String → m (Except LogError Unit)
  | [] => return .ok ()
  | text :: texts => do
    match ← log.append text with
    | .error e => return .error e
    | .ok () => appendAll log texts

def separator (log : Log) (mark : Char) (length : Nat) : m (Except LogError Unit) :=
  log.append (separatorText mark length)

def header (log : Log) (title : String) (mark : Char) (length : Nat) : m (Except LogError Unit) :=
  log.append (headerText title mark length)

end Log

end GaussianRadial
