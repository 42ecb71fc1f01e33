/-!
# Files

What a run needs of the files around it.
-/

namespace GaussianRadial

/-- What came of adding a text to a file. -/
inductive Addition where
  | added
  | notOpened
  /-- The file was opened and did not take the text, or only a part of it. -/
  | notAdded
  deriving DecidableEq

/-- Access to files by name. -/
class Files (m : Type → Type) where
  /-- The contents of a file, nothing if it cannot be opened. -/
  read : String → m (Option String)
  /-- Makes a file empty, and tells whether it could be opened. -/
  clear : String → m Bool
  /-- Adds a text to the end of a file. -/
  append : String → String → m Addition

end GaussianRadial
