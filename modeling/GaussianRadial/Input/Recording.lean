import GaussianRadial.Input.Reader

/-!
# Readings that record warnings

A reader holds the warnings of its last reading. It drops them when it starts to read, and records
new ones one by one on the way. What it has recorded stays when a later step of the reading fails.
-/

namespace GaussianRadial.Input

/-- Steps of a reading. They change the warnings that the reader holds, and each can fail. -/
abbrev Recording (α : Type) := ExceptT Error (StateM (List Warning)) α

namespace Recording

variable {α : Type}

/-- What steps lead to, and the warnings after them, for a reader that holds the given ones. -/
def outcome (steps : Recording α) (warnings : List Warning) : Except Error α × List Warning :=
  StateT.run (ExceptT.run steps) warnings

/-- Drops all warnings. -/
def clear : Recording Unit := set ([] : List Warning)

def recordIf (condition : Bool) (warning : Warning) : Recording Unit :=
  if condition then modify fun warnings => warnings ++ [warning] else pure ()

def openFile (name : String) : Option String → Recording String
  | none => throw (.cannotOpen name)
  | some text => pure text

end Recording

open Recording

/-- Records the options that are given and not used. -/
def Settings.recordWarnings (settings : Settings) : Recording Unit := do
  let grid := settings.grid
  let isExplicit := grid.kind == .explicit
  recordIf (grid.anisotropy?.isSome && grid.kind != .exponential) .anisotropyUnused
  recordIf (grid.values?.isSome && !isExplicit)
    (if grid.kind?.isSome then .valuesUnused else .valuesWithoutKind)
  recordIf (grid.points?.isSome && isExplicit) .pointsUnused
  recordIf (grid.radius?.isSome && isExplicit) .radiusUnused
  recordIf (settings.output.precision?.isSome && settings.output.options.format == .json)
    .precisionUnused

/-- Records the warnings about the settings, and fails after that if faults have been found. -/
def Settings.validate (settings : Settings) (faults : List Fault) : Recording Unit := do
  settings.recordWarnings
  if faults.isEmpty then pure () else throw (.faulty faults)

/-- The job of settings that have been validated. -/
def Settings.buildJob (settings : Settings) : Recording (Job Float) :=
  match settings.grid.build with
  | .error e => throw (.grid e)
  | .ok grid => pure ⟨grid, settings.requests, settings.output.options⟩

/-- The steps of reading a file with the given contents. -/
def readingSteps (name : String) (contents : Option String) : Recording (Job Float) := do
  clear
  let text ← openFile name contents
  let sections ← ofExcept (Sections.ofText text)
  let settings ← ofExcept (Settings.ofSections sections)
  settings.validate settings.faults
  settings.buildJob

/-- Reads the file step by step, which changes the warnings that the reader holds. -/
def Reader.readStepwise (reader : Reader) (contents : Option String) :
    Except Error (Job Float) × Reader :=
  let (job, warnings) := (readingSteps reader.name contents).outcome reader.warnings
  (job, { reader with warnings })

end GaussianRadial.Input
