import GaussianRadial.Input.Validation

/-!
# Reading input files

Reading gives a job or an error, and the warnings. Warnings are known as soon as the settings have
been read, also if the settings turn out to be faulty.
-/

namespace GaussianRadial.Input

/-- The job of a text, and the warnings about it. -/
def ofText (text : String) : Except Error (Job Float) × List Warning :=
  match Settings.ofText text with
  | .error e => (.error e, [])
  | .ok settings => (settings.job, settings.warnings)

/-- The job of a named file with the given contents, nothing if it cannot be opened. -/
def ofFile (name : String) (contents : Option String) : Except Error (Job Float) × List Warning :=
  match contents with
  | none => (.error (.cannotOpen name), [])
  | some text => ofText text

/-- An input file by its name, with the warnings of the last time it was read. -/
structure Reader where
  name : String
  warnings : List Warning
  deriving DecidableEq

namespace Reader

/-- A file that has not been read. -/
def ofName (name : String) : Reader := ⟨name, []⟩

/-- Reads the file, which has the given contents. -/
def read (reader : Reader) (contents : Option String) : Except Error (Job Float) × Reader :=
  let (job, warnings) := ofFile reader.name contents
  (job, { reader with warnings })

end Reader

end GaussianRadial.Input
