import GaussianRadial.Double
import GaussianRadial.Input.Item
import GaussianRadial.Input.Section

/-!
# Settings

The options of the sections by their names. An option that is not given has a default, and the last
of several wins, but explicit points add up.
-/

namespace GaussianRadial.Input

structure GridSettings where
  kind? : Option GridKind
  points? : Option Nat
  radius? : Option Float
  anisotropy? : Option Float
  values? : Option (List Float)

namespace GridSettings

/-- No option is given. -/
def empty : GridSettings := ⟨none, none, none, none, none⟩

def kind (grid : GridSettings) : GridKind := grid.kind?.getD .equidistant

def points (grid : GridSettings) : Nat := grid.points?.getD 100

def radius (grid : GridSettings) : Float := grid.radius?.getD 10.0

def anisotropy (grid : GridSettings) : Float := grid.anisotropy?.getD 0.05

def values (grid : GridSettings) : List Float := grid.values?.getD []

/-- The settings with one more option. -/
def set (grid : GridSettings) : GridOption → GridSettings
  | .kind kind => { grid with kind? := some kind }
  | .points count => { grid with points? := some count }
  | .radius radius => { grid with radius? := some radius }
  | .anisotropy anisotropy => { grid with anisotropy? := some anisotropy }
  | .values values => { grid with values? := some (grid.values ++ values) }

/-- The grid of the settings. -/
def build (grid : GridSettings) : Except (GridError Float) (Grid Float) :=
  match grid.kind with
  | .equidistant => Grid.equidistant grid.points grid.radius
  | .exponential => Grid.exponential grid.points grid.radius grid.anisotropy
  | .explicit => Grid.ofPoints grid.values

end GridSettings

structure OutputSettings where
  format? : Option ReportFormat
  precision? : Option Int
  limits? : Option Bool

namespace OutputSettings

/-- No option is given. -/
def empty : OutputSettings := ⟨none, none, none⟩

/-- The settings with one more option. -/
def set (output : OutputSettings) : OutputOption → OutputSettings
  | .format format => { output with format? := some format }
  | .precision precision => { output with precision? := some precision }
  | .limits limits => { output with limits? := some limits }

def options (output : OutputSettings) : ReportOptions :=
  ⟨output.format?.getD .text, output.precision?.getD 10, output.limits?.getD true⟩

end OutputSettings

/-- All that an input file says. -/
structure Settings where
  grid : GridSettings
  requests : List (Request Float)
  output : OutputSettings

/-- The settings of the sections. The grid section is read first and the output section last. -/
def Settings.ofSections (sections : Sections) : Except Error Settings := do
  let gridOptions ← readItems readGridOption 0 sections.grid
  let requests ← readItems readRequest 0 sections.integrals
  let outputOptions ← readItems readOutputOption 0 sections.output
  return ⟨gridOptions.foldl .set .empty, requests, outputOptions.foldl .set .empty⟩

def Settings.ofText (text : String) : Except Error Settings := do
  ofSections (← Sections.ofText text)

end GaussianRadial.Input
