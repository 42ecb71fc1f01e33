import GaussianRadial.Input.Settings

/-!
# Validation of settings

`Settings.faults` lists all that is wrong with settings, those of the grid first, then those of the
requests in their order. `Settings.warnings` lists the options that are given and not used.
-/

namespace GaussianRadial.Input

/-- A list of one fault if a condition holds. -/
def faultIf {β : Type} (condition : Bool) (fault : β) : List β := if condition then [fault] else []

/-- A value that is below 0, or else below the one before it. -/
def valueFault (position : Nat) (before : Option Float) (value : Float) : List Fault :=
  if value < 0.0 then [.negativeValue position value]
  else
    match before with
    | none => []
    | some other => faultIf (value < other) (.decreasingValue position)

/-- The faults of the values from a position on, given the value before them. -/
def valueFaults (position : Nat) (before : Option Float) : List Float → List Fault
  | [] => []
  | value :: rest =>
    valueFault position before value ++ valueFaults (position + 1) (some value) rest

/-- Whether the points of an exponential grid would grow beyond the range of doubles. -/
def GridSettings.overflows (grid : GridSettings) : Bool :=
  2 ≤ grid.points && 0.0 < grid.radius && 0.0 < grid.anisotropy
    && !Grid.isUsableFactor (Grid.growthFactor grid.points grid.radius grid.anisotropy)

/-- The values are checked also for a grid that does not use them. -/
def GridSettings.faults (grid : GridSettings) : List Fault :=
  let isExplicit := grid.kind == .explicit
  let isExponential := grid.kind == .exponential
  faultIf (!isExplicit && grid.points < 2) .tooFewPoints
    ++ faultIf (!isExplicit && grid.radius ≤ 0.0) .radiusNotPositive
    ++ faultIf (isExponential && grid.anisotropy ≤ 0.0) .anisotropyNotPositive
    ++ faultIf (isExponential && grid.overflows) .growthTooLarge
    ++ faultIf (isExplicit && grid.values.isEmpty) .noValues
    ++ valueFaults 1 none grid.values

/-- The faults of a request. -/
def requestFaults (request : Request Float) : List RequestFault :=
  faultIf (request.alpha ≤ 0.0) .exponentNotPositive
    ++ match request.kind with
      | .innerPotential =>
        faultIf (request.l₂ < 0) .negativeOrders
          ++ faultIf ((request.l₁ + request.l₂) % 2 != 0) .oddTotalOrder
          ++ faultIf (request.l₁ < request.l₂) .ascendingOrders
      | _ =>
        faultIf (request.l₁ < 0) .negativeOrder ++ faultIf (request.l₁ % 2 != 0) .oddOrder

/-- The faults of the requests from a position on. -/
def requestsFaults (position : Nat) : List (Request Float) → List Fault
  | [] => []
  | request :: rest =>
    (requestFaults request).map (.request position request.kind)
      ++ requestsFaults (position + 1) rest

def outputFaults (options : ReportOptions) : List Fault :=
  faultIf (options.precision < 1 || 17 < options.precision) .precisionOutOfRange

def Settings.faults (settings : Settings) : List Fault :=
  settings.grid.faults
    ++ faultIf settings.requests.isEmpty .noRequests
    ++ requestsFaults 1 settings.requests
    ++ outputFaults settings.output.options

def Settings.warnings (settings : Settings) : List Warning :=
  let grid := settings.grid
  let isExplicit := grid.kind == .explicit
  faultIf (grid.anisotropy?.isSome && grid.kind != .exponential) .anisotropyUnused
    ++ faultIf (grid.values?.isSome && !isExplicit)
      (if grid.kind?.isSome then .valuesUnused else .valuesWithoutKind)
    ++ faultIf (grid.points?.isSome && isExplicit) .pointsUnused
    ++ faultIf (grid.radius?.isSome && isExplicit) .radiusUnused
    ++ faultIf (settings.output.precision?.isSome && settings.output.options.format == .json)
      .precisionUnused

/-- The job of the settings, if they have no fault. -/
def Settings.job (settings : Settings) : Except Error (Job Float) :=
  if settings.faults.isEmpty then
    match settings.grid.build with
    | .error e => .error (.grid e)
    | .ok grid => .ok ⟨grid, settings.requests, settings.output.options⟩
  else .error (.faulty settings.faults)

end GaussianRadial.Input
