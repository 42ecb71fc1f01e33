import GaussianRadial.Input.Token
import GaussianRadial.Message
import GaussianRadial.Session

/-!
# Errors and warnings of the input

Every cause has a constructor, and its text is in the function `message` beside it.
-/

namespace GaussianRadial.Input

/-- A text that is no truth value, and the option and the section that it was given for. -/
structure BooleanError where
  value : String
  option : String
  sectionName : String
  deriving DecidableEq

def BooleanError.message (e : BooleanError) : String :=
  messageText ("Invalid boolean value for " ++ e.option ++ " in " ++ e.sectionName ++ " block: "
    ++ e.value)

/-- What is wrong with a request. -/
inductive RequestFault where
  | exponentNotPositive
  | negativeOrders
  | oddTotalOrder
  | ascendingOrders
  | negativeOrder
  | oddOrder
  deriving DecidableEq

def RequestFault.message : RequestFault → String
  | exponentNotPositive => "the exponent must be positive."
  | negativeOrders => "the angular momenta must be non-negative."
  | oddTotalOrder => "the total angular momentum l1 + l2 must be even."
  | ascendingOrders => "l1 must not be smaller than l2."
  | negativeOrder => "the angular momentum must be non-negative."
  | oddOrder => "the angular momentum must be even."

/-- What is wrong with settings that could be read. Positions count from 1. -/
inductive Fault where
  | tooFewPoints
  | radiusNotPositive
  | anisotropyNotPositive
  | growthTooLarge
  | noValues
  | negativeValue (position : Nat) (value : Float)
  | decreasingValue (position : Nat)
  | noRequests
  | request (position : Nat) (kind : IntegralKind) (fault : RequestFault)
  | precisionOutOfRange

def Fault.message : Fault → String
  | tooFewPoints => "POINTS in $grid block must be at least 2."
  | radiusNotPositive => "RMAX in $grid block must be positive."
  | anisotropyNotPositive => "ANISOTROPY in $grid block must be positive."
  | growthTooLarge =>
    "ANISOTROPY * (POINTS - 1) in $grid block is too large for an exponential grid."
  | noValues => "An explicit grid needs at least one point in VALUES in $grid block."
  | negativeValue position value =>
    let text := Number.shortestText value
    s!"Grid point {position} in $grid block is negative ({text})."
  | decreasingValue position =>
    s!"Grid points in $grid block must be increasing (point {position})."
  | noRequests => "No integrals requested in $integrals block."
  | request position kind fault =>
    let name := kind.name
    let text := fault.message
    s!"Integral {position} ({name}): {text}"
  | precisionOutOfRange => "PRECISION in $output block must be between 1 and 17."

/-- An option that is given and not used. -/
inductive Warning where
  | anisotropyUnused
  | valuesUnused
  | valuesWithoutKind
  | pointsUnused
  | radiusUnused
  | precisionUnused
  deriving DecidableEq

def Warning.message : Warning → String
  | anisotropyUnused =>
    "ANISOTROPY is set, but it will have no effect because the grid is not exponential."
  | valuesUnused =>
    "VALUES is set, but it will have no effect because the grid type is not explicit."
  | valuesWithoutKind =>
    "VALUES is set, but it will have no effect because TYPE is missing (default equidistant). "
      ++ "Set TYPE EXPLICIT to use them."
  | pointsUnused => "POINTS is set, but it will have no effect because the grid is explicit."
  | radiusUnused => "RMAX is set, but it will have no effect because the grid is explicit."
  | precisionUnused =>
    "PRECISION is set, but it will have no effect because the output format is json."

/-- Why an input file gives no job. -/
inductive Error where
  | cannotOpen (name : String)
  | unexpectedToken (line : Nat) (token : Token)
  | noGridSection
  | unknownGridOption (option : Token)
  | invalidGridKind (value : Token)
  | negativePointCount
  | unknownIntegral (kind : Token)
  | incompleteIntegral (position : Nat) (kind : Token)
  | unknownOutputOption (option : Token)
  | invalidFormat (value : Token)
  | invalidBoolean (error : BooleanError)
  /-- The value of an option is missing or is no number that the option takes. -/
  | unreadableValue (option : Token)
  | faulty (faults : List Fault)
  | grid (error : GridError Float)

/-- The text of an error before it is cut at a NUL. -/
def Error.text : Error → String
  | cannotOpen name => "Could not open input file: " ++ name
  | unexpectedToken line token => s!"Unexpected token at line {line}: " ++ String.ofList token
  | noGridSection => "No $grid block found in input file."
  | unknownGridOption option => "Unknown option in $grid block: " ++ String.ofList option
  | invalidGridKind value => "Invalid grid type in $grid block: " ++ String.ofList value
  | negativePointCount => "POINTS in $grid block must be non-negative."
  | unknownIntegral kind => "Unknown integral type in $integrals block: " ++ String.ofList kind
  | incompleteIntegral position kind =>
    s!"Incomplete specification of integral {position} (" ++ String.ofList kind
      ++ ") in $integrals block."
  | unknownOutputOption option => "Unknown option in $output block: " ++ String.ofList option
  | invalidFormat value => "Invalid output format in $output block: " ++ String.ofList value
  | invalidBoolean error => error.message
  | unreadableValue option => "Error reading value for option: " ++ String.ofList option
  | faulty faults =>
    "INPUT ERROR:\n" ++ String.join (faults.map fun fault => "- " ++ fault.message ++ "\n")
  | grid error => error.message

def Error.message (error : Error) : String := messageText error.text

end GaussianRadial.Input
