import GaussianRadial.Input.Error

/-!
# Items of the sections

The grid and the output section are sequences of options, the integrals section is a sequence of
requests. An item is a keyword and the values after it.
-/

namespace GaussianRadial.Input

inductive GridOption where
  | kind (kind : GridKind)
  | points (count : Nat)
  | radius (radius : Float)
  | anisotropy (anisotropy : Float)
  | values (values : List Float)

inductive OutputOption where
  | format (format : ReportFormat)
  | precision (precision : Int)
  | limits (limits : Bool)

/--
A reader of one item, given the number of items before it, its first token and the tokens after
that.
-/
abbrev ItemReader (ι : Type) :=
  (before : Nat) → (first : Token) → (rest : List Token) → Except Error (ι × Rest rest)

/-- The items of a section, after the given number of items. -/
def readItems {ι : Type} (read : ItemReader ι) (before : Nat) (tokens : List Token) :
    Except Error (List ι) :=
  match tokens with
  | [] => .ok []
  | first :: rest =>
    match read before first rest with
    | .error e => .error e
    | .ok (item, left) => (readItems read (before + 1) left.val).map (item :: ·)
termination_by tokens.length
decreasing_by exact Nat.lt_succ_of_le left.property

/-- The truth value of `true` or `1`, `false` or `0`, in any case. -/
def readBoolean (value option sectionName : String) : Except BooleanError Bool :=
  match lowerCase value with
  | "true" | "1" => .ok true
  | "false" | "0" => .ok false
  | _ => .error ⟨value, option, sectionName⟩

/-- An option whose value has been read, if there was one. -/
def optionOf {β ι : Type} {tokens : List Token} (option : Token) (make : β → ι)
    (value : Option (β × Rest tokens)) : Except Error (ι × Rest tokens) :=
  match value with
  | none => .error (.unreadableValue option)
  | some (x, left) => .ok (make x, left)

def readGridKind (rest : List Token) : Except Error (GridOption × Rest rest) :=
  let (value, left) := readWord rest
  match keyword value with
  | "equidistant" => .ok (.kind .equidistant, left)
  | "exponential" => .ok (.kind .exponential, left)
  | "explicit" => .ok (.kind .explicit, left)
  | _ => .error (.invalidGridKind value)

def readPoints (option : Token) (rest : List Token) : Except Error (GridOption × Rest rest) :=
  match readInt64 rest with
  | none => .error (.unreadableValue option)
  | some (count, left) =>
    if count < 0 then .error .negativePointCount else .ok (.points count.toNat, left)

def readGridOption : ItemReader GridOption := fun _ option rest =>
  match keyword option with
  | "type" => readGridKind rest
  | "points" => readPoints option rest
  | "rmax" => optionOf option .radius (readReal rest)
  | "anisotropy" => optionOf option .anisotropy (readReal rest)
  | "values" =>
    let (values, left) := readNumbers rest
    .ok (.values values, left)
  | _ => .error (.unknownGridOption option)

def kindOf? (token : Token) : Option IntegralKind :=
  match keyword token with
  | "c0" => some .inner
  | "c0a" => some .innerPotential
  | "ci" => some .outer
  | _ => none

/-- The second order of an inner potential, 0 for the other kinds. -/
def readSecondOrder (kind : IntegralKind) (tokens : List Token) : Option (Int × Rest tokens) :=
  match kind with
  | .innerPotential => readInt32 tokens
  | _ => some (0, .all tokens)

/-- The exponent and the orders of a request. -/
def readParameters (kind : IntegralKind) (tokens : List Token) :
    Option (Request Float × Rest tokens) :=
  match readReal tokens with
  | none => none
  | some (alpha, left₁) =>
    match readInt32 left₁.val with
    | none => none
    | some (l₁, left₂) =>
      match readSecondOrder kind left₂.val with
      | none => none
      | some (l₂, left₃) => some (⟨kind, alpha, l₁, l₂⟩, (left₁.trans left₂).trans left₃)

def readRequest : ItemReader (Request Float) := fun before token rest =>
  match kindOf? token with
  | none => .error (.unknownIntegral token)
  | some kind =>
    match readParameters kind rest with
    | none => .error (.incompleteIntegral (before + 1) token)
    | some item => .ok item

def readFormat (rest : List Token) : Except Error (OutputOption × Rest rest) :=
  let (value, left) := readWord rest
  match keyword value with
  | "text" => .ok (.format .text, left)
  | "json" => .ok (.format .json, left)
  | _ => .error (.invalidFormat value)

def readLimits (option : Token) (rest : List Token) : Except Error (OutputOption × Rest rest) :=
  let (value, left) := readWord rest
  match readBoolean (String.ofList value) (String.ofList option) "$output" with
  | .error e => .error (.invalidBoolean e)
  | .ok limits => .ok (.limits limits, left)

def readOutputOption : ItemReader OutputOption := fun _ option rest =>
  match keyword option with
  | "format" => readFormat rest
  | "precision" => optionOf option .precision (readInt32 rest)
  | "limits" => readLimits option rest
  | _ => .error (.unknownOutputOption option)

end GaussianRadial.Input
