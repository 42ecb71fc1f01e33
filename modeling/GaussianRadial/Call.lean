import GaussianRadial.Integral

/-!
# Calls that write into an array

An integral as a call on an array of its caller. The preconditions come first. Then the array is set
to zero, and the value at one sample after the other is written into it. Factorials are taken between
these steps, and one that is undefined ends the call with the array as it is at that time.
-/

namespace GaussianRadial

/-- A factorial that a call takes. -/
inductive FactorialUse where
  | single (n : Int)
  | double (n : Int)
  deriving DecidableEq

/-- Why a call fails. -/
inductive CallError (α : Type) where
  | precondition (e : IntegralError α)
  | factorial (e : FactorialError)
  deriving DecidableEq

/-- What is written for a sample, and the factorials that are taken for it. -/
structure SampleStep (α : Type) where
  uses : List FactorialUse
  value : α

/-- What a call does with an array that has been set to zero. -/
structure Work (α : Type) where
  /-- The factorials that are taken before the first sample. -/
  uses : List FactorialUse
  steps : List (SampleStep α)

/-- An integral over samples as a call. -/
structure Call (α : Type) where
  /-- The preconditions, for an array of the given length. -/
  check : Nat → Except (IntegralError α) Unit
  /-- What is done once they hold. -/
  work : Unit → Work α

variable {α : Type} [NatCast α] [Mul α] [Elementary α]

def FactorialUse.value? : FactorialUse → Except FactorialError α
  | single n => factorial? n
  | double n => doubleFactorial? n

/-- Why the first of the factorials that is undefined has no value. -/
def firstUndefined (α : Type) [NatCast α] [Mul α] [Elementary α] (uses : List FactorialUse) :
    Option FactorialError :=
  uses.findSome? fun use =>
    match (use.value? : Except FactorialError α) with
    | .error e => some e
    | .ok _ => none

/-- Writes the values of the steps into the array, from index `i` on. -/
def writeSteps (i : Nat) (output : List α) : List (SampleStep α) → Option (CallError α) × List α
  | [] => (none, output)
  | step :: rest =>
    match firstUndefined α step.uses with
    | some e => (some (.factorial e), output)
    | none => writeSteps (i + 1) (output.set i step.value) rest

/-- Sets the array to zero and does the work on it. -/
def Work.run (work : Work α) (output : List α) : Option (CallError α) × List α :=
  let cleared := output.map fun _ => ((0 : Nat) : α)
  match firstUndefined α work.uses with
  | some e => (some (.factorial e), cleared)
  | none => writeSteps 0 cleared work.steps

/-- The error of the call, if there is one, and the array after it. -/
def Call.run (call : Call α) (output : List α) : Option (CallError α) × List α :=
  match call.check output.length with
  | .error e => (some (.precondition e), output)
  | .ok () => (call.work ()).run output

/-- The double factorials that the coefficients of the closed form of order `l` are made of. -/
def coefficientUses (l : Int) : List FactorialUse :=
  .double (l + 1) :: (List.range (l.toNat / 2 + 1)).map fun (k : Nat) => .double (2 * k + 1)

variable [LT α] [DecidableLT α] [Add α] [Sub α] [Div α] [Neg α] [Pow α Nat]

/-- The inner integral, which takes factorials where no row of the table has its order. -/
def innerCall (samples : List α) (aux : Auxiliary α) (alpha : α) (l : Int) : Call α where
  check outputLength := do
    checkOrder alpha l
    checkLength .output outputLength samples.length
    checkLength .exponential aux.expa.length samples.length
    checkLength .errorFunction aux.erfa.length samples.length
  work _ :=
    let tabulated := l.toNat / 2 < innerRows.length
    let coefficients := if tabulated then [] else closedCoefficients l.toNat
    { uses := if tabulated then [] else coefficientUses l
      steps := (samples.zip (aux.expa.zip aux.erfa)).map fun s =>
        { uses :=
            if InSeriesRange s.1 alpha l.toNat ∨ tabulated then [] else [.double (l + 1)]
          value := innerAt coefficients alpha l.toNat s.1 s.2.1 s.2.2 } }

/-- The inner potential, which takes the factorials of its coefficients at every order. -/
def innerPotentialCall (samples : List α) (aux : Auxiliary α) (alpha : α) (l₁ l₂ : Int) :
    Call α where
  check outputLength := do
    checkOrders alpha l₁ l₂
    checkLength .output outputLength samples.length
    checkLength .exponential aux.expa.length samples.length
    checkLength .errorFunction aux.erfa.length samples.length
  work _ :=
    let coefficients := closedCoefficients (l₁.toNat + l₂.toNat)
    { uses := coefficientUses (l₁ + l₂)
      steps := (samples.zip (aux.expa.zip aux.erfa)).map fun s =>
        { uses :=
            if Elementary.sqrt alpha * s.1 < taylorThreshold ∨
              InSeriesRange s.1 alpha (l₁.toNat + l₂.toNat) then []
            else [.double (l₁ + l₂ + 1)]
          value := innerPotentialAt coefficients alpha l₁.toNat l₂.toNat s.1 s.2.1 s.2.2 } }

/-- The outer integral, whose sum divides by factorials where no row of the table has its order. -/
def outerCall (samples expa : List α) (alpha : α) (l : Int) : Call α where
  check outputLength := do
    checkOrder alpha l
    checkLength .output outputLength samples.length
    checkLength .exponential expa.length samples.length
  work _ :=
    let m := l.toNat / 2
    let tabulated := m < outerRows.length
    { uses := if tabulated then [] else [.single m]
      steps := (samples.zip expa).map fun s =>
        { uses :=
            if tabulated then [] else (List.range (m + 1)).map fun (k : Nat) => .single k
          value := outerAt alpha l.toNat s.1 s.2 } }

end GaussianRadial
