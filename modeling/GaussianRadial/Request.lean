import GaussianRadial.Integral

/-!
# Requests

A request names one integral: its kind, its exponent and its orders.
-/

namespace GaussianRadial

inductive IntegralKind where
  | inner
  | innerPotential
  | outer
  deriving DecidableEq

def IntegralKind.name : IntegralKind → String
  | inner => "c0"
  | innerPotential => "c0a"
  | outer => "ci"

/-- An integral to evaluate. Only the inner potential has a second order. -/
structure Request (α : Type) where
  kind : IntegralKind
  alpha : α
  l₁ : Int
  l₂ : Int
  deriving DecidableEq

/-- The kind with the exponent and the orders in brackets. -/
def Request.label (request : Request Float) : String :=
  let kind := request.kind.name
  let alpha := Number.generalText request.alpha
  let l₁ := request.l₁
  let l₂ := request.l₂
  if request.kind = .innerPotential then s!"{kind}(a={alpha},l1={l₁},l2={l₂})"
  else s!"{kind}(a={alpha},l={l₁})"

variable {α : Type} [NatCast α] [LT α] [DecidableLT α]
variable [Add α] [Sub α] [Mul α] [Div α] [Neg α] [Pow α Nat] [Elementary α]

/-- The requested integral at every sample. -/
def Request.evaluate (request : Request α) (samples : List α) (aux : Auxiliary α) :
    Except (IntegralError α) (List α) :=
  match request.kind with
  | .inner => innerIntegral samples aux request.alpha request.l₁ samples.length
  | .innerPotential =>
    innerPotential samples aux request.alpha request.l₁ request.l₂ samples.length
  | .outer => outerIntegral samples aux.expa request.alpha request.l₁ samples.length

/-- The full-range limit of a request. The inner potential has none. -/
def Request.limit? (request : Request α) : Except (IntegralError α) (Option α) :=
  match request.kind with
  | .inner => some <$> innerLimit request.alpha request.l₁
  | .innerPotential => .ok none
  | .outer => some <$> outerOrigin request.alpha request.l₁

end GaussianRadial
