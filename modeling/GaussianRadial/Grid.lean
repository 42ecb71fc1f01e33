import GaussianRadial.Elementary
import GaussianRadial.Number.Text

/-!
# Radial grids

A grid is a list of sample points. Equidistant grids have the points `rmax · i / (n - 1)`,
exponential grids the points `a (e^(d i) - 1)` with `a` chosen so that the last one is `rmax`, and
explicit grids the points that are given, which must not decrease.
-/

namespace GaussianRadial

inductive GridKind where
  | equidistant
  | exponential
  | explicit
  deriving DecidableEq

def GridKind.name : GridKind → String
  | equidistant => "equidistant"
  | exponential => "exponential"
  | explicit => "explicit"

/-- A grid. The anisotropy is the `d` of an exponential grid and 0 for the others. -/
structure Grid (α : Type) where
  kind : GridKind
  anisotropy : α
  points : List α
  /-- The sign of the points that are not numbers, which `Float` does not keep. -/
  negativeNan : Bool

/-- Why a grid is not built. -/
inductive GridError (α : Type) where
  | tooFewPoints (count : Nat)
  | radiusNotPositive (radius : α)
  | anisotropyNotPositive (anisotropy : α)
  /-- The growth over all points is beyond the range of the numbers. -/
  | growthTooLarge (exponent : α)
  | noPoints
  | negativePoint
  | decreasingPoints
  deriving DecidableEq

def GridError.message : GridError Float → String
  | tooFewPoints count => s!"A radial grid needs at least 2 points, got {count}."
  | radiusNotPositive radius =>
    "The outer radius of a radial grid has to be positive, got "
      ++ Number.shortestText radius ++ "."
  | anisotropyNotPositive anisotropy =>
    "The anisotropy of an exponential grid has to be positive, got "
      ++ Number.shortestText anisotropy ++ "."
  | growthTooLarge exponent =>
    "The exponential grid overflows: anisotropy * (points - 1) = "
      ++ Number.shortestText exponent ++ " is too large."
  | noPoints => "An explicit radial grid needs at least one point."
  | negativePoint => "Radial grid points have to be non-negative."
  | decreasingPoints => "Radial grid points have to be given in increasing order."

namespace Grid

variable {α : Type} [NatCast α] [LT α] [DecidableLT α]

/-- A generated grid has at least two points and a positive outer radius. -/
def checkExtent (count : Nat) (radius : α) : Except (GridError α) Unit :=
  if count < 2 then .error (.tooFewPoints count)
  else if ((0 : Nat) : α) < radius then .ok ()
  else .error (.radiusNotPositive radius)

/-- No point is followed by a smaller one. -/
def isNonDecreasing : List α → Bool
  | x :: y :: rest => !decide (y < x) && isNonDecreasing (y :: rest)
  | _ => true

/-- The grid of the given points, which are non-negative and do not decrease. -/
def ofPoints [LE α] [DecidableLE α] (points : List α) : Except (GridError α) (Grid α) :=
  if points.isEmpty then .error .noPoints
  else if points.any fun x => !decide (((0 : Nat) : α) ≤ x) then .error .negativePoint
  else if isNonDecreasing points then .ok ⟨.explicit, ((0 : Nat) : α), points, false⟩
  else .error .decreasingPoints

variable [Sub α] [Mul α] [Div α]

/-- The distance between the points of the equidistant grid of `count` points. -/
def equidistantSpacing (count : Nat) (radius : α) : α := radius / ((count - 1 : Nat) : α)

/-- The point `i` of the equidistant grid of `count` points. -/
def equidistantPoint (count : Nat) (radius : α) (i : Nat) : α :=
  (i : α) * equidistantSpacing count radius

/--
The grid of `count` points at equal distances from 0 to the outer radius. Zero times an infinite
distance is not a number, and has a minus.
-/
def equidistant (count : Nat) (radius : α) : Except (GridError α) (Grid α) := do
  checkExtent count radius
  return ⟨.equidistant, ((0 : Nat) : α),
    (List.range (count - 1)).map (equidistantPoint count radius) ++ [radius], true⟩

variable [Elementary α]

/-- What multiplies `e^(d i) - 1` so that the last of `count` points is the outer radius. -/
def growthFactor (count : Nat) (radius anisotropy : α) : α :=
  radius / (Elementary.exp (anisotropy * ((count - 1 : Nat) : α)) - ((1 : Nat) : α))

/-- A growth factor that is finite and has not vanished. -/
def isUsableFactor (factor : α) : Bool :=
  Elementary.isFinite factor && decide (((0 : Nat) : α) < factor)

/-- The point `i` of the exponential grid with the given growth factor. -/
def exponentialPoint (factor anisotropy : α) (i : Nat) : α :=
  factor * (Elementary.exp (anisotropy * (i : α)) - ((1 : Nat) : α))

/-- The grid of `count` points from 0 to the outer radius, each step `e^d` times the one before. -/
def exponential (count : Nat) (radius anisotropy : α) : Except (GridError α) (Grid α) := do
  checkExtent count radius
  if ¬ ((0 : Nat) : α) < anisotropy then throw (.anisotropyNotPositive anisotropy)
  let factor := growthFactor count radius anisotropy
  if !isUsableFactor factor then throw (.growthTooLarge (anisotropy * ((count - 1 : Nat) : α)))
  return ⟨.exponential, anisotropy,
    (List.range (count - 1)).map (exponentialPoint factor anisotropy) ++ [radius], false⟩

end Grid

/-! ### Descriptions -/

namespace Grid

/-- The first and the last point, 0 for a grid without points. -/
def range (grid : Grid Float) : Float × Float :=
  (grid.points.head?.getD 0, grid.points.getLast?.getD 0)

/-- The range with eight places. -/
def rangeText (grid : Grid Float) : String :=
  let (first, last) := grid.range
  let number := Number.signed grid.negativeNan (Number.fixed 8)
  number first ++ ", " ++ number last

/-- The kind, the number of points and the range, and the anisotropy of an exponential grid. -/
def describe (grid : Grid Float) : String :=
  let kind := grid.kind.name
  let count := grid.points.length
  let range := grid.rangeText
  s!"Radial grid ({kind}):\n\tNumber of points: {count}\n\tRange:            [{range}]\n"
    ++ if grid.kind = .exponential then
        "\tAnisotropy:       " ++ Number.fixedText 6 grid.anisotropy ++ "\n"
      else ""

end Grid

end GaussianRadial
