/-!
# Elementary functions

The integrals are defined over any type with field operations, whole numbers, an order and the
functions of `Elementary`: over doubles to be computed, over exact numbers to be reasoned about.
-/

namespace GaussianRadial

/-- The functions and the constant that the integrals need besides the field operations. -/
class Elementary (α : Type) where
  sqrt : α → α
  exp : α → α
  /-- The error function. -/
  erf : α → α
  /-- A power with any exponent. -/
  rpow : α → α → α
  /-- The value that stands for the square root of π. -/
  rootPi : α
  isFinite : α → Bool

end GaussianRadial
