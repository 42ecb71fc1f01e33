import GaussianRadial.Elementary
import GaussianRadial.ErrorFunction

/-!
# Doubles as numbers of the integrals
-/

namespace GaussianRadial

instance floatNatCast : NatCast Float := ⟨Float.ofNat⟩

instance floatPow : Pow Float Nat := ⟨fun x n => Float.pow x (Float.ofNat n)⟩

instance floatElementary : Elementary Float where
  sqrt := Float.sqrt
  exp := Float.exp
  erf := ErrorFunction.erf
  rpow := Float.pow
  rootPi := 1.7724538509055160273
  isFinite := Float.isFinite

end GaussianRadial
