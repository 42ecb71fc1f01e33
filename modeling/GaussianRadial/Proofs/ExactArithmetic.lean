import Mathlib.Algebra.Order.Field.Basic
import Mathlib.Data.Nat.Cast.Field
import Mathlib.Data.Nat.Factorial.DoubleFactorial
import Mathlib.Tactic.FieldSimp
import Mathlib.Tactic.Linarith
import Mathlib.Tactic.Positivity
import Mathlib.Tactic.Ring
import GaussianRadial.Factorial

/-!
# Exact arithmetic

The integrals over an ordered field whose elementary functions are exact. There the products of
`factorial` and `doubleFactorial` are the whole numbers `n !` and `n‼`.
-/

namespace GaussianRadial
open Nat (doubleFactorial_add_two)
open scoped Nat

/--
Elementary functions without rounding: positive numbers have square roots, powers with half-integer
exponents are powers of those, and nothing leaves the range of the numbers.
-/
class ExactElementary (K : Type) [Field K] [LinearOrder K] [Elementary K] : Prop where
  sqrt_pos {a : K} : 0 < a → 0 < Elementary.sqrt a
  sqrt_mul_self {a : K} : 0 < a → Elementary.sqrt a * Elementary.sqrt a = a
  rpow_div_two {a : K} (n : ℕ) : 0 < a → Elementary.rpow a ((n : K) / 2) = Elementary.sqrt a ^ n
  isFinite_eq_true (a : K) : Elementary.isFinite a = true

variable {K : Type} [Field K] [LinearOrder K] [Elementary K] [ExactElementary K]

theorem sqrt_sq {a : K} (positive : 0 < a) : Elementary.sqrt a ^ 2 = a := by
  rw [sq, ExactElementary.sqrt_mul_self positive]

theorem risingProduct_eq (k count : ℕ) :
    risingProduct ((k ! : ℕ) : K) (k + 1) count = (((k + count) ! : ℕ) : K) := by
  induction count generalizing k with
  | zero => rfl
  | succ count ih =>
    have next : ((k ! : ℕ) : K) * ((k + 1 : ℕ) : K) = (((k + 1) ! : ℕ) : K) := by
      rw [Nat.factorial_succ, Nat.mul_comm, Nat.cast_mul]
    rw [risingProduct, if_pos (ExactElementary.isFinite_eq_true _), next, ih,
      show k + 1 + count = k + (count + 1) by omega]

theorem factorial_eq (n : ℕ) : (factorial n : K) = ((n ! : ℕ) : K) := by
  rw [factorial, show ((1 : ℕ) : K) = ((1 ! : ℕ) : K) by rfl, risingProduct_eq]
  cases n with
  | zero => rfl
  | succ n => rw [show 1 + (n + 1 - 1) = n + 1 by omega]

theorem fallingProduct_eq (start : K) (n : ℕ) :
    fallingProduct start n = start * ((n‼ : ℕ) : K) := by
  induction n using Nat.twoStepInduction generalizing start with
  | zero => simp [fallingProduct]
  | one => simp [fallingProduct]
  | more n ih _ =>
    rw [fallingProduct, if_pos (ExactElementary.isFinite_eq_true _), ih, doubleFactorial_add_two,
      Nat.cast_mul, mul_assoc]

theorem doubleFactorial_eq (n : ℕ) : (doubleFactorial n : K) = ((n‼ : ℕ) : K) := by
  rw [doubleFactorial, fallingProduct_eq, Nat.cast_one, one_mul]

end GaussianRadial
