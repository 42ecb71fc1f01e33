import Mathlib.Algebra.Order.Field.Basic
import Mathlib.Algebra.Ring.Int.Parity
import GaussianRadial.Integral
import GaussianRadial.Proofs.ExactArithmetic

/-!
# Values at the samples

What a call writes at one index of its output array. `writes_innerIntegral_iff`,
`writes_innerPotential_iff` and `writes_outerIntegral_iff` say that a call with admitted orders and
a positive exponent returns, and that the value at an index is that of its sample alone.
-/

namespace GaussianRadial

variable {K : Type}

/-- The call returns and leaves `value` at index `i` of the output array. -/
def Writes (output : List K) (integral : ℕ → Except (IntegralError K) (List K)) (i : ℕ)
    (value : K) : Prop :=
  ∃ values, writeInto output integral = (none, values) ∧ values[i]? = some value

/-- Arrays of one length that hold the sample `x` and the value that stands for `e^(-αx²)`. -/
structure OuterSample (output samples expas : List K) (i : ℕ) (x expa : K) : Prop where
  output_length : output.length = samples.length
  expa_length : expas.length = samples.length
  sample_eq : samples[i]? = some x
  expa_eq : expas[i]? = some expa

/-- Arrays of one length that hold the value that stands for `erf (√α x)` as well. -/
structure InnerSample (output samples : List K) (aux : Auxiliary K) (i : ℕ) (x expa erfa : K) : Prop
    extends OuterSample output samples aux.expa i x expa where
  erfa_length : aux.erfa.length = samples.length
  erfa_eq : aux.erfa[i]? = some erfa

theorem writes_iff_of_ok {output values : List K}
    {integral : ℕ → Except (IntegralError K) (List K)} (ok : integral output.length = .ok values)
    (i : ℕ) (value : K) : Writes output integral i value ↔ values[i]? = some value := by
  simp [Writes, writeInto, ok]

/-! ### Preconditions -/

theorem bind_ok_unit_iff {ε α : Type} {check : Except ε Unit} {next : Except ε α} {value : α} :
    (check >>= fun _ => next) = .ok value ↔ check = .ok () ∧ next = .ok value := by
  cases check <;> simp [Bind.bind, Except.bind]

theorem checkEven_ok_iff {l : ℤ} {e : IntegralError K} : checkEven l e = .ok () ↔ Even l := by
  unfold checkEven
  split <;> simp_all [Int.even_iff]

theorem checkNonNegative_ok_iff {l : ℤ} :
    (checkNonNegative l : Except (IntegralError K) Unit) = .ok () ↔ 0 ≤ l := by
  unfold checkNonNegative
  split <;> simp_all

theorem checkLength_ok_iff {array : SampleArray} {actual expected : ℕ} :
    (checkLength array actual expected : Except (IntegralError K) Unit) = .ok () ↔
      actual = expected := by
  unfold checkLength
  split <;> simp_all

variable [NatCast K] [LT K] [DecidableLT K]

theorem checkExponent_ok_iff {alpha : K} :
    checkExponent alpha = .ok () ↔ ((0 : ℕ) : K) < alpha := by
  unfold checkExponent
  split <;> simp_all

theorem checkOrder_ok_iff {alpha : K} {l : ℤ} :
    checkOrder alpha l = .ok () ↔ Even l ∧ 0 ≤ l ∧ ((0 : ℕ) : K) < alpha := by
  rw [checkOrder, bind_ok_unit_iff, bind_ok_unit_iff, checkEven_ok_iff, checkNonNegative_ok_iff,
    checkExponent_ok_iff]

theorem checkOrders_ok_iff {alpha : K} {l₁ l₂ : ℤ} :
    checkOrders alpha l₁ l₂ = .ok () ↔
      Even (l₁ + l₂) ∧ l₂ ≤ l₁ ∧ 0 ≤ l₂ ∧ ((0 : ℕ) : K) < alpha := by
  rw [checkOrders, bind_ok_unit_iff, checkEven_ok_iff]
  split
  · simp [throw, throwThe, MonadExceptOf.throw, Bind.bind, Except.bind]
    omega
  · dsimp only
    rw [bind_ok_unit_iff, checkNonNegative_ok_iff, checkExponent_ok_iff]
    simp
    omega

/-! ### Values -/

section Reading
omit [NatCast K] [LT K] [DecidableLT K]
variable {output samples expas : List K} {aux : Auxiliary K} {i : ℕ} {x expa erfa : K}

theorem OuterSample.read (sample : OuterSample output samples expas i x expa) :
    (samples.zip expas)[i]? = some (x, expa) :=
  List.getElem?_zip_eq_some.mpr ⟨sample.sample_eq, sample.expa_eq⟩

theorem InnerSample.read (sample : InnerSample output samples aux i x expa erfa) :
    (samples.zip (aux.expa.zip aux.erfa))[i]? = some (x, expa, erfa) :=
  List.getElem?_zip_eq_some.mpr ⟨sample.sample_eq,
    List.getElem?_zip_eq_some.mpr ⟨sample.expa_eq, sample.erfa_eq⟩⟩

end Reading

variable [Add K] [Mul K] [Div K] [Pow K ℕ] [Elementary K]
variable {output samples expas : List K} {aux : Auxiliary K} {i : ℕ} {x expa erfa alpha : K}

theorem outerIntegral_ok_iff {l : ℤ} {n : ℕ} {values : List K} :
    outerIntegral samples expas alpha l n = .ok values ↔
      (Even l ∧ 0 ≤ l ∧ ((0 : ℕ) : K) < alpha) ∧ n = samples.length ∧
        expas.length = samples.length ∧
        (samples.zip expas).map (fun s => outerAt alpha l.toNat s.1 s.2) = values := by
  simp only [outerIntegral, bind_ok_unit_iff, checkOrder_ok_iff, checkLength_ok_iff]
  exact ⟨fun h => ⟨h.1, h.2.1, h.2.2.1, Except.ok.inj h.2.2.2⟩,
    fun h => ⟨h.1, h.2.1, h.2.2.1, congrArg _ h.2.2.2⟩⟩

theorem writes_outerIntegral_iff (sample : OuterSample output samples expas i x expa)
    (positive : ((0 : ℕ) : K) < alpha) {l : ℤ} (even : Even l) (nonneg : 0 ≤ l) (value : K) :
    Writes output (outerIntegral samples expas alpha l) i value ↔
      outerAt alpha l.toNat x expa = value := by
  have ok := outerIntegral_ok_iff.mpr
    ⟨⟨even, nonneg, positive⟩, sample.output_length, sample.expa_length, rfl⟩
  rw [writes_iff_of_ok ok, List.getElem?_map, sample.read, Option.map_some, Option.some_inj]

variable [Neg K]

theorem innerPotential_ok_iff {l₁ l₂ : ℤ} {n : ℕ} {values : List K} :
    innerPotential samples aux alpha l₁ l₂ n = .ok values ↔
      (Even (l₁ + l₂) ∧ l₂ ≤ l₁ ∧ 0 ≤ l₂ ∧ ((0 : ℕ) : K) < alpha) ∧ n = samples.length ∧
        aux.expa.length = samples.length ∧ aux.erfa.length = samples.length ∧
        (samples.zip (aux.expa.zip aux.erfa)).map (fun s =>
          innerPotentialAt (closedCoefficients (l₁.toNat + l₂.toNat)) alpha l₁.toNat l₂.toNat s.1
            s.2.1 s.2.2) = values := by
  simp only [innerPotential, bind_ok_unit_iff, checkOrders_ok_iff, checkLength_ok_iff]
  exact ⟨fun h => ⟨h.1, h.2.1, h.2.2.1, h.2.2.2.1, Except.ok.inj h.2.2.2.2⟩,
    fun h => ⟨h.1, h.2.1, h.2.2.1, h.2.2.2.1, congrArg _ h.2.2.2.2⟩⟩

theorem writes_innerPotential_iff (sample : InnerSample output samples aux i x expa erfa)
    (positive : ((0 : ℕ) : K) < alpha) {l₁ l₂ : ℤ} (even : Even (l₁ + l₂))
    (descending : l₂ ≤ l₁) (nonneg : 0 ≤ l₂) (value : K) :
    Writes output (innerPotential samples aux alpha l₁ l₂) i value ↔
      innerPotentialAt (closedCoefficients (l₁.toNat + l₂.toNat)) alpha l₁.toNat l₂.toNat x expa
        erfa = value := by
  have ok := innerPotential_ok_iff.mpr ⟨⟨even, descending, nonneg, positive⟩,
    sample.output_length, sample.expa_length, sample.erfa_length, rfl⟩
  rw [writes_iff_of_ok ok, List.getElem?_map, sample.read, Option.map_some, Option.some_inj]

variable [Sub K]

theorem innerIntegral_ok_iff {l : ℤ} {n : ℕ} {values : List K} :
    innerIntegral samples aux alpha l n = .ok values ↔
      (Even l ∧ 0 ≤ l ∧ ((0 : ℕ) : K) < alpha) ∧ n = samples.length ∧
        aux.expa.length = samples.length ∧ aux.erfa.length = samples.length ∧
        (samples.zip (aux.expa.zip aux.erfa)).map (fun s =>
          innerAt (closedCoefficients l.toNat) alpha l.toNat s.1 s.2.1 s.2.2) = values := by
  simp only [innerIntegral, bind_ok_unit_iff, checkOrder_ok_iff, checkLength_ok_iff]
  exact ⟨fun h => ⟨h.1, h.2.1, h.2.2.1, h.2.2.2.1, Except.ok.inj h.2.2.2.2⟩,
    fun h => ⟨h.1, h.2.1, h.2.2.1, h.2.2.2.1, congrArg _ h.2.2.2.2⟩⟩

theorem writes_innerIntegral_iff (sample : InnerSample output samples aux i x expa erfa)
    (positive : ((0 : ℕ) : K) < alpha) {l : ℤ} (even : Even l) (nonneg : 0 ≤ l) (value : K) :
    Writes output (innerIntegral samples aux alpha l) i value ↔
      innerAt (closedCoefficients l.toNat) alpha l.toNat x expa erfa = value := by
  have ok := innerIntegral_ok_iff.mpr ⟨⟨even, nonneg, positive⟩, sample.output_length,
    sample.expa_length, sample.erfa_length, rfl⟩
  rw [writes_iff_of_ok ok, List.getElem?_map, sample.read, Option.map_some, Option.some_inj]

/-! ### Even orders -/

theorem exists_even_order {l : ℕ} (even : Even l) (two_le : 2 ≤ l) :
    ∃ m : ℕ, l = 2 * (m + 1) ∧ (l : ℤ) - 2 = ((2 * m : ℕ) : ℤ) := by
  obtain ⟨n, rfl⟩ := even
  exact ⟨n - 1, by omega, by omega⟩

section Field
variable {K : Type} [Field K] [LinearOrder K] [Elementary K]
variable {output samples expas : List K} {aux : Auxiliary K} {i : ℕ} {x expa erfa alpha : K}

theorem writes_outer_two_mul (sample : OuterSample output samples expas i x expa)
    (positive : 0 < alpha) (m : ℕ) (value : K) :
    Writes output (outerIntegral samples expas alpha ((2 * m : ℕ) : ℤ)) i value ↔
      outerAt alpha (2 * m) x expa = value := by
  rw [writes_outerIntegral_iff sample (by rwa [Nat.cast_zero]) (by simp) (by omega),
    Int.toNat_natCast]

theorem writes_inner_two_mul (sample : InnerSample output samples aux i x expa erfa)
    (positive : 0 < alpha) (m : ℕ) (value : K) :
    Writes output (innerIntegral samples aux alpha ((2 * m : ℕ) : ℤ)) i value ↔
      innerAt (closedCoefficients (2 * m)) alpha (2 * m) x expa erfa = value := by
  rw [writes_innerIntegral_iff sample (by rwa [Nat.cast_zero]) (by simp) (by omega),
    Int.toNat_natCast]

theorem writes_potential_of_total (sample : InnerSample output samples aux i x expa erfa)
    (positive : 0 < alpha) {l₁ l₂ m : ℕ} (total : l₁ + l₂ = 2 * m) (descending : l₂ ≤ l₁)
    (value : K) :
    Writes output (innerPotential samples aux alpha l₁ l₂) i value ↔
      innerPotentialAt (closedCoefficients (2 * m)) alpha l₁ l₂ x expa erfa = value := by
  have even : Even ((l₁ : ℤ) + l₂) := ⟨m, by omega⟩
  rw [writes_innerPotential_iff sample (by rwa [Nat.cast_zero]) even (by omega) (by omega),
    Int.toNat_natCast, Int.toNat_natCast, total]

end Field

end GaussianRadial
