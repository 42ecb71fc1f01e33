import GaussianRadial.Proofs.AllOrNothing
import GaussianRadial.Proofs.WordLoops

/-!
# The factorials in a value

The factorials that a call takes are those that its values are made of: what is written for a sample
is computed from the factorials that are taken before the first sample and for this one, and from no
other.
-/

namespace GaussianRadial

section Taken
variable {K : Type} [NatCast K] [Mul K] [Elementary K]

/-- The factorials are all defined, with the given values. -/
def AreTaken (uses : List FactorialUse) (factors : List K) : Prop :=
  uses.map FactorialUse.value? = factors.map Except.ok

def FactorialUse.factor : FactorialUse → K
  | single n => factorial n.toNat
  | double n => doubleFactorial n.toNat

theorem FactorialUse.value?_eq {use : FactorialUse} (defined : use.Defined) :
    use.value? = .ok (use.factor : K) := by
  cases use with
  | single n => rw [value?, factorial?, if_neg (Int.not_lt.mpr defined), factor]
  | double n => rw [value?, doubleFactorial?, if_neg (Int.not_lt.mpr defined), factor]

theorem areTaken_factors {uses : List FactorialUse} (defined : AllDefined uses) :
    AreTaken uses (uses.map FactorialUse.factor : List K) := by
  rw [AreTaken, List.map_map]
  exact List.map_congr_left fun use member => use.value?_eq (defined use member)

/-- A value is made of the factorials before the first sample and those that are its own. -/
def Work.MadeOf {β : Type} (work : Work K) (inputs : List β)
    (value : List K → List K → β → K) : Prop :=
  ∃ before, AreTaken work.uses before ∧ List.Forall₂ (fun step input =>
    ∃ factors, AreTaken step.uses factors ∧ step.value = value before factors input)
      work.steps inputs

theorem Work.madeOf_map {β : Type} {inputs : List β} {uses : List FactorialUse}
    {stepUses : β → List FactorialUse} {written : β → K} {value : List K → List K → β → K}
    (defined : AllDefined uses) (stepDefined : ∀ input, AllDefined (stepUses input))
    (same : ∀ input, written input =
      value (uses.map FactorialUse.factor) ((stepUses input).map FactorialUse.factor) input) :
    Work.MadeOf ⟨uses, inputs.map fun input => ⟨stepUses input, written input⟩⟩ inputs value := by
  refine ⟨_, areTaken_factors defined, ?_⟩
  rw [List.forall₂_map_left_iff, List.forall₂_same]
  exact fun input _ => ⟨_, areTaken_factors (stepDefined input), same input⟩

end Taken

/-! ### Values from factors -/

section Factors
variable {K : Type} [NatCast K] [Mul K] [Div K]

/-- The coefficients of a closed form from the double factorials that are taken for them. -/
def coefficientsFrom [Pow K ℕ] : List K → List K
  | [] => []
  | leading :: divisors =>
    divisors.mapIdx fun k divisor => leading / divisor * ((2 : ℕ) : K) ^ (k + 1)

theorem closedCoefficients_eq [Pow K ℕ] [Elementary K] {l : ℤ} (natural : 0 ≤ l) :
    closedCoefficients l.toNat =
      coefficientsFrom ((coefficientUses l).map FactorialUse.factor : List K) := by
  have leading : (l + 1).toNat = l.toNat + 1 := by omega
  have divisor (k : ℕ) : (2 * (k : ℤ) + 1).toNat = 2 * k + 1 := by omega
  simp only [closedCoefficients, coefficientUses, List.map_cons, List.map_map, coefficientsFrom,
    FactorialUse.factor, leading, Function.comp_def, divisor]
  exact List.ext_getElem (by simp) (by simp)

variable [Add K]

/-- The closed form of order `l` with a factor in the place of `(l + 1)‼`. -/
def closedFormFrom [Sub K] [Neg K] [Pow K ℕ] [Elementary K] (factor x t alpha expa erfa : K) (l : ℕ)
    (coefficients : List K) : K :=
  let start := -Elementary.rootPi * erfa * alpha * factor
  let difference := -closedSum expa (x * x) alpha x (t * t * t) start coefficients
  difference / ((2 : ℕ) : K) ^ (l / 2 + 2) / t ^ (l + 5)

/-- Adds `v^k · top / divisor` to `sum` for each divisor, where `power` is the first power. -/
def outerSumFrom (v top power sum : K) : List K → K
  | [] => sum
  | divisor :: rest => outerSumFrom v top (power * v) (sum + power * top / divisor) rest

/-- The divisor of each term is one more factor of the one before. -/
theorem outerSum_eq_from [Elementary K] [Word.SteadyProducts K] (v top power sum : K) {k count : ℕ}
    (small : k + count < 2 ^ 53) :
    outerSum v top k power (factorial k) sum count =
      outerSumFrom v top power sum ((List.range' k count).map factorial) := by
  induction count generalizing k power sum with
  | zero => rfl
  | succ count ih =>
    rw [outerSum, List.range'_succ, List.map_cons, outerSumFrom,
      ← Word.factorial_succ (by omega), ih _ _ (by omega)]

end Factors

/-! ### The calls -/

section Calls
variable {K : Type} [NatCast K] [Add K] [Sub K] [Mul K] [Div K] [Neg K] [Pow K ℕ] [Elementary K]
  [LT K] [DecidableLT K]

/-- The inner integral up to `x` from the factorials `before` the first sample and at this one. -/
def innerFrom (before factors : List K) (alpha : K) (l : ℕ) (x expa erfa : K) : K :=
  let t := Elementary.sqrt alpha
  if InSeriesRange x alpha l then x ^ (l + 3) * positiveSeries x alpha expa l
  else
    match innerRows[l / 2]?, factors with
    | some row, _ => row.value (t * x) expa erfa * (((1 : ℕ) : K) / t ^ (l + 3))
    | none, [factor] => closedFormFrom factor x t alpha expa erfa l (coefficientsFrom before)
    | none, _ => ((0 : ℕ) : K)

def innerPotentialFrom (before factors : List K) (alpha : K) (l₁ l₂ : ℕ) (x expa erfa : K) : K :=
  let t := Elementary.sqrt alpha
  let l := l₁ + l₂
  if t * x < taylorThreshold then x ^ l₁ * taylorSeries x alpha l
  else if InSeriesRange x alpha l then x ^ (l₁ + 2) * positiveSeries x alpha expa l
  else
    match factors with
    | [factor] =>
      closedFormFrom factor x t alpha expa erfa l (coefficientsFrom before) / x ^ (l₂ + 1)
    | _ => ((0 : ℕ) : K)

def outerFrom (before factors : List K) (alpha : K) (l : ℕ) (x expa : K) : K :=
  let m := l / 2
  let v := alpha * x * x
  let scale := ((1 : ℕ) : K) / ((2 : ℕ) : K) / alpha ^ (m + 1)
  match outerRows[m]?, before with
  | some row, _ => polynomial row v * expa * scale
  | none, [top] => outerSumFrom v top ((1 : ℕ) : K) ((0 : ℕ) : K) factors * expa * scale
  | none, _ => ((0 : ℕ) : K)

theorem innerCall_madeOf (samples : List K) (aux : Auxiliary K) (alpha : K) {l : ℤ}
    (natural : 0 ≤ l) :
    ((innerCall samples aux alpha l).work ()).MadeOf (samples.zip (aux.expa.zip aux.erfa))
      fun before factors s => innerFrom before factors alpha l.toNat s.1 s.2.1 s.2.2 := by
  apply Work.madeOf_map (allDefined_ite (coefficientUses_defined natural)) fun _ =>
    allDefined_ite (allDefined_double (by omega))
  rintro ⟨x, expa, erfa⟩
  have factor : (l + 1).toNat = l.toNat + 1 := by omega
  by_cases series : InSeriesRange x alpha l.toNat
  · simp [innerAt, innerFrom, series]
  by_cases tabulated : l.toNat / 2 < innerRows.length
  · simp only [innerAt, innerFrom, series, tabulated, List.getElem?_eq_getElem]
  · have none : innerRows[l.toNat / 2]? = none := List.getElem?_eq_none (by omega)
    simp only [innerAt, innerFrom, series, tabulated, none, closedCoefficients_eq natural]
    simp [closedForm, closedFormFrom, FactorialUse.factor, factor]

theorem innerPotentialCall_madeOf (samples : List K) (aux : Auxiliary K) (alpha : K) {l₁ l₂ : ℤ}
    (natural : 0 ≤ l₂) (descending : l₂ ≤ l₁) :
    ((innerPotentialCall samples aux alpha l₁ l₂).work ()).MadeOf
      (samples.zip (aux.expa.zip aux.erfa)) fun before factors s =>
        innerPotentialFrom before factors alpha l₁.toNat l₂.toNat s.1 s.2.1 s.2.2 := by
  have total : (l₁ + l₂).toNat = l₁.toNat + l₂.toNat := by omega
  have factor : (l₁ + l₂ + 1).toNat = l₁.toNat + l₂.toNat + 1 := by omega
  apply Work.madeOf_map (coefficientUses_defined (by omega)) fun _ =>
    allDefined_ite (allDefined_double (by omega))
  have coefficients : closedCoefficients (l₁.toNat + l₂.toNat) = coefficientsFrom
      ((coefficientUses (l₁ + l₂)).map FactorialUse.factor : List K) := by
    rw [← total]
    exact closedCoefficients_eq (by omega)
  rintro ⟨x, expa, erfa⟩
  by_cases near : Elementary.sqrt alpha * x < taylorThreshold
  · simp [innerPotentialAt, innerPotentialFrom, near]
  by_cases series : InSeriesRange x alpha (l₁.toNat + l₂.toNat)
  · simp [innerPotentialAt, innerPotentialFrom, near, series]
  · simp only [innerPotentialAt, innerPotentialFrom, near, series, coefficients]
    simp [closedForm, closedFormFrom, FactorialUse.factor, factor]

omit [Sub K] [Neg K] in
theorem outerCall_madeOf [Word.SteadyProducts K] (samples expa : List K) (alpha : K) {l : ℤ}
    (small : l < 2 ^ 53) :
    ((outerCall samples expa alpha l).work ()).MadeOf (samples.zip expa)
      fun before factors s => outerFrom before factors alpha l.toNat s.1 s.2 := by
  apply Work.madeOf_map (allDefined_ite ?_) fun _ => allDefined_ite (allDefined_single _)
  · rintro ⟨x, expa⟩
    by_cases tabulated : l.toNat / 2 < outerRows.length
    · simp only [outerAt, outerFrom, tabulated, List.getElem?_eq_getElem]
    · have none : outerRows[l.toNat / 2]? = none := List.getElem?_eq_none (by omega)
      have sum : outerPolynomial (alpha * x * x) (l.toNat / 2) =
          outerSumFrom (alpha * x * x) (factorial (l.toNat / 2)) ((1 : ℕ) : K) ((0 : ℕ) : K)
            ((List.range' 0 (l.toNat / 2 + 1)).map factorial) :=
        outerSum_eq_from _ _ _ _ (by omega)
      have used : ((List.range (l.toNat / 2 + 1)).map fun (k : ℕ) => FactorialUse.single k).map
          FactorialUse.factor = ((List.range' 0 (l.toNat / 2 + 1)).map factorial : List K) := by
        rw [List.map_map, List.range_eq_range']
        rfl
      simp only [outerAt, outerFrom, none, tabulated, if_false, used, sum]
      rfl
  · intro use member
    obtain rfl := List.mem_singleton.mp member
    exact Int.natCast_nonneg _

end Calls

end GaussianRadial
