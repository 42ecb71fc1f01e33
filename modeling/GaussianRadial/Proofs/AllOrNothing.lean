import GaussianRadial.Call
import GaussianRadial.Proofs.Samples

/-!
# Calls are all or nothing

A call on an array fails exactly when one of its preconditions is broken, and then leaves the array
as it was. Otherwise every element is overwritten, by a value that depends on its sample alone. No
factorial that is taken on the way is undefined, so nothing fails once the array has been set to zero.
The arithmetic need not obey any law here: numbers may be rounded, infinite or undefined.
-/

namespace GaussianRadial

variable {K : Type} [NatCast K] [Mul K] [Elementary K]

/-! ### Factorials on the way -/

def FactorialUse.Defined : FactorialUse → Prop
  | single n => 0 ≤ n
  | double n => -1 ≤ n

def AllDefined (uses : List FactorialUse) : Prop := ∀ use ∈ uses, use.Defined

theorem allDefined_ite {skipped : Prop} [Decidable skipped] {uses : List FactorialUse}
    (defined : AllDefined uses) : AllDefined (if skipped then [] else uses) := by
  split
  · exact fun use member => absurd member List.not_mem_nil
  · exact defined

theorem allDefined_double {n : ℤ} (le : -1 ≤ n) : AllDefined [.double n] := by
  intro use member
  obtain rfl := List.mem_singleton.mp member
  exact le

theorem allDefined_single (count : ℕ) :
    AllDefined ((List.range count).map fun (k : ℕ) => .single k) := by
  intro use member
  obtain ⟨k, -, rfl⟩ := List.mem_map.mp member
  exact Int.natCast_nonneg k

theorem coefficientUses_defined {l : ℤ} (nonneg : 0 ≤ l) : AllDefined (coefficientUses l) := by
  intro use member
  rw [coefficientUses, List.mem_cons, List.mem_map] at member
  obtain rfl | ⟨k, -, rfl⟩ := member
  · show -1 ≤ l + 1
    omega
  · show -1 ≤ 2 * (k : ℤ) + 1
    omega

theorem firstUndefined_eq_none {uses : List FactorialUse} (defined : AllDefined uses) :
    firstUndefined K uses = none := by
  apply List.findSome?_eq_none_iff.mpr
  intro use member
  have within := defined use member
  cases use with
  | single n => rw [FactorialUse.value?, factorial?, if_neg (Int.not_lt.mpr within)]
  | double n => rw [FactorialUse.value?, doubleFactorial?, if_neg (Int.not_lt.mpr within)]

/-! ### The run of a call -/

theorem writeSteps_eq {steps : List (SampleStep K)}
    (defined : ∀ step ∈ steps, AllDefined step.uses) (i : ℕ) (output : List K)
    (length : i + steps.length = output.length) :
    writeSteps i output steps = (none, output.take i ++ steps.map (·.value)) := by
  -- What has been written stands before index `i`, what the steps write comes after it.
  induction steps generalizing i output with
  | nil =>
    rw [writeSteps, List.take_of_length_le (by simpa using length.ge), List.map_nil,
      List.append_nil]
  | cons step rest ih =>
    rw [List.length_cons] at length
    have inside : i < (output.set i step.value).length := by
      rw [List.length_set]
      omega
    have later := ih (fun step member => defined step (List.mem_cons_of_mem _ member)) (i + 1)
      (output.set i step.value) (by rw [List.length_set]; omega)
    rw [writeSteps, firstUndefined_eq_none (defined step List.mem_cons_self)]
    dsimp only
    rw [later, List.map_cons, List.take_succ_eq_append_getElem inside, List.getElem_set_self,
      List.take_set_of_le (Nat.le_refl i), List.append_assoc, List.singleton_append]

/-- No factorial is undefined, and there is one value for each of `n` elements. -/
structure Work.Complete (work : Work K) (n : ℕ) : Prop where
  uses_defined : AllDefined work.uses
  steps_defined : ∀ step ∈ work.steps, AllDefined step.uses
  length_eq : work.steps.length = n

omit [NatCast K] [Mul K] [Elementary K] in
theorem Work.complete_map {β : Type} {inputs : List β} {uses : List FactorialUse}
    {stepUses : β → List FactorialUse} {value : β → K} {n : ℕ} (defined : AllDefined uses)
    (stepDefined : ∀ input, AllDefined (stepUses input)) (length : inputs.length = n) :
    Work.Complete ⟨uses, inputs.map fun input => ⟨stepUses input, value input⟩⟩ n := by
  refine ⟨defined, ?_, ?_⟩
  · intro step member
    obtain ⟨input, -, rfl⟩ := List.mem_map.mp member
    exact stepDefined input
  · rw [List.length_map, length]

theorem Work.Complete.run_eq {work : Work K} {output : List K}
    (complete : work.Complete output.length) :
    work.run output = (none, work.steps.map (·.value)) := by
  have written := writeSteps_eq complete.steps_defined 0 (output.map fun _ => ((0 : ℕ) : K))
    (by rw [List.length_map, Nat.zero_add, complete.length_eq])
  rw [run, firstUndefined_eq_none complete.uses_defined]
  dsimp only
  rw [written, List.take_zero, List.nil_append]

/--
Either the call is not admitted, fails by a precondition and leaves the array as it was, or it
returns and leaves one value of the integral for each element of the array.
-/
def Call.AllOrNothing (call : Call K) (integral : ℕ → Except (IntegralError K) (List K))
    (output : List K) (admitted : Prop) (valuesRight : List K → Prop) : Prop :=
  (¬ admitted ∧ ∃ e, writeInto output integral = (some e, output) ∧
    call.run output = (some (.precondition e), output)) ∨
  (admitted ∧ ∃ values, writeInto output integral = (none, values) ∧
    call.run output = (none, values) ∧ values.length = output.length ∧ valuesRight values)

theorem Call.allOrNothing {call : Call K} {integral : ℕ → Except (IntegralError K) (List K)}
    {output : List K} {admitted : Prop} {valuesRight : List K → Prop}
    (same : integral output.length =
      call.check output.length >>= fun _ => .ok ((call.work ()).steps.map (·.value)))
    (checked : call.check output.length = .ok () ↔ admitted)
    (complete : admitted → (call.work ()).Complete output.length)
    (right : valuesRight ((call.work ()).steps.map (·.value))) :
    call.AllOrNothing integral output admitted valuesRight := by
  cases check : call.check output.length with
  | error e =>
    rw [check] at same checked
    refine .inl ⟨fun h => (nomatch checked.mpr h), e, ?_, ?_⟩
    · rw [writeInto, same]
      rfl
    · rw [run, check]
  | ok =>
    rw [check] at same checked
    have admission := checked.mp rfl
    refine .inr ⟨admission, _, ?_, ?_, ?_, right⟩
    · rw [writeInto, same]
      rfl
    · rw [run, check]
      exact (complete admission).run_eq
    · rw [List.length_map, (complete admission).length_eq]

/-- Each value belongs to the sample at its index and to what stands for `e^(-αx²)` there. -/
def OuterValues (samples expas : List K) (value : K → K → K) (values : List K) : Prop :=
  ∀ (i : ℕ) (x expa : K), samples[i]? = some x → expas[i]? = some expa →
    values[i]? = some (value x expa)

/-- Each value belongs to the sample at its index and to the values of `aux` there. -/
def InnerValues (samples : List K) (aux : Auxiliary K) (value : K → K → K → K) (values : List K) :
    Prop :=
  ∀ (i : ℕ) (x expa erfa : K), samples[i]? = some x → aux.expa[i]? = some expa →
    aux.erfa[i]? = some erfa → values[i]? = some (value x expa erfa)

omit [NatCast K] [Mul K] [Elementary K] in
theorem outerValues_map (samples expas : List K) (value : K → K → K) :
    OuterValues samples expas value ((samples.zip expas).map fun s => value s.1 s.2) := by
  intro i x expa sample exponential
  have read : (samples.zip expas)[i]? = some (x, expa) :=
    List.getElem?_zip_eq_some.mpr ⟨sample, exponential⟩
  rw [List.getElem?_map, read, Option.map_some]

omit [NatCast K] [Mul K] [Elementary K] in
theorem innerValues_map (samples : List K) (aux : Auxiliary K) (value : K → K → K → K) :
    InnerValues samples aux value
      ((samples.zip (aux.expa.zip aux.erfa)).map fun s => value s.1 s.2.1 s.2.2) := by
  intro i x expa erfa sample exponential errorFunction
  have read : (samples.zip (aux.expa.zip aux.erfa))[i]? = some (x, expa, erfa) :=
    List.getElem?_zip_eq_some.mpr ⟨sample, List.getElem?_zip_eq_some.mpr ⟨exponential, errorFunction⟩⟩
  rw [List.getElem?_map, read, Option.map_some]

variable [LT K] [DecidableLT K] [Add K] [Div K] [Pow K ℕ]

/-! ### The integrals -/

theorem outerCall_allOrNothing (output samples expas : List K) (alpha : K) (l : ℤ) :
    (outerCall samples expas alpha l).AllOrNothing (outerIntegral samples expas alpha l) output
      ((Even l ∧ 0 ≤ l ∧ ((0 : ℕ) : K) < alpha) ∧ output.length = samples.length ∧
        expas.length = samples.length)
      (OuterValues samples expas (outerAt alpha l.toNat)) := by
  have values : ((outerCall samples expas alpha l).work ()).steps.map (·.value) =
      (samples.zip expas).map fun s => outerAt alpha l.toNat s.1 s.2 := by
    simp only [outerCall, List.map_map]
    rfl
  apply Call.allOrNothing
  · rw [values]
    simp only [outerIntegral, outerCall, bind_assoc]
    rfl
  · simp only [outerCall, bind_ok_unit_iff, checkOrder_ok_iff, checkLength_ok_iff]
  · rintro ⟨-, outputLength, expaLength⟩
    apply Work.complete_map (allDefined_ite ?_) fun _ => allDefined_ite (allDefined_single _)
    · rw [List.length_zip, expaLength, outputLength, Nat.min_self]
    · intro use taken
      obtain rfl := List.mem_singleton.mp taken
      exact Int.natCast_nonneg _
  · rw [values]
    exact outerValues_map samples expas _

variable [Neg K]

theorem innerPotentialCall_allOrNothing (output samples : List K) (aux : Auxiliary K) (alpha : K)
    (l₁ l₂ : ℤ) :
    (innerPotentialCall samples aux alpha l₁ l₂).AllOrNothing
      (innerPotential samples aux alpha l₁ l₂) output
      ((Even (l₁ + l₂) ∧ l₂ ≤ l₁ ∧ 0 ≤ l₂ ∧ ((0 : ℕ) : K) < alpha) ∧
        output.length = samples.length ∧ aux.expa.length = samples.length ∧
        aux.erfa.length = samples.length)
      (InnerValues samples aux (innerPotentialAt (closedCoefficients (l₁.toNat + l₂.toNat)) alpha
        l₁.toNat l₂.toNat)) := by
  have values : ((innerPotentialCall samples aux alpha l₁ l₂).work ()).steps.map (·.value) =
      (samples.zip (aux.expa.zip aux.erfa)).map fun s => innerPotentialAt
        (closedCoefficients (l₁.toNat + l₂.toNat)) alpha l₁.toNat l₂.toNat s.1 s.2.1 s.2.2 := by
    simp only [innerPotentialCall, List.map_map]
    rfl
  apply Call.allOrNothing
  · rw [values]
    simp only [innerPotential, innerPotentialCall, bind_assoc]
    rfl
  · simp only [innerPotentialCall, bind_ok_unit_iff, checkOrders_ok_iff, checkLength_ok_iff]
  · rintro ⟨⟨-, descending, nonneg, -⟩, outputLength, expaLength, erfaLength⟩
    have total : 0 ≤ l₁ + l₂ := by omega
    apply Work.complete_map (coefficientUses_defined total) fun _ =>
      allDefined_ite (allDefined_double (by omega))
    rw [List.length_zip, List.length_zip, expaLength, erfaLength, outputLength, Nat.min_self,
      Nat.min_self]
  · rw [values]
    exact innerValues_map samples aux _

variable [Sub K]

/-- An order with a row in the table does not use the coefficients of the closed form. -/
theorem innerAt_of_tabulated {l : ℕ} (tabulated : l / 2 < innerRows.length)
    (coefficients coefficients' : List K) (alpha x expa erfa : K) :
    innerAt coefficients alpha l x expa erfa = innerAt coefficients' alpha l x expa erfa := by
  simp only [innerAt, List.getElem?_eq_getElem tabulated]

theorem innerCall_allOrNothing (output samples : List K) (aux : Auxiliary K) (alpha : K) (l : ℤ) :
    (innerCall samples aux alpha l).AllOrNothing (innerIntegral samples aux alpha l) output
      ((Even l ∧ 0 ≤ l ∧ ((0 : ℕ) : K) < alpha) ∧ output.length = samples.length ∧
        aux.expa.length = samples.length ∧ aux.erfa.length = samples.length)
      (InnerValues samples aux (innerAt (closedCoefficients l.toNat) alpha l.toNat)) := by
  have values : ((innerCall samples aux alpha l).work ()).steps.map (·.value) =
      (samples.zip (aux.expa.zip aux.erfa)).map fun s =>
        innerAt (closedCoefficients l.toNat) alpha l.toNat s.1 s.2.1 s.2.2 := by
    simp only [innerCall, List.map_map]
    apply List.map_congr_left
    intro s _
    dsimp only [Function.comp_apply]
    split
    · rename_i tabulated
      exact innerAt_of_tabulated tabulated ..
    · rfl
  apply Call.allOrNothing
  · rw [values]
    simp only [innerIntegral, innerCall, bind_assoc]
    rfl
  · simp only [innerCall, bind_ok_unit_iff, checkOrder_ok_iff, checkLength_ok_iff]
  · rintro ⟨⟨-, nonneg, -⟩, outputLength, expaLength, erfaLength⟩
    apply Work.complete_map (allDefined_ite (coefficientUses_defined nonneg)) fun _ =>
      allDefined_ite (allDefined_double (by omega))
    rw [List.length_zip, List.length_zip, expaLength, erfaLength, outputLength, Nat.min_self,
      Nat.min_self]
  · rw [values]
    exact innerValues_map samples aux _

/--
For every exponent, every order and arrays of any lengths: an integral fails exactly when a
precondition is broken, and leaves the output as it was, or it overwrites every element by a value
that depends on the exponent, the order and the sample alone.
-/
theorem calls_all_or_nothing (alpha : K) :
    (∀ l : ℤ, ∃ value : K → K → K → K, ∀ (output samples : List K) (aux : Auxiliary K),
      (innerCall samples aux alpha l).AllOrNothing (innerIntegral samples aux alpha l) output
        ((Even l ∧ 0 ≤ l ∧ ((0 : ℕ) : K) < alpha) ∧ output.length = samples.length ∧
          aux.expa.length = samples.length ∧ aux.erfa.length = samples.length)
        (InnerValues samples aux value)) ∧
    (∀ l₁ l₂ : ℤ, ∃ value : K → K → K → K, ∀ (output samples : List K) (aux : Auxiliary K),
      (innerPotentialCall samples aux alpha l₁ l₂).AllOrNothing
        (innerPotential samples aux alpha l₁ l₂) output
        ((Even (l₁ + l₂) ∧ l₂ ≤ l₁ ∧ 0 ≤ l₂ ∧ ((0 : ℕ) : K) < alpha) ∧
          output.length = samples.length ∧ aux.expa.length = samples.length ∧
          aux.erfa.length = samples.length)
        (InnerValues samples aux value)) ∧
    ∀ l : ℤ, ∃ value : K → K → K, ∀ output samples expas : List K,
      (outerCall samples expas alpha l).AllOrNothing (outerIntegral samples expas alpha l) output
        ((Even l ∧ 0 ≤ l ∧ ((0 : ℕ) : K) < alpha) ∧ output.length = samples.length ∧
          expas.length = samples.length)
        (OuterValues samples expas value) :=
  ⟨fun l => ⟨_, fun output samples aux => innerCall_allOrNothing output samples aux alpha l⟩,
    fun l₁ l₂ => ⟨_, fun output samples aux =>
      innerPotentialCall_allOrNothing output samples aux alpha l₁ l₂⟩,
    fun l => ⟨_, fun output samples expas => outerCall_allOrNothing output samples expas alpha l⟩⟩

end GaussianRadial
