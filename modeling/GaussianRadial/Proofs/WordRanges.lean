import Mathlib
import GaussianRadial.Proofs.AllOrNothing
import GaussianRadial.Proofs.WordSeries

/-!
# Orders that words can take

The integrals and limits with orders of 32 bits have the values of the integrals and limits with
whole numbers of any size as long as the sums with these orders are in range. `orders_in_range`
tells where they are: for some functions always, for the others not at the greatest orders, which
pass the checks all the same.
-/

namespace GaussianRadial.Word

/-! ### Closed forms -/

theorem rounds_collect {β : Type} (f : ℕ → β) (k : ℕ) (found : List β) (count : ℕ) :
    rounds (fun k found => (true, found ++ [f k])) k found count =
      found ++ (List.range' k count).map f := by
  induction count generalizing k found with
  | zero => simp [rounds]
  | succ count ih =>
    change rounds _ (k + 1) (found ++ [f k]) count = _
    rw [ih, List.range'_succ, List.map_cons, List.append_assoc, List.singleton_append]

section ClosedForm
variable {α : Type} [NatCast α] [Mul α] [Div α] [Pow α ℕ] [Elementary α] [SteadyProducts α]

theorem coefficientRound_eq {k : Word} (natural : 0 ≤ k.val)
    (inRange : 2 * k.val + 1 ≤ 2147483647) (leading : α) (found : List α) :
    coefficientRound leading k found = some (true, found ++ [leading /
      GaussianRadial.doubleFactorial (2 * k.toNat + 1) * ((2 : ℕ) : α) ^ (k.toNat + 1)]) := by
  obtain ⟨double, doubleEq, doubleVal⟩ := exists_twice? (a := k) (by omega) (by omega)
  have twice : double.toNat = 2 * k.toNat := by
    unfold toNat
    omega
  obtain ⟨odd, oddEq, oddVal⟩ := exists_sum (a := double) (n := 1) (by omega) (by decide) (by omega)
  obtain ⟨exponent, exponentEq, exponentVal⟩ := exists_sum (n := 1) natural (by decide) (by omega)
  simp only [coefficientRound, doubleEq, oddEq, exponentEq, doubleFactorial_eq, oddVal, twice,
    exponentVal, Option.bind_eq_bind, Option.bind_some, Option.pure_def]
  rfl

theorem closedCoefficients_eq {l : Word} (natural : 0 ≤ l.val) (inRange : l.val + 1 ≤ 2147483647) :
    closedCoefficients l = some (GaussianRadial.closedCoefficients l.toNat : List α) := by
  obtain ⟨top, topEq, topVal⟩ := exists_sum (n := 1) natural (by decide) inRange
  have halved := half_val natural
  obtain ⟨count, countEq, -⟩ := exists_sum (a := l.half) (n := 1) (by omega) (by decide) (by omega)
  have run (leading : α) : countUp l.half (coefficientRound leading) (ofFin 0) [] =
      some (rounds (fun k found => (true, found ++ [leading /
        GaussianRadial.doubleFactorial (2 * k + 1) * ((2 : ℕ) : α) ^ (k + 1)])) 0 []
          (l.half.val + 1 - (ofFin 0).val).toNat) := by
    refine countUp_eq (by omega) (by decide) (fun k least most found => ?_) _
    change 0 ≤ k.val at least
    exact coefficientRound_eq least (by omega) leading found
  have length : (l.half.val + 1 - (ofFin 0).val).toNat = l.toNat / 2 + 1 := by
    change (l.half.val + 1 - 0).toNat = l.val.toNat / 2 + 1
    omega
  simp only [closedCoefficients, topEq, doubleFactorial_eq, countEq, run, rounds_collect, length,
    topVal, List.nil_append, ← List.range_eq_range', Option.bind_eq_bind, Option.bind_some]
  rfl

variable [Add α] [Neg α]

theorem closedForm_eq {l : Word} (natural : 0 ≤ l.val) (inRange : l.val + 3 ≤ 2147483647)
    (x t alpha expa erfa : α) (coefficients : List α) :
    closedForm x t alpha expa erfa l coefficients =
      if l.toNat + 5 ≤ 2147483647 then
        some (GaussianRadial.closedForm x t alpha expa erfa l.toNat coefficients)
      else none := by
  have value : (l.toNat : ℤ) = l.val := Int.toNat_of_nonneg natural
  have halved := half_val natural
  obtain ⟨top, topEq, topVal⟩ := exists_sum (n := 1) natural (by decide) (by omega)
  obtain ⟨exponent, exponentEq, exponentVal⟩ :=
    exists_sum (a := l.half) (n := 2) (by omega) (by decide) (by omega)
  simp only [closedForm, topEq, doubleFactorial_eq, exponentEq, topVal, exponentVal,
    half_toNat natural, Option.bind_eq_bind, Option.bind_some, Option.pure_def]
  split
  · obtain ⟨order, orderEq, orderVal⟩ := exists_sum (n := 5) natural (by decide) (by omega)
    rw [orderEq, Option.bind_some, orderVal]
    rfl
  · rw [add?_eq_none (by omega), Option.bind_none]

end ClosedForm

/-! ### The inner integral and the inner potential -/

section Fits
variable {α : Type} [NatCast α] [Add α] [Mul α] [Div α] [LT α] [DecidableLT α]

/-- The sums with the order that the inner integral takes at `x` are words. -/
def InnerFits (alpha : α) (l : ℕ) (x : α) : Prop :=
  if InSeriesRange x alpha l then SeriesFits x alpha l else l + 5 ≤ 2147483647

instance decidableInnerFits (alpha : α) (l : ℕ) : DecidablePred (InnerFits alpha l) := fun x =>
  inferInstanceAs (Decidable (if InSeriesRange x alpha l then _ else _))

theorem innerFits_iff_of_series {l : ℕ} {alpha x : α} (series : InSeriesRange x alpha l) :
    InnerFits alpha l x ↔ SeriesFits x alpha l := iff_of_eq (if_pos series)

theorem innerFits_iff_of_not_series {l : ℕ} {alpha x : α} (closed : ¬ InSeriesRange x alpha l) :
    InnerFits alpha l x ↔ l + 5 ≤ 2147483647 := iff_of_eq (if_neg closed)

theorem innerFits_of_le {l : ℕ} (small : l + 2001 ≤ 2147483647) (alpha x : α) :
    InnerFits alpha l x := by
  unfold InnerFits
  split
  · exact seriesFits_of_le small x alpha
  · omega

theorem add_three_le_of_innerFits {l : ℕ} {alpha x : α} (fits : InnerFits alpha l x) :
    l + 3 ≤ 2147483647 := by
  unfold InnerFits SeriesFits at fits
  split at fits
  · omega
  · omega

variable [Elementary α]

/-- The sums with the orders that the inner potential takes at `x` are words. -/
def PotentialFits (alpha : α) (l : ℕ) (x : α) : Prop :=
  if Elementary.sqrt alpha * x < taylorThreshold then l + 13 ≤ 2147483647
  else InnerFits alpha l x

instance decidablePotentialFits (alpha : α) (l : ℕ) : DecidablePred (PotentialFits alpha l) :=
  fun x =>
    inferInstanceAs (Decidable (if Elementary.sqrt alpha * x < taylorThreshold then _ else _))

theorem potentialFits_iff_of_small {l : ℕ} {alpha x : α}
    (small : Elementary.sqrt alpha * x < taylorThreshold) :
    PotentialFits alpha l x ↔ l + 13 ≤ 2147483647 := iff_of_eq (if_pos small)

theorem potentialFits_iff_of_not_small {l : ℕ} {alpha x : α}
    (great : ¬ Elementary.sqrt alpha * x < taylorThreshold) :
    PotentialFits alpha l x ↔ InnerFits alpha l x := iff_of_eq (if_neg great)

theorem potentialFits_of_le {l : ℕ} (small : l + 2001 ≤ 2147483647) (alpha x : α) :
    PotentialFits alpha l x := by
  unfold PotentialFits
  split
  · omega
  · exact innerFits_of_le small alpha x

end Fits

theorem mapM_if {β γ : Type} {p : β → Prop} [DecidablePred p] (f : β → γ) (inputs : List β) :
    (inputs.mapM fun b => if p b then some (f b) else none) =
      if ∀ b ∈ inputs, p b then some (inputs.map f) else none := by
  induction inputs with
  | nil => rfl
  | cons b inputs ih =>
    rw [List.mapM_cons, ih]
    by_cases first : p b
    · by_cases others : ∀ b ∈ inputs, p b
      · rw [if_pos first, if_pos others, if_pos (List.forall_mem_cons.mpr ⟨first, others⟩)]
        rfl
      · rw [if_pos first, if_neg others, if_neg fun all => others (List.forall_mem_cons.mp all).2]
        rfl
    · rw [if_neg first, if_neg fun all => first (List.forall_mem_cons.mp all).1]
      rfl

section Inner
variable {α : Type} [NatCast α] [Add α] [Mul α] [Div α] [Neg α] [Pow α ℕ] [Elementary α]
  [SteadyProducts α] [LT α] [DecidableLT α]

theorem innerPotentialAt_eq {l₁ l₂ l : Word} (natural₁ : 0 ≤ l₁.val) (natural₂ : 0 ≤ l₂.val)
    (total : l.val = l₁.val + l₂.val) (coefficients : List α) (alpha x expa erfa : α) :
    innerPotentialAt coefficients alpha l₁ l₂ l x expa erfa =
      if PotentialFits alpha l.toNat x then
        some (GaussianRadial.innerPotentialAt coefficients alpha l₁.toNat l₂.toNat x expa erfa)
      else none := by
  have natural : 0 ≤ l.val := by omega
  have value : (l.toNat : ℤ) = l.val := Int.toNat_of_nonneg natural
  have totals : l₁.toNat + l₂.toNat = l.toNat := by
    unfold toNat
    omega
  unfold innerPotentialAt GaussianRadial.innerPotentialAt
  dsimp only
  rw [totals]
  by_cases small : Elementary.sqrt alpha * x < taylorThreshold
  · simp only [if_pos small, potentialFits_iff_of_small small, taylorSeries_eq natural x alpha]
    split <;> rfl
  · simp only [if_neg small, potentialFits_iff_of_not_small small]
    by_cases inRange : l.val + 3 ≤ 2147483647
    · obtain ⟨upper, upperEq, upperVal⟩ := exists_sum (n := 2) natural₁ (by decide) (by omega)
      obtain ⟨lower, lowerEq, lowerVal⟩ := exists_sum (n := 1) natural₂ (by decide) (by omega)
      by_cases series : InSeriesRange x alpha l.toNat
      · simp only [innerFits_iff_of_series series, inSeriesRange_eq natural inRange, series,
          positiveSeries_eq natural inRange, upperEq, upperVal, Option.bind_eq_bind,
          Option.bind_some, decide_true, if_true]
        split <;> rfl
      · simp only [innerFits_iff_of_not_series series, inSeriesRange_eq natural inRange, series,
          closedForm_eq natural inRange x, lowerEq, lowerVal, Option.bind_eq_bind,
          Option.bind_some, Bool.false_eq_true, decide_false, if_false]
        split <;> rfl
    · have unfit : ¬ InnerFits alpha l.toNat x := fun fits => by
        have := add_three_le_of_innerFits fits
        omega
      have order : l.add? 3 = none := add?_eq_none (by omega)
      rw [if_neg unfit, inSeriesRange, order]
      rfl

theorem innerPotential_eq {l₁ l₂ : Word} (natural₁ : 0 ≤ l₁.val) (natural₂ : 0 ≤ l₂.val)
    (even : Even (l₁.val + l₂.val)) (inRange : l₁.val + l₂.val ≤ 2147483647) (samples : List α)
    (aux : Auxiliary α) (alpha : α) :
    innerPotential samples aux alpha l₁ l₂ =
      if ∀ s ∈ samples.zip (aux.expa.zip aux.erfa), PotentialFits alpha (l₁.toNat + l₂.toNat) s.1
      then some ((samples.zip (aux.expa.zip aux.erfa)).map fun s =>
        GaussianRadial.innerPotentialAt (GaussianRadial.closedCoefficients (l₁.toNat + l₂.toNat))
          alpha l₁.toNat l₂.toNat s.1 s.2.1 s.2.2)
      else none := by
  obtain ⟨l, eq, total⟩ := exists_add? (a := l₁) (n := l₂.val) (by omega) (by omega)
  have totals : l.toNat = l₁.toNat + l₂.toNat := by
    unfold toNat
    omega
  have belowGreatest : l.val + 1 ≤ 2147483647 := by
    obtain ⟨half, eq⟩ := even
    omega
  have table : closedCoefficients l = some (GaussianRadial.closedCoefficients l.toNat : List α) :=
    closedCoefficients_eq (by omega) belowGreatest
  have sample (coefficients : List α) :=
    innerPotentialAt_eq natural₁ natural₂ total coefficients
  rw [totals] at table sample
  simp only [innerPotential, eq, table, sample, Option.bind_eq_bind, Option.bind_some]
  exact mapM_if _ _

variable [Sub α]

theorem innerAt_eq {l order : Word} (natural : 0 ≤ l.val) (inRange : l.val + 3 ≤ 2147483647)
    (sum : order.toNat = l.toNat + 3) (coefficients : List α) (alpha x expa erfa : α) :
    innerAt coefficients alpha l order x expa erfa =
      if InnerFits alpha l.toNat x then
        some (GaussianRadial.innerAt coefficients alpha l.toNat x expa erfa)
      else none := by
  unfold innerAt GaussianRadial.innerAt
  by_cases series : InSeriesRange x alpha l.toNat
  · simp only [innerFits_iff_of_series series, inSeriesRange_eq natural inRange, series,
      positiveSeries_eq natural inRange, sum, Option.bind_eq_bind, Option.bind_some, decide_true,
      if_true]
    split <;> rfl
  · simp only [innerFits_iff_of_not_series series, inSeriesRange_eq natural inRange, series,
      closedForm_eq natural inRange x, half_toNat natural, sum, Option.bind_eq_bind,
      Option.bind_some, Bool.false_eq_true, decide_false, if_false]
    cases tabulated : innerRows[l.toNat / 2]? with
    | some row =>
      have few : l.toNat / 2 < 8 := (List.getElem?_eq_some_iff.mp tabulated).1
      exact (if_pos (by omega)).symm
    | none => rfl

theorem innerIntegral_eq {l : Word} (natural : 0 ≤ l.val) (samples : List α) (aux : Auxiliary α)
    (alpha : α) :
    innerIntegral samples aux alpha l =
      if l.val + 3 ≤ 2147483647 ∧
        ∀ s ∈ samples.zip (aux.expa.zip aux.erfa), InnerFits alpha l.toNat s.1
      then some ((samples.zip (aux.expa.zip aux.erfa)).map fun s =>
        GaussianRadial.innerAt (GaussianRadial.closedCoefficients l.toNat) alpha l.toNat s.1 s.2.1
          s.2.2)
      else none := by
  by_cases inRange : l.val + 3 ≤ 2147483647
  · obtain ⟨order, orderEq, sum⟩ := exists_sum (n := 3) natural (by decide) (by omega)
    have table : closedCoefficients l = some (GaussianRadial.closedCoefficients l.toNat : List α) :=
      closedCoefficients_eq natural (by omega)
    have sample (coefficients : List α) := innerAt_eq natural inRange sum coefficients
    simp only [innerIntegral, orderEq, half_toNat natural, table, sample, Option.bind_eq_bind,
      Option.bind_some, inRange, true_and]
    split
    · rename_i tabulated
      have unused (x expa erfa : α) : GaussianRadial.innerAt [] alpha l.toNat x expa erfa =
          GaussianRadial.innerAt (GaussianRadial.closedCoefficients l.toNat) alpha l.toNat x expa
            erfa := innerAt_of_tabulated tabulated _ _ _ _ _ _
      simp only [unused]
      exact mapM_if _ _
    · exact mapM_if _ _
  · have order : l.add? 3 = none := add?_eq_none (by omega)
    rw [innerIntegral, order, if_neg fun fits => inRange fits.1]
    rfl

end Inner

/-! ### The outer integral -/

section OuterIntegral
variable {α : Type} [NatCast α] [Add α] [Mul α] [Div α] [Elementary α] [SteadyProducts α]

theorem rounds_outer (v top : α) (k : ℕ) (power sum : α) {count : ℕ}
    (small : k + count + 1 ≤ 2 ^ 53) :
    (rounds (fun k (state : α × α) =>
        (true, state.1 * v, state.2 + state.1 * top / GaussianRadial.factorial k)) k (power, sum)
          count).2 =
      outerSum v top k power (GaussianRadial.factorial k) sum count := by
  induction count generalizing k power sum with
  | zero => rfl
  | succ count ih =>
    rw [outerSum, ← factorial_succ (by omega), ← ih (k + 1) _ _ (by omega)]
    rfl

theorem outerPolynomial_eq {m : Word} (natural : 0 ≤ m.val) (below : m.val < 2147483647) (v : α) :
    outerPolynomial v (GaussianRadial.factorial m.toNat) m =
      some (GaussianRadial.outerPolynomial v m.toNat) := by
  have run (top : α) : countUp m (outerRound v top) (ofFin 0) (((1 : ℕ) : α), ((0 : ℕ) : α)) =
      some (rounds (fun k (state : α × α) =>
        (true, state.1 * v, state.2 + state.1 * top / GaussianRadial.factorial k)) 0
          (((1 : ℕ) : α), ((0 : ℕ) : α)) (m.val + 1 - (ofFin 0).val).toNat) := by
    refine countUp_eq below (by decide) (fun k least most state => ?_) _
    simp only [outerRound, factorial_eq (by omega : k.val < _), Option.bind_eq_bind,
      Option.bind_some, Option.pure_def]
  have length : (m.val + 1 - (ofFin 0).val).toNat = m.toNat + 1 := by
    change (m.val + 1 - 0).toNat = m.val.toNat + 1
    omega
  have small : 0 + (m.toNat + 1) + 1 ≤ 2 ^ 53 := by
    unfold toNat
    omega
  simp only [outerPolynomial, run, length, rounds_outer _ _ _ _ _ small, Option.bind_eq_bind,
    Option.bind_some, Option.pure_def]
  rfl

variable [Pow α ℕ]

theorem outerIntegral_eq {l : Word} (natural : 0 ≤ l.val) (samples expa : List α) (alpha : α) :
    outerIntegral samples expa alpha l =
      some ((samples.zip expa).map fun s => outerAt alpha l.toNat s.1 s.2) := by
  have halved := half_val natural
  have upper := l.upper
  obtain ⟨exponent, exponentEq, exponentVal⟩ :=
    exists_sum (a := l.half) (n := 1) (by omega) (by decide) (by omega)
  have top : factorial l.half = some (GaussianRadial.factorial (l.toNat / 2) : α) :=
    factorial_half natural
  have sum (v : α) : outerPolynomial v (GaussianRadial.factorial (l.toNat / 2)) l.half =
      some (GaussianRadial.outerPolynomial v (l.toNat / 2)) := by
    rw [← half_toNat natural]
    exact outerPolynomial_eq (by omega) (by omega) v
  simp only [outerIntegral, exponentEq, exponentVal, top, sum, half_toNat natural,
    Option.bind_eq_bind, Option.bind_some, Option.pure_def, outerAt]
  cases outerRows[l.toNat / 2]? with
  | some row => rfl
  | none => exact List.mapM_pure

end OuterIntegral

/-! ### Full-range limits -/

section Limits
variable {α : Type} [NatCast α] [Mul α] [Div α] [Pow α ℕ] [Elementary α] [SteadyProducts α]

theorem innerLimit_eq {l : Word} (natural : 0 ≤ l.val) (inRange : l.val + 3 ≤ 2147483647)
    (alpha : α) :
    innerLimit alpha l = some (GaussianRadial.doubleFactorial (l.toNat + 1) * Elementary.rootPi /
      ((2 : ℕ) : α) ^ (l.toNat / 2 + 2) /
        Elementary.rpow alpha (((l.toNat + 3 : ℕ) : α) / ((2 : ℕ) : α))) := by
  have halved := half_val natural
  obtain ⟨top, topEq, topVal⟩ := exists_sum (n := 1) natural (by decide) (by omega)
  obtain ⟨power, powerEq, powerVal⟩ :=
    exists_sum (a := l.half) (n := 2) (by omega) (by decide) (by omega)
  obtain ⟨order, orderEq, orderVal⟩ := exists_sum (n := 3) natural (by decide) inRange
  simp only [innerLimit, topEq, doubleFactorial_eq, powerEq, orderEq, topVal, powerVal, cast,
    orderVal, half_toNat natural, Option.bind_eq_bind, Option.bind_some, Option.pure_def]
  rfl

omit [SteadyProducts α] in
theorem innerLimit_eq_none {l : Word} (above : 2147483647 < l.val + 3) (alpha : α) :
    innerLimit alpha l = none := by
  have order : l.add? 3 = none := add?_eq_none above
  simp [innerLimit, order]

theorem outerOrigin_eq {l : Word} (natural : 0 ≤ l.val) (alpha : α) :
    outerOrigin alpha l =
      some (GaussianRadial.factorial (l.toNat / 2) /
        (((2 : ℕ) : α) * alpha ^ (l.toNat / 2 + 1))) := by
  have halved := half_val natural
  have upper := l.upper
  obtain ⟨exponent, exponentEq, exponentVal⟩ :=
    exists_sum (a := l.half) (n := 1) (by omega) (by decide) (by omega)
  have product : factorial l.half = some (GaussianRadial.factorial (l.toNat / 2) : α) :=
    factorial_half natural
  simp only [outerOrigin, product, exponentEq, exponentVal, half_toNat natural,
    Option.bind_eq_bind, Option.bind_some, Option.pure_def]
  rfl

end Limits

/-! ### Admitted orders -/

section Admitted
variable {n l : Word} {value alpha : Float} {samples values : List Float}

theorem factorial_of_ok (ok : factorial? n.val = .ok value) :
    factorial n = if n = greatest then none else some value := by
  unfold factorial? at ok
  split at ok
  · contradiction
  · cases ok
    split
    · rename_i top
      rw [top, factorial_greatest]
    · rename_i below
      have upper := n.upper
      have different : n.val ≠ 2147483647 := fun top => below (ext_val top)
      exact factorial_eq (by omega)

theorem doubleFactorial_of_ok (ok : doubleFactorial? n.val = .ok value) :
    doubleFactorial n = some value := by
  unfold doubleFactorial? at ok
  split at ok
  · contradiction
  · cases ok
    exact doubleFactorial_eq n

theorem outerIntegral_of_ok {expa : List Float} {count : ℕ}
    (ok : GaussianRadial.outerIntegral samples expa alpha l.val count = .ok values) :
    outerIntegral samples expa alpha l = some values := by
  obtain ⟨⟨-, natural, -⟩, -, -, eq⟩ := outerIntegral_ok_iff.mp ok
  rw [outerIntegral_eq natural, ← eq]
  rfl

theorem checkOrder_of_bind {next : Except (IntegralError Float) Float}
    (ok : (checkOrder alpha l.val >>= fun _ => next) = .ok value) :
    0 ≤ l.val ∧ next = .ok value := by
  obtain ⟨checked, eq⟩ := bind_ok_unit_iff.mp ok
  exact ⟨(checkOrder_ok_iff.mp checked).2.1, eq⟩

theorem outerOrigin_of_ok (ok : GaussianRadial.outerOrigin alpha l.val = .ok value) :
    outerOrigin alpha l = some value := by
  obtain ⟨natural, eq⟩ := checkOrder_of_bind ok
  cases eq
  exact outerOrigin_eq natural alpha

theorem innerLimit_of_ok (ok : GaussianRadial.innerLimit alpha l.val = .ok value) :
    innerLimit alpha l = if l.val + 3 ≤ 2147483647 then some value else none := by
  obtain ⟨natural, eq⟩ := checkOrder_of_bind ok
  cases eq
  split
  · rename_i inRange
    exact innerLimit_eq natural inRange alpha
  · exact innerLimit_eq_none (by omega) alpha

/-- The samples of a zip with an array of their length are all samples. -/
theorem forall_zip {β : Type} {others : List β} (length : others.length = samples.length)
    (p : Float → Prop) : (∀ s ∈ samples.zip others, p s.1) ↔ ∀ x ∈ samples, p x := by
  have fsts : (samples.zip others).map Prod.fst = samples := List.map_fst_zip (by omega)
  conv_rhs => rw [← fsts]
  simp only [List.forall_mem_map]

theorem length_zip {aux : Auxiliary Float} (expa : aux.expa.length = samples.length)
    (erfa : aux.erfa.length = samples.length) :
    (aux.expa.zip aux.erfa).length = samples.length := by
  rw [List.length_zip, expa, erfa, min_self]

theorem innerIntegral_of_ok {aux : Auxiliary Float} {count : ℕ}
    (ok : GaussianRadial.innerIntegral samples aux alpha l.val count = .ok values) :
    innerIntegral samples aux alpha l =
      if l.val + 3 ≤ 2147483647 ∧ ∀ x ∈ samples, InnerFits alpha l.toNat x then some values
      else none := by
  obtain ⟨⟨-, natural, -⟩, -, expa, erfa, eq⟩ := innerIntegral_ok_iff.mp ok
  rw [innerIntegral_eq natural, ← eq]
  simp only [forall_zip (length_zip expa erfa) (InnerFits alpha l.toNat)]
  rfl

theorem innerPotential_of_ok {l₁ l₂ : Word} {aux : Auxiliary Float} {count : ℕ}
    (ok : GaussianRadial.innerPotential samples aux alpha l₁.val l₂.val count = .ok values)
    (total : l₁.val + l₂.val ≤ 2147483647) :
    innerPotential samples aux alpha l₁ l₂ =
      if ∀ x ∈ samples, PotentialFits alpha (l₁.toNat + l₂.toNat) x then some values
      else none := by
  obtain ⟨⟨even, descending, natural, -⟩, -, expa, erfa, eq⟩ := innerPotential_ok_iff.mp ok
  rw [innerPotential_eq (by omega) natural even total, ← eq]
  simp only [forall_zip (length_zip expa erfa) (PotentialFits alpha (l₁.toNat + l₂.toNat))]
  rfl

end Admitted

/--
For arguments that pass the checks, double factorials, outer integrals and their values at the
origin take no sums but words. The factorial of the greatest word raises its counter beyond it, the
limit of an inner integral takes `l + 3`, and inner integrals and potentials take the sums at their
samples. All of these are words for orders up to 2147481646.
-/
theorem orders_in_range (n l l₁ l₂ : Word) (alpha : Float) (samples expa : List Float)
    (aux : Auxiliary Float) (count : ℕ) :
    (∀ value : Float, factorial? n.val = .ok value →
      factorial n = if n = greatest then none else some value) ∧
    (∀ value : Float, doubleFactorial? n.val = .ok value → doubleFactorial n = some value) ∧
    (∀ values, GaussianRadial.outerIntegral samples expa alpha l.val count = .ok values →
      outerIntegral samples expa alpha l = some values) ∧
    (∀ value, GaussianRadial.outerOrigin alpha l.val = .ok value →
      outerOrigin alpha l = some value) ∧
    (∀ value, GaussianRadial.innerLimit alpha l.val = .ok value →
      innerLimit alpha l = if l.val + 3 ≤ 2147483647 then some value else none) ∧
    (∀ values, GaussianRadial.innerIntegral samples aux alpha l.val count = .ok values →
      innerIntegral samples aux alpha l =
        if l.val + 3 ≤ 2147483647 ∧ ∀ x ∈ samples, InnerFits alpha l.toNat x then some values
        else none) ∧
    (∀ values, GaussianRadial.innerPotential samples aux alpha l₁.val l₂.val count = .ok values →
      l₁.val + l₂.val ≤ 2147483647 →
      innerPotential samples aux alpha l₁ l₂ =
        if ∀ x ∈ samples, PotentialFits alpha (l₁.toNat + l₂.toNat) x then some values
        else none) ∧
    ∀ order ≤ 2147481646, ∀ x, InnerFits alpha order x ∧ PotentialFits alpha order x :=
  ⟨fun _ => factorial_of_ok, fun _ => doubleFactorial_of_ok, fun _ => outerIntegral_of_ok,
    fun _ => outerOrigin_of_ok, fun _ => innerLimit_of_ok, fun _ => innerIntegral_of_ok,
    fun _ => innerPotential_of_ok, fun _ small x =>
      ⟨innerFits_of_le (by omega) alpha x, potentialFits_of_le (by omega) alpha x⟩⟩

theorem orders_in_range_small :
    factorial (ofFin 4) = some (24 : Float) ∧
    doubleFactorial (ofFin 4) = some (8 : Float) ∧
    (∃ values, GaussianRadial.outerIntegral [1.0] [0.5] (1.0 : Float) 16 1 = .ok values ∧
      outerIntegral [1.0] [0.5] 1.0 (ofFin 16) = some values) ∧
    (∃ value, GaussianRadial.outerOrigin (1.0 : Float) 16 = .ok value ∧
      outerOrigin 1.0 (ofFin 16) = some value) ∧
    (∃ value, GaussianRadial.innerLimit (1.0 : Float) 16 = .ok value ∧
      innerLimit 1.0 (ofFin 16) = some value) ∧
    (∃ values, GaussianRadial.innerIntegral [1.0] ⟨[0.5], [0.25]⟩ (1.0 : Float) 16 1 = .ok values ∧
      innerIntegral [1.0] ⟨[0.5], [0.25]⟩ 1.0 (ofFin 16) = some values) ∧
    (∃ values,
      GaussianRadial.innerPotential [1.0] ⟨[0.5], [0.25]⟩ (1.0 : Float) 3 1 1 = .ok values ∧
      innerPotential [1.0] ⟨[0.5], [0.25]⟩ 1.0 (ofFin 3) (ofFin 1) = some values) := by
  obtain ⟨upwards, downwards, outer, origin, limit, inner, potential, fits⟩ :=
    orders_in_range (ofFin 4) (ofFin 16) (ofFin 3) (ofFin 1) 1.0 [1.0] [0.5] ⟨[0.5], [0.25]⟩ 1
  have positive : ((0 : ℕ) : Float) < 1.0 := by decide +kernel
  have checked : checkOrder (1.0 : Float) 16 = .ok () :=
    checkOrder_ok_iff.mpr ⟨by decide, by decide, positive⟩
  refine ⟨upwards 24 (by decide +kernel), downwards 8 (by decide +kernel), ?_, ?_, ?_, ?_, ?_⟩
  · obtain ⟨values, ok⟩ : ∃ values,
        GaussianRadial.outerIntegral [1.0] [0.5] (1.0 : Float) 16 1 = .ok values :=
      ⟨_, outerIntegral_ok_iff.mpr ⟨⟨by decide, by decide, positive⟩, rfl, by simp, rfl⟩⟩
    exact ⟨values, ok, outer values ok⟩
  · obtain ⟨value, ok⟩ : ∃ value, GaussianRadial.outerOrigin (1.0 : Float) 16 = .ok value :=
      ⟨_, bind_ok_unit_iff.mpr ⟨checked, rfl⟩⟩
    exact ⟨value, ok, origin value ok⟩
  · obtain ⟨value, ok⟩ : ∃ value, GaussianRadial.innerLimit (1.0 : Float) 16 = .ok value :=
      ⟨_, bind_ok_unit_iff.mpr ⟨checked, rfl⟩⟩
    exact ⟨value, ok, limit value ok⟩
  · obtain ⟨values, ok⟩ : ∃ values,
        GaussianRadial.innerIntegral [1.0] ⟨[0.5], [0.25]⟩ (1.0 : Float) 16 1 = .ok values :=
      ⟨_, innerIntegral_ok_iff.mpr
        ⟨⟨by decide, by decide, positive⟩, rfl, by simp, by simp, rfl⟩⟩
    refine ⟨values, ok, (inner values ok).trans (if_pos ?_)⟩
    exact ⟨by decide, fun x _ => (fits 16 (by decide) x).1⟩
  · obtain ⟨values, ok⟩ : ∃ values,
        GaussianRadial.innerPotential [1.0] ⟨[0.5], [0.25]⟩ (1.0 : Float) 3 1 1 = .ok values :=
      ⟨_, innerPotential_ok_iff.mpr
        ⟨⟨by decide, by decide, by decide, positive⟩, rfl, by simp, by simp, rfl⟩⟩
    refine ⟨values, ok, (potential values ok (by decide)).trans (if_pos ?_)⟩
    exact fun x _ => (fits 4 (by decide) x).2

/-- The greatest orders pass the checks, but sums with them are no words. -/
theorem greatest_orders_pass :
    (∃ value, GaussianRadial.innerLimit (1.0 : Float) 2147483646 = .ok value) ∧
    innerLimit (1.0 : Float) ⟨2147483646, by decide, by decide⟩ = none ∧
    GaussianRadial.innerIntegral [] ⟨[], []⟩ (1.0 : Float) 2147483646 0 = .ok [] ∧
    innerIntegral [] ⟨[], []⟩ (1.0 : Float) ⟨2147483646, by decide, by decide⟩ = none ∧
    (∃ value : Float, factorial? 2147483647 = .ok value) ∧
    (factorial greatest : Option Float) = none := by
  have positive : ((0 : ℕ) : Float) < 1.0 := by decide +kernel
  have checked : checkOrder (1.0 : Float) 2147483646 = .ok () :=
    checkOrder_ok_iff.mpr ⟨by decide, by decide, positive⟩
  refine ⟨⟨_, bind_ok_unit_iff.mpr ⟨checked, rfl⟩⟩, innerLimit_eq_none (by decide) _, ?_, ?_,
    ⟨_, if_neg (by decide)⟩, factorial_greatest⟩
  · exact innerIntegral_ok_iff.mpr ⟨⟨by decide, by decide, positive⟩, rfl, rfl, rfl, rfl⟩
  · rw [innerIntegral_eq (by decide)]
    exact if_neg fun fits => absurd fits.1 (by decide)

end GaussianRadial.Word
