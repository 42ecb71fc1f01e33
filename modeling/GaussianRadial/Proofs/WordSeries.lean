import Mathlib
import GaussianRadial.Proofs.WordLoops

/-!
# Series with orders of 32 bits

The divisors `l + 3 + 2n` of the series leave the range for great orders. The Taylor series always
takes six terms, so it has a value if and only if `l + 13` is in range: `taylorSeries_eq`. The
positive series stops by itself, so it has a value if and only if the divisor of its last term is in
range: `positiveSeries_eq`.
-/

namespace GaussianRadial.Word

/-! ### Divisors -/

section Divisors
variable {l n : Word}

theorem exists_seriesDivisor (natural : 0 ≤ l.val) (index : 0 ≤ n.val)
    (inRange : l.val + 3 + 2 * n.val ≤ 2147483647) :
    ∃ divisor, seriesDivisor l n = some divisor ∧ divisor.toNat = l.toNat + 3 + 2 * n.toNat := by
  obtain ⟨base, baseEq, baseVal⟩ := exists_add? (a := l) (n := 3) (by omega) (by omega)
  obtain ⟨double, doubleEq, doubleVal⟩ := exists_twice? (a := n) (by omega) (by omega)
  obtain ⟨divisor, eq, value⟩ := exists_add? (a := base) (n := double.val) (by omega) (by omega)
  refine ⟨divisor, ?_, ?_⟩
  · simp only [seriesDivisor, baseEq, doubleEq, Option.bind_eq_bind, Option.bind_some, eq]
  · unfold toNat
    omega

theorem seriesDivisor_eq_none (above : 2147483647 < l.val + 3 + 2 * n.val) :
    seriesDivisor l n = none := by
  unfold seriesDivisor
  cases baseEq : l.add? 3 with
  | none => rfl
  | some base =>
    cases doubleEq : n.twice? with
    | none => rfl
    | some double =>
      have baseVal := val_eq_of_ofInt? baseEq
      have doubleVal := val_eq_of_ofInt? doubleEq
      exact add?_eq_none (by omega)

end Divisors

/-! ### The Taylor series -/

section TaylorSeries
variable {α : Type} [NatCast α] [Add α] [Mul α] [Div α] [Neg α]

theorem rounds_taylor (square alpha : α) (l n : ℕ) (term sum : α) (count : ℕ) :
    (rounds (fun n (state : α × α) =>
        (true, state.1 * (-alpha * square / ((n + 1 : ℕ) : α)),
          state.2 + state.1 / ((l + 3 + 2 * n : ℕ) : α))) n (term, sum) count).2 =
      taylorSum square alpha l n term sum count := by
  induction count generalizing n term sum with
  | zero => rfl
  | succ count ih => exact ih (n + 1) _ _

variable {l : Word} (natural : 0 ≤ l.val) (square alpha : α)
include natural

theorem taylorRound_eq {n : Word} (index : 0 ≤ n.val)
    (inRange : l.val + 3 + 2 * n.val ≤ 2147483647) (state : α × α) :
    taylorRound square alpha l n state =
      some (true, state.1 * (-alpha * square / ((n.toNat + 1 : ℕ) : α)),
        state.2 + state.1 / ((l.toNat + 3 + 2 * n.toNat : ℕ) : α)) := by
  obtain ⟨divisor, divisorEq, divisorVal⟩ := exists_seriesDivisor natural index inRange
  obtain ⟨next, nextEq, following⟩ := exists_sum (n := 1) index (by decide) (by omega)
  simp only [taylorRound, divisorEq, nextEq, cast, divisorVal, following, Option.bind_eq_bind,
    Option.bind_some, Option.pure_def]
  rfl

omit natural in
/-- A round that has a value goes on. -/
theorem taylorRound_goesOn {n : Word} {state : α × α} {result : Bool × (α × α)}
    (ok : taylorRound square alpha l n state = some result) : result.1 = true := by
  unfold taylorRound at ok
  cases divisorEq : seriesDivisor l n with
  | none => simp [divisorEq] at ok
  | some divisor =>
    cases nextEq : n.add? 1 with
    | none => simp [divisorEq, nextEq] at ok
    | some next =>
      simp [divisorEq, nextEq] at ok
      rw [← ok]

theorem taylorSeries_eq (x alpha : α) : taylorSeries x alpha l =
    if l.toNat + 13 ≤ 2147483647 then some (GaussianRadial.taylorSeries x alpha l.toNat)
    else none := by
  have value : (l.toNat : ℤ) = l.val := Int.toNat_of_nonneg natural
  split
  · have run : countUp (ofFin 5) (taylorRound (x * x) alpha l) (ofFin 0) (x * x, ((0 : ℕ) : α)) =
        some (rounds (fun n (state : α × α) =>
          (true, state.1 * (-alpha * (x * x) / ((n + 1 : ℕ) : α)),
            state.2 + state.1 / ((l.toNat + 3 + 2 * n : ℕ) : α))) 0 (x * x, ((0 : ℕ) : α)) 6) := by
      refine countUp_eq (by decide) (by decide) (fun n least most state => ?_) _
      change 0 ≤ n.val at least
      change n.val ≤ 5 at most
      exact taylorRound_eq natural (x * x) alpha least (by omega) state
    simp only [taylorSeries, run, rounds_taylor, Option.bind_eq_bind, Option.bind_some,
      Option.pure_def]
    rfl
  · rename_i above
    have last (state : α × α) : taylorRound (x * x) alpha l (ofFin 5) state = none := by
      have divisor : seriesDivisor l (ofFin 5) = none := by
        apply seriesDivisor_eq_none
        change 2147483647 < l.val + 3 + 2 * 5
        omega
      rw [taylorRound, divisor]
      rfl
    have run : countUp (ofFin 5) (taylorRound (x * x) alpha l) (ofFin 0) (x * x, ((0 : ℕ) : α)) =
        none :=
      countUp_eq_none (by decide) (by decide) last (fun _ _ _ => taylorRound_goesOn _ _) _
    rw [taylorSeries, run]
    rfl

end TaylorSeries

/-! ### The positive series -/

section PositiveSeries
variable {α : Type} [NatCast α] [Add α] [Mul α] [Div α] [LT α] [DecidableLT α]

/-- A sum that takes a term ends with this term or with a later one. -/
theorem le_lastIndex (z : α) (l k : ℕ) (term sum : α) (count : ℕ) :
    k ≤ (positiveSum z l k term sum (count + 1)).lastIndex := by
  induction count generalizing k term sum with
  | zero =>
    rw [positiveSum]
    split
    · exact le_rfl
    · exact le_rfl
  | succ count ih =>
    rw [positiveSum]
    split
    · exact le_rfl
    · exact (Nat.le_succ k).trans (ih (k + 1) _ _)

theorem lastIndex_le (z : α) (l k : ℕ) (term sum : α) (count : ℕ) :
    (positiveSum z l k term sum count).lastIndex ≤ k + count - 1 := by
  induction count generalizing k term sum with
  | zero => exact le_rfl
  | succ count ih =>
    rw [positiveSum]
    split
    · dsimp only
      omega
    · have later := ih (k + 1) (term * (z / ((l + 3 + 2 * k : ℕ) : α)))
        (sum + term * (z / ((l + 3 + 2 * k : ℕ) : α)))
      omega

variable {l : Word} (natural : 0 ≤ l.val)
include natural

theorem positiveRound_eq {k : Word} (index : 0 ≤ k.val)
    (inRange : l.val + 3 + 2 * k.val ≤ 2147483647) (z : α) (state : α × α) :
    positiveRound z l k state =
      (let next := state.1 * (z / ((l.toNat + 3 + 2 * k.toNat : ℕ) : α))
      let total := state.2 + next
      some (!decide (next < seriesTolerance * total), next, total)) := by
  obtain ⟨divisor, divisorEq, divisorVal⟩ := exists_seriesDivisor natural index inRange
  simp only [positiveRound, divisorEq, cast, divisorVal, Option.bind_eq_bind, Option.bind_some,
    Option.pure_def]

/-- The loop has a value if and only if the divisor of its last term is in range. -/
theorem positiveLoop_eq {k : Word} {count : ℕ} (index : 1 ≤ k.val) (left : k.val + count = 1000)
    (reached : l.val + 3 + 2 * (k.val - 1) ≤ 2147483647) (z term sum : α) :
    (countUp (ofFin 999) (positiveRound z l) k (term, sum)).map Prod.snd =
      if l.toNat + 3 + 2 * (positiveSum z l.toNat k.toNat term sum count).lastIndex ≤ 2147483647
      then some (positiveSum z l.toNat k.toNat term sum count).value else none := by
  have last : (ofFin 999).val = 999 := rfl
  have order : (l.toNat : ℤ) = l.val := Int.toNat_of_nonneg natural
  have counter : (k.toNat : ℤ) = k.val := Int.toNat_of_nonneg (by omega)
  -- The divisor of the term before is in range, also when the loop has used up its terms.
  induction count generalizing k term sum with
  | zero =>
    rw [countUp, if_neg (by omega), positiveSum, if_pos]
    · rfl
    · dsimp only
      omega
  | succ count ih =>
    have inside : k.val ≤ (ofFin 999).val := by omega
    by_cases inRange : l.val + 3 + 2 * k.val ≤ 2147483647
    · have round := positiveRound_eq natural (by omega) inRange z (term, sum)
      by_cases converged : term * (z / ((l.toNat + 3 + 2 * k.toNat : ℕ) : α)) < seriesTolerance *
          (sum + term * (z / ((l.toNat + 3 + 2 * k.toNat : ℕ) : α)))
      · simp only [converged, decide_true, Bool.not_true] at round
        rw [countUp, if_pos inside, round, positiveSum]
        simp only [converged, if_true]
        rw [if_pos (by omega)]
        rfl
      · simp only [converged, decide_false, Bool.not_false] at round
        obtain ⟨j, raised, value⟩ := exists_add? (a := k) (n := 1) (by omega) (by omega)
        have following : j.toNat = k.toNat + 1 := by
          unfold toNat
          omega
        rw [countUp_next inside round raised, positiveSum]
        simp only [converged, if_false]
        rw [← following]
        exact ih (by omega) (by omega) (by omega) _ _ (Int.toNat_of_nonneg (by omega))
    · have round : positiveRound z l k (term, sum) = none := by
        rw [positiveRound, seriesDivisor_eq_none (by omega)]
        rfl
      have least := le_lastIndex z l.toNat k.toNat term sum count
      rw [countUp, if_pos inside, round, if_neg (by omega)]
      rfl

/-- The divisor of the last term that the positive series takes is a word. -/
def SeriesFits (x alpha : α) (l : ℕ) : Prop :=
  l + 3 + 2 * (positiveTotal (((2 : ℕ) : α) * alpha * x * x) l).lastIndex ≤ 2147483647

instance decidableSeriesFits (x alpha : α) (l : ℕ) : Decidable (SeriesFits x alpha l) :=
  inferInstanceAs (Decidable (_ ≤ _))

omit natural in
theorem seriesFits_of_le {l : ℕ} (small : l + 2001 ≤ 2147483647) (x alpha : α) :
    SeriesFits x alpha l := by
  have most := lastIndex_le (((2 : ℕ) : α) * alpha * x * x) l 1
    (((1 : ℕ) : α) / ((l + 3 : ℕ) : α)) (((1 : ℕ) : α) / ((l + 3 : ℕ) : α)) (maxPositiveTerms - 1)
  change _ ≤ 999 at most
  unfold SeriesFits positiveTotal
  dsimp only
  omega

theorem positiveSeries_eq (inRange : l.val + 3 ≤ 2147483647) (x alpha expa : α) :
    positiveSeries x alpha expa l =
      if SeriesFits x alpha l.toNat then
        some (GaussianRadial.positiveSeries x alpha expa l.toNat)
      else none := by
  obtain ⟨order, orderEq, sum⟩ := exists_sum natural (by decide) inRange
  have left : (ofFin 1).val + ((999 : ℕ) : ℤ) = 1000 := rfl
  have reached : l.val + 3 + 2 * ((ofFin 1).val - 1) ≤ 2147483647 := by
    change l.val + 3 + 2 * (1 - 1) ≤ _
    omega
  have loop := positiveLoop_eq natural (by decide) left reached (((2 : ℕ) : α) * alpha * x * x)
    (((1 : ℕ) : α) / order.cast) (((1 : ℕ) : α) / order.cast)
  rw [cast, sum] at loop
  simp only [positiveSeries, orderEq, cast, sum, Option.bind_eq_bind, Option.bind_some,
    Option.pure_def]
  generalize countUp (ofFin 999) _ (ofFin 1) _ = result at loop ⊢
  by_cases fits : SeriesFits x alpha l.toNat
  · rw [if_pos fits]
    obtain ⟨state, eq, value⟩ := Option.map_eq_some_iff.mp (loop.trans (if_pos fits))
    rw [eq, Option.bind_some, value]
    rfl
  · rw [if_neg fits, Option.map_eq_none_iff.mp (loop.trans (if_neg fits))]
    rfl

theorem inSeriesRange_eq (inRange : l.val + 3 ≤ 2147483647) (x alpha : α) :
    inSeriesRange x alpha l = some (decide (InSeriesRange x alpha l.toNat)) := by
  obtain ⟨order, orderEq, sum⟩ := exists_sum natural (by decide) inRange
  simp only [inSeriesRange, orderEq, cast, sum, Option.bind_eq_bind, Option.bind_some,
    Option.pure_def]
  rfl

end PositiveSeries

end GaussianRadial.Word
