import Mathlib
import GaussianRadial.WordIntegrals
import GaussianRadial.Proofs.DoubleProducts

/-!
# Loops over words

Sums and halves of words keep to their values as long as they are in range. A loop whose last
counter is not the greatest word does what it does over the natural numbers: `countUp_eq`. A loop up
to the greatest word that never leaves its body has no value: `countUp_greatest`. From the first the
factorials of words have the values of `factorial` and `doubleFactorial`.
-/

namespace GaussianRadial.Word

/-! ### Sums, doubles and halves -/

theorem ext_val {a b : Word} (value : a.val = b.val) : a = b := by
  cases a
  cases b
  cases value
  rfl

theorem ofInt?_isNone_iff {n : ℤ} :
    ofInt? n = none ↔ n < -2147483648 ∨ 2147483647 < n := by
  unfold ofInt?
  split <;> simp <;> omega

theorem exists_add? {a : Word} {n : ℤ} (lower : -2147483648 ≤ a.val + n)
    (upper : a.val + n ≤ 2147483647) : ∃ b, a.add? n = some b ∧ b.val = a.val + n :=
  ⟨⟨a.val + n, lower, upper⟩, dif_pos ⟨lower, upper⟩, rfl⟩

theorem exists_twice? {a : Word} (lower : -2147483648 ≤ 2 * a.val)
    (upper : 2 * a.val ≤ 2147483647) : ∃ b, a.twice? = some b ∧ b.val = 2 * a.val :=
  ⟨⟨2 * a.val, lower, upper⟩, dif_pos ⟨lower, upper⟩, rfl⟩

theorem add?_eq_none {a : Word} {n : ℤ} (above : 2147483647 < a.val + n) : a.add? n = none :=
  ofInt?_isNone_iff.mpr (.inr above)

variable {a : Word}

/-- A sum of natural numbers that is in range. -/
theorem exists_sum {n : ℤ} (natural : 0 ≤ a.val) (raises : 0 ≤ n)
    (inRange : a.val + n ≤ 2147483647) :
    ∃ sum, a.add? n = some sum ∧ sum.toNat = a.toNat + n.toNat := by
  obtain ⟨sum, eq, value⟩ := exists_add? (a := a) (n := n) (by omega) inRange
  refine ⟨sum, eq, ?_⟩
  unfold toNat
  omega

theorem half_val (natural : 0 ≤ a.val) : a.half.val = a.val / 2 := if_pos natural

theorem half_toNat (natural : 0 ≤ a.val) : a.half.toNat = a.toNat / 2 := by
  unfold toNat
  rw [half_val natural]
  omega

/-! ### Loops -/

section Loops
variable {σ : Type} {last : Word} {body : Word → σ → Option (Bool × σ)}

/-- At most `count` rounds of a body over the natural numbers from `k` on. -/
def rounds (body : ℕ → σ → Bool × σ) (k : ℕ) (state : σ) : ℕ → σ
  | 0 => state
  | count + 1 =>
    match body k state with
    | (false, state) => state
    | (true, state) => rounds body (k + 1) state count

theorem countUp_next {i j : Word} {state after : σ} (inside : i.val ≤ last.val)
    (goesOn : body i state = some (true, after)) (raised : i.add? 1 = some j) :
    countUp last body i state = countUp last body j after := by
  rw [countUp, if_pos inside, goesOn]
  dsimp only
  split
  · rename_i stuck
    rw [raised] at stuck
    contradiction
  · rename_i j' raised'
    rw [raised] at raised'
    cases raised'
    rfl

theorem countUp_stuck {i : Word} {state after : σ} (inside : i.val ≤ last.val)
    (goesOn : body i state = some (true, after)) (stuck : i.add? 1 = none) :
    countUp last body i state = none := by
  rw [countUp, if_pos inside, goesOn]
  dsimp only
  split
  · rfl
  · rename_i j raised
    rw [stuck] at raised
    contradiction

/-- A loop that ends below the greatest word never raises its counter out of range. -/
theorem countUp_eq {next : ℕ → σ → Bool × σ} (below : last.val < 2147483647) {i : Word}
    (natural : 0 ≤ i.val)
    (step : ∀ k : Word, i.val ≤ k.val → k.val ≤ last.val → ∀ state,
      body k state = some (next k.toNat state)) (state : σ) :
    countUp last body i state = some (rounds next i.toNat state (last.val + 1 - i.val).toNat) := by
  generalize left : (last.val + 1 - i.val).toNat = count
  induction count generalizing i state with
  | zero =>
    rw [countUp, if_neg (by omega)]
    rfl
  | succ count ih =>
    have inside : i.val ≤ last.val := by omega
    obtain ⟨j, raised, value⟩ := exists_add? (a := i) (n := 1) (by omega) (by omega)
    have index : j.toNat = i.toNat + 1 := by
      unfold toNat
      omega
    have here := step i le_rfl inside state
    rw [rounds]
    rcases result : next i.toNat state with ⟨goesOn, after⟩
    rw [result] at here
    cases goesOn with
    | false =>
      rw [countUp, if_pos inside, here]
    | true =>
      rw [countUp_next inside here raised,
        ih (by omega) (fun k least => step k (by omega)) after (by omega), index]

/-- A loop that no round ends before a round without a value has none. -/
theorem countUp_eq_none {k : Word} {i : Word} (least : i.val ≤ k.val) (most : k.val ≤ last.val)
    (fails : ∀ state, body k state = none)
    (goesOn : ∀ j state result, body j state = some result → result.1 = true) (state : σ) :
    countUp last body i state = none := by
  generalize left : (k.val - i.val).toNat = count
  induction count generalizing i state with
  | zero =>
    have here : i = k := ext_val (by omega)
    rw [countUp, if_pos (by omega), here, fails]
  | succ count ih =>
    have inside : i.val ≤ last.val := by omega
    have upper := k.upper
    have lower := i.lower
    rcases round : body i state with _ | ⟨more, after⟩
    · rw [countUp, if_pos inside, round]
    · cases goesOn i state _ round
      obtain ⟨j, raised, value⟩ := exists_add? (a := i) (n := 1) (by omega) (by omega)
      rw [countUp_next inside round raised]
      exact ih (by omega) after (by omega)

/-- A loop up to the greatest word cannot end by its counter. -/
theorem countUp_greatest (endless : ∀ k state, ∃ after, body k state = some (true, after))
    (i : Word) (state : σ) : countUp greatest body i state = none := by
  have inside (i : Word) : i.val ≤ greatest.val := i.upper
  generalize left : (2147483647 - i.val).toNat = count
  induction count generalizing i state with
  | zero =>
    obtain ⟨after, goesOn⟩ := endless i state
    exact countUp_stuck (inside i) goesOn (add?_eq_none (by omega))
  | succ count ih =>
    obtain ⟨after, goesOn⟩ := endless i state
    have lower := i.lower
    obtain ⟨j, raised, value⟩ := exists_add? (a := i) (n := 1) (by omega) (by omega)
    rw [countUp_next (inside i) goesOn raised]
    exact ih j after (by omega)

end Loops

/-! ### Factorials -/

/-- Products that have become infinite keep their value. -/
class SteadyProducts (α : Type) [Mul α] [NatCast α] [Elementary α] : Prop where
  one_mul_one : ((1 : ℕ) : α) * ((1 : ℕ) : α) = ((1 : ℕ) : α)
  mul_natCast {x : α} (unbounded : Elementary.isFinite x = false) {k : ℕ} (positive : 0 < k)
    (small : k < 2 ^ 53) : x * (k : α) = x

instance : SteadyProducts Float where
  one_mul_one := by decide +kernel
  mul_natCast := DoubleProducts.mul_natCast

section Factorials
variable {α : Type} [Mul α] [NatCast α] [Elementary α]

theorem risingProduct_of_not_finite {start : α} (unbounded : Elementary.isFinite start = false)
    (k count : ℕ) : risingProduct start k count = start := by
  cases count with
  | zero => rfl
  | succ count =>
    rw [risingProduct, unbounded]
    rfl

theorem fallingProduct_of_not_finite {start : α} (unbounded : Elementary.isFinite start = false)
    (n : ℕ) : GaussianRadial.fallingProduct start n = start := by
  match n with
  | 0 | 1 => rfl
  | n + 2 =>
    rw [GaussianRadial.fallingProduct, unbounded]
    rfl

variable [SteadyProducts α]

/-- A factor that a product leaves out changes nothing. -/
theorem risingProduct_succ {k : ℕ} (positive : 0 < k) (small : k < 2 ^ 53) (start : α) (count : ℕ) :
    risingProduct start k (count + 1) = risingProduct (start * (k : α)) (k + 1) count := by
  rw [risingProduct]
  split
  · rfl
  · rename_i unbounded
    rw [Bool.not_eq_true] at unbounded
    rw [SteadyProducts.mul_natCast unbounded positive small, risingProduct_of_not_finite unbounded]

theorem fallingProduct_add_two {n : ℕ} (small : n + 2 < 2 ^ 53) (start : α) :
    GaussianRadial.fallingProduct start (n + 2) =
      GaussianRadial.fallingProduct (start * ((n + 2 : ℕ) : α)) n := by
  rw [GaussianRadial.fallingProduct]
  split
  · rfl
  · rename_i unbounded
    rw [Bool.not_eq_true] at unbounded
    rw [SteadyProducts.mul_natCast unbounded (by omega) small,
      fallingProduct_of_not_finite unbounded]

theorem risingProduct_last {k count : ℕ} (positive : 0 < k) (small : k + count < 2 ^ 53)
    (start : α) :
    risingProduct start k (count + 1) = risingProduct start k count * ((k + count : ℕ) : α) := by
  induction count generalizing k start with
  | zero => exact risingProduct_succ positive small start 0
  | succ count ih =>
    rw [risingProduct_succ positive (by omega), ih (by omega) (by omega),
      risingProduct_succ positive (by omega), add_right_comm k 1, add_assoc k]

theorem rounds_product {k count : ℕ} (positive : 0 < k) (small : k + count ≤ 2 ^ 53) (start : α) :
    rounds (fun k product => (true, product * (k : α))) k start count =
      risingProduct start k count := by
  induction count generalizing k start with
  | zero => rfl
  | succ count ih =>
    rw [risingProduct_succ positive (by omega), ← ih (by omega) (by omega)]
    rfl

theorem factorial_succ {n : ℕ} (small : n + 2 ≤ 2 ^ 53) :
    (GaussianRadial.factorial (n + 1) : α) =
      GaussianRadial.factorial n * ((n + 1 : ℕ) : α) := by
  cases n with
  | zero => exact SteadyProducts.one_mul_one.symm
  | succ n =>
    have product := risingProduct_last (k := 2) (by decide) (by omega : 2 + n < 2 ^ 53)
      ((1 : ℕ) : α)
    rw [add_comm 2 n] at product
    exact product

theorem factorial_eq {n : Word} (below : n.val < 2147483647) :
    factorial n = some (GaussianRadial.factorial n.toNat : α) := by
  have count : (n.val + 1 - (ofFin 2).val).toNat = n.toNat - 1 := by
    change (n.val + 1 - 2).toNat = n.val.toNat - 1
    omega
  have small : 2 + (n.toNat - 1) ≤ 2 ^ 53 := by
    unfold toNat
    omega
  have run : factorial n = some (rounds (fun k product => (true, product * (k : α)))
      2 ((1 : ℕ) : α) (n.val + 1 - (ofFin 2).val).toNat) := by
    exact countUp_eq below (by decide) (by intros; rfl) _
  rw [run, count, rounds_product (by decide) small]
  rfl

theorem factorial_half {l : Word} (natural : 0 ≤ l.val) :
    factorial l.half = some (GaussianRadial.factorial (l.toNat / 2) : α) := by
  have halved := half_val natural
  have upper := l.upper
  rw [← half_toNat natural]
  exact factorial_eq (by omega)

omit [Elementary α] [SteadyProducts α] in
theorem factorial_greatest : (factorial greatest : Option α) = none :=
  countUp_greatest (fun _ _ => ⟨_, rfl⟩) _ _

omit [Elementary α] [SteadyProducts α] in
theorem fallingProduct_next {i j : Word} {product : α} (inside : 1 < i.val)
    (lowered : i.add? (-2) = some j) :
    fallingProduct i product = fallingProduct j (product * i.cast) := by
  rw [fallingProduct, if_pos inside]
  split
  · rename_i stuck
    rw [lowered] at stuck
    contradiction
  · rename_i j' lowered'
    rw [lowered] at lowered'
    cases lowered'
    rfl

theorem fallingProduct_eq (i : Word) (product : α) :
    fallingProduct i product = some (GaussianRadial.fallingProduct product i.toNat) := by
  generalize left : i.toNat = n
  induction n using Nat.strong_induction_on generalizing i product with
  | h n ih =>
    have upper := i.upper
    have lower := i.lower
    have value := left
    unfold toNat at value
    match n, value with
    | 0, value | 1, value =>
      rw [fallingProduct, if_neg (by omega)]
      rfl
    | m + 2, value =>
      obtain ⟨j, lowered, difference⟩ := exists_add? (a := i) (n := -2) (by omega) (by omega)
      rw [fallingProduct_next (by omega) lowered, ih m (by omega) j _ (by unfold toNat; omega),
        fallingProduct_add_two (by omega), cast, left]

theorem doubleFactorial_eq (n : Word) :
    doubleFactorial n = some (GaussianRadial.doubleFactorial n.toNat : α) :=
  fallingProduct_eq n _

end Factorials

end GaussianRadial.Word
