/-!
# Words

Whole numbers of 32 bits with a sign. A sum or product that is out of their range has no value, and
a loop whose counter leaves the range has none either.
-/

namespace GaussianRadial

/-- A whole number of 32 bits. -/
structure Word where
  val : Int
  lower : -2147483648 ≤ val
  upper : val ≤ 2147483647
  deriving DecidableEq

namespace Word

def ofInt? (n : Int) : Option Word :=
  if h : -2147483648 ≤ n ∧ n ≤ 2147483647 then some ⟨n, h.1, h.2⟩ else none

def ofFin (n : Fin 1000) : Word := ⟨n, by omega, by omega⟩

/-- The greatest word. -/
def greatest : Word := ⟨2147483647, by decide, by decide⟩

def add? (a : Word) (n : Int) : Option Word := ofInt? (a.val + n)

def twice? (a : Word) : Option Word := ofInt? (2 * a.val)

/-- Half of a word, cut off towards zero. -/
def half (a : Word) : Word where
  val := if 0 ≤ a.val then a.val / 2 else -(-a.val / 2)
  lower := by have := a.lower; split <;> omega
  upper := by have := a.upper; split <;> omega

def toNat (a : Word) : Nat := a.val.toNat

theorem val_eq_of_ofInt? {n : Int} {a : Word} (ok : ofInt? n = some a) : a.val = n := by
  unfold ofInt? at ok
  split at ok
  · exact (Option.some.inj ok) ▸ rfl
  · contradiction

/--
A loop over the words from `i` to `last`. Its body tells whether to go on. Before the next round the
counter is raised.
-/
def countUp {σ : Type} (last : Word) (body : Word → σ → Option (Bool × σ)) (i : Word) (state : σ) :
    Option σ :=
  if i.val ≤ last.val then
    match body i state with
    | none => none
    | some (false, state) => some state
    | some (true, state) =>
      match _raised : i.add? 1 with
      | none => none
      | some next => countUp last body next state
  else some state
termination_by (last.val + 1 - i.val).toNat
decreasing_by
  have next := val_eq_of_ofInt? _raised
  omega

end Word

end GaussianRadial
