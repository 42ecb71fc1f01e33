import Mathlib
import GaussianRadial.Proofs.AuxiliaryCache

/-!
# How often auxiliary arrays are computed

The cache holds its exponents in increasing order, so it has one entry for each. An evaluation adds
the exponents of the requests up to the first that fails, and that one's exponent if its arrays can
be computed at all. So the entries are counted by the exponents that are needed, and calls after the
first one add none: `auxiliaryCount_eq`.
-/

namespace GaussianRadial

namespace AuxiliaryCache
variable {samples : List Float} {cache : AuxiliaryCache Float} {alpha : Float}

def exponents (cache : AuxiliaryCache Float) : List Float := cache.map Prod.fst

def Ordered (cache : AuxiliaryCache Float) : Prop := cache.exponents.Pairwise (· < ·)

theorem Ordered.nodup (ordered : Ordered cache) : cache.exponents.Nodup := by
  refine ordered.imp ?_
  rintro x y below rfl
  exact DoubleOrder.not_lt_self x below

/-- The number of entries is the number of different exponents. -/
theorem Ordered.length_eq (ordered : Ordered cache) {needed : List Float}
    (same : ∀ key, key ∈ cache.exponents ↔ key ∈ needed) :
    cache.length = needed.toFinset.card := by
  have sets : cache.exponents.toFinset = needed.toFinset := by
    ext key
    simp only [List.mem_toFinset, same]
  rw [← sets, List.toFinset_card_of_nodup ordered.nodup, exponents, List.length_map]

/-! ### Look-up and insertion -/

theorem mem_of_find? (sound : Sound samples cache) (comparable : Comparable alpha)
    {aux : Auxiliary Float} (found : cache.find? alpha = some aux) : alpha ∈ cache.exponents := by
  induction cache with
  | nil => exact absurd found (by simp [find?])
  | cons entry rest ih =>
    obtain ⟨here, others⟩ := List.forall_mem_cons.mp sound
    rw [find?] at found
    split at found
    · exact List.mem_cons_of_mem _ (ih others found)
    · rename_i notBelow
      split at found
      · contradiction
      · rename_i notAbove
        rw [← comparable entry.1 (auxiliary_ok_pos here) notBelow notAbove]
        exact List.mem_cons_self

theorem mem_exponents_insert {key : Float} {aux : Auxiliary Float} :
    key ∈ (cache.insert alpha aux).exponents ↔ key = alpha ∨ key ∈ cache.exponents := by
  induction cache with
  | nil => exact List.mem_cons
  | cons entry rest ih =>
    rw [insert]
    split
    · simp only [exponents, List.map_cons, List.mem_cons] at ih ⊢
      rw [ih, or_left_comm]
    · exact List.mem_cons

theorem insert_ordered (ordered : Ordered cache) (absent : cache.find? alpha = none)
    (aux : Auxiliary Float) : Ordered (cache.insert alpha aux) := by
  induction cache with
  | nil => exact List.pairwise_singleton _ _
  | cons entry rest ih =>
    obtain ⟨above, later⟩ := List.pairwise_cons.mp ordered
    rw [find?] at absent
    rw [insert]
    by_cases below : entry.1 < alpha
    · rw [if_pos below] at absent ⊢
      refine List.pairwise_cons.mpr ⟨fun key member => ?_, ih later absent⟩
      obtain rfl | old := mem_exponents_insert.mp member
      · exact below
      · exact above key old
    · rw [if_neg below] at absent ⊢
      have first : alpha < entry.1 := by
        by_contra notAbove
        rw [if_neg notAbove] at absent
        contradiction
      have aboveAll : ∀ key ∈ exponents rest, alpha < key := fun key member =>
        DoubleOrder.lt_of_lt_of_lt first (above key member)
      exact List.pairwise_cons.mpr ⟨List.forall_mem_cons.mpr ⟨first, aboveAll⟩, ordered⟩

/-! ### Evaluations -/

/-- The cache is in order and has the old exponents and those that are needed. -/
structure Grown (cache next : AuxiliaryCache Float) (needed : List Float) : Prop where
  ordered : Ordered next
  mem_iff : ∀ key, key ∈ next.exponents ↔ key ∈ needed ∨ key ∈ cache.exponents

theorem Grown.none (ordered : Ordered cache) : Grown cache cache [] :=
  ⟨ordered, fun key => by simp⟩

theorem Grown.trans {next last : AuxiliaryCache Float} {needed later : List Float}
    (first : Grown cache next needed) (second : Grown next last later) :
    Grown cache last (needed ++ later) := by
  refine ⟨second.ordered, fun key => ?_⟩
  rw [second.mem_iff, first.mem_iff, List.mem_append, or_left_comm, or_assoc]

theorem fetch_grown {aux : Auxiliary Float} {next : AuxiliaryCache Float}
    (sound : Sound samples cache) (ordered : Ordered cache) (comparable : Comparable alpha)
    (fetched : cache.fetch samples alpha = .ok (aux, next)) : Grown cache next [alpha] := by
  rw [fetch] at fetched
  cases found : cache.find? alpha with
  | some other =>
    simp only [found, Except.ok.injEq, Prod.mk.injEq] at fetched
    obtain ⟨-, rfl⟩ := fetched
    refine ⟨ordered, fun key => ?_⟩
    rw [List.mem_singleton]
    constructor
    · exact Or.inr
    · rintro (rfl | member)
      · exact mem_of_find? sound comparable found
      · exact member
  | none =>
    cases computed : auxiliary samples alpha with
    | error e => simp [found, computed] at fetched
    | ok other =>
      simp only [found, computed, Except.ok.injEq, Prod.mk.injEq] at fetched
      obtain ⟨-, rfl⟩ := fetched
      refine ⟨insert_ordered ordered found _, fun key => ?_⟩
      rw [List.mem_singleton]
      exact mem_exponents_insert

end AuxiliaryCache

/--
The exponents of the requests up to the first that fails on its own. That one's exponent is among
them if it is positive.
-/
def neededExponents (samples : List Float) : List (Request Float) → List Float
  | [] => []
  | request :: rest =>
    match request.evaluateFresh samples with
    | .ok _ => request.alpha :: neededExponents samples rest
    | .error _ => if ((0 : ℕ) : Float) < request.alpha then [request.alpha] else []

section Needed
variable {samples : List Float}

theorem neededExponents_of_ok {requests : List (Request Float)}
    (fine : ∀ request ∈ requests, ∃ column, request.evaluateFresh samples = .ok column)
    (rest : List (Request Float)) :
    neededExponents samples (requests ++ rest) =
      requests.map Request.alpha ++ neededExponents samples rest := by
  induction requests with
  | nil => rfl
  | cons request others ih =>
    obtain ⟨⟨column, evaluated⟩, later⟩ := List.forall_mem_cons.mp fine
    rw [List.cons_append, neededExponents, evaluated]
    exact congrArg (request.alpha :: ·) (ih later)

theorem neededExponents_of_error {request : Request Float} {e : IntegralError Float}
    (failed : request.evaluateFresh samples = .error e) (rest : List (Request Float)) :
    neededExponents samples (request :: rest) =
      if ((0 : ℕ) : Float) < request.alpha then [request.alpha] else [] := by
  rw [neededExponents, failed]

end Needed

namespace AuxiliaryCache
variable {samples : List Float} {cache : AuxiliaryCache Float}

theorem auxiliary_of_pos (samples : List Float) {alpha : Float}
    (positive : ((0 : ℕ) : Float) < alpha) :
    ∃ aux, auxiliary samples alpha = .ok aux := by
  rw [auxiliary, checkExponent_ok_iff.mpr positive]
  exact ⟨_, rfl⟩

/-- Every request adds its exponent before it can fail, unless its arrays cannot be computed. -/
theorem evaluateAll_grown {requests : List (Request Float)} (sound : Sound samples cache)
    (ordered : Ordered cache) (comparable : ∀ request ∈ requests, Comparable request.alpha) :
    Grown cache (cache.evaluateAll samples requests).2 (neededExponents samples requests) := by
  induction requests generalizing cache with
  | nil => exact .none ordered
  | cons request rest ih =>
    obtain ⟨here, later⟩ := List.forall_mem_cons.mp comparable
    rw [evaluateAll, neededExponents, Request.evaluateFresh]
    cases computed : auxiliary samples request.alpha with
    | error e =>
      have notPositive : ¬ ((0 : ℕ) : Float) < request.alpha := by
        intro positive
        obtain ⟨aux, ok⟩ := auxiliary_of_pos samples positive
        rw [computed] at ok
        contradiction
      rw [fetch_of_error sound here computed]
      dsimp only [Bind.bind, Except.bind]
      rw [if_neg notPositive]
      exact .none ordered
    | ok aux =>
      obtain ⟨next, fetched⟩ := fetch_of_ok sound here computed
      have grown := fetch_grown sound ordered here fetched
      rw [fetched]
      dsimp only [Bind.bind, Except.bind]
      cases request.evaluate samples aux with
      | error e =>
        dsimp only
        rw [if_pos (auxiliary_ok_pos computed)]
        exact grown
      | ok column =>
        exact grown.trans (ih (fetch_sound sound fetched) grown.ordered later)

end AuxiliaryCache

namespace Session
variable {job : Job Float} {session : Session Float}

/-- The session works on the job, and its cache has just the exponents that the job needs. -/
structure Counts (job : Job Float) (session : Session Float) : Prop extends Holds job session where
  ordered : session.cache.Ordered
  mem_iff : ∀ key, key ∈ session.cache.exponents ↔
    key ∈ neededExponents job.grid.points job.requests

theorem Counts.auxiliaryCount (counts : Counts job session) :
    session.auxiliaryCount = (neededExponents job.grid.points job.requests).toFinset.card :=
  counts.ordered.length_eq counts.mem_iff

section Calls
variable [Report.JsonNumbers]

theorem Holds.evaluate_grown (holds : Holds job session) (ordered : session.cache.Ordered)
    (comparable : ∀ request ∈ job.requests, Comparable request.alpha) (call : SessionCall) :
    session.cache.Grown (session.after call).cache
      (neededExponents job.grid.points job.requests) := by
  obtain ⟨rfl, sound⟩ := holds
  rw [after_eq]
  exact AuxiliaryCache.evaluateAll_grown sound ordered comparable

theorem start_counts (comparable : ∀ request ∈ job.requests, Comparable request.alpha)
    (call : SessionCall) : Counts job ((start job).after call) := by
  have grown := (start_holds job).evaluate_grown List.Pairwise.nil comparable call
  refine ⟨(start_holds job).after_call call, grown.ordered, fun key => ?_⟩
  rw [grown.mem_iff]
  exact or_iff_left List.not_mem_nil

/-- A call needs the same exponents again, whether it fails or not. -/
theorem Counts.after_call (counts : Counts job session)
    (comparable : ∀ request ∈ job.requests, Comparable request.alpha) (call : SessionCall) :
    Counts job (session.after call) := by
  have grown := counts.evaluate_grown counts.ordered comparable call
  refine ⟨counts.toHolds.after_call call, grown.ordered, fun key => ?_⟩
  rw [grown.mem_iff, counts.mem_iff, or_self]

theorem Counts.after_calls (counts : Counts job session)
    (comparable : ∀ request ∈ job.requests, Comparable request.alpha) (calls : List SessionCall) :
    Counts job (calls.foldl after session) := by
  induction calls generalizing session with
  | nil => exact counts
  | cons call rest ih => exact ih (counts.after_call comparable call)

/--
After its first call a session has computed the auxiliary arrays once for each exponent among the
requests, or among those up to the first that fails, whose own exponent counts if it is positive.
Calls after that compute none, whether they fail or not.
-/
theorem auxiliaryCount_eq (job : Job Float)
    (numbers : ∀ request ∈ job.requests, request.alpha.isNaN = false) (first : SessionCall)
    (calls : List SessionCall) :
    let points := job.grid.points
    let count := ((first :: calls).foldl after (start job)).auxiliaryCount
    ((∀ request ∈ job.requests, ∃ column, request.evaluateFresh points = .ok column) →
      count = (job.requests.map Request.alpha).toFinset.card) ∧
    (∀ before failing rest e, job.requests = before ++ failing :: rest →
      (∀ request ∈ before, ∃ column, request.evaluateFresh points = .ok column) →
      failing.evaluateFresh points = .error e →
      count = (before.map Request.alpha ++
        if ((0 : ℕ) : Float) < failing.alpha then [failing.alpha] else []).toFinset.card) ∧
    count = ((start job).after first).auxiliaryCount := by
  intro points count
  have comparable : ∀ request ∈ job.requests, Comparable request.alpha := by
    intro request member key positive
    exact DoubleOrder.eq_of_not_lt positive (numbers request member)
  have atFirst := start_counts comparable first
  have counted : count = (neededExponents points job.requests).toFinset.card :=
    (atFirst.after_calls comparable calls).auxiliaryCount
  refine ⟨fun fine => ?_, fun before failing rest e split fine failed => ?_, ?_⟩
  · have needed := neededExponents_of_ok fine []
    rw [List.append_nil] at needed
    rw [counted, needed, neededExponents, List.append_nil]
  · rw [counted, split, neededExponents_of_ok fine, neededExponents_of_error failed]
  · rw [counted, atFirst.auxiliaryCount]

end Calls

/-- A job whose third request has an odd order and an exponent that no request before it has. -/
def fourExponents : Job Float where
  grid := ⟨.explicit, 0, [1, 2], false⟩
  requests := [⟨.inner, 2, 2, 0⟩, ⟨.innerPotential, 2, 3, 1⟩, ⟨.outer, 3, 1, 0⟩, ⟨.inner, 5, 0, 0⟩]
  options := ⟨.text, 6, false⟩

theorem auxiliaryCount_eq_four_exponents :
    (∀ request ∈ fourExponents.requests, request.alpha.isNaN = false) ∧
      ([SessionCall.run, .evaluate].foldl after (start fourExponents)).auxiliaryCount = 2 := by
  have numbers : ∀ request ∈ fourExponents.requests, request.alpha.isNaN = false := by decide
  obtain ⟨-, failing, -⟩ := auxiliaryCount_eq fourExponents numbers .run [.evaluate]
  refine ⟨numbers, (failing [⟨.inner, 2, 2, 0⟩, ⟨.innerPotential, 2, 3, 1⟩] ⟨.outer, 3, 1, 0⟩
    [⟨.inner, 5, 0, 0⟩] .oddOrder rfl ?_ rfl).trans (by decide)⟩
  exact List.forall_mem_cons.mpr ⟨⟨_, rfl⟩, List.forall_mem_singleton.mpr ⟨_, rfl⟩⟩

end Session

end GaussianRadial
