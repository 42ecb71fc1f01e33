import GaussianRadial.Proofs.DoubleOrder
import GaussianRadial.Proofs.Samples
import GaussianRadial.Report
import GaussianRadial.Report.ShortestNumbers

/-!
# The cache of a session

Every entry of the cache has the auxiliary arrays of its exponent over the points of the grid. Every
insertion keeps this, also in an evaluation that fails later. So an evaluation has the same outcome
as one without a cache, whatever the session has done before: `evaluate_eq_fresh`.
-/

namespace GaussianRadial

section Evaluation
variable {K : Type} [NatCast K] [LT K] [DecidableLT K]
variable [Add K] [Sub K] [Mul K] [Div K] [Neg K] [Pow K ℕ] [Elementary K]

/-- The requested integral at every sample, with auxiliary arrays that are computed for it. -/
def Request.evaluateFresh (samples : List K) (request : Request K) :
    Except (IntegralError K) (List K) := do
  let aux ← auxiliary samples request.alpha
  request.evaluate samples aux

/-- The order tells the number apart from every positive number but itself. -/
def Comparable (alpha : K) : Prop :=
  ∀ key, ((0 : ℕ) : K) < key → ¬ key < alpha → ¬ alpha < key → key = alpha

omit [Add K] [Sub K] [Div K] [Pow K ℕ] in
theorem auxiliary_ok_pos {samples : List K} {alpha : K} {aux : Auxiliary K}
    (ok : auxiliary samples alpha = .ok aux) : ((0 : ℕ) : K) < alpha :=
  checkExponent_ok_iff.mp (bind_ok_unit_iff.mp ok).1

namespace AuxiliaryCache

/-- Every entry has the arrays of its exponent. -/
def Sound (samples : List K) (cache : AuxiliaryCache K) : Prop :=
  ∀ entry ∈ cache, auxiliary samples entry.1 = .ok entry.2

variable {samples : List K} {cache : AuxiliaryCache K} {alpha : K}

omit [Add K] [Sub K] [Div K] [Pow K ℕ] in
theorem find?_sound (sound : Sound samples cache) (comparable : Comparable alpha)
    {aux : Auxiliary K} (found : cache.find? alpha = some aux) :
    auxiliary samples alpha = .ok aux := by
  induction cache with
  | nil => exact absurd found (by simp [find?])
  | cons entry rest ih =>
    have here := sound entry List.mem_cons_self
    rw [find?] at found
    split at found
    · exact ih (fun later member => sound later (List.mem_cons_of_mem _ member)) found
    · rename_i notBelow
      split at found
      · exact absurd found (by simp)
      · rename_i notAbove
        rw [← comparable entry.1 (auxiliary_ok_pos here) notBelow notAbove, here,
          Option.some.inj found]

omit [Add K] [Sub K] [Div K] [Pow K ℕ] in
theorem insert_sound (sound : Sound samples cache) {aux : Auxiliary K}
    (computed : auxiliary samples alpha = .ok aux) : Sound samples (cache.insert alpha aux) := by
  induction cache with
  | nil =>
    intro entry member
    obtain rfl := List.mem_singleton.mp member
    exact computed
  | cons first rest ih =>
    obtain ⟨here, later⟩ := List.forall_mem_cons.mp sound
    rw [insert]
    split
    · exact List.forall_mem_cons.mpr ⟨here, ih later⟩
    · exact List.forall_mem_cons.mpr ⟨computed, sound⟩

omit [Add K] [Sub K] [Div K] [Pow K ℕ] in
theorem fetch_of_error {e : IntegralError K} (sound : Sound samples cache)
    (comparable : Comparable alpha) (failed : auxiliary samples alpha = .error e) :
    cache.fetch samples alpha = .error e := by
  rw [fetch]
  cases found : cache.find? alpha with
  | some aux => exact absurd (failed.symm.trans (find?_sound sound comparable found)) (by simp)
  | none => simp only [failed]

omit [Add K] [Sub K] [Div K] [Pow K ℕ] in
theorem fetch_of_ok {aux : Auxiliary K} (sound : Sound samples cache)
    (comparable : Comparable alpha) (computed : auxiliary samples alpha = .ok aux) :
    ∃ next, cache.fetch samples alpha = .ok (aux, next) := by
  rw [fetch]
  cases found : cache.find? alpha with
  | some other =>
    obtain rfl := Except.ok.inj (computed.symm.trans (find?_sound sound comparable found))
    exact ⟨cache, rfl⟩
  | none =>
    simp only [computed]
    exact ⟨_, rfl⟩

omit [Add K] [Sub K] [Div K] [Pow K ℕ] in
/-- Only arrays that were computed are inserted, whatever exponent is looked for. -/
theorem fetch_sound {aux : Auxiliary K} {next : AuxiliaryCache K} (sound : Sound samples cache)
    (fetched : cache.fetch samples alpha = .ok (aux, next)) : Sound samples next := by
  rw [fetch] at fetched
  cases found : cache.find? alpha with
  | some other =>
    simp only [found, Except.ok.injEq, Prod.mk.injEq] at fetched
    rwa [← fetched.2]
  | none =>
    cases computed : auxiliary samples alpha with
    | error e => simp [found, computed] at fetched
    | ok other =>
      simp only [found, computed, Except.ok.injEq, Prod.mk.injEq] at fetched
      rw [← fetched.2]
      exact insert_sound sound computed

theorem evaluateAll_sound (sound : Sound samples cache) (requests : List (Request K)) :
    Sound samples (cache.evaluateAll samples requests).2 := by
  induction requests generalizing cache with
  | nil => exact sound
  | cons request rest ih =>
    rw [evaluateAll]
    split
    · exact sound
    · rename_i aux next fetched
      have kept := fetch_sound sound fetched
      split
      · exact kept
      · exact ih kept

/-- One step of an evaluation for each request, over a cache that stays sound. -/
theorem evaluateAll_eq_fresh {requests : List (Request K)} (sound : Sound samples cache)
    (comparable : ∀ request ∈ requests, Comparable request.alpha) :
    (cache.evaluateAll samples requests).1 = requests.mapM (Request.evaluateFresh samples) := by
  induction requests generalizing cache with
  | nil => rfl
  | cons request rest ih =>
    obtain ⟨here, later⟩ := List.forall_mem_cons.mp comparable
    rw [evaluateAll, List.mapM_cons, Request.evaluateFresh]
    cases computed : auxiliary samples request.alpha with
    | error e =>
      rw [fetch_of_error sound here computed]
      rfl
    | ok aux =>
      obtain ⟨next, fetched⟩ := fetch_of_ok sound here computed
      rw [fetched]
      dsimp only [Bind.bind, Except.bind]
      cases request.evaluate samples aux with
      | error e => rfl
      | ok column =>
        dsimp only
        rw [← ih (fetch_sound sound fetched) later]
        cases (evaluateAll samples next rest).1 <;> rfl

end AuxiliaryCache

/-! ### Outcomes -/

/-- The error of the auxiliary arrays of a request, or the integral of its kind over them. -/
inductive Request.IntegralOver (samples : List K) (request : Request K) :
    Except (IntegralError K) (List K) → Prop
  | refused {e : IntegralError K} (failed : auxiliary samples request.alpha = .error e) :
      IntegralOver samples request (.error e)
  | inner {aux : Auxiliary K} (computed : auxiliary samples request.alpha = .ok aux)
      (kind : request.kind = .inner) :
      IntegralOver samples request
        (innerIntegral samples aux request.alpha request.l₁ samples.length)
  | innerPotential {aux : Auxiliary K} (computed : auxiliary samples request.alpha = .ok aux)
      (kind : request.kind = .innerPotential) :
      IntegralOver samples request
        (innerPotential samples aux request.alpha request.l₁ request.l₂ samples.length)
  | outer {aux : Auxiliary K} (computed : auxiliary samples request.alpha = .ok aux)
      (kind : request.kind = .outer) :
      IntegralOver samples request
        (outerIntegral samples aux.expa request.alpha request.l₁ samples.length)

theorem Request.integralOver_evaluateFresh (request : Request K) (samples : List K) :
    request.IntegralOver samples (request.evaluateFresh samples) := by
  rw [evaluateFresh]
  cases computed : auxiliary samples request.alpha with
  | error e => exact .refused computed
  | ok aux =>
    change request.IntegralOver samples (request.evaluate samples aux)
    rw [evaluate]
    cases kind : request.kind with
    | inner => exact .inner computed kind
    | innerPotential => exact .innerPotential computed kind
    | outer => exact .outer computed kind

theorem evaluateFresh_length {samples column : List K} {request : Request K}
    (ok : request.evaluateFresh samples = .ok column) : column.length = samples.length := by
  rw [Request.evaluateFresh] at ok
  cases computed : auxiliary samples request.alpha with
  | error e =>
    rw [computed] at ok
    exact nomatch ok
  | ok aux =>
    rw [computed] at ok
    replace ok : request.evaluate samples aux = .ok column := ok
    rw [Request.evaluate] at ok
    split at ok
    · obtain ⟨-, -, expaLength, erfaLength, rfl⟩ := innerIntegral_ok_iff.mp ok
      simp [expaLength, erfaLength]
    · obtain ⟨-, -, expaLength, erfaLength, rfl⟩ := innerPotential_ok_iff.mp ok
      simp [expaLength, erfaLength]
    · obtain ⟨-, -, expaLength, rfl⟩ := outerIntegral_ok_iff.mp ok
      simp [expaLength]

end Evaluation

theorem mapM_ok_forall₂ {α β ε : Type} {f : α → Except ε β} {inputs : List α} {outputs : List β}
    (ok : inputs.mapM f = .ok outputs) :
    List.Forall₂ (fun input output => f input = .ok output) inputs outputs := by
  induction inputs generalizing outputs with
  | nil =>
    obtain rfl := Except.ok.inj ok
    exact .nil
  | cons input rest ih =>
    rw [List.mapM_cons] at ok
    cases first : f input with
    | error e =>
      rw [first] at ok
      exact nomatch ok
    | ok output =>
      cases later : rest.mapM f with
      | error e =>
        rw [first, later] at ok
        exact nomatch ok
      | ok others =>
        rw [first, later] at ok
        obtain rfl := Except.ok.inj ok
        exact .cons first (ih later)

/-- An input fails, and none before it does. -/
def FirstFailure {α β ε : Type} (f : α → Except ε β) (inputs : List α) (e : ε) : Prop :=
  ∃ before input after, inputs = before ++ input :: after ∧
    (∀ earlier ∈ before, ∃ output, f earlier = .ok output) ∧ f input = .error e

theorem mapM_error_first {α β ε : Type} {f : α → Except ε β} {inputs : List α} {e : ε}
    (failed : inputs.mapM f = .error e) : FirstFailure f inputs e := by
  induction inputs with
  | nil => exact nomatch failed
  | cons input rest ih =>
    rw [List.mapM_cons] at failed
    cases first : f input with
    | error other =>
      rw [first] at failed
      obtain rfl := Except.error.inj failed
      exact ⟨[], input, rest, rfl, fun earlier member => absurd member List.not_mem_nil, first⟩
    | ok output =>
      cases later : rest.mapM f with
      | error other =>
        rw [first, later] at failed
        obtain rfl := Except.error.inj failed
        obtain ⟨before, here, after, split, fine, wrong⟩ := ih later
        exact ⟨input :: before, here, after, congrArg _ split,
          List.forall_mem_cons.mpr ⟨⟨output, first⟩, fine⟩, wrong⟩
      | ok others =>
        rw [first, later] at failed
        exact nomatch failed

/-! ### Sessions -/

/-- The calls that a session takes. -/
inductive SessionCall where
  | evaluate
  | run

namespace Session

/-- The session works on the job, with a sound cache over the points of its grid. -/
structure Holds (job : Job Float) (session : Session Float) : Prop where
  job_eq : session.job = job
  sound : session.cache.Sound job.grid.points

theorem start_holds (job : Job Float) : Holds job (start job) :=
  ⟨rfl, fun _ member => absurd member List.not_mem_nil⟩

theorem Holds.evaluate_fresh {job : Job Float} {session : Session Float}
    (holds : Holds job session)
    (comparable : ∀ request ∈ job.requests, Comparable request.alpha) :
    session.evaluate.1 = job.requests.mapM (Request.evaluateFresh job.grid.points) := by
  obtain ⟨rfl, sound⟩ := holds
  exact AuxiliaryCache.evaluateAll_eq_fresh sound comparable

section Calls
variable [Report.JsonNumbers]

/-- The session after a call, whether the call has failed or not. -/
def after (session : Session Float) : SessionCall → Session Float
  | .evaluate => session.evaluate.2
  | .run => session.run.2

theorem run_snd (session : Session Float) : session.run.2 = session.evaluate.2 := by
  rw [run]
  split <;> rename_i evaluated <;> rw [evaluated]

theorem after_eq (session : Session Float) (call : SessionCall) :
    session.after call = session.evaluate.2 := by
  cases call with
  | evaluate => rfl
  | run => exact session.run_snd

variable {job : Job Float}

theorem Holds.after_call {session : Session Float} (holds : Holds job session)
    (call : SessionCall) : Holds job (session.after call) := by
  obtain ⟨rfl, sound⟩ := holds
  rw [after_eq]
  exact ⟨rfl, AuxiliaryCache.evaluateAll_sound sound _⟩

theorem Holds.after_calls {session : Session Float} (holds : Holds job session)
    (calls : List SessionCall) : Holds job (calls.foldl after session) := by
  induction calls generalizing session with
  | nil => exact holds
  | cons call rest ih => exact ih (holds.after_call call)

/--
Whatever calls a session has had, failed ones included, it evaluates as if it had no cache: each
request on its own, by the integral of its kind. An evaluation that returns has one column for each
request, with one value for each point. One that fails has the error of the first request that fails
on its own.
-/
theorem evaluate_eq_fresh (job : Job Float)
    (numbers : ∀ request ∈ job.requests, request.alpha.isNaN = false) (calls : List SessionCall) :
    let points := job.grid.points
    let outcome := (calls.foldl after (start job)).evaluate.1
    outcome = job.requests.mapM (Request.evaluateFresh points) ∧
    (∀ request ∈ job.requests, request.IntegralOver points (request.evaluateFresh points)) ∧
    (∀ columns, outcome = .ok columns →
      List.Forall₂ (fun request column => request.evaluateFresh points = .ok column ∧
        column.length = points.length) job.requests columns) ∧
    ∀ e, outcome = .error e → FirstFailure (Request.evaluateFresh points) job.requests e := by
  intro points outcome
  have comparable : ∀ request ∈ job.requests, Comparable request.alpha := by
    intro request member key positive
    exact DoubleOrder.eq_of_not_lt positive (numbers request member)
  have fresh : outcome = job.requests.mapM (Request.evaluateFresh points) :=
    ((start_holds job).after_calls calls).evaluate_fresh comparable
  refine ⟨fresh, fun request _ => request.integralOver_evaluateFresh points, ?_, ?_⟩
  · intro columns ok
    exact (mapM_ok_forall₂ (fresh.symm.trans ok)).imp
      fun request column evaluated => ⟨evaluated, evaluateFresh_length evaluated⟩
  · intro e failed
    exact mapM_error_first (fresh.symm.trans failed)

end Calls

/-- A job whose second request has an odd order. -/
def twoPoints : Job Float where
  grid := ⟨.explicit, 0, [1, 2], false⟩
  requests := [⟨.inner, 2, 2, 0⟩, ⟨.outer, 2, 3, 0⟩, ⟨.outer, 0, 2, 0⟩]
  options := ⟨.text, 6, false⟩

/-- The job up to its failing request. -/
def oneColumn : Job Float := { twoPoints with requests := [⟨.inner, 2, 2, 0⟩] }

theorem evaluate_eq_fresh_two_points :
    (∀ request ∈ twoPoints.requests, request.alpha.isNaN = false) ∧
      ([SessionCall.evaluate, .run].foldl after (start twoPoints)).evaluate.1 =
        .error .oddOrder ∧
      (∀ request ∈ oneColumn.requests, request.alpha.isNaN = false) ∧
      ∃ aux column, auxiliary [1, 2] (2 : Float) = .ok aux ∧
        innerIntegral [1, 2] aux 2 2 2 = .ok column ∧ column.length = 2 ∧
        ([SessionCall.run, .evaluate].foldl after (start oneColumn)).evaluate.1 =
          .ok [column] := by
  have numbers : ∀ request ∈ twoPoints.requests, request.alpha.isNaN = false := by decide
  have number : ∀ request ∈ oneColumn.requests, request.alpha.isNaN = false := by decide
  exact ⟨numbers, (evaluate_eq_fresh twoPoints numbers [.evaluate, .run]).1.trans rfl, number,
    _, _, rfl, rfl, rfl, (evaluate_eq_fresh oneColumn number [.run, .evaluate]).1.trans rfl⟩

end Session

end GaussianRadial
