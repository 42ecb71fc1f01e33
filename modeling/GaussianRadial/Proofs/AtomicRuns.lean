import Mathlib
import GaussianRadial.Proofs.FileContents
import GaussianRadial.Proofs.NumberLayouts
import GaussianRadial.Proofs.WholeReports

/-!
# Atomic runs

A run evaluates its job before it appends anything. Every request that the limits would refuse has
been refused by then, so nothing fails between the pieces of a report. A job therefore either fails
in every run and leaves the files as they are, or every run appends one and the same report, however
the session has been used before: `run_atomic`.
-/

namespace GaussianRadial
open Report (JsonNumbers LawfulJsonNumbers)

/-- Why the run of a session onto a log fails. -/
inductive RunError where
  | report (e : Report.ReportError)
  | log (e : LogError)

def SessionCall.isRun : SessionCall → Bool
  | run => true
  | evaluate => false

namespace Session

section Calls
variable [JsonNumbers] {m : Type → Type} [Monad m] [Files m]

/-- Appends the report of a session to a log. What stands before an error stays appended. -/
def runOnto (log : Log) (session : Session Float) : m (Option RunError × Session Float) := do
  let (run, session) := session.run
  match ← log.appendAll run.pieces with
  | .error e => return (some (.log e), session)
  | .ok () => return (run.error.map .report, session)

/-- Makes a call on a session whose runs append to a log. -/
def callOnto (log : Log) (session : Session Float) :
    SessionCall → m (Option RunError × Session Float)
  | .run => session.runOnto log
  | .evaluate =>
    match session.evaluate with
    | (.error e, session) => return (some (.report (.integral e)), session)
    | (.ok _, session) => return (none, session)

/-- Makes calls one after the other, up to the first that fails. -/
def callsOnto (log : Log) (session : Session Float) :
    List SessionCall → m (Option RunError × Session Float)
  | [] => return (none, session)
  | call :: calls => do
    match ← session.callOnto log call with
    | (some e, session) => return (some e, session)
    | (none, session) => callsOnto log session calls

end Calls

end Session

/-! ### Evaluations that return -/

section Evaluation
variable {samples : List Float} {requests : List (Request Float)} {columns : List (List Float)}

/-- Each integral checks its exponent and its orders, also where the cache has the arrays. -/
theorem AuxiliaryCache.admitted_of_evaluateAll {cache : AuxiliaryCache Float}
    (ok : (cache.evaluateAll samples requests).1 = .ok columns) :
    ∀ request ∈ requests, request.Admitted := by
  induction requests generalizing cache columns with
  | nil => simp
  | cons request rest ih =>
    rw [evaluateAll] at ok
    split at ok
    · contradiction
    · rename_i aux next fetched
      split at ok
      · contradiction
      · rename_i column evaluated
        cases later : (next.evaluateAll samples rest).1 with
        | error e => simp [later, Except.map] at ok
        | ok others =>
          exact List.forall_mem_cons.mpr ⟨Request.admitted_of_evaluate evaluated, ih later⟩

theorem admitted_of_mapM (ok : requests.mapM (Request.evaluateFresh samples) = .ok columns) :
    ∀ request ∈ requests, request.Admitted := by
  have evaluated := mapM_ok_forall₂ ok
  clear ok
  induction evaluated with
  | nil => simp
  | cons first _ ih =>
    exact List.forall_mem_cons.mpr ⟨Request.admitted_of_evaluateFresh first, ih⟩

end Evaluation

/-! ### One run -/

namespace Session
variable {job : Job Float} {session : Session Float} {columns : List (List Float)}

/-- Requests that are admitted have exponents that the cache tells apart. -/
theorem Holds.evaluate_admitted (holds : Holds job session)
    (admitted : ∀ request ∈ job.requests, request.Admitted) :
    session.evaluate.1 = job.requests.mapM (Request.evaluateFresh job.grid.points) :=
  holds.evaluate_fresh fun request member => (admitted request member).comparable

theorem Holds.admitted (holds : Holds job session) (ok : session.evaluate.1 = .ok columns) :
    ∀ request ∈ job.requests, request.Admitted := by
  obtain ⟨rfl, -⟩ := holds
  exact AuxiliaryCache.admitted_of_evaluateAll ok

/-- An evaluation returns in every session over a job or in none, and with the same columns. -/
theorem Holds.evaluate_ok_iff (holds : Holds job session) :
    session.evaluate.1 = .ok columns ↔
      job.requests.mapM (Request.evaluateFresh job.grid.points) = .ok columns := by
  constructor
  · intro ok
    exact (holds.evaluate_admitted (holds.admitted ok)).symm.trans ok
  · intro ok
    exact (holds.evaluate_admitted (admitted_of_mapM ok)).trans ok

/-- The text that calls append when each of their runs appends the report. -/
def appended (report : String) (calls : List SessionCall) : String :=
  String.join (List.replicate (calls.countP SessionCall.isRun) report)

theorem appended_cons (report : String) (call : SessionCall) (calls : List SessionCall) :
    appended report (call :: calls) = appended report [call] ++ appended report calls := by
  rw [appended, ← List.singleton_append, List.countP_append, List.replicate_add,
    String.join_append]
  rfl

theorem appended_run (report : String) : appended report [.run] = report :=
  String.empty_append

section Calls
variable [JsonNumbers]

/-- The text that a run of the job appends once its columns are evaluated. -/
def reportOf (job : Job Float) (columns : List (List Float)) : String :=
  String.join (untilError (reportPieces job columns)).1

variable {log : Log} {store : FileStore} {path : Path} {content : String}

theorem runOnto_of_error {e : IntegralError Float} (failed : session.evaluate.1 = .error e) :
    (session.runOnto log : StateM FileStore _) store =
      ((some (.report (.integral e)), session.after .run), store) := by
  have same : session.evaluate = (.error e, session.evaluate.2) := Prod.ext failed rfl
  rw [after_eq, runOnto, run, same]
  rfl

theorem Holds.runOnto_of_ok (nonneg : 0 ≤ job.options.precision) (holds : Holds job session)
    (ok : session.evaluate.1 = .ok columns) (before : store.Contains log.name path content) :
    ∃ next, (session.runOnto log : StateM FileStore _) store =
      ((none, session.after .run), next) ∧
        next.Contains log.name path (content ++ reportOf job columns) := by
  have limits := fun request member => (holds.admitted ok request member).limit
  have noError := untilError_ok (reportPieces_ok limits nonneg columns)
  have made := run_of_evaluate ok
  rw [holds.job_eq, noError] at made
  obtain ⟨next, appended, contains⟩ :=
    Log.appendAll_contains before (untilError (reportPieces job columns)).1
  refine ⟨next, ?_, contains⟩
  have same :
      session.run = (⟨(untilError (reportPieces job columns)).1, none⟩, session.after .run) :=
    Prod.ext made rfl
  rw [runOnto, same]
  simp only [bind, StateT.bind, appended]
  rfl

/-! ### Runs -/

theorem callOnto_evaluate (ok : session.evaluate.1 = .ok columns) :
    (session.callOnto log .evaluate : StateM FileStore _) store =
      ((none, session.after .evaluate), store) := by
  have same : session.evaluate = (.ok columns, session.evaluate.2) := Prod.ext ok rfl
  rw [after_eq, callOnto, same]
  rfl

theorem Holds.callOnto_of_ok (nonneg : 0 ≤ job.options.precision) (holds : Holds job session)
    (ok : session.evaluate.1 = .ok columns) (before : store.Contains log.name path content)
    (call : SessionCall) :
    ∃ next, (session.callOnto log call : StateM FileStore _) store =
      ((none, session.after call), next) ∧
        next.Contains log.name path (content ++ appended (reportOf job columns) [call]) := by
  cases call with
  | run =>
    rw [appended_run]
    exact holds.runOnto_of_ok nonneg ok before
  | evaluate =>
    refine ⟨store, callOnto_evaluate ok, ?_⟩
    exact String.append_empty.symm ▸ before

theorem callsOnto_cons {call : SessionCall} {calls : List SessionCall} {next : FileStore}
    (first : (session.callOnto log call : StateM FileStore _) store =
      ((none, session.after call), next)) :
    (session.callsOnto log (call :: calls) : StateM FileStore _) store =
      ((session.after call).callsOnto log calls : StateM FileStore _) next := by
  rw [callsOnto]
  simp only [bind, StateT.bind, first]

theorem Holds.callsOnto_of_ok (nonneg : 0 ≤ job.options.precision) (holds : Holds job session)
    (ok : session.evaluate.1 = .ok columns) (before : store.Contains log.name path content)
    (calls : List SessionCall) :
    ∃ next, (session.callsOnto log calls : StateM FileStore _) store =
      ((none, calls.foldl after session), next) ∧
        next.Contains log.name path (content ++ appended (reportOf job columns) calls) := by
  -- Each call leaves a session over the job and a file that can be written. What the job evaluates
  -- to does not depend on the session, so the induction is on the outcome without a cache.
  have fresh := holds.evaluate_ok_iff.mp ok
  clear ok
  induction calls generalizing session store content with
  | nil => exact ⟨store, rfl, String.append_empty.symm ▸ before⟩
  | cons call calls ih =>
    obtain ⟨next, first, between⟩ :=
      holds.callOnto_of_ok nonneg (holds.evaluate_ok_iff.mpr fresh) before call
    obtain ⟨last, others, contains⟩ := ih (holds.after_call call) between
    refine ⟨last, (callsOnto_cons first).trans others, ?_⟩
    rwa [appended_cons, ← String.append_assoc]

/-! ### All runs of a job -/

/-- A session over the job after a history of calls, failed ones included. -/
def reached (job : Job Float) (history : List SessionCall) : Session Float :=
  history.foldl after (start job)

theorem reached_holds (job : Job Float) (history : List SessionCall) :
    Holds job (reached job history) :=
  (start_holds job).after_calls history

/-- Every run fails in its evaluation and leaves all files as they are. -/
def RunsFail (job : Job Float) : Prop :=
  ∀ (history : List SessionCall) (log : Log) (store : FileStore),
    let session := reached job history
    ∃ e, session.evaluate.1 = .error e ∧
      (session.runOnto log : StateM FileStore _) store =
        ((some (.report (.integral e)), session.after .run), store)

/-- Every run appends the report, which is whole, to whatever the file holds. -/
structure RunsAppend (job : Job Float) (columns : List (List Float)) (report : String) : Prop where
  evaluates : ∀ history, (reached job history).evaluate.1 = .ok columns
  limits : ∃ text, Report.limits job = .ok text
  whole : WholeReport job columns report
  run : ∀ (history : List SessionCall) (log : Log) (store : FileStore) (path : Path)
    (content : String), store.Contains log.name path content →
    let session := reached job history
    ∃ next, (session.runOnto log : StateM FileStore _) store =
      ((none, session.after .run), next) ∧ next.Contains log.name path (content ++ report)
  calls : ∀ (history : List SessionCall) (log : Log) (store : FileStore) (path : Path)
    (content : String), store.Contains log.name path content → ∀ calls : List SessionCall,
    let session := reached job history
    ∃ next, (session.callsOnto log calls : StateM FileStore _) store =
      ((none, calls.foldl after session), next) ∧
        next.Contains log.name path (content ++ appended report calls)

/--
Either every run of a job fails and changes no file, or every run appends the same whole report,
whatever calls the session has had before and whatever the file holds. Only the evaluation decides
which, so the limits of a job that evaluates can always be made.
-/
theorem run_atomic [LawfulJsonNumbers] (job : Job Float) (precision : 1 ≤ job.options.precision) :
    RunsFail job ∨ ∃ columns report, RunsAppend job columns report := by
  have nonneg : 0 ≤ job.options.precision := by omega
  cases first : (start job).evaluate.1 with
  | error e =>
    left
    intro history log store session
    cases outcome : session.evaluate.1 with
    | error e => exact ⟨e, rfl, runOnto_of_error outcome⟩
    | ok columns =>
      -- An evaluation that returns now would have returned at the start.
      have fresh := (reached_holds job history).evaluate_ok_iff.mp outcome
      have atStart := (start_holds job).evaluate_ok_iff.mpr fresh
      rw [first] at atStart
      contradiction
  | ok columns =>
    right
    have fresh := (start_holds job).evaluate_ok_iff.mp first
    have evaluates := fun history => (reached_holds job history).evaluate_ok_iff.mpr fresh
    have admitted := (start_holds job).admitted first
    have limited := fun request member => (admitted request member).limit
    obtain ⟨shape, lengths⟩ := shape_of_mapM fresh
    refine ⟨columns, reportOf job columns, evaluates, limits_ok limited nonneg,
      wholeReport_of_pieces admitted precision shape lengths, ?_, ?_⟩
    · intro history log store path content before
      exact (reached_holds job history).runOnto_of_ok nonneg (evaluates history) before
    · intro history log store path content before calls
      exact (reached_holds job history).callsOnto_of_ok nonneg (evaluates history) before calls

end Calls

/-- A job with limits, and what a file holds before it runs. -/
def twoIntegrals : Job Float where
  grid := ⟨.explicit, 0, [1, 2], false⟩
  requests := [⟨.inner, 2, 2, 0⟩, ⟨.innerPotential, 2, 3, 1⟩, ⟨.outer, 2, 0, 0⟩]
  options := ⟨.text, 6, true⟩

def earlierReport : FileStore := FileStore.empty.putFile "report" "earlier"

theorem twoIntegrals_admitted : Input.JobAdmitted twoIntegrals where
  numbers := by decide
  requests := by
    simp only [twoIntegrals, List.forall_mem_cons, List.not_mem_nil, false_implies, implies_true,
      and_true]
    refine ⟨⟨?_, ?_, ?_⟩, ⟨?_, ?_, ?_⟩, ⟨?_, ?_, ?_⟩⟩
    all_goals decide
  precision := by decide

theorem earlierReport_contains :
    earlierReport.Contains "report" ["tmp", "work", "report"] "earlier" :=
  ⟨by decide +kernel, by decide +kernel⟩

/-- A grid without requests, whose report is known to the last character. -/
def pointsOnly (format : ReportFormat) : Job Float where
  grid := ⟨.explicit, 0, [1, 2.5], false⟩
  requests := []
  options := ⟨format, 3, true⟩

def pointsText : String :=
  let rule := String.ofList (List.replicate 99 '-')
  "Radial grid (explicit):\n\tNumber of points: 2\n\tRange:            [1.00000000, 2.50000000]\n\n"
    ++ "Full-range limits:\n\n" ++ rule ++ "\nRadial integrals (2 points, 0 integrals)\n" ++ rule
    ++ "\n               r\n       1.000e+00\n       2.500e+00\n" ++ rule ++ "\n"

def pointsJson : String :=
  "\x7b\n  \"grid\": \x7b\n    \"points\": [\n      1.0,\n      2.5\n    ],\n"
    ++ "    \"type\": \"explicit\"\n  \x7d,\n  \"integrals\": []\n\x7d\n"

theorem run_atomic_two_reports :
    1 ≤ twoIntegrals.options.precision ∧
    (∃ columns report, ∃ next : FileStore, WholeReport twoIntegrals columns report ∧
      ((start twoIntegrals).callsOnto ⟨"report"⟩ [.run, .evaluate, .run] :
        StateM FileStore _) earlierReport =
        ((none, reached twoIntegrals [.run, .evaluate, .run]), next) ∧
      next.content? "report" = some ("earlier" ++ (report ++ report))) ∧
    (∀ format, ∃ columns report, ∃ next : FileStore,
      WholeReport (pointsOnly format) columns report ∧
      ((start (pointsOnly format)).runOnto ⟨"report"⟩ : StateM FileStore _) earlierReport =
        ((none, reached (pointsOnly format) [.run]), next) ∧
      next.content? "report" = some ("earlier" ++ report) ∧
      report = if format = .json then pointsJson else pointsText) ∧
    ((start twoPoints).runOnto ⟨"report"⟩ : StateM FileStore _) earlierReport =
      ((some (.report (.integral .oddOrder)), (start twoPoints).after .run), earlierReport) := by
  refine ⟨by decide, ?_, fun format => ?_, ?_⟩
  · obtain ⟨values, evaluated, -⟩ := run_whole twoIntegrals_admitted
    obtain fails | ⟨columns, report, appends⟩ := run_atomic twoIntegrals (by decide)
    · obtain ⟨e, failed, -⟩ := fails [] ⟨"report"⟩ earlierReport
      exact absurd (failed.symm.trans evaluated) (by simp)
    · have twice : appended report [.run, .evaluate, .run] = report ++ report := by
        rw [appended_cons, appended_cons report .evaluate, appended_run]
        exact congrArg (report ++ ·) String.empty_append
      obtain ⟨next, ran, contains⟩ :=
        appends.calls [] ⟨"report"⟩ _ _ _ earlierReport_contains [.run, .evaluate, .run]
      rw [twice] at contains
      exact ⟨columns, report, next, appends.whole, ran, contains.content_eq⟩
  · have none : (start (pointsOnly format)).evaluate.1 = .ok [] := rfl
    have precision : 1 ≤ (pointsOnly format).options.precision := by
      cases format <;> decide
    obtain fails | ⟨columns, report, appends⟩ := run_atomic (pointsOnly format) precision
    · obtain ⟨e, failed, -⟩ := fails [] ⟨"report"⟩ earlierReport
      exact absurd (failed.symm.trans none) (by simp)
    · obtain ⟨next, ran, contains⟩ := appends.run [] ⟨"report"⟩ _ _ _ earlierReport_contains
      refine ⟨columns, report, next, appends.whole, ran, contains.content_eq, ?_⟩
      have content : (((start (pointsOnly format)).runOnto ⟨"report"⟩ :
          StateM FileStore _) earlierReport).2.content? "report" =
            some ("earlier" ++ if format = .json then pointsJson else pointsText) := by
        cases format <;> decide +kernel
      have same : ((start (pointsOnly format)).runOnto ⟨"report"⟩ : StateM FileStore _)
        earlierReport = _ := ran
      rw [same, contains.content_eq] at content
      simpa using content
  · obtain fails | ⟨columns, report, appends⟩ := run_atomic twoPoints (by decide)
    · obtain ⟨e, failed, ran⟩ := fails [] ⟨"report"⟩ earlierReport
      have odd : (start twoPoints).evaluate.1 = .error .oddOrder := rfl
      obtain rfl := Except.error.inj (failed.symm.trans odd)
      exact ran
    · have odd : (start twoPoints).evaluate.1 = .error .oddOrder := rfl
      exact absurd ((appends.evaluates []).symm.trans odd) (by simp)

end Session

end GaussianRadial
