import Mathlib
import GaussianRadial.Input.Reader
import GaussianRadial.Proofs.AllOrNothing
import GaussianRadial.Proofs.AuxiliaryCache
import GaussianRadial.Proofs.GridValidation
import GaussianRadial.Proofs.RoundTrip
import GaussianRadial.Proofs.WritableFiles
import GaussianRadial.Report
import GaussianRadial.Report.ShortestNumbers

/-!
# Accepted jobs

A job that was read from a file meets the preconditions of every integral that it asks for. So each
of its evaluations has all columns and each of its runs writes a whole report, in either format,
with limits or without: `accepted_job_completes`.
-/

namespace GaussianRadial

/-! ### Admitted requests -/

/-- What an integral needs of the exponent and the orders of a request. -/
structure Request.Admitted (request : Request Float) : Prop where
  positive : ((0 : ℕ) : Float) < request.alpha
  single : request.kind ≠ .innerPotential → Even request.l₁ ∧ 0 ≤ request.l₁
  double : request.kind = .innerPotential →
    Even (request.l₁ + request.l₂) ∧ request.l₂ ≤ request.l₁ ∧ 0 ≤ request.l₂

/-- The call on an array that a request stands for. -/
def Request.call (samples : List Float) (aux : Auxiliary Float) (request : Request Float) :
    Call Float :=
  match request.kind with
  | .inner => innerCall samples aux request.alpha request.l₁
  | .innerPotential => innerPotentialCall samples aux request.alpha request.l₁ request.l₂
  | .outer => outerCall samples aux.expa request.alpha request.l₁

/-- Nothing that is done for a request over the samples fails. -/
structure Request.Completes (samples : List Float) (request : Request Float) : Prop where
  values : ∃ aux, auxiliary samples request.alpha = .ok aux ∧
    (∃ column, request.evaluate samples aux = .ok column) ∧
    ∀ output : List Float, output.length = samples.length →
      ((request.call samples aux).run output).1 = none
  limit : ∃ limit, request.limit? = .ok limit

section Admitted
variable {request : Request Float} {samples : List Float}

theorem Call.AllOrNothing.run_none {call : Call Float}
    {integral : ℕ → Except (IntegralError Float) (List Float)} {output : List Float}
    {admitted : Prop} {valuesRight : List Float → Prop}
    (either : call.AllOrNothing integral output admitted valuesRight) (holds : admitted) :
    (call.run output).1 = none := by
  obtain ⟨refused, -⟩ | ⟨-, values, -, run, -⟩ := either
  · exact absurd holds refused
  · rw [run]

theorem Request.Admitted.order (admitted : request.Admitted)
    (single : request.kind ≠ .innerPotential) :
    Even request.l₁ ∧ 0 ≤ request.l₁ ∧ ((0 : ℕ) : Float) < request.alpha :=
  ⟨(admitted.single single).1, (admitted.single single).2, admitted.positive⟩

theorem Request.Admitted.orders (admitted : request.Admitted)
    (double : request.kind = .innerPotential) :
    Even (request.l₁ + request.l₂) ∧ request.l₂ ≤ request.l₁ ∧ 0 ≤ request.l₂ ∧
      ((0 : ℕ) : Float) < request.alpha :=
  ⟨(admitted.double double).1, (admitted.double double).2.1, (admitted.double double).2.2,
    admitted.positive⟩

theorem Request.Admitted.limit (admitted : request.Admitted) :
    ∃ limit, request.limit? = .ok limit := by
  rw [limit?]
  split <;> rename_i kind
  · have checked := checkOrder_ok_iff.mpr (admitted.order (by simp [kind]))
    rw [innerLimit, checked]
    exact ⟨_, rfl⟩
  · exact ⟨none, rfl⟩
  · have checked := checkOrder_ok_iff.mpr (admitted.order (by simp [kind]))
    rw [outerOrigin, checked]
    exact ⟨_, rfl⟩

theorem Request.Admitted.evaluate {aux : Auxiliary Float} (admitted : request.Admitted)
    (expa : aux.expa.length = samples.length) (erfa : aux.erfa.length = samples.length) :
    ∃ column, request.evaluate samples aux = .ok column := by
  rw [Request.evaluate]
  split <;> rename_i kind
  · exact ⟨_, innerIntegral_ok_iff.mpr ⟨admitted.order (by simp [kind]), rfl, expa, erfa, rfl⟩⟩
  · exact ⟨_, innerPotential_ok_iff.mpr ⟨admitted.orders kind, rfl, expa, erfa, rfl⟩⟩
  · exact ⟨_, outerIntegral_ok_iff.mpr ⟨admitted.order (by simp [kind]), rfl, expa, rfl⟩⟩

theorem Request.admitted_of_evaluate {aux : Auxiliary Float} {column : List Float}
    (ok : request.evaluate samples aux = .ok column) : request.Admitted := by
  rw [Request.evaluate] at ok
  split at ok <;> rename_i kind
  · obtain ⟨⟨even, nonneg, positive⟩, -⟩ := innerIntegral_ok_iff.mp ok
    exact ⟨positive, fun _ => ⟨even, nonneg⟩, fun other => by simp [kind] at other⟩
  · obtain ⟨⟨even, descending, nonneg, positive⟩, -⟩ := innerPotential_ok_iff.mp ok
    exact ⟨positive, fun other => absurd kind other, fun _ => ⟨even, descending, nonneg⟩⟩
  · obtain ⟨⟨even, nonneg, positive⟩, -⟩ := outerIntegral_ok_iff.mp ok
    exact ⟨positive, fun _ => ⟨even, nonneg⟩, fun other => by simp [kind] at other⟩

/-- A positive exponent is a number. -/
theorem Request.Admitted.comparable (admitted : request.Admitted) : Comparable request.alpha :=
  fun _ positive => DoubleOrder.eq_of_not_lt positive (DoubleOrder.isNaN_of_lt admitted.positive)

theorem Request.Admitted.call_run {aux : Auxiliary Float} (admitted : request.Admitted)
    (expa : aux.expa.length = samples.length) (erfa : aux.erfa.length = samples.length)
    {output : List Float} (length : output.length = samples.length) :
    ((request.call samples aux).run output).1 = none := by
  rw [call]
  split <;> rename_i kind
  · exact (innerCall_allOrNothing ..).run_none ⟨admitted.order (by simp [kind]), length, expa, erfa⟩
  · exact (innerPotentialCall_allOrNothing ..).run_none
      ⟨admitted.orders kind, length, expa, erfa⟩
  · exact (outerCall_allOrNothing ..).run_none ⟨admitted.order (by simp [kind]), length, expa⟩

theorem Request.Admitted.completes (admitted : request.Admitted) (samples : List Float) :
    request.Completes samples := by
  refine ⟨?_, admitted.limit⟩
  rw [auxiliary, checkExponent_ok_iff.mpr admitted.positive]
  refine ⟨_, rfl, admitted.evaluate ?_ ?_, fun output length => admitted.call_run ?_ ?_ length⟩
  all_goals exact List.length_map _

theorem Request.Completes.evaluateFresh (completes : request.Completes samples) :
    ∃ column, request.evaluateFresh samples = .ok column := by
  obtain ⟨aux, computed, ⟨column, evaluated⟩, -⟩ := completes.values
  refine ⟨column, ?_⟩
  rw [Request.evaluateFresh, computed]
  exact evaluated

theorem Request.admitted_of_evaluateFresh {column : List Float}
    (ok : request.evaluateFresh samples = .ok column) : request.Admitted := by
  rw [evaluateFresh] at ok
  cases computed : auxiliary samples request.alpha with
  | error e =>
    rw [computed] at ok
    contradiction
  | ok aux =>
    rw [computed] at ok
    exact admitted_of_evaluate ok

/-- A request fails over all samples or over none. -/
theorem Request.evaluateFresh_error_iff :
    (∃ e, request.evaluateFresh samples = .error e) ↔ ¬ request.Admitted := by
  constructor
  · rintro ⟨e, failed⟩ admitted
    obtain ⟨column, ok⟩ := (admitted.completes samples).evaluateFresh
    rw [failed] at ok
    contradiction
  · intro refused
    cases outcome : request.evaluateFresh samples with
    | error e => exact ⟨e, rfl⟩
    | ok column => exact absurd (admitted_of_evaluateFresh outcome) refused

end Admitted

/-! ### Reports without error -/

section Reports
open Report
variable {job : Job Float}

theorem mapM_ok {α β ε : Type} {f : α → Except ε β} {inputs : List α}
    (all : ∀ input ∈ inputs, ∃ output, f input = .ok output) :
    ∃ outputs, inputs.mapM f = .ok outputs := by
  induction inputs with
  | nil => exact ⟨[], rfl⟩
  | cons input rest ih =>
    obtain ⟨here, later⟩ := List.forall_mem_cons.mp all
    obtain ⟨output, first⟩ := here
    obtain ⟨outputs, others⟩ := ih later
    refine ⟨output :: outputs, ?_⟩
    rw [List.mapM_cons, first, others]
    rfl

theorem untilError_ok {ε β : Type} {pieces : List (Except ε β)}
    (all : ∀ piece ∈ pieces, ∃ x, piece = .ok x) : (untilError pieces).2 = none := by
  induction pieces with
  | nil => rfl
  | cons piece rest ih =>
    obtain ⟨⟨x, rfl⟩, later⟩ := List.forall_mem_cons.mp all
    exact ih later

theorem checkPrecision_ok {precision : ℤ} (nonneg : 0 ≤ precision) :
    checkPrecision precision = .ok () := by
  rw [checkPrecision, if_neg (by omega)]

theorem checkedTable_ok (nonneg : 0 ≤ job.options.precision) (columns : List (List Float)) :
    checkedTable job columns = .ok (table job columns) := by
  rw [checkedTable, checkPrecision_ok nonneg]
  cases job.grid.points.isEmpty <;> rfl

theorem limitLines_ok {requests : List (Request Float)} {precision : ℤ}
    (limits : ∀ request ∈ requests, ∃ limit, request.limit? = .ok limit)
    (nonneg : 0 ≤ precision) : ∃ lines, limitLines precision requests = .ok lines := by
  induction requests with
  | nil => exact ⟨_, rfl⟩
  | cons request rest ih =>
    obtain ⟨⟨limit, here⟩, later⟩ := List.forall_mem_cons.mp limits
    obtain ⟨lines, others⟩ := ih later
    rw [limitLines, limitLine, here, others, checkPrecision_ok nonneg]
    cases limit <;> exact ⟨_, rfl⟩

theorem entriesOf_ok {results : List (Request Float × List Float)}
    (limits : ∀ result ∈ results, ∃ limit, result.1.limit? = .ok limit) (withLimits : Bool) :
    ∃ entries, entriesOf withLimits results = .ok entries := by
  induction results with
  | nil => exact ⟨_, rfl⟩
  | cons result rest ih =>
    obtain ⟨⟨limit, here⟩, later⟩ := List.forall_mem_cons.mp limits
    obtain ⟨entries, others⟩ := ih later
    rw [entriesOf, Entry.of, here, others]
    cases withLimits <;> exact ⟨_, rfl⟩

theorem document_ok (limits : ∀ request ∈ job.requests, ∃ limit, request.limit? = .ok limit)
    (columns : List (List Float)) : ∃ document, Document.of job columns = .ok document := by
  have ofResults : ∀ result ∈ job.requests.zip columns, ∃ limit, result.1.limit? = .ok limit :=
    fun result member => limits result.1 (List.of_mem_zip member).1
  obtain ⟨entries, made⟩ := entriesOf_ok ofResults job.options.limits
  rw [Document.of, made]
  exact ⟨_, rfl⟩

theorem limits_ok (limits : ∀ request ∈ job.requests, ∃ limit, request.limit? = .ok limit)
    (nonneg : 0 ≤ job.options.precision) : ∃ text, Report.limits job = .ok text := by
  obtain ⟨lines, made⟩ := limitLines_ok limits nonneg
  rw [Report.limits, made]
  exact ⟨_, rfl⟩

section Texts
variable [JsonNumbers]

theorem reportPieces_ok (limits : ∀ request ∈ job.requests, ∃ limit, request.limit? = .ok limit)
    (nonneg : 0 ≤ job.options.precision) (columns : List (List Float)) :
    ∀ piece ∈ reportPieces job columns, ∃ text, piece = .ok text := by
  rw [reportPieces]
  split
  · obtain ⟨document, made⟩ := document_ok limits columns
    rw [made]
    exact List.forall_mem_singleton.mpr ⟨_, rfl⟩
  · intro piece member
    simp only [List.mem_append, List.mem_cons, List.not_mem_nil, or_false] at member
    obtain (rfl | limitsPiece) | rfl | rfl | rfl := member
    · exact ⟨_, rfl⟩
    · rw [List.mem_ite_nil_right, List.mem_singleton] at limitsPiece
      rw [limitsPiece.2]
      exact limits_ok limits nonneg
    · exact ⟨_, rfl⟩
    · exact ⟨_, checkedTable_ok nonneg columns⟩
    · exact ⟨_, rfl⟩

/-- After an evaluation that returns, a run has the pieces of the report up to the first error. -/
theorem Session.run_of_evaluate {session : Session Float} {columns : List (List Float)}
    (evaluated : session.evaluate.1 = .ok columns) :
    session.run.1 = ⟨(untilError (reportPieces session.job columns)).1,
      (untilError (reportPieces session.job columns)).2⟩ := by
  have same : session.evaluate = (.ok columns, session.evaluate.2) := Prod.ext evaluated rfl
  rw [run, same]
  rfl

/-- A session over requests that complete has all columns, and its run ends without error. -/
theorem Session.Holds.complete {session : Session Float} (holds : Holds job session)
    (comparable : ∀ request ∈ job.requests, Comparable request.alpha)
    (completes : ∀ request ∈ job.requests, request.Completes job.grid.points)
    (nonneg : 0 ≤ job.options.precision) :
    (∃ columns, session.evaluate.1 = .ok columns) ∧ session.run.1.error = none := by
  obtain ⟨columns, all⟩ := mapM_ok fun request member => (completes request member).evaluateFresh
  have evaluated := (holds.evaluate_fresh comparable).trans all
  refine ⟨⟨columns, evaluated⟩, ?_⟩
  rw [run_of_evaluate evaluated, holds.job_eq]
  exact untilError_ok
    (reportPieces_ok (fun request member => (completes request member).limit) nonneg columns)

end Texts

end Reports

/-! ### Jobs of files -/

namespace Input

theorem requestFaults_of_requestsFaults {position : ℕ} {requests : List (Request Float)}
    (valid : requestsFaults position requests = []) :
    ∀ request ∈ requests, requestFaults request = [] := by
  induction requests generalizing position with
  | nil => exact fun request member => nomatch member
  | cons request rest ih =>
    obtain ⟨here, later⟩ := List.append_eq_nil_iff.mp valid
    exact List.forall_mem_cons.mpr ⟨List.map_eq_nil_iff.mp here, ih later⟩

theorem admitted_of_faults {request : Request Float} (number : request.alpha.isNaN = false)
    (valid : requestFaults request = []) : request.Admitted := by
  rw [requestFaults, List.append_eq_nil_iff, faultIf_eq_nil_iff, decide_eq_false_iff_not] at valid
  obtain ⟨exponent, orders⟩ := valid
  refine ⟨positive_of_not_le number exponent, fun single => ?_, fun double => ?_⟩
  · split at orders
    · contradiction
    · simp only [List.append_eq_nil_iff, faultIf_eq_nil_iff, decide_eq_false_iff_not,
        bne_eq_false_iff_eq, Int.not_lt] at orders
      exact ⟨Int.even_iff.mpr orders.2, orders.1⟩
  · rw [double] at orders
    simp only [List.append_eq_nil_iff, faultIf_eq_nil_iff, decide_eq_false_iff_not,
      bne_eq_false_iff_eq, Int.not_lt] at orders
    exact ⟨Int.even_iff.mpr orders.1.2, orders.2, orders.1.1⟩

theorem faults_of_admitted {request : Request Float} (admitted : request.Admitted) :
    requestFaults request = [] := by
  have exponent : ¬ request.alpha ≤ 0.0 :=
    (DoubleOrder.lt_iff_not_le (by decide) (DoubleOrder.isNaN_of_lt admitted.positive)).mp
      admitted.positive
  rw [requestFaults, List.append_eq_nil_iff, faultIf_eq_nil_iff, decide_eq_false_iff_not]
  refine ⟨exponent, ?_⟩
  split
  · rename_i kind
    obtain ⟨even, descending, nonneg, -⟩ := admitted.orders kind
    simp only [List.append_eq_nil_iff, faultIf_eq_nil_iff, decide_eq_false_iff_not,
      bne_eq_false_iff_eq, Int.not_lt]
    exact ⟨⟨nonneg, Int.even_iff.mp even⟩, descending⟩
  · rename_i single
    obtain ⟨even, nonneg, -⟩ := admitted.order single
    simp only [List.append_eq_nil_iff, faultIf_eq_nil_iff, decide_eq_false_iff_not,
      bne_eq_false_iff_eq, Int.not_lt]
    exact ⟨nonneg, Int.even_iff.mp even⟩

theorem precision_of_faults {options : ReportOptions} (valid : outputFaults options = []) :
    1 ≤ options.precision ∧ options.precision ≤ 17 := by
  simp only [outputFaults, faultIf_eq_nil_iff, Bool.or_eq_false_iff, decide_eq_false_iff_not,
    Int.not_lt] at valid
  exact valid

theorem exists_settings_of_read {reader : Reader} {contents : Option String} {job : Job Float}
    (accepted : (reader.read contents).1 = .ok job) :
    ∃ text settings, Settings.ofText text = .ok settings ∧ settings.job = .ok job := by
  cases contents with
  | none => cases accepted
  | some text =>
    obtain ⟨items, inText, ok⟩ := Reader.read_ok_iff.mp accepted
    exact ⟨text, _, settings_ofText_iff.mpr ⟨items, inText, rfl⟩, ok⟩

/-- A job whose exponents are numbers, whose requests are admitted and whose precision is in range. -/
structure JobAdmitted (job : Job Float) : Prop where
  numbers : ∀ request ∈ job.requests, request.alpha.isNaN = false
  requests : ∀ request ∈ job.requests, request.Admitted
  precision : 1 ≤ job.options.precision ∧ job.options.precision ≤ 17

theorem JobAdmitted.comparable {job : Job Float} (admitted : JobAdmitted job) :
    ∀ request ∈ job.requests, Comparable request.alpha :=
  fun request member _ positive =>
    DoubleOrder.eq_of_not_lt positive (admitted.numbers request member)

theorem JobAdmitted.completes {job : Job Float} (admitted : JobAdmitted job) :
    ∀ request ∈ job.requests, request.Completes job.grid.points :=
  fun request member => (admitted.requests request member).completes _

theorem admitted_of_read {reader : Reader} {contents : Option String} {job : Job Float}
    (accepted : (reader.read contents).1 = .ok job) : JobAdmitted job := by
  obtain ⟨text, settings, read, ok⟩ := exists_settings_of_read accepted
  obtain ⟨valid, grid, -, rfl⟩ := job_ok_iff.mp ok
  have numbers := (settings_numbers read).alpha
  simp only [Settings.faults, List.append_eq_nil_iff] at valid
  obtain ⟨⟨-, requests⟩, options⟩ := valid
  refine ⟨numbers, fun request member => ?_, precision_of_faults options⟩
  exact admitted_of_faults (numbers request member)
    (requestFaults_of_requestsFaults requests request member)

/--
A job that was read from a file has a precision from 1 to 17 and only requests that complete. A
session over it, in either format and with limits or without, evaluates to all columns and runs
without error, whatever calls it has had, and a log that can be written takes all that a run
appends.
-/
theorem accepted_job_completes [Report.JsonNumbers] {reader : Reader}
    {contents : Option String} {job : Job Float} (accepted : (reader.read contents).1 = .ok job) :
    (1 ≤ job.options.precision ∧ job.options.precision ≤ 17) ∧
    (∀ request ∈ job.requests, request.Completes job.grid.points) ∧
    ∀ (format : ReportFormat) (limits : Bool) (calls : List SessionCall),
      let session := calls.foldl Session.after
        (Session.start { job with options := { job.options with format, limits } })
      (∃ columns, session.evaluate.1 = .ok columns) ∧ session.run.1.error = none ∧
      ∀ (store : FileStore) (log : Log), store.Writable log.name →
        ∃ next, (log.appendAll session.run.1.pieces :
          StateM FileStore (Except LogError Unit)) store = (.ok (), next) := by
  have admitted := admitted_of_read accepted
  refine ⟨admitted.precision, admitted.completes, fun format limits calls => ?_⟩
  have holds := (Session.start_holds
    { job with options := { job.options with format, limits } }).after_calls calls
  obtain ⟨columns, complete⟩ := holds.complete admitted.comparable admitted.completes
    (Int.le_of_lt admitted.precision.1)
  refine ⟨columns, complete, fun store log writable => ?_⟩
  obtain ⟨next, appended, -⟩ := Log.appendAll_ok writable _
  exact ⟨next, appended⟩

theorem accepted_job_completes_scattered :
    ∃ job, ((Reader.ofName "scattered").read (some scatteredText)).1 = .ok job ∧
      FileStore.empty.Writable "report" ∧
      let session := Session.start { job with options := { job.options with format := .json } }
      session.run.1.error = none ∧
        ∃ next, (Log.appendAll ⟨"report"⟩ session.run.1.pieces :
          StateM FileStore (Except LogError Unit)) FileStore.empty = (.ok (), next) := by
  obtain ⟨grid, built⟩ := scattered_build
  have accepted := job_ok_iff.mpr ⟨scattered_valid, grid, built, rfl⟩
  have read :
      ((Reader.ofName "scattered").read (some scatteredText)).1 = scatteredSettings.job := by
    rw [Reader.read, ofFile, ofText, settings_ofText_written scattered_written]
  have writable : FileStore.empty.Writable "report" :=
    ⟨["tmp", "work", "report"], by decide +kernel, by decide +kernel⟩
  obtain ⟨-, -, complete⟩ := accepted_job_completes (read.trans accepted)
  obtain ⟨-, whole, appended⟩ := complete .json scatteredSettings.output.options.limits []
  exact ⟨_, read.trans accepted, writable, whole, appended FileStore.empty ⟨"report"⟩ writable⟩

end Input

end GaussianRadial
