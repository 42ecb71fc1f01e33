import Mathlib
import GaussianRadial.Input.Recording

/-!
# Readers without a history

What a reading leads to and the warnings after it depend on the name and the contents of the file
alone, wherever the reading ends. So a reader that has read before, with or without success, reads
as a new one does: `reading_eq_fresh`.
-/

namespace GaussianRadial.Input

namespace Recording
variable {α β : Type}

theorem outcome_bind (steps : Recording α) (next : α → Recording β) (warnings : List Warning) :
    outcome (steps >>= next) warnings =
      match steps.outcome warnings with
      | (.error e, recorded) => (.error e, recorded)
      | (.ok value, recorded) => (next value).outcome recorded := by
  show StateT.run (ExceptT.run (ExceptT.bind steps next)) warnings = _
  rw [outcome]
  simp only [ExceptT.run, ExceptT.bind, ExceptT.mk, StateT.run, bind, StateT.bind]
  cases (steps : StateM _ _) warnings with
  | mk result recorded => cases result <;> rfl

theorem outcome_clear (warnings : List Warning) : clear.outcome warnings = (.ok (), []) := rfl

theorem outcome_openFile (name text : String) (warnings : List Warning) :
    (openFile name (some text)).outcome warnings = (.ok text, warnings) := rfl

theorem outcome_ofExcept (result : Except Error α) (warnings : List Warning) :
    outcome (ofExcept result) warnings = (result, warnings) := by
  cases result <;> rfl

theorem outcome_recordIf (condition : Bool) (warning : Warning) (warnings : List Warning) :
    (recordIf condition warning).outcome warnings =
      (.ok (), warnings ++ faultIf condition warning) := by
  cases condition with
  | false =>
    rw [faultIf, if_neg (by decide), List.append_nil]
    rfl
  | true => rfl

end Recording

open Recording

/-! ### Steps of a reading -/

theorem Settings.outcome_recordWarnings (settings : Settings) (warnings : List Warning) :
    settings.recordWarnings.outcome warnings = (.ok (), warnings ++ settings.warnings) := by
  simp only [recordWarnings, outcome_bind, outcome_recordIf, Settings.warnings, List.append_assoc]

/-- The warnings are recorded before it matters whether there are faults. -/
theorem Settings.outcome_validate (settings : Settings) (faults : List Fault)
    (warnings : List Warning) :
    (settings.validate faults).outcome warnings =
      (if faults.isEmpty then .ok () else .error (.faulty faults),
        warnings ++ settings.warnings) := by
  simp only [validate, outcome_bind, outcome_recordWarnings]
  split <;> rfl

theorem Settings.outcome_validated (settings : Settings) (warnings : List Warning) :
    outcome (settings.validate settings.faults >>= fun _ => settings.buildJob) warnings =
      (settings.job, warnings ++ settings.warnings) := by
  rw [outcome_bind, outcome_validate, job]
  cases settings.faults.isEmpty with
  | false => rfl
  | true =>
    simp only [if_true]
    rw [buildJob]
    cases settings.grid.build <;> rfl

/-- Whatever the reader holds, the steps lead where the contents of the file lead. -/
theorem outcome_readingSteps (name : String) (contents : Option String) (warnings : List Warning) :
    (readingSteps name contents).outcome warnings = ofFile name contents := by
  cases contents with
  | none => rfl
  | some text =>
    rw [readingSteps, ofFile, ofText, Settings.ofText]
    simp only [outcome_bind, outcome_clear, outcome_openFile, outcome_ofExcept]
    cases Sections.ofText text with
    | error e => rfl
    | ok sections =>
      simp only [Bind.bind, Except.bind]
      cases Settings.ofSections sections with
      | error e => rfl
      | ok settings =>
        simpa only [outcome_bind, List.nil_append] using settings.outcome_validated []

/-! ### Histories -/

namespace Reader

theorem readStepwise_eq_read (reader : Reader) (contents : Option String) :
    reader.readStepwise contents = reader.read contents := by
  rw [readStepwise, read, outcome_readingSteps]

/-- What happens to a file and to a reader of it. -/
inductive Step where
  | replace (text : String)
  | remove
  | read
  deriving DecidableEq

/-- The contents of a file, if there is one, and a reader of it. -/
structure State where
  contents : Option String
  reader : Reader
  deriving DecidableEq

def State.after (state : State) : Step → State
  | .replace text => { state with contents := some text }
  | .remove => { state with contents := none }
  | .read => { state with reader := (state.reader.readStepwise state.contents).2 }

theorem State.after_name (state : State) (steps : List Step) :
    (steps.foldl after state).reader.name = state.reader.name := by
  induction steps generalizing state with
  | nil => rfl
  | cons step rest ih =>
    rw [List.foldl_cons, ih]
    cases step <;> rfl

/--
After any replacements and removals of its file and any readings, failed ones included, a reader
reads as a new one reads the file as it is. A reading that fails before the settings are known
leaves no warnings. One that gets to know them leaves all their warnings, also if they are faulty.
-/
theorem reading_eq_fresh (name : String) (contents : Option String) (steps : List Step) :
    let state := steps.foldl State.after ⟨contents, ofName name⟩
    let reading := state.reader.readStepwise state.contents
    reading = (ofName name).readStepwise state.contents ∧
    reading = (ofName name).read state.contents ∧
    (state.contents = none → reading = (.error (.cannotOpen name), ⟨name, []⟩)) ∧
    ∀ text, state.contents = some text →
      (∀ e, Settings.ofText text = .error e → reading = (.error e, ⟨name, []⟩)) ∧
      ∀ settings, Settings.ofText text = .ok settings →
        reading = (settings.job, ⟨name, settings.warnings⟩) := by
  intro state reading
  have sameName : state.reader.name = name := State.after_name _ steps
  have fresh : reading = (ofName name).read state.contents := by
    rw [← sameName]
    exact readStepwise_eq_read _ _
  refine ⟨fresh.trans (readStepwise_eq_read _ _).symm, fresh, ?_, ?_⟩
  · intro missing
    rw [fresh, missing]
    rfl
  · intro text present
    rw [fresh, present]
    refine ⟨fun e failed => ?_, fun settings read => ?_⟩
    · rw [Reader.read, ofFile, ofText, failed]
      rfl
    · rw [Reader.read, ofFile, ofText, read]
      rfl

end Reader

end GaussianRadial.Input
