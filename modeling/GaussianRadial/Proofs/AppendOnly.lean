import Mathlib
import GaussianRadial.Proofs.PlainNames

/-!
# Logs over time

Any number of logs write to files of the working directory, while files are removed and directories
are made and removed at their names. A file then holds what was written to its name since the last
time it was emptied or removed, from whichever log it came, and a log that fails changes nothing.
-/

namespace GaussianRadial

/-! ### Steps -/

/-- What a log does, and what is done to files beside the logs. -/
inductive LogStep
  | create (name : String)
  | append (log : Log) (text : String)
  | separator (log : Log) (mark : Char) (length : Nat)
  | header (log : Log) (title : String) (mark : Char) (length : Nat)
  | remove (name : String)
  | makeDirectory (name : String)

namespace LogStep

/-- The file that the step is about. -/
def name : LogStep → String
  | create name => name
  | append log _ => log.name
  | separator log _ _ => log.name
  | header log _ _ _ => log.name
  | remove name => name
  | makeDirectory name => name

def failure? {α : Type} : Except LogError α → Option LogError
  | .ok _ => none
  | .error e => some e

def outcome {α : Type} (action : StateM FileStore (Except LogError α)) (store : FileStore) :
    Option LogError × FileStore :=
  (action store).map failure? id

/-- Takes the step, and tells why it failed. -/
def run : LogStep → FileStore → Option LogError × FileStore
  | create name, store => outcome (Log.create name) store
  | append log text, store => outcome (log.append text) store
  | separator log mark length, store => outcome (log.separator mark length) store
  | header log title mark length, store => outcome (log.header title mark length) store
  | remove name, store => (none, store.remove name)
  | makeDirectory name, store => (none, store.makeDirectory name)

/-- The step leaves nothing of what the file held. -/
def empties : LogStep → Bool
  | create _ => true
  | remove _ => true
  | _ => false

/-- The text that the step adds to the file. -/
def payload? : LogStep → Option String
  | append _ text => some text
  | separator _ mark length => some (separatorText mark length)
  | header _ title mark length => some (headerText title mark length)
  | _ => none

/-- What the step can change, given the path of its name: removing a directory empties it. -/
def Reaches (step : LogStep) (path other : Path) : Prop :=
  match step with
  | remove _ => path <+: other
  | _ => other = path

/-- The new contents of the file of a log, given the old ones if there is a file. -/
def change? : LogStep → Option (Option String → String)
  | create _ => some fun _ => ""
  | append _ text => some (·.getD "" ++ text)
  | separator _ mark length => some (·.getD "" ++ separatorText mark length)
  | header _ title mark length => some (·.getD "" ++ headerText title mark length)
  | remove _ => none
  | makeDirectory _ => none

end LogStep

/-- A step that was taken, with the stores around it. -/
structure LogEvent where
  step : LogStep
  before : FileStore
  failure? : Option LogError
  after : FileStore

namespace LogEvent

def of (step : LogStep) (store : FileStore) : LogEvent :=
  ⟨step, store, (step.run store).1, (step.run store).2⟩

/-- The step was about the named file and did not fail. -/
def succeedsOn (event : LogEvent) (name : String) : Bool :=
  event.step.name == name && event.failure?.isNone

end LogEvent

/-- The store after steps that are taken one after the other. -/
def storeAfter (store : FileStore) (steps : List LogStep) : FileStore :=
  steps.foldl (fun store step => (step.run store).2) store

def eventsOf (store : FileStore) : List LogStep → List LogEvent
  | [] => []
  | step :: steps => LogEvent.of step store :: eventsOf (step.run store).2 steps

/--
What the events leave in a file: the texts that were added since it was last emptied or removed, and
before them what it held at first if it never was.
-/
def recorded (name initial : String) (events : List LogEvent) : String :=
  let own := events.filter (·.succeedsOn name)
  let later := own.rtakeWhile (!·.step.empties)
  (if own.any (·.step.empties) then "" else initial)
    ++ String.join (later.filterMap (·.step.payload?))

theorem eventsOf_concat (store : FileStore) (steps : List LogStep) (step : LogStep) :
    eventsOf store (steps ++ [step]) =
      eventsOf store steps ++ [LogEvent.of step (storeAfter store steps)] := by
  induction steps generalizing store with
  | nil => rfl
  | cons first steps ih =>
    rw [List.cons_append, eventsOf, ih]
    rfl

theorem storeAfter_concat (store : FileStore) (steps : List LogStep) (step : LogStep) :
    storeAfter store (steps ++ [step]) = (step.run (storeAfter store steps)).2 := by
  rw [storeAfter, List.foldl_append]
  rfl

/-- What one more event makes of the contents of a file. -/
def LogEvent.recordOn (event : LogEvent) (name content : String) : String :=
  if !event.succeedsOn name then content
  else if event.step.empties then ""
  else content ++ event.step.payload?.getD ""

theorem recorded_concat (name initial : String) (events : List LogEvent) (event : LogEvent) :
    recorded name initial (events ++ [event]) =
      event.recordOn name (recorded name initial events) := by
  unfold LogEvent.recordOn
  cases own : event.succeedsOn name with
  | false => simp [recorded, own]
  | true =>
    cases empties : event.step.empties with
    | true => simp [recorded, own, empties]
    | false =>
      cases payload : event.step.payload? <;>
        simp [recorded, own, empties, payload, String.append_assoc]

/-! ### One step -/

namespace LogStep
variable {step : LogStep} {store : FileStore} {name content : String}
  {change : Option String → String}

/-- A log changes its file, or it fails and changes nothing. -/
theorem run_of_change (changes : step.change? = some change) (store : FileStore) :
    step.run store =
      match store.modify step.name change with
      | some next => (none, next)
      | none => (some (.cannotOpen step.name), store) := by
  have appends (log : Log) (text : String) :
      outcome (log.append text) store =
        match store.append log.name text with
        | some next => (none, next)
        | none => (some (.cannotOpen log.name), store) := by
    rw [outcome, Log.append_run]
    cases store.append log.name text <;> rfl
  cases step with
  | create name =>
    obtain rfl := Option.some.inj changes
    have creates : outcome (Log.create name) store =
        match store.clear name with
        | some next => (none, next)
        | none => (some (.cannotOpen name), store) := by
      rw [outcome, Log.create_run]
      cases store.clear name <;> rfl
    exact creates
  | append log text =>
    obtain rfl := Option.some.inj changes
    exact appends log text
  | separator log mark length =>
    obtain rfl := Option.some.inj changes
    exact appends log (separatorText mark length)
  | header log title mark length =>
    obtain rfl := Option.some.inj changes
    exact appends log (headerText title mark length)
  | remove name => contradiction
  | makeDirectory name => contradiction

theorem run_cases (changes : step.change? = some change) (store : FileStore) :
    (∃ e, step.run store = (some e, store)) ∨
      ∃ path, store.resolve step.name = some path ∧
        (store.node? path = some .sink ∧ step.run store = (none, store) ∨
          ∃ old : Option String, store.node? path = old.map .file ∧
            step.run store = (none, store.put path (.file (change old)))) := by
  rw [run_of_change changes]
  cases done : store.modify step.name change with
  | none => exact .inl ⟨_, rfl⟩
  | some next =>
    obtain ⟨path, found, ⟨sink, rfl⟩ | ⟨old, there, rfl⟩⟩ := FileStore.modify_cases done
    · exact .inr ⟨path, found, .inl ⟨sink, rfl⟩⟩
    · exact .inr ⟨path, found, .inr ⟨old, there, rfl⟩⟩

/-- A file that is missing is treated as an empty one. -/
theorem change_none (changes : step.change? = some change) : change none = change (some "") := by
  cases step <;> simp only [change?, Option.some.injEq, reduceCtorEq] at changes <;>
    obtain rfl := changes <;> rfl

theorem recordOn_of_change (changes : step.change? = some change) (before after : FileStore)
    (content : String) :
    LogEvent.recordOn ⟨step, before, none, after⟩ step.name content = change (some content) := by
  have own : LogEvent.succeedsOn ⟨step, before, none, after⟩ step.name = true := by
    simp [LogEvent.succeedsOn]
  simp only [LogEvent.recordOn, own]
  cases step <;> simp only [change?, Option.some.injEq, reduceCtorEq] at changes <;>
    obtain rfl := changes <;> rfl

/-! ### What a step leaves alone -/

theorem reaches_self (step : LogStep) (path : Path) : step.Reaches path path := by
  cases step with
  | remove name => exact List.prefix_refl path
  | _ => rfl

theorem not_reaches (step : LogStep) {path : Path} {name other : String}
    (different : other ≠ name) : ¬ step.Reaches (path ++ [name]) (path ++ [other]) := by
  have apart : path ++ [other] ≠ path ++ [name] := fun same =>
    different (List.singleton_inj.mp (List.append_cancel_left same))
  cases step with
  | remove _ => exact fun below => apart (below.eq_of_length (by simp)).symm
  | _ => exact apart

/-- Only what the step reaches from its name is changed. -/
theorem run_frame (plain : IsPlainName step.name) (store : FileStore) :
    (step.run store).2.working = store.working ∧
      ∀ other, ¬ step.Reaches (store.working ++ [step.name]) other →
        (step.run store).2.node? other = store.node? other := by
  have keeps_put {path : Path} (found : store.resolve step.name = some path) (node : FileNode) :
      (store.put path node).working = store.working ∧
        ∀ other, ¬ step.Reaches (store.working ++ [step.name]) other →
          (store.put path node).node? other = store.node? other := by
    obtain rfl := FileStore.path_of_plain plain found
    refine ⟨rfl, fun other apart => FileStore.node?_put_of_ne ?_ node⟩
    rintro rfl
    exact apart (step.reaches_self _)
  have same : store.working = store.working ∧
      ∀ other, ¬ step.Reaches (store.working ++ [step.name]) other →
        store.node? other = store.node? other := ⟨rfl, fun _ _ => rfl⟩
  cases changes : step.change? with
  | some change =>
    obtain ⟨e, failed⟩ | ⟨path, found, ⟨-, done⟩ | ⟨old, -, done⟩⟩ := run_cases changes store
    · rwa [failed]
    · rwa [done]
    · rw [done]
      exact keeps_put found _
  | none =>
    cases step with
    | remove name =>
      show (store.remove name).working = store.working ∧ _
      simp only [run, FileStore.remove]
      cases found : store.resolve name with
      | none => exact same
      | some path =>
        obtain rfl := FileStore.path_of_plain plain found
        exact ⟨rfl, fun other apart => FileStore.node?_erase_of_not_prefix apart⟩
    | makeDirectory name =>
      simp only [run, FileStore.makeDirectory]
      cases found : store.resolve name with
      | none => exact same
      | some path =>
        dsimp only
        cases store.node? path with
        | none => exact keeps_put found _
        | some node => exact same
    | _ => contradiction

theorem run_of_failure (failed : (step.run store).1 ≠ none) : (step.run store).2 = store := by
  cases changes : step.change? with
  | some change =>
    rw [run_of_change changes] at failed ⊢
    split
    · rename_i next done
      rw [done] at failed
      contradiction
    · rfl
  | none =>
    cases step with
    | remove name => contradiction
    | makeDirectory name => contradiction
    | _ => contradiction

end LogStep

/-! ### What a file holds -/

/-- A file at the name has the contents, and the contents are empty if there is nothing. -/
structure FileStore.Records (store : FileStore) (name content : String) : Prop where
  file : ∀ path text, store.resolve name = some path → store.node? path = some (.file text) →
    text = content
  absent : ∀ path, store.resolve name = some path → store.node? path = none → content = ""

namespace FileStore.Records
open LogStep
variable {store next : FileStore} {name content : String} {step : LogStep} {path : Path}

theorem of_node {node : FileNode} (found : store.resolve name = some path)
    (there : store.node? path = some node) (same : ∀ text, node = .file text → text = content) :
    store.Records name content := by
  constructor
  · intro path' text found' file
    obtain rfl := Option.some.inj (found.symm.trans found')
    exact same text (Option.some.inj (there.symm.trans file))
  · intro path' found' nothing
    obtain rfl := Option.some.inj (found.symm.trans found')
    rw [there] at nothing
    contradiction

theorem of_unresolved (unresolved : store.resolve name = none) : store.Records name content := by
  constructor
  · intro path text found
    rw [unresolved] at found
    contradiction
  · intro path found
    rw [unresolved] at found
    contradiction

theorem initial (store : FileStore) (name : String) :
    store.Records name ((store.content? name).getD "") := by
  constructor
  · intro path text found file
    rw [content?, found, Option.bind_some, file]
    rfl
  · intro path found nothing
    rw [content?, found, Option.bind_some, nothing]
    rfl

theorem eq_of_content {text : String} (records : store.Records name content)
    (holds : store.content? name = some text) : text = content := by
  unfold content? at holds
  split at holds
  · rename_i file
    obtain ⟨path, found, there⟩ := Option.bind_eq_some_iff.mp file
    obtain rfl := Option.some.inj holds
    exact records.file path _ found there
  · contradiction

/-- A step about another name. -/
theorem of_frame (records : store.Records name content) (plain : IsPlainName name)
    (working : next.working = store.working)
    (frame : next.node? (store.working ++ [name]) = store.node? (store.working ++ [name])) :
    next.Records name content := by
  have resolved := resolve_eq_of_working plain working
  constructor
  · intro path text found file
    rw [resolved] at found
    obtain rfl := path_of_plain plain found
    exact records.file _ text found (frame.symm.trans file)
  · intro path found nothing
    rw [resolved] at found
    obtain rfl := path_of_plain plain found
    exact records.absent _ found (frame.symm.trans nothing)

theorem run_other (records : store.Records name content) (plain : IsPlainName name)
    (plainStep : IsPlainName step.name) (different : step.name ≠ name) :
    (step.run store).2.Records name content := by
  obtain ⟨working, frame⟩ := run_frame plainStep store
  exact records.of_frame plain working (frame _ (step.not_reaches different.symm))

theorem run_log {change : Option String → String} (changes : step.change? = some change)
    (records : store.Records step.name content) (plain : IsPlainName step.name) :
    (step.run store).2.Records step.name ((LogEvent.of step store).recordOn step.name content) := by
  unfold LogEvent.of
  obtain ⟨e, failed⟩ | ⟨path, found, ⟨sink, done⟩ | ⟨old, there, done⟩⟩ := run_cases changes store
  · rw [failed]
    simpa [LogEvent.recordOn, LogEvent.succeedsOn] using records
  · rw [done]
    exact of_node found sink fun text file => by contradiction
  · rw [done, recordOn_of_change changes]
    have free : path.isPrefixOf store.working = false := by
      obtain rfl := path_of_plain plain found
      exact not_above_working step.name
    refine of_node ((resolve_put plain path _).trans found) (node?_put_of_free free _) ?_
    intro text file
    obtain rfl := FileNode.file.inj file
    cases old with
    | none =>
      obtain rfl := records.absent path found there
      exact change_none changes
    | some held =>
      obtain rfl := records.file path held found there
      rfl

theorem of_remove (plain : IsPlainName name) (store : FileStore) :
    (store.remove name).Records name "" := by
  cases found : store.resolve name with
  | none =>
    rw [remove, found]
    exact of_unresolved found
  | some path =>
    rw [remove, found]
    obtain rfl := path_of_plain plain found
    constructor
    · intro path text found' file
      have apart : (store.working ++ [name]).isPrefixOf store.working = false :=
        not_above_working name
      have gone := node?_erase_self apart
      obtain rfl := path_of_plain plain found'
      exact absurd (gone.symm.trans file) (by simp)
    · intros
      rfl

theorem of_makeDirectory (records : store.Records name content) (plain : IsPlainName name) :
    (store.makeDirectory name).Records name content := by
  cases found : store.resolve name with
  | none =>
    rw [makeDirectory, found]
    exact records
  | some path =>
    rw [makeDirectory, found]
    dsimp only
    cases there : store.node? path with
    | some node => exact records
    | none =>
      obtain rfl := path_of_plain plain found
      refine of_node ((resolve_put plain _ _).trans found)
        (node?_put_of_free (not_above_working name) _) ?_
      intro text file
      contradiction

theorem run (records : store.Records name content) (plain : IsPlainName name)
    (plainStep : IsPlainName step.name) :
    (step.run store).2.Records name ((LogEvent.of step store).recordOn name content) := by
  by_cases same : step.name = name
  · subst same
    cases changes : step.change? with
    | some change => exact records.run_log changes plain
    | none =>
      cases step with
      | remove name =>
        have emptied : (LogEvent.of (.remove name) store).recordOn name content = "" := by
          simp [LogEvent.recordOn, LogEvent.succeedsOn, LogEvent.of, LogStep.run, LogStep.name,
            empties]
        rw [LogStep.name, emptied]
        exact of_remove plain store
      | makeDirectory name =>
        have kept : (LogEvent.of (.makeDirectory name) store).recordOn name content = content := by
          simp [LogEvent.recordOn, LogEvent.succeedsOn, LogEvent.of, LogStep.run, LogStep.name,
            empties, payload?]
        rw [LogStep.name, kept]
        exact records.of_makeDirectory plain
      | _ => contradiction
  · have kept : (LogEvent.of step store).recordOn name content = content := by
      simp [LogEvent.recordOn, LogEvent.succeedsOn, LogEvent.of, same]
    rw [kept]
    exact records.run_other plain plainStep same

theorem storeAfter (records : store.Records name content) (plain : IsPlainName name)
    {steps : List LogStep} (plainSteps : ∀ step ∈ steps, IsPlainName step.name) :
    (storeAfter store steps).Records name (recorded name content (eventsOf store steps)) := by
  induction steps using List.reverseRecOn with
  | nil => simpa [recorded, eventsOf, GaussianRadial.storeAfter] using records
  | append_singleton steps step ih =>
    obtain ⟨before, here⟩ := List.forall_mem_append.mp plainSteps
    rw [eventsOf_concat, recorded_concat, storeAfter_concat]
    exact (ih before).run plain (here step (List.mem_singleton_self step))

end FileStore.Records

/-- The file at a name holds something, or the name is that of a sink. -/
def FileStore.TakesText (store : FileStore) (name : String) : Prop :=
  store.content? name ≠ none ∨ (store.resolve name).bind store.node? = some .sink

theorem LogStep.run_takesText {step : LogStep} {change : Option String → String}
    (changes : step.change? = some change) (plain : IsPlainName step.name) {store : FileStore}
    (done : (step.run store).1 = none) : (step.run store).2.TakesText step.name := by
  obtain ⟨e, failed⟩ | ⟨path, found, ⟨sink, ran⟩ | ⟨old, -, ran⟩⟩ := run_cases changes store
  · rw [failed] at done
    contradiction
  · rw [ran]
    right
    rw [found, Option.bind_some, sink]
  · rw [ran]
    left
    have free : path.isPrefixOf store.working = false := by
      obtain rfl := FileStore.path_of_plain plain found
      exact FileStore.not_above_working step.name
    rw [FileStore.content?, FileStore.resolve_put plain, found, Option.bind_some,
      FileStore.node?_put_of_free free]
    simp

theorem mem_eventsOf {store : FileStore} {steps : List LogStep} {event : LogEvent}
    (member : event ∈ eventsOf store steps) :
    ∃ step ∈ steps, ∃ before, event = LogEvent.of step before := by
  induction steps generalizing store with
  | nil => exact absurd member List.not_mem_nil
  | cons step steps ih =>
    rcases List.mem_cons.mp member with rfl | later
    · exact ⟨step, List.mem_cons_self, store, rfl⟩
    · obtain ⟨other, inside, before, rfl⟩ := ih later
      exact ⟨other, List.mem_cons_of_mem _ inside, before, rfl⟩

/--
After any steps of any logs over plain names, and of others beside them, each file holds what was
written to its name since it was last emptied or removed. A step that fails changes nothing, a step
changes nothing but what is at its name, or in a directory that it removes, and the file of a log
that did not fail is there.
-/
theorem logs_append_only (store : FileStore) {steps : List LogStep}
    (plain : ∀ step ∈ steps, IsPlainName step.name) :
    (∀ name content, IsPlainName name → (storeAfter store steps).content? name = some content →
      content = recorded name ((store.content? name).getD "") (eventsOf store steps)) ∧
    ∀ event ∈ eventsOf store steps,
      (event.failure? ≠ none → event.after = event.before) ∧
      (∀ other, ¬ event.step.Reaches (event.before.working ++ [event.step.name]) other →
        event.after.node? other = event.before.node? other) ∧
      (event.failure? = none → event.step.change? ≠ none →
        event.after.TakesText event.step.name) := by
  constructor
  · intro name content plainName holds
    have records := (FileStore.Records.initial store name).storeAfter plainName plain
    exact records.eq_of_content holds
  · intro event member
    obtain ⟨step, inside, before, rfl⟩ := mem_eventsOf member
    refine ⟨LogStep.run_of_failure, (LogStep.run_frame (plain step inside) before).2, ?_⟩
    intro done isLog
    obtain ⟨change, changes⟩ := Option.ne_none_iff_exists'.mp isLog
    exact LogStep.run_takesText changes (plain step inside) done

/-! ### Two logs of one name -/

/-- The file of two logs vanishes, a directory takes its place, and then it comes back. -/
def sharedSteps : List LogStep :=
  [.create "a", .append ⟨"a"⟩ "one", .create "b", .create "a", .append ⟨"a"⟩ "two",
    .separator ⟨"b"⟩ '-' 3, .remove "a", .makeDirectory "a", .append ⟨"a"⟩ "lost", .create "a",
    .remove "a", .append ⟨"a"⟩ "three", .header ⟨"a"⟩ "T" '=' 2]

theorem logs_append_only_shared :
    (∀ step ∈ sharedSteps, IsPlainName step.name) ∧
      (storeAfter .empty sharedSteps).content? "a" = some "three==\nT\n==\n" ∧
      "three==\nT\n==\n" = recorded "a" "" (eventsOf .empty sharedSteps) ∧
      (storeAfter .empty sharedSteps).content? "b" = some "---\n" ∧
      "---\n" = recorded "b" "" (eventsOf .empty sharedSteps) := by
  have plainA : IsPlainName "a" := ⟨by decide, by decide, by decide, by simp⟩
  have plainB : IsPlainName "b" := ⟨by decide, by decide, by decide, by simp⟩
  have plain : ∀ step ∈ sharedSteps, IsPlainName step.name := by
    simp [sharedSteps, LogStep.name, plainA, plainB]
  have first : (storeAfter .empty sharedSteps).content? "a" = some "three==\nT\n==\n" := by
    decide +kernel
  have second : (storeAfter .empty sharedSteps).content? "b" = some "---\n" := by decide +kernel
  have holds := (logs_append_only .empty plain).1
  exact ⟨plain, first, holds "a" _ plainA first, second, holds "b" _ plainB second⟩

end GaussianRadial
