import Mathlib
import GaussianRadial.Proofs.PlainNames
import GaussianRadial.Proofs.Runs

/-!
# Files that a run leaves alone

All that a run changes is at the path that its second name leads to. So the input keeps its contents
unless both names lead to one file. That file is emptied before it is read, and the run leaves the
error in it that it has no grid section.
-/

namespace GaussianRadial

namespace FileStore
variable {store next last : FileStore} {name other : String} {path : Path}

/-- Names lead where they did, and nothing has changed but what one of them leads to. -/
structure SameBeside (name : String) (store next : FileStore) : Prop where
  resolve_eq : ∀ other, next.resolve other = store.resolve other
  node_eq : ∀ path, store.resolve name ≠ some path → next.node? path = store.node? path

theorem SameBeside.refl (name : String) (store : FileStore) : SameBeside name store store :=
  ⟨fun _ => rfl, fun _ _ => rfl⟩

theorem SameBeside.trans (first : SameBeside name store next)
    (second : SameBeside name next last) : SameBeside name store last := by
  refine ⟨fun other => (second.resolve_eq other).trans (first.resolve_eq other), ?_⟩
  intro path apart
  have later : next.resolve name ≠ some path := by rwa [first.resolve_eq]
  exact (second.node_eq path later).trans (first.node_eq path apart)

theorem sameBeside_put (leads : store.resolve name = some path)
    (outside : store.isDirectory path = false) (content : String) :
    SameBeside name store (store.put path (.file content)) := by
  refine ⟨resolve_put_file outside content, ?_⟩
  intro other apart
  apply node?_put_of_ne
  rintro rfl
  exact apart leads

theorem sameBeside_modify {change : Option String → String}
    (done : store.modify name change = some next) : SameBeside name store next := by
  obtain ⟨path, leads, ⟨-, rfl⟩ | ⟨old, there, rfl⟩⟩ := modify_cases done
  · exact .refl name _
  · apply sameBeside_put leads
    cases old <;> simp [isDirectory, there]

theorem SameBeside.content_eq (same : SameBeside name store next)
    (apart : store.resolve name ≠ store.resolve other) :
    next.content? other = store.content? other := by
  unfold content?
  rw [same.resolve_eq]
  cases leads : store.resolve other with
  | none => rfl
  | some path =>
    rw [leads] at apart
    rw [Option.bind_some, Option.bind_some, same.node_eq path apart]

/-! ### Actions on one file -/

/-- The action changes nothing but what the name leads to, in every store. -/
def Confined {α : Type} (name : String) (action : StateM FileStore α) : Prop :=
  ∀ store, SameBeside name store (action store).2

theorem confined_pure {α : Type} (name : String) (x : α) :
    Confined name (pure x : StateM FileStore α) :=
  fun store => .refl name store

theorem Confined.bind {α β : Type} {action : StateM FileStore α} {rest : α → StateM FileStore β}
    (first : Confined name action) (later : ∀ x, Confined name (rest x)) :
    Confined name (action >>= rest) :=
  fun store => (first store).trans (later _ _)

theorem confined_attempt {change : FileStore → Option FileStore}
    (changes : ∀ store next, change store = some next → SameBeside name store next) :
    Confined name (attempt change) := by
  intro store
  unfold attempt
  split
  · rename_i next done
    exact changes store next done
  · exact .refl name store

end FileStore

open FileStore (Confined confined_pure confined_attempt sameBeside_modify)

namespace Log

theorem confined_create (name : String) :
    Confined name (create name : StateM FileStore (Except LogError Log)) := by
  apply Confined.bind
  · exact confined_attempt fun _ _ done => sameBeside_modify done
  · intro cleared
    cases cleared <;> exact confined_pure name _

theorem confined_append (log : Log) (text : String) :
    Confined log.name (log.append text : StateM FileStore (Except LogError Unit)) := by
  apply Confined.bind
  · apply Confined.bind
    · exact confined_attempt fun _ _ done => sameBeside_modify done
    · intro done
      cases done <;> exact confined_pure log.name _
  · intro addition
    cases addition <;> exact confined_pure log.name _

theorem confined_appendAll (log : Log) (texts : List String) :
    Confined log.name (log.appendAll texts : StateM FileStore (Except LogError Unit)) := by
  induction texts with
  | nil => exact confined_pure log.name _
  | cons text texts ih =>
    apply (log.confined_append text).bind
    rintro (e | _)
    · exact confined_pure log.name _
    · exact ih

end Log

namespace CommandLine
open Input (Error)

theorem confined_fail (log : Log) (printed message : String) :
    Confined log.name (fail log printed message : StateM FileStore Outcome) := by
  apply (log.confined_append (errorLine message)).bind
  rintro (e | _) <;> exact confined_pure log.name _

theorem confined_carryOut (plan : Plan) (log : Log) :
    Confined log.name (plan.carryOut log : StateM FileStore Outcome) := by
  apply (log.confined_appendAll plan.pieces).bind
  rintro (e | _)
  · exact confined_fail log _ _
  · cases plan.error with
    | none => exact confined_pure log.name _
    | some message => exact confined_fail log _ _

theorem create_name {name : String} {log : Log} {store : FileStore}
    (created : ((Log.create name : StateM FileStore (Except LogError Log)) store).1 = .ok log) :
    log.name = name := by
  rw [Log.create_run] at created
  split at created
  · obtain rfl := Except.ok.inj created
    rfl
  · contradiction

variable {store : FileStore} {input output text : String}

theorem contains_of_content (there : store.content? input = some text) :
    ∃ path, store.Contains input path text := by
  unfold FileStore.content? at there
  split at there
  · rename_i content found
    obtain rfl := Option.some.inj there
    obtain ⟨path, leads, node⟩ := Option.bind_eq_some_iff.mp found
    exact ⟨path, leads, node⟩
  · contradiction

section Runs
variable [Report.JsonNumbers]

/-- Whatever a run meets, it changes nothing but its report file. -/
theorem confined_run (program input output : String) :
    Confined output (run program [input, output] : StateM FileStore Outcome) := by
  intro store
  have opened := Log.confined_create output store
  simp only [run, bind, StateT.bind]
  -- The log that is opened has the name of the report file, so what follows is confined to it.
  cases created : (Log.create output : StateM FileStore (Except LogError Log)) store with
  | mk result emptied =>
    rw [created] at opened
    cases result with
    | error e => exact opened
    | ok log =>
      have name := create_name (congrArg Prod.fst created)
      have written := confined_carryOut
        (Plan.of input (emptied.read input)) log emptied
      rw [name] at written
      exact opened.trans written

/-- What a run leaves if it is told to write its report over its input. -/
theorem run_on_one_file (program : String) (there : store.content? input = some text)
    (same : store.resolve output = store.resolve input) :
    let result := (run program [input, output] : StateM FileStore Outcome) store
    result.1 = ⟨1, errorLine Error.noGridSection.message⟩ ∧
      result.2.content? input = some (errorLine Error.noGridSection.message) := by
  obtain ⟨path, contains⟩ := contains_of_content there
  have file : store.FileAt output path :=
    FileStore.Contains.fileAt ⟨same.trans contains.resolved, contains.found⟩
  have emptied : (store.put path (.file "")).Contains input path "" := contains.fileAt.put ""
  have read : (Files.read input : StateM FileStore (Option String)) (store.put path (.file "")) =
      (some "", store.put path (.file "")) := by
    show ((store.put path (.file "")).read input, _) = _
    rw [FileStore.read, emptied.resolved, Option.bind_some, emptied.found]
  have opened : (store.put path (.file "")).Contains (Log.mk output).name path "" := file.put ""
  obtain ⟨next, done, after⟩ :=
    @carryOut_of_some _ path ⟨output⟩ "" (Plan.of input (some "")) _ opened rfl
  have ran : (run program [input, output] : StateM FileStore Outcome) store =
      (⟨1, errorLine Error.noGridSection.message⟩, next) := by
    simp only [run, bind, StateT.bind, Log.create_file file, read]
    exact done
  have led : next.resolve input = next.resolve output := by
    have beside := confined_run program input output store
    rw [ran] at beside
    rw [beside.resolve_eq, beside.resolve_eq, same]
  rw [ran]
  refine ⟨rfl, ?_⟩
  rw [FileStore.content?, led, ← FileStore.content?]
  exact after.content_eq

/--
The input keeps its contents in every run whose report goes to another file, however the run ends. A
run whose names lead to one file ends with exit code 1, and all that is left in the file is the
error.
-/
theorem run_leaves_input (program : String) (there : store.content? input = some text) :
    let result := (run program [input, output] : StateM FileStore Outcome) store
    (store.resolve output ≠ store.resolve input → result.2.content? input = some text) ∧
    (store.resolve output = store.resolve input →
      result.1 = ⟨1, errorLine Error.noGridSection.message⟩ ∧
        result.2.content? input = some (errorLine Error.noGridSection.message)) := by
  intro result
  constructor
  · intro apart
    exact ((confined_run program input output store).content_eq apart).trans there
  · exact run_on_one_file program there

end Runs

theorem run_leaves_input_scattered :
    storeWithReport.content? "input" = some Input.scatteredText ∧
    storeWithReport.resolve "report" ≠ storeWithReport.resolve "input" ∧
    storeWithReport.resolve "./input" = storeWithReport.resolve "input" ∧
    ((run "program" ["input", "report"] : StateM FileStore Outcome) storeWithReport).2.content?
      "input" = some Input.scatteredText ∧
    ((run "program" ["input", "./input"] : StateM FileStore Outcome) storeWithReport).2.content?
      "input" = some (errorLine Error.noGridSection.message) := by
  have there : storeWithReport.content? "input" = some Input.scatteredText := by decide +kernel
  have apart : storeWithReport.resolve "report" ≠ storeWithReport.resolve "input" := by
    decide +kernel
  have same : storeWithReport.resolve "./input" = storeWithReport.resolve "input" := by
    decide +kernel
  exact ⟨there, apart, same, (run_leaves_input "program" there).1 apart,
    ((run_leaves_input "program" there).2 same).2⟩

theorem run_overwrites_input :
    ¬ ∀ (program input output text : String) (store : FileStore),
      store.content? input = some text →
        ((run program [input, output] : StateM FileStore Outcome) store).2.content? input =
          some text := by
  intro keeps
  have there : storeWithReport.content? "input" = some Input.scatteredText := by decide +kernel
  have kept := keeps "program" "input" "input" _ _ there
  rw [(run_on_one_file "program" there rfl).2] at kept
  exact absurd kept (by decide +kernel)

end CommandLine

end GaussianRadial
