import Mathlib
import GaussianRadial.FileStore
import GaussianRadial.Log

/-!
# Files that can be written

A file can be written if its name leads through directories to a path that is no directory. Writing
keeps this, since a new file takes the place of no directory on the way. So a log whose file can be
written takes any texts: `appendAll_ok`.
-/

namespace GaussianRadial

namespace FileStore
variable {store : FileStore} {path : Path}

/-- The name leads to a path where no directory is. -/
def Writable (store : FileStore) (name : String) : Prop :=
  ∃ path, store.resolve name = some path ∧ store.isDirectory path = false

theorem node?_put_of_ne {other : Path} (different : other ≠ path) (node : FileNode) :
    (store.put path node).node? other = store.node? other := by
  have skipped : (path == other) = false := beq_false_of_ne different.symm
  simp only [node?, put, List.find?_cons, skipped, List.find?_filter]
  congr 3
  funext entry
  by_cases here : entry.1 = other
  · simp [here, different]
  · simp [here]

theorem node?_put_of_free (notAbove : path.isPrefixOf store.working = false) (node : FileNode) :
    (store.put path node).node? path = some node := by
  simp [node?, put, notAbove]

theorem node?_put_self (outside : store.isDirectory path = false) (content : String) :
    (store.put path (.file content)).node? path = some (.file content) := by
  have notAbove : path.isPrefixOf store.working = false := by
    apply Bool.eq_false_iff.mpr
    intro above
    rw [isDirectory, node?, if_pos above] at outside
    exact absurd outside (by decide)
  exact node?_put_of_free notAbove _

theorem isDirectory_put_file (outside : store.isDirectory path = false) (content : String)
    (other : Path) :
    (store.put path (.file content)).isDirectory other = store.isDirectory other := by
  by_cases same : other = path
  · subst same
    rw [outside, isDirectory, node?_put_self outside]
    rfl
  · rw [isDirectory, node?_put_of_ne same, isDirectory]

theorem walk_put_file (outside : store.isDirectory path = false) (content : String) (start : Path)
    (names : List String) :
    (store.put path (.file content)).walk start names = store.walk start names := by
  -- The way leads through directories, and a file neither adds nor removes one.
  induction names generalizing start with
  | nil => rfl
  | cons name names ih => simp only [walk, isDirectory_put_file outside, ih]

theorem resolve_put_file (outside : store.isDirectory path = false) (content name : String) :
    (store.put path (.file content)).resolve name = store.resolve name := by
  simp only [resolve, walk_put_file outside]
  rfl

theorem put_writable {name : String} (found : store.resolve name = some path)
    (outside : store.isDirectory path = false) (content : String) :
    (store.put path (.file content)).Writable name :=
  ⟨path, (resolve_put_file outside content name).trans found,
    (isDirectory_put_file outside content path).trans outside⟩

/-- A file that can be written can be changed in any way, and then be written again. -/
theorem Writable.modify {name : String} (writable : store.Writable name)
    (change : Option String → String) :
    ∃ next, store.modify name change = some next ∧ next.Writable name := by
  obtain ⟨path, found, outside⟩ := writable
  rw [FileStore.modify, found]
  dsimp only
  cases there : store.node? path with
  | none => exact ⟨_, rfl, put_writable found outside _⟩
  | some node =>
    cases node with
    | file content => exact ⟨_, rfl, put_writable found outside _⟩
    | sink => exact ⟨store, rfl, path, found, outside⟩
    | directory =>
      rw [isDirectory, there] at outside
      exact absurd outside (by decide)

end FileStore

namespace Log
variable {log : Log} {store : FileStore}

theorem create_run (name : String) (store : FileStore) :
    (create name : StateM FileStore (Except LogError Log)) store =
      match store.clear name with
      | some next => (.ok ⟨name⟩, next)
      | none => (.error (.cannotOpen name), store) := by
  have cleared : (Files.clear name : StateM FileStore Bool) store =
      FileStore.attempt (·.clear name) store := rfl
  simp only [create, bind, StateT.bind, cleared, FileStore.attempt]
  cases store.clear name <;> rfl

theorem append_run (log : Log) (text : String) (store : FileStore) :
    (log.append text : StateM FileStore (Except LogError Unit)) store =
      match store.append log.name text with
      | some next => (.ok (), next)
      | none => (.error (.cannotOpen log.name), store) := by
  simp only [append, Files.append, bind, StateT.bind, FileStore.attempt]
  cases store.append log.name text <;> rfl

theorem append_ok (writable : store.Writable log.name) (text : String) :
    ∃ next, (log.append text : StateM FileStore (Except LogError Unit)) store = (.ok (), next) ∧
      next.Writable log.name := by
  obtain ⟨next, changed, still⟩ := writable.modify fun content => content.getD "" ++ text
  have appended : store.append log.name text = some next := changed
  exact ⟨next, by rw [append_run, appended], still⟩

/-- What each text that is appended keeps, all texts keep. -/
theorem appendAll_run (Holds : String → FileStore → Prop)
    (step : ∀ (content : String) (store : FileStore) (text : String), Holds content store →
      ∃ next, (log.append text : StateM FileStore (Except LogError Unit)) store = (.ok (), next) ∧
        Holds (content ++ text) next)
    (content : String) (holds : Holds content store) (texts : List String) :
    ∃ next, (log.appendAll texts : StateM FileStore (Except LogError Unit)) store =
      (.ok (), next) ∧ Holds (content ++ String.join texts) next := by
  induction texts generalizing store content with
  | nil => exact ⟨store, rfl, by rwa [String.join_nil, String.append_empty]⟩
  | cons text texts ih =>
    obtain ⟨next, appended, after⟩ := step content store text holds
    obtain ⟨last, rest, whole⟩ := ih _ after
    refine ⟨last, ?_, ?_⟩
    · simp only [appendAll, bind, StateT.bind, appended]
      exact rest
    · rwa [String.join_cons, ← String.append_assoc]

theorem appendAll_ok (writable : store.Writable log.name) (texts : List String) :
    ∃ next, (log.appendAll texts : StateM FileStore (Except LogError Unit)) store =
      (.ok (), next) ∧ next.Writable log.name :=
  appendAll_run (fun _ store => store.Writable log.name)
    (fun _ _ text before => append_ok before text) "" writable texts

end Log

end GaussianRadial
