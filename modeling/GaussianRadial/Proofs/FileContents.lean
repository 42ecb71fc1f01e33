import Mathlib
import GaussianRadial.Proofs.WritableFiles

/-!
# What a file holds

A log that is created holds nothing, and what is appended to it stands at its end in the order in
which it was appended. Files at other paths are read as before.
-/

namespace GaussianRadial

namespace FileStore
variable {store : FileStore} {path : Path} {name content : String}

/-- The name leads to a path where a file is or nothing. -/
structure FileAt (store : FileStore) (name : String) (path : Path) : Prop where
  resolved : store.resolve name = some path
  free : ∀ node, store.node? path = some node → ∃ content, node = .file content

/-- The name leads to a path where a file with the given contents is. -/
structure Contains (store : FileStore) (name : String) (path : Path) (content : String) : Prop where
  resolved : store.resolve name = some path
  found : store.node? path = some (.file content)

theorem Contains.fileAt (holds : store.Contains name path content) : store.FileAt name path := by
  refine ⟨holds.resolved, fun node there => ?_⟩
  obtain rfl := Option.some.inj (holds.found.symm.trans there)
  exact ⟨content, rfl⟩

theorem Contains.content_eq (holds : store.Contains name path content) :
    store.content? name = some content := by
  rw [content?, holds.resolved, Option.bind_some, holds.found]

theorem FileAt.outside (file : store.FileAt name path) : store.isDirectory path = false := by
  rw [isDirectory, beq_eq_false_iff_ne]
  intro directory
  obtain ⟨content, same⟩ := file.free .directory directory
  cases same

theorem FileAt.put (file : store.FileAt name path) (content : String) :
    (store.put path (.file content)).Contains name path content :=
  ⟨(resolve_put_file file.outside content name).trans file.resolved,
    node?_put_self file.outside content⟩

theorem FileAt.clear (file : store.FileAt name path) :
    store.clear name = some (store.put path (.file "")) := by
  rw [FileStore.clear, modify, file.resolved]
  dsimp only
  cases there : store.node? path with
  | none => rfl
  | some node =>
    obtain ⟨content, rfl⟩ := file.free node there
    rfl

theorem Contains.append (holds : store.Contains name path content) (text : String) :
    store.append name text = some (store.put path (.file (content ++ text))) := by
  rw [FileStore.append, modify, holds.resolved]
  dsimp only
  rw [holds.found]
  rfl

theorem read_put_file {other : String} (file : store.FileAt name path)
    (different : store.resolve other ≠ some path) (content : String) :
    (store.put path (.file content)).read other = store.read other := by
  rw [read, read, resolve_put_file file.outside]
  cases there : store.resolve other with
  | none => rfl
  | some elsewhere =>
    have apart : elsewhere ≠ path := fun same => different (there.trans (congrArg some same))
    rw [Option.bind_some, Option.bind_some, node?_put_of_ne apart]

end FileStore

namespace Log
variable {log : Log} {store : FileStore} {path : Path} {content : String}

theorem create_file {name : String} (file : store.FileAt name path) :
    (create name : StateM FileStore (Except LogError Log)) store =
      (.ok ⟨name⟩, store.put path (.file "")) := by
  rw [create_run, file.clear]

theorem append_contains (holds : store.Contains log.name path content) (text : String) :
    ∃ next, (log.append text : StateM FileStore (Except LogError Unit)) store = (.ok (), next) ∧
      next.Contains log.name path (content ++ text) := by
  exact ⟨_, by rw [append_run, holds.append], holds.fileAt.put (content ++ text)⟩

theorem appendAll_contains (holds : store.Contains log.name path content) (texts : List String) :
    ∃ next, (log.appendAll texts : StateM FileStore (Except LogError Unit)) store =
      (.ok (), next) ∧ next.Contains log.name path (content ++ String.join texts) :=
  appendAll_run (fun content store => store.Contains log.name path content)
    (fun _ _ text before => append_contains before text) content holds texts

end Log

end GaussianRadial
