import Mathlib
import GaussianRadial.Proofs.FileContents

/-!
# Plain names

A plain name leads to a path in the working directory, and other plain names lead to other paths.
What is at such a path is changed by putting something there or by erasing it, and by nothing that
happens to a path that is not above it.
-/

namespace GaussianRadial

/-- A name of the working directory itself, where other names denote other files. -/
structure IsPlainName (name : String) : Prop where
  filled : name ≠ ""
  not_here : name ≠ "."
  not_above : name ≠ ".."
  solid : ∀ c ∈ name.toList, c ≠ '/' ∧ c ≠ '\x00'

namespace FileStore
variable {store next : FileStore} {path other : Path} {name : String}

/-! ### Plain names -/

theorem namesFrom_of_solid (name : List Char) {text : List Char} (solid : ∀ c ∈ text, c ≠ '/') :
    namesFrom name text = [String.ofList (name.reverse ++ text)] := by
  induction text generalizing name with
  | nil => simp [namesFrom]
  | cons c text ih =>
    obtain ⟨here, later⟩ := List.forall_mem_cons.mp solid
    rw [namesFrom, if_neg here, ih _ later, List.reverse_cons, List.append_assoc,
      List.singleton_append]

theorem isDirectory_working (store : FileStore) : store.isDirectory store.working = true := by
  have above : store.working.isPrefixOf store.working = true :=
    List.isPrefixOf_iff_prefix.mpr (List.prefix_refl _)
  rw [isDirectory, node?, if_pos above]
  rfl

theorem resolve_of_plain (plain : IsPlainName name) (store : FileStore) :
    store.resolve name =
      if maxNameBytes < name.utf8ByteSize then none else some (store.working ++ [name]) := by
  have whole : name.toList.takeWhile (· != '\x00') = name.toList := by
    rw [List.takeWhile_eq_self_iff]
    intro c member
    simpa using (plain.solid c member).2
  have filled : name.toList.isEmpty = false := by
    simpa using plain.filled
  have relative : name.toList.head? ≠ some '/' := by
    intro first
    exact (plain.solid '/' (List.mem_of_mem_head? first)).1 rfl
  have names : namesFrom [] name.toList = [name] := by
    rw [namesFrom_of_solid [] fun c member => (plain.solid c member).1]
    simp
  have limit : maxPathBytes < name.utf8ByteSize → maxNameBytes < name.utf8ByteSize :=
    Nat.lt_of_le_of_lt (by decide)
  simp only [resolve, whole, filled, String.ofList_toList, relative, if_false, names, walk,
    isDirectory_working, plain.filled, plain.not_here, plain.not_above, Bool.not_true,
    Bool.false_eq_true, or_self, false_or]
  split
  · rename_i long
    rw [if_pos (limit long)]
  · rfl

theorem resolve_eq_of_working (plain : IsPlainName name) (same : next.working = store.working) :
    next.resolve name = store.resolve name := by
  rw [resolve_of_plain plain, resolve_of_plain plain, same]

theorem resolve_put (plain : IsPlainName name) (path : Path) (node : FileNode) :
    (store.put path node).resolve name = store.resolve name :=
  resolve_eq_of_working plain rfl

theorem path_of_plain (plain : IsPlainName name) (found : store.resolve name = some path) :
    path = store.working ++ [name] := by
  rw [resolve_of_plain plain] at found
  split at found
  · contradiction
  · exact (Option.some.inj found).symm

theorem not_above_working (name : String) :
    (store.working ++ [name]).isPrefixOf store.working = false := by
  apply Bool.eq_false_iff.mpr
  intro above
  have length := (List.isPrefixOf_iff_prefix.mp above).length_le
  rw [List.length_append, List.length_singleton] at length
  omega

/-! ### Changes of a store -/

/-- A change goes nowhere, or puts the new contents where a file is or nothing. -/
theorem modify_cases {change : Option String → String}
    (done : store.modify name change = some next) :
    ∃ path, store.resolve name = some path ∧
      (store.node? path = some .sink ∧ next = store ∨
        ∃ old : Option String, store.node? path = old.map .file ∧
          next = store.put path (.file (change old))) := by
  unfold modify at done
  split at done
  · contradiction
  · rename_i path found
    refine ⟨path, found, ?_⟩
    split at done
    · contradiction
    · rename_i sink
      exact .inl ⟨sink, (Option.some.inj done).symm⟩
    · rename_i content file
      exact .inr ⟨some content, file, (Option.some.inj done).symm⟩
    · rename_i nothing
      exact .inr ⟨none, nothing, (Option.some.inj done).symm⟩

theorem node?_erase_of_not_prefix (apart : ¬ path <+: other) :
    (store.erase path).node? other = store.node? other := by
  simp only [node?, erase, List.find?_filter]
  congr 3
  funext entry
  by_cases here : entry.1 = other
  · subst here
    simpa [Bool.eq_false_iff] using apart
  · simp [here]

theorem node?_erase_self (notAbove : path.isPrefixOf store.working = false) :
    (store.erase path).node? path = none := by
  have gone : (store.nodes.filter fun entry => !path.isPrefixOf entry.1).find?
      (fun entry => entry.1 == path) = none := by
    apply List.find?_eq_none.mpr
    intro entry member same
    have kept := (List.mem_filter.mp member).2
    rw [eq_of_beq same, List.isPrefixOf_iff_prefix.mpr (List.prefix_refl path)] at kept
    contradiction
  simp only [node?, erase, notAbove, Bool.false_eq_true, if_false, gone, Option.map_none]

end FileStore

end GaussianRadial
