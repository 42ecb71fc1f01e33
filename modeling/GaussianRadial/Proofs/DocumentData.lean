import Mathlib
import GaussianRadial.Proofs.JsonTexts
import GaussianRadial.Proofs.ReportWords

/-!
# Data of a document

A document is read by the keys of its members. From the document of a job the grid, the requests,
their values and their limits are read, with `null` for each number that is not finite:
`documentData`.
-/

namespace GaussianRadial
open Number Report

/-! ### Members of a document -/

/-- A number that JSON has. -/
def Report.finite? (x : Float) : Option Float := if x.isFinite then some x else none

namespace Report.Json

/-- The value of the first member with a key. -/
def member? (key : String) : Json → Option Json
  | object members => members.lookup key
  | _ => none

def items? : Json → Option (List Json)
  | array items => some items
  | _ => none

def string? : Json → Option String
  | string s => some s
  | _ => none

def integer? : Json → Option ℤ
  | integer n => some n
  | _ => none

/-- A number, or `null` in its place. -/
def cell? : Json → Option (Option Float)
  | number x _ => some (some x)
  | null => some none
  | _ => none

/-- The cells of an array that holds nothing else. -/
def cells? (json : Json) : Option (List (Option Float)) := do (← json.items?).mapM cell?

theorem cell?_ofFloat (x : Float) : (ofFloat x).cell? = some (finite? x) := by
  unfold ofFloat finite?
  split <;> rfl

theorem cells?_numbers (values : List Float) :
    (numbers values).cells? = some (values.map finite?) := by
  change (values.map ofFloat).mapM cell? = _
  induction values with
  | nil => rfl
  | cons x values ih =>
    rw [List.map_cons, List.mapM_cons, cell?_ofFloat, ih]
    rfl

/-- The exponent of an entry. Of the positive numbers only infinity has no text. -/
def exponent? (entry : Json) : Option Float := do
  return (← (← entry.member? "alpha").cell?).getD (1.0 / 0.0)

/-- The request of an entry. An order that the entry does not have is 0. -/
def request? (entry : Json) : Option (Request Float) := do
  let name ← (← entry.member? "kind").string?
  let alpha ← entry.exponent?
  if name = IntegralKind.inner.name then
    return ⟨.inner, alpha, ← (← entry.member? "l").integer?, 0⟩
  else if name = IntegralKind.outer.name then
    return ⟨.outer, alpha, ← (← entry.member? "l").integer?, 0⟩
  else if name = IntegralKind.innerPotential.name then
    return ⟨.innerPotential, alpha, ← (← entry.member? "l1").integer?,
      ← (← entry.member? "l2").integer?⟩
  else none

/-- Where an entry has a limit, and the limit. -/
def limit? (entry : Json) : Option (List String × Option Float) :=
  match entry.member? "limit", entry.member? "origin" with
  | some limit, none => limit.cell?.map fun x => (["x", "->", "inf:"], x)
  | none, some limit => limit.cell?.map fun x => (["x", "=", "0:"], x)
  | _, _ => none

end Report.Json

/-! ### Entries -/

def entryOf (limits : Bool) (request : Request Float) (values : List Float) : Entry :=
  ⟨request, if limits then request.limitValue else none, values⟩

theorem entriesOf_eq {results : List (Request Float × List Float)}
    (admitted : ∀ result ∈ results, result.1.Admitted) (limits : Bool) :
    entriesOf limits results =
      .ok (results.map fun result => entryOf limits result.1 result.2) := by
  induction results with
  | nil => rfl
  | cons result results ih =>
    obtain ⟨here, later⟩ := List.forall_mem_cons.mp admitted
    rw [entriesOf, Entry.of, ih later, here.limit?_eq]
    cases limits <;> rfl

def entriesFor (limits : Bool) (requests : List (Request Float)) (columns : List (List Float)) :
    List Entry :=
  (requests.zip columns).map fun result => entryOf limits result.1 result.2

/-- A request without the order that its kind does not have. -/
def Request.reported (request : Request Float) : Request Float :=
  if request.kind = .innerPotential then request else { request with l₂ := 0 }

theorem reported_eq {request : Request Float}
    (single : request.kind ≠ .innerPotential → request.l₂ = 0) : request.reported = request := by
  rw [Request.reported]
  split
  · rfl
  · rename_i kind
    rw [← single kind]

namespace Report.Entry

theorem member?_values (entry : Entry) :
    entry.json.member? "values" = some (numbers entry.values) := by
  obtain ⟨⟨kind, alpha, l₁, l₂⟩, limit, values⟩ := entry
  cases kind <;> cases limit <;>
    simp [Entry.json, Json.member?, Entry.orders, Entry.limitMember, List.lookup]

theorem member?_limit (entry : Entry) : entry.json.member? "limit" =
    if entry.request.kind = .outer then none else entry.limit.map .ofFloat := by
  obtain ⟨⟨kind, alpha, l₁, l₂⟩, limit, values⟩ := entry
  cases kind <;> cases limit <;>
    simp [Entry.json, Json.member?, Entry.orders, Entry.limitMember, List.lookup]

theorem member?_origin (entry : Entry) : entry.json.member? "origin" =
    if entry.request.kind = .outer then entry.limit.map .ofFloat else none := by
  obtain ⟨⟨kind, alpha, l₁, l₂⟩, limit, values⟩ := entry
  cases kind <;> cases limit <;>
    simp [Entry.json, Json.member?, Entry.orders, Entry.limitMember, List.lookup]

theorem exponent?_json (entry : Entry) (positive : ((0 : ℕ) : Float) < entry.request.alpha) :
    entry.json.exponent? = some entry.request.alpha := by
  have member : entry.json.member? "alpha" = some (.ofFloat entry.request.alpha) := by
    obtain ⟨⟨kind, alpha, l₁, l₂⟩, limit, values⟩ := entry
    cases kind <;> cases limit <;>
      simp [Entry.json, Json.member?, Entry.orders, Entry.limitMember, List.lookup]
  rw [Json.exponent?, member, Option.bind_eq_bind, Option.bind_some, Json.cell?_ofFloat, finite?]
  cases finite : entry.request.alpha.isFinite with
  | true => rfl
  | false =>
    have infinite : 1.0 / 0.0 = entry.request.alpha :=
      DoubleOrder.eq_of_infinite (by decide +kernel) positive (by decide +kernel) finite
    exact congrArg some infinite

theorem request?_json (entry : Entry) (positive : ((0 : ℕ) : Float) < entry.request.alpha) :
    entry.json.request? = some entry.request.reported := by
  rw [Json.request?, exponent?_json entry positive]
  obtain ⟨⟨kind, alpha, l₁, l₂⟩, limit, values⟩ := entry
  cases kind <;> cases limit <;>
    simp [Entry.json, Json.member?, Entry.orders, Entry.limitMember, List.lookup, Json.string?,
      Json.integer?, IntegralKind.name, Request.reported]

end Report.Entry

section Limits
variable {limits : Bool} {request : Request Float} {values : List Float}

theorem entryOf_limit_isSome (admitted : request.Admitted) :
    (entryOf limits request values).limit.isSome =
      (limits && request.kind != .innerPotential) := by
  cases limits with
  | false => rfl
  | true => exact admitted.limitValue_isSome

/-- An entry has a limit exactly if limits are asked for and its integral is an inner one. -/
theorem member?_limit_isSome (admitted : request.Admitted) :
    ((entryOf limits request values).json.member? "limit").isSome =
      (limits && request.kind == .inner) := by
  have some : (entryOf limits request values).limit.isSome =
      (limits && request.kind != .innerPotential) := entryOf_limit_isSome admitted
  rw [Entry.member?_limit, apply_ite Option.isSome, Option.isSome_map, some, entryOf]
  cases request.kind <;> simp

theorem member?_origin_isSome (admitted : request.Admitted) :
    ((entryOf limits request values).json.member? "origin").isSome =
      (limits && request.kind == .outer) := by
  have some : (entryOf limits request values).limit.isSome =
      (limits && request.kind != .innerPotential) := entryOf_limit_isSome admitted
  rw [Entry.member?_origin, apply_ite Option.isSome, Option.isSome_map, some, entryOf]
  cases request.kind <;> simp

theorem limit?_entryOf (admitted : request.Admitted) :
    (entryOf limits request values).json.limit? = if limits then
      request.limitValue.map fun limit => (limitPlace request, finite? limit) else none := by
  have limited := admitted.limitValue_isSome
  rw [Json.limit?, Entry.member?_limit, Entry.member?_origin, entryOf, limitPlace]
  cases limits with
  | false => simp
  | true =>
    cases kind : request.kind <;> cases limit : request.limitValue <;>
      rw [kind, limit] at limited <;> first | contradiction | simp [Json.cell?_ofFloat]

end Limits

/-! ### Documents -/

/-- What is read from the document of a grid and of requests with the columns of their values. -/
structure DocumentData (grid : Grid Float) (requests : List (Request Float)) (limits : Bool)
    (columns : List (List Float)) (json : Json) (entries : List Json) : Prop where
  kind : (do (← (← json.member? "grid").member? "type").string?) = some grid.kind.name
  points : (do (← (← json.member? "grid").member? "points").cells?) =
    some (grid.points.map finite?)
  anisotropy : (do (← (← json.member? "grid").member? "anisotropy").cell?) =
    if grid.kind = .exponential then some (finite? grid.anisotropy) else none
  items : (do (← json.member? "integrals").items?) = some entries
  reported : entries.mapM Json.request? = some (requests.map Request.reported)
  values : (entries.mapM fun entry => do (← entry.member? "values").cells?) =
    some (columns.map fun column => column.map finite?)
  limited : entries.map Json.limit? = requests.map fun request =>
    if limits then request.limitValue.map fun limit => (limitPlace request, finite? limit) else none
  limit_members : List.Forall₂ (fun request entry =>
    (entry.member? "limit").isSome = (limits && request.kind == .inner) ∧
      (entry.member? "origin").isSome = (limits && request.kind == .outer)) requests entries

theorem mapM_entries {β : Type} {read : Json → Option β} {value : Entry → β} {entries : List Entry}
    (reads : ∀ entry ∈ entries, read entry.json = some (value entry)) :
    (entries.map Entry.json).mapM read = some (entries.map value) := by
  induction entries with
  | nil => rfl
  | cons entry entries ih =>
    obtain ⟨here, later⟩ := List.forall_mem_cons.mp reads
    rw [List.map_cons, List.mapM_cons, here, ih later]
    rfl

section Documents
variable {grid : Grid Float} {requests : List (Request Float)} {columns : List (List Float)}

theorem member?_grid (grid : Grid Float) :
    (gridJson grid).member? "type" = some (.string grid.kind.name) ∧
      (gridJson grid).member? "points" = some (numbers grid.points) ∧
      (gridJson grid).member? "anisotropy" =
        if grid.kind = .exponential then some (.ofFloat grid.anisotropy) else none := by
  rw [gridJson]
  split <;> simp [Json.member?, List.lookup]

theorem forall₂_entriesFor {related : Request Float → Json → Prop} {limits : Bool}
    (each : ∀ request ∈ requests, ∀ values, related request (entryOf limits request values).json)
    (shape : columns.length = requests.length) :
    List.Forall₂ related requests ((entriesFor limits requests columns).map Entry.json) := by
  induction requests generalizing columns with
  | nil => exact .nil
  | cons request requests ih =>
    obtain ⟨here, later⟩ := List.forall_mem_cons.mp each
    cases columns with
    | nil => simp at shape
    | cons column columns => exact .cons (here column) (ih later (by simpa using shape))

theorem documentData (admitted : ∀ request ∈ requests, request.Admitted) (limits : Bool)
    (shape : columns.length = requests.length) :
    DocumentData grid requests limits columns
      (Document.json ⟨grid, entriesFor limits requests columns⟩)
      ((entriesFor limits requests columns).map Entry.json) := by
  obtain ⟨kind, points, anisotropy⟩ := member?_grid grid
  have gridMember : (Document.json ⟨grid, entriesFor limits requests columns⟩).member? "grid" =
      some (gridJson grid) := by
    rw [Document.json, Json.member?, List.lookup_cons_self]
  have firsts : (requests.zip columns).map Prod.fst = requests := List.map_fst_zip shape.ge
  have ofEntries : ∀ entry ∈ entriesFor limits requests columns, entry.request.Admitted := by
    rw [entriesFor, List.forall_mem_map]
    exact fun result member => admitted result.1 (List.of_mem_zip member).1
  refine ⟨?_, ?_, ?_, ?_, ?_, ?_, ?_, ?_⟩
  · rw [gridMember, Option.bind_eq_bind, Option.bind_some, kind]
    rfl
  · rw [gridMember, Option.bind_eq_bind, Option.bind_some, points]
    exact Json.cells?_numbers grid.points
  · rw [gridMember, Option.bind_eq_bind, Option.bind_some, anisotropy]
    split
    · exact Json.cell?_ofFloat grid.anisotropy
    · rfl
  · simp [Document.json, Json.member?, List.lookup, Json.items?]
  · rw [mapM_entries fun entry member => entry.request?_json (ofEntries entry member).positive,
      entriesFor, List.map_map]
    conv_rhs => rw [← firsts, List.map_map]
    rfl
  · have reads (entry : Entry) : (do (← entry.json.member? "values").cells?) =
        some (entry.values.map finite?) := by
      rw [entry.member?_values]
      exact Json.cells?_numbers entry.values
    rw [mapM_entries fun entry _ => reads entry, entriesFor, List.map_map]
    conv_rhs => rw [← List.map_snd_zip shape.le, List.map_map]
    rfl
  · rw [entriesFor, List.map_map, List.map_map]
    conv_rhs => rw [← firsts, List.map_map]
    exact List.map_congr_left fun result member =>
      limit?_entryOf (admitted result.1 (List.of_mem_zip member).1)
  · exact forall₂_entriesFor (fun request member values =>
      ⟨member?_limit_isSome (admitted request member),
        member?_origin_isSome (admitted request member)⟩) shape

end Documents

end GaussianRadial
