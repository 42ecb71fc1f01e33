import Mathlib
import GaussianRadial.Input.Validation
import GaussianRadial.Proofs.DoubleOrder

/-!
# The items of a file

A file that can be read is a list of grid options, a list of requests and a list of output options,
and its settings are those of the items: `settings_ofText_iff`. The real numbers among the items
are finite, explicit points apart, so the settings have comparable numbers: `settings_numbers`.
-/

namespace GaussianRadial.Input

theorem bind_eq_ok_iff {ε α β : Type} {x : Except ε α} {f : α → Except ε β} {b : β} :
    (x >>= f) = .ok b ↔ ∃ a, x = .ok a ∧ f a = .ok b := by
  cases x <;> simp [Bind.bind, Except.bind]

theorem map_eq_ok_iff {ε α β : Type} {x : Except ε α} {f : α → β} {b : β} :
    x.map f = .ok b ↔ ∃ a, x = .ok a ∧ f a = b := by
  cases x <;> simp [Except.map]

theorem exists_map_ok_iff {ε α β : Type} {x : Except ε α} {f : α → β} :
    (∃ b, x.map f = .ok b) ↔ ∃ a, x = .ok a := by
  cases x <;> simp [Except.map]

/-! ### Items in order -/

section Items
variable {ι : Type} {read : ItemReader ι}

theorem readItems_nil (before : Nat) : readItems read before [] = .ok [] := by
  rw [readItems]

theorem readItems_cons {before : Nat} {first : Token} {rest : List Token} {item : ι}
    {left : Rest rest} (ok : read before first rest = .ok (item, left)) :
    readItems read before (first :: rest) =
      (readItems read (before + 1) left.val).map (item :: ·) := by
  rw [readItems, ok]

/-- What holds of every item that can be read holds of all items of a section. -/
theorem forall_of_readItems {P : ι → Prop}
    (step : ∀ before first rest item left, read before first rest = .ok (item, left) → P item)
    {before : Nat} {tokens : List Token} {items : List ι}
    (ok : readItems read before tokens = .ok items) : ∀ item ∈ items, P item := by
  induction length : tokens.length using Nat.strongRecOn generalizing before tokens items with
  | ind n ih =>
    subst length
    cases tokens with
    | nil =>
      rw [readItems_nil] at ok
      cases ok
      exact fun item member => nomatch member
    | cons first rest =>
      cases here : read before first rest with
      | error e =>
        rw [readItems, here] at ok
        contradiction
      | ok found =>
        obtain ⟨item, left⟩ := found
        rw [readItems_cons here, map_eq_ok_iff] at ok
        obtain ⟨later, ok, rfl⟩ := ok
        exact List.forall_mem_cons.mpr ⟨step _ _ _ _ _ here,
          ih _ (Nat.lt_succ_of_le left.property) ok rfl⟩

end Items

/-! ### Items and settings -/

/-- The options and the requests of a file in their order. -/
structure FileItems where
  grid : List GridOption
  requests : List (Request Float)
  output : List OutputOption

namespace FileItems

def settings (items : FileItems) : Settings :=
  ⟨items.grid.foldl .set .empty, items.requests, items.output.foldl .set .empty⟩

/-- The sections hold the items and nothing else. -/
structure InSections (items : FileItems) (sections : Sections) : Prop where
  grid_eq : readItems readGridOption 0 sections.grid = .ok items.grid
  requests_eq : readItems readRequest 0 sections.integrals = .ok items.requests
  output_eq : readItems readOutputOption 0 sections.output = .ok items.output

/-- The text has sections that hold the items. -/
def InText (items : FileItems) (text : String) : Prop :=
  ∃ sections, Sections.ofText text = .ok sections ∧ items.InSections sections

end FileItems

theorem settings_ofText_iff {text : String} {settings : Settings} :
    Settings.ofText text = .ok settings ↔
      ∃ items : FileItems, items.InText text ∧ items.settings = settings := by
  rw [Settings.ofText, bind_eq_ok_iff]
  constructor
  · rintro ⟨sections, found, ok⟩
    rw [Settings.ofSections] at ok
    obtain ⟨grid, gridRead, ok⟩ := bind_eq_ok_iff.mp ok
    obtain ⟨requests, requestsRead, ok⟩ := bind_eq_ok_iff.mp ok
    obtain ⟨output, outputRead, ok⟩ := bind_eq_ok_iff.mp ok
    exact ⟨⟨grid, requests, output⟩, ⟨sections, found, gridRead, requestsRead, outputRead⟩,
      Except.ok.inj ok⟩
  · rintro ⟨items, ⟨sections, found, gridRead, requestsRead, outputRead⟩, rfl⟩
    refine ⟨sections, found, ?_⟩
    rw [Settings.ofSections, gridRead, requestsRead, outputRead]
    rfl

theorem job_ok_iff {settings : Settings} {job : Job Float} :
    settings.job = .ok job ↔ settings.faults = [] ∧ ∃ grid, settings.grid.build = .ok grid ∧
      ⟨grid, settings.requests, settings.output.options⟩ = job := by
  rw [Settings.job, ← List.isEmpty_iff]
  cases settings.faults.isEmpty with
  | false => simp
  | true => cases settings.grid.build <;> simp

/-! ### Numbers of a file -/

/-- What is left of the token that a value is read from stands in front of the other tokens. -/
theorem readFront_ok {β : Type} {read : List Char → Option (β × List Char)} {tokens : List Token}
    {x : β} {left : Rest tokens} (ok : readFront read tokens = some (x, left)) :
    ∃ token rest, read token = some (x, rest) ∧ (rest = [] ∧ tokens = token :: left.val ∨
      rest ≠ [] ∧ ∃ more, tokens = token :: more ∧ left.val = rest :: more) := by
  unfold readFront at ok
  split at ok
  · contradiction
  · split at ok
    · contradiction
    · rename_i found
      cases ok
      exact ⟨_, _, found, .inl ⟨rfl, rfl⟩⟩
    · rename_i found
      cases ok
      exact ⟨_, _, found, .inr ⟨List.cons_ne_nil _ _, _, rfl, rfl⟩⟩

theorem readReal_isFinite {tokens : List Token} {x : Float} {left : Rest tokens}
    (ok : readReal tokens = some (x, left)) : x.isFinite = true := by
  obtain ⟨token, rest, found, -⟩ := readFront_ok ok
  unfold Number.readReal at found
  dsimp only at found
  split at found
  · exact nomatch found
  · rw [Option.ite_none_right_eq_some] at found
    obtain ⟨finite, eq⟩ := found
    obtain ⟨rfl, -⟩ := Prod.mk.inj (Option.some.inj eq)
    exact finite

/-- The real number of an option is finite. The values of an explicit grid are not restricted. -/
def GridOption.IsFinite : GridOption → Prop
  | radius x => x.isFinite = true
  | anisotropy x => x.isFinite = true
  | _ => True

theorem optionOf_ok {β ι : Type} {tokens : List Token} {option : Token} {make : β → ι}
    {value : Option (β × Rest tokens)} {item : ι} {left : Rest tokens}
    (ok : optionOf option make value = .ok (item, left)) :
    ∃ x, value = some (x, left) ∧ make x = item := by
  unfold optionOf at ok
  split at ok
  · exact nomatch ok
  · obtain ⟨rfl, rfl⟩ := Prod.mk.inj (Except.ok.inj ok)
    exact ⟨_, rfl, rfl⟩

theorem readGridOption_isFinite {before : Nat} {first : Token} {rest : List Token}
    {option : GridOption} {left : Rest rest}
    (ok : readGridOption before first rest = .ok (option, left)) : option.IsFinite := by
  unfold readGridOption at ok
  split at ok
  · unfold readGridKind at ok
    dsimp only at ok
    split at ok <;> cases ok <;> trivial
  · unfold readPoints at ok
    split at ok
    · exact nomatch ok
    · split at ok <;> cases ok
      trivial
  · obtain ⟨x, found, rfl⟩ := optionOf_ok ok
    exact readReal_isFinite found
  · obtain ⟨x, found, rfl⟩ := optionOf_ok ok
    exact readReal_isFinite found
  · cases ok
    trivial
  · exact nomatch ok

theorem readRequest_isFinite {before : Nat} {first : Token} {rest : List Token}
    {request : Request Float} {left : Rest rest}
    (ok : readRequest before first rest = .ok (request, left)) :
    request.alpha.isFinite = true := by
  unfold readRequest at ok
  split at ok
  · exact nomatch ok
  · split at ok
    · exact nomatch ok
    · rename_i item found
      cases ok
      unfold readParameters at found
      split at found
      · exact nomatch found
      · rename_i exponent
        split at found
        · exact nomatch found
        · split at found
          · exact nomatch found
          · cases found
            exact readReal_isFinite exponent

/-- The radius and the anisotropy are numbers, given or not. -/
structure GridSettings.Numbers (grid : GridSettings) : Prop where
  radius : grid.radius.isNaN = false
  anisotropy : grid.anisotropy.isNaN = false

theorem GridSettings.Numbers.set {grid : GridSettings} (numbers : grid.Numbers)
    {option : GridOption} (finite : option.IsFinite) : (grid.set option).Numbers := by
  cases option with
  | radius x => exact ⟨DoubleOrder.isNaN_of_isFinite finite, numbers.anisotropy⟩
  | anisotropy x => exact ⟨numbers.radius, DoubleOrder.isNaN_of_isFinite finite⟩
  | _ => exact ⟨numbers.radius, numbers.anisotropy⟩

theorem GridSettings.Numbers.foldl {grid : GridSettings} (numbers : grid.Numbers)
    {options : List GridOption} (finite : ∀ option ∈ options, option.IsFinite) :
    (options.foldl .set grid).Numbers := by
  induction options generalizing grid with
  | nil => exact numbers
  | cons option rest ih =>
    obtain ⟨here, later⟩ := List.forall_mem_cons.mp finite
    exact ih (numbers.set here) later

theorem GridSettings.numbers_empty : GridSettings.empty.Numbers := ⟨by decide, by decide⟩

/-- The numbers that a check of the settings compares are comparable. -/
structure Settings.Numbers (settings : Settings) : Prop where
  grid : settings.grid.Numbers
  alpha : ∀ request ∈ settings.requests, request.alpha.isNaN = false

theorem settings_numbers {text : String} {settings : Settings}
    (ok : Settings.ofText text = .ok settings) : settings.Numbers := by
  obtain ⟨items, ⟨sections, -, gridRead, requestsRead, -⟩, rfl⟩ := settings_ofText_iff.mp ok
  refine ⟨GridSettings.numbers_empty.foldl ?_, fun request member => ?_⟩
  · exact forall_of_readItems (fun _ _ _ _ _ => readGridOption_isFinite) gridRead
  · exact DoubleOrder.isNaN_of_isFinite
      (forall_of_readItems (fun _ _ _ _ _ => readRequest_isFinite) requestsRead request member)

end GaussianRadial.Input
