import Mathlib
import GaussianRadial.Proofs.NumberTexts
import GaussianRadial.Report.Table

/-!
# Aligned tables

Every line of a table has its cells in columns of the same widths, each padded on the left to the
width of its column. A number needs eight characters beside its places, and a column has them, so
all lines have one length and a column starts at one place in all of them.
-/

namespace GaussianRadial
open Number
open Input (isPlain isPlain_iff IsPlainToken isPlain_of_isDigit)

/-! ### Labels -/

theorem isPlainToken_append {s t : String} (first : IsPlainToken s.toList)
    (second : IsPlainToken t.toList) : IsPlainToken (s ++ t).toList := by
  rw [String.toList_append]
  refine ⟨by simp [first.ne_nil], ?_⟩
  exact List.forall_mem_append.mpr ⟨first.plain, second.plain⟩

theorem isPlainToken_nat (n : ℕ) : IsPlainToken (toString n).toList := by
  rw [Nat.toString_eq_repr, Nat.repr_eq_ofList_toDigits, String.toList_ofList]
  exact ⟨Nat.toDigits_ne_nil, fun c member => isPlain_of_isDigit (isDigit_of_mem_decimal member)⟩

theorem isPlainToken_int (n : ℤ) : IsPlainToken (toString n).toList := by
  cases n with
  | ofNat n => exact isPlainToken_nat n
  | negSucc n =>
    have minus : IsPlainToken "-".toList := ⟨by simp, by simp [isPlain_iff]⟩
    exact isPlainToken_append minus (isPlainToken_nat (n + 1))

theorem isPlainToken_label (request : Request Float) : IsPlainToken request.label.toList := by
  have kind : IsPlainToken request.kind.name.toList := by
    cases request.kind <;>
      exact ⟨by simp [IntegralKind.name], by simp [IntegralKind.name, isPlain_iff]⟩
  have opening : IsPlainToken "(a=".toList := ⟨by simp, by simp [isPlain_iff]⟩
  have order : IsPlainToken ",l=".toList := ⟨by simp, by simp [isPlain_iff]⟩
  have first : IsPlainToken ",l1=".toList := ⟨by simp, by simp [isPlain_iff]⟩
  have second : IsPlainToken ",l2=".toList := ⟨by simp, by simp [isPlain_iff]⟩
  have closing : IsPlainToken ")".toList := ⟨by simp, by simp [isPlain_iff]⟩
  have front := isPlainToken_append (isPlainToken_append kind opening)
    (isNumeralText_generalText request.alpha).isPlainToken
  have l₁ := isPlainToken_int request.l₁
  have l₂ := isPlainToken_int request.l₂
  unfold Request.label
  dsimp only
  split
  · have orders := isPlainToken_append (isPlainToken_append (isPlainToken_append
      (isPlainToken_append front first) l₁) second) l₂
    exact isPlainToken_append orders closing
  · exact isPlainToken_append (isPlainToken_append (isPlainToken_append front order) l₁) closing

namespace Report
open Input (lines lines_newLine lines_append)

/-! ### Cells -/

theorem length_padLeft (fill : Char) (width : ℕ) (text : List Char) :
    (padLeft fill width text).length = max width text.length := by
  rw [padLeft, List.length_append, List.length_replicate]
  omega

/-- Texts in columns of these widths, with a blank before each column and none wider than it. -/
inductive Cells : List ℕ → List String → List Char → Prop
  | nil : Cells [] [] []
  | cons {width : ℕ} {text : String} {widths : List ℕ} {texts : List String} {line : List Char}
      (fits : text.length ≤ width) (rest : Cells widths texts line) :
      Cells (width :: widths) (text :: texts) (' ' :: padLeft ' ' width text.toList ++ line)

/-- Where a column starts in a line whose columns are separated by blanks. -/
def columnStart (widths : List ℕ) (j : ℕ) : ℕ := ((widths.take j).map (· + 1)).sum

namespace Cells
variable {widths : List ℕ} {texts : List String} {line : List Char} {width : ℕ} {text : String}

theorem length_eq (cells : Cells widths texts line) : line.length = (widths.map (· + 1)).sum := by
  induction cells with
  | nil => rfl
  | cons fits _ ih =>
    rw [List.length_append, List.length_cons, length_padLeft, ih, List.map_cons, List.sum_cons,
      String.length_toList]
    omega

theorem getElem? (cells : Cells widths texts line) {j : ℕ} (atWidth : widths[j]? = some width)
    (atText : texts[j]? = some text) :
    text.length ≤ width ∧ (line.drop (columnStart widths j)).take (width + 1) =
      ' ' :: padLeft ' ' width text.toList := by
  induction cells generalizing j with
  | nil => simp at atWidth
  | @cons ahead first widths texts line fits _ ih =>
    have length : (' ' :: padLeft ' ' ahead first.toList).length = ahead + 1 := by
      rw [List.length_cons, length_padLeft, String.length_toList]
      omega
    cases j with
    | zero =>
      obtain rfl : ahead = width := by simpa using atWidth
      obtain rfl : first = text := by simpa using atText
      refine ⟨fits, ?_⟩
      rw [← length]
      exact List.take_left
    | succ j =>
      have later : columnStart (ahead :: widths) (j + 1) =
          (' ' :: padLeft ' ' ahead first.toList).length + columnStart widths j := by
        rw [columnStart, List.take_succ_cons, List.map_cons, List.sum_cons, length, columnStart]
      rw [later, List.drop_length_add_append]
      exact ih (by simpa using atWidth) (by simpa using atText)

theorem length_texts (cells : Cells widths texts line) : texts.length = widths.length := by
  induction cells with
  | nil => rfl
  | cons _ _ ih => rw [List.length_cons, List.length_cons, ih]

theorem ne_newLine (cells : Cells widths texts line)
    (plain : ∀ text ∈ texts, IsPlainToken text.toList) : ∀ c ∈ line, c ≠ '\n' := by
  induction cells with
  | nil => simp
  | cons fits rest ih =>
    obtain ⟨here, later⟩ := List.forall_mem_cons.mp plain
    simp only [padLeft, List.cons_append, List.forall_mem_cons, List.forall_mem_append]
    refine ⟨by decide, ⟨?_, ?_⟩, ih later⟩
    · intro c member
      rw [List.eq_of_mem_replicate member]
      decide
    · rintro c member rfl
      exact absurd (here.plain _ member) (by decide)

end Cells

/-! ### Lines of a table -/

theorem columnWidth_eq (places : ℕ) : columnWidth places = max (places + 8) 16 := by
  rw [columnWidth]
  split <;> omega

theorem requestWidth_eq (precision : ℤ) (request : Request Float) :
    requestWidth precision request = max (columnWidth precision) request.label.length := by
  rw [requestWidth]
  split <;> omega

/-- The widths of all columns. -/
def columnWidths (precision : ℤ) (requests : List (Request Float)) : List ℕ :=
  columnWidth precision :: requests.map (requestWidth precision)

theorem columnWidths_eq (places : ℕ) (requests : List (Request Float)) :
    columnWidths places requests = max (places + 8) 16 ::
      requests.map fun request => max (max (places + 8) 16) request.label.length := by
  rw [columnWidths, columnWidth_eq]
  congr 1
  apply List.map_congr_left
  intro request _
  rw [requestWidth_eq, columnWidth_eq]

theorem cells_join {α : Type} {width : α → ℕ} {text : α → String} {items : List α}
    (fit : ∀ item ∈ items, (text item).length ≤ width item) :
    Cells (items.map width) (items.map text)
      (String.join (items.map fun item => " " ++ alignRight (width item) (text item))).toList := by
  induction items with
  | nil => exact .nil
  | cons item items ih =>
    obtain ⟨here, later⟩ := List.forall_mem_cons.mp fit
    have padded : (" " ++ alignRight (width item) (text item)).toList =
        ' ' :: padLeft ' ' (width item) (text item).toList := by
      simp [alignRight]
    rw [List.map_cons, List.map_cons, List.map_cons, String.join_cons, String.toList_append, padded]
    exact .cons here (ih later)

theorem headerLine_cells (precision : ℤ) (requests : List (Request Float)) :
    Cells (columnWidths precision requests) ("r" :: requests.map Request.label)
      (' ' :: (headerLine precision requests).toList) := by
  have first : "r".length ≤ columnWidth precision := by
    have one : "r".length = 1 := by decide +kernel
    rw [one, columnWidth]
    split <;> omega
  have labels : ∀ request ∈ requests, request.label.length ≤ requestWidth precision request := by
    intro request _
    rw [requestWidth_eq]
    omega
  rw [headerLine, String.toList_append, alignRight, String.toList_ofList]
  exact .cons first (cells_join labels)

theorem length_scientificText_le {places : ℕ} (some : 1 ≤ places) (x : Float) :
    (scientificText places x).length ≤ columnWidth places := by
  rw [columnWidth_eq]
  rcases scientificText_cases some x with scientific | other
  · have length := scientific.length_le
    rw [String.length_toList] at length
    omega
  · simp only [List.mem_cons, List.not_mem_nil, or_false] at other
    have short : (scientificText places x).length ≤ 16 := by
      rcases other with eq | eq | eq <;> rw [eq] <;> decide +kernel
    omega

theorem rowLine_cells {places : ℕ} (some : 1 ≤ places) {requests : List (Request Float)}
    {values : List Float} (shape : values.length = requests.length) (x : Float) :
    Cells (columnWidths places requests) ((x :: values).map (scientificText places))
      (' ' :: (rowLine places requests x values).toList) := by
  have fit : ∀ item ∈ requests.zip values,
      (scientificText places item.2).length ≤ requestWidth places item.1 := by
    intro item _
    rw [requestWidth_eq]
    exact (length_scientificText_le some item.2).trans (le_max_left ..)
  have widths : (requests.zip values).map (requestWidth places ∘ Prod.fst) =
      requests.map (requestWidth places) := by
    rw [← List.map_map, List.map_fst_zip shape.ge]
  have texts : (requests.zip values).map (scientificText places ∘ Prod.snd) =
      values.map (scientificText places) := by
    rw [← List.map_map, List.map_snd_zip shape.le]
  have cells := cells_join fit
  change Cells (List.map (requestWidth places ∘ Prod.fst) _)
    (List.map (scientificText places ∘ Prod.snd) _) _ at cells
  rw [widths, texts] at cells
  rw [rowLine, String.toList_append, alignRight, String.toList_ofList]
  exact .cons (length_scientificText_le some x) cells

theorem rows_eq (columns : List (List Float)) (points : List Float) :
    rows columns points = points.zipIdx.map fun (x, i) => (x, columns.map (·.getD i 0)) := by
  suffices ∀ n, rows (columns.map (·.drop n)) points =
      (points.zipIdx n).map fun (x, i) => (x, columns.map (·.getD i 0)) by
    simpa using this 0
  intro n
  induction points generalizing n with
  | nil => rfl
  | cons x points ih =>
    rw [rows, List.zipIdx_cons, List.map_cons, ← ih, List.map_map, List.map_map]
    congr 2
    · apply List.map_congr_left
      intro column _
      simp [List.headD_eq_head?_getD]
    · simp

theorem lines_join {texts : List String} (within : ∀ text ∈ texts, ∀ c ∈ text.toList, c ≠ '\n') :
    lines (String.join (texts.map (· ++ "\n"))).toList = texts.map String.toList ++ [[]] := by
  induction texts with
  | nil => rfl
  | cons text texts ih =>
    obtain ⟨here, later⟩ := List.forall_mem_cons.mp within
    have ended : (text ++ "\n").toList = text.toList ++ ['\n'] := by simp
    rw [List.map_cons, String.join_cons, String.toList_append, ended, List.append_assoc,
      lines_append here, List.singleton_append, lines_newLine, ih later]
    simp

theorem isPlainToken_header (requests : List (Request Float)) :
    ∀ text ∈ "r" :: requests.map Request.label, IsPlainToken text.toList := by
  rw [List.forall_mem_cons, List.forall_mem_map]
  exact ⟨⟨by simp, by simp [isPlain_iff]⟩, fun request _ => isPlainToken_label request⟩

theorem isPlainToken_numbers (places : ℕ) (values : List Float) :
    ∀ text ∈ values.map (scientificText places), IsPlainToken text.toList := by
  rw [List.forall_mem_map]
  exact fun x _ => (isNumeralText_scientificText places x).isPlainToken

/-- Every text stands at the right end of its column and fits in it. -/
def InColumns (widths : List ℕ) (texts : List String) (line : List Char) : Prop :=
  texts.length = widths.length ∧ ∀ j width text, widths[j]? = some width → texts[j]? = some text →
    text.length ≤ width ∧
      (line.drop (columnStart widths j)).take width = padLeft ' ' width text.toList

theorem Cells.inColumns {widths : List ℕ} {texts : List String} {line : List Char}
    (cells : Cells widths texts (' ' :: line)) : InColumns widths texts line := by
  refine ⟨cells.length_texts, fun j width text atWidth atText => ?_⟩
  obtain ⟨fits, slice⟩ := cells.getElem? atWidth atText
  refine ⟨fits, ?_⟩
  have tail := congrArg (List.drop 1) slice
  rw [List.drop_take, List.drop_drop, Nat.add_sub_cancel] at tail
  exact tail

theorem Cells.length_line {widths : List ℕ} {texts : List String} {line : List Char} {width : ℕ}
    (cells : Cells (width :: widths) texts (' ' :: line)) :
    line.length = width + (widths.map (1 + ·)).sum := by
  have length := cells.length_eq
  rw [List.length_cons, List.map_cons, List.sum_cons] at length
  simp only [Nat.add_comm 1]
  omega

/-- The line of the grid point with number `i`. -/
def pointLine (job : Job Float) (columns : List (List Float)) (point : Float × ℕ) : String :=
  rowLine job.options.precision job.requests point.1 (columns.map (·.getD point.2 0))

theorem tableLines_eq (job : Job Float) (columns : List (List Float)) :
    tableLines job columns = headerLine job.options.precision job.requests ::
      job.grid.points.zipIdx.map (pointLine job columns) := by
  rw [tableLines, rows_eq, List.map_map]
  rfl

theorem pointLine_cells {job : Job Float} {columns : List (List Float)} {places : ℕ}
    (precision : job.options.precision = places) (positive : 1 ≤ places)
    (shape : columns.length = job.requests.length) (point : Float × ℕ) :
    Cells (columnWidths places job.requests)
      ((point.1 :: columns.map (·.getD point.2 0)).map (scientificText places))
      (' ' :: (pointLine job columns point).toList) := by
  rw [pointLine, precision]
  exact rowLine_cells positive (by rw [List.length_map, shape]) point.1

/--
The table is a header and a line for each grid point. All of them have one length, and their columns
start at the same places and hold the labels of the requests and the numbers of the grid point.
-/
theorem table_aligned {job : Job Float} {columns : List (List Float)} {places : ℕ}
    (precision : job.options.precision = places) (positive : 1 ≤ places)
    (shape : columns.length = job.requests.length) :
    let narrow := max (places + 8) 16
    let widths := narrow :: job.requests.map fun request => max narrow request.label.length
    ∃ header body, lines (table job columns).toList = header :: body ++ [[]] ∧
      body.length = job.grid.points.length ∧
      (∀ line ∈ header :: body, line.length =
        narrow + (job.requests.map fun request => 1 + max narrow request.label.length).sum) ∧
      InColumns widths ("r" :: job.requests.map Request.label) header ∧
      ∀ i x line, job.grid.points[i]? = some x → body[i]? = some line →
        InColumns widths ((x :: columns.map (·.getD i 0)).map (scientificText places)) line := by
  intro narrow widths
  have widthsEq : columnWidths places job.requests = widths := columnWidths_eq places job.requests
  have header : Cells widths _ _ := widthsEq ▸ headerLine_cells places job.requests
  have row (point : Float × ℕ) := widthsEq ▸ pointLine_cells precision positive shape point
  have every : ∀ line ∈ tableLines job columns, ∃ texts : List String,
      (∀ text ∈ texts, IsPlainToken text.toList) ∧ Cells widths texts (' ' :: line.toList) := by
    rw [tableLines_eq, precision, List.forall_mem_cons, List.forall_mem_map]
    exact ⟨⟨_, isPlainToken_header job.requests, header⟩,
      fun point _ => ⟨_, isPlainToken_numbers places _, row point⟩⟩
  refine ⟨(headerLine places job.requests).toList,
    job.grid.points.zipIdx.map fun point => (pointLine job columns point).toList, ?_, ?_, ?_,
    header.inColumns, ?_⟩
  · rw [table, lines_join, tableLines_eq, precision, List.map_cons, List.map_map]
    · rfl
    · intro line member
      obtain ⟨texts, plain, cells⟩ := every line member
      exact (List.forall_mem_cons.mp (cells.ne_newLine plain)).2
  · rw [List.length_map, List.length_zipIdx]
  · intro line member
    have member : line ∈ (tableLines job columns).map String.toList := by
      rw [tableLines_eq, precision, List.map_cons, List.map_map]
      exact member
    obtain ⟨text, there, rfl⟩ := List.mem_map.mp member
    obtain ⟨texts, -, cells⟩ := every text there
    rw [cells.length_line, List.map_map]
    rfl
  · intro i x line here there
    rw [List.getElem?_map, List.getElem?_zipIdx, here] at there
    obtain rfl : (pointLine job columns (x, 0 + i)).toList = line := by simpa using there
    rw [Nat.zero_add]
    exact (row (x, i)).inColumns

/-- A label that is wider than the numbers, and numbers that take all of their width. -/
def wideJob : Job Float where
  grid := ⟨.explicit, 0, [0, 1e-200], false⟩
  requests := [⟨.inner, 2, 2, 0⟩, ⟨.innerPotential, 0.015625, 16, 12⟩]
  options := ⟨.text, 8, false⟩

def wideColumns : List (List Float) := [[-1e-300, 1 / 0], [-1 / 0, -1e300]]

theorem table_aligned_wide :
    wideJob.options.precision = (8 : ℕ) ∧ wideColumns.length = wideJob.requests.length ∧
    ∃ header first second, lines (table wideJob wideColumns).toList = [header, first, second, []] ∧
      (∀ line ∈ [header, first, second], line.length = 16 + (17 + 28)) ∧
      InColumns [16, 16, 27] ["r", "c0(a=2,l=2)", "c0a(a=0.015625,l1=16,l2=12)"] header ∧
      InColumns [16, 16, 27] ["1.00000000e-200", "inf", "-1.00000000e+300"] second := by
  have precision : wideJob.options.precision = (8 : ℕ) := rfl
  have shape : wideColumns.length = wideJob.requests.length := rfl
  obtain ⟨header, body, text, count, length, labels, numbers⟩ :=
    table_aligned precision (by decide) shape
  obtain ⟨first, second, rfl⟩ := List.length_eq_two.mp count
  have requestLabels : wideJob.requests.map Request.label =
      ["c0(a=2,l=2)", "c0a(a=0.015625,l1=16,l2=12)"] := by decide +kernel
  have row : (1e-200 :: wideColumns.map (·.getD 1 0)).map (scientificText 8) =
      ["1.00000000e-200", "inf", "-1.00000000e+300"] := by decide +kernel
  have widths : (wideJob.requests.map fun request => max (max (8 + 8) 16) request.label.length) =
      [16, 27] := by decide +kernel
  have sum : (wideJob.requests.map fun request =>
      1 + max (max (8 + 8) 16) request.label.length).sum = 17 + 28 := by decide +kernel
  have last := numbers 1 1e-200 second rfl rfl
  rw [widths, requestLabels] at labels
  rw [widths, row] at last
  rw [sum] at length
  exact ⟨precision, shape, header, first, second, text, length, labels, last⟩

end Report

end GaussianRadial
