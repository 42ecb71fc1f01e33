import Mathlib
import GaussianRadial.Proofs.AcceptedJobs
import GaussianRadial.Proofs.AlignedTables

/-!
# Words of a text report

A text report is a sequence of lines: the grid, the limits if they are asked for, a title and the
table. All words of all these lines are known from the job and its columns: `hasWords_reportLines`.
-/

namespace GaussianRadial
open Number Report
open Input (isBlank isPlain isPlain_iff IsPlainToken Stops Token lines tokens tokens_blank
  tokens_append_blank)

/-! ### Words of a text -/

/-- The words of a line. -/
def lineWords (line : String) : List String := (tokens line.toList).map String.ofList

/-- The text of lines that all have an end. -/
def ofLines (lines : List String) : String := String.join (lines.map (· ++ "\n"))

theorem ofLines_nil : ofLines [] = "" := rfl

theorem ofLines_cons (line : String) (lines : List String) :
    ofLines (line :: lines) = line ++ ("\n" ++ ofLines lines) := by
  rw [ofLines, List.map_cons, String.join_cons, String.append_assoc]
  rfl

theorem ofLines_append (first second : List String) :
    ofLines (first ++ second) = ofLines first ++ ofLines second := by
  rw [ofLines, List.map_append, String.join_append]
  rfl

/-- A text without line ends. -/
def IsLine (line : String) : Prop := ∀ c ∈ line.toList, c ≠ '\n'

theorem isLine_append {first second : String} :
    IsLine (first ++ second) ↔ IsLine first ∧ IsLine second := by
  rw [IsLine, String.toList_append]
  exact List.forall_mem_append

theorem isLine_of_plain {word : String} (plain : IsPlainToken word.toList) : IsLine word := by
  rintro c member rfl
  exact absurd (plain.plain _ member) (by decide)

/-- The text consists of the given lines, each with its end. -/
def HasLines (text : String) (lines : List String) : Prop :=
  text = ofLines lines ∧ ∀ line ∈ lines, IsLine line

/-- The text consists of lines with the given words. -/
def HasWords (text : String) (words : List (List String)) : Prop :=
  ∃ lines, HasLines text lines ∧ lines.map lineWords = words

section Words
variable {line : List Char} {token : Token}

theorem tokens_blanks (count : ℕ) (line : List Char) :
    tokens (List.replicate count ' ' ++ line) = tokens line := by
  induction count with
  | zero => rfl
  | succ count ih => rw [List.replicate_succ, List.cons_append, tokens_blank rfl, ih]

theorem tokens_plain_append (plain : IsPlainToken token) (stops : Stops isBlank line) :
    tokens (token ++ line) = token :: tokens line := by
  obtain ⟨runs, eq⟩ := stops.split_eq
  have filled : token.isEmpty = false := by simpa using plain.ne_nil
  simp [tokens, Input.split_append plain.isToken.solid, eq, filled]

theorem lineWords_append (front back : String) :
    lineWords (front ++ " " ++ back) = lineWords front ++ lineWords back := by
  have text : (front ++ " " ++ back).toList = front.toList ++ ' ' :: back.toList := by simp
  rw [lineWords, text, tokens_append_blank rfl, List.map_append]
  rfl

theorem lineWords_of_plain {word : String} (plain : IsPlainToken word.toList) :
    lineWords word = [word] := by
  have alone : tokens (word.toList ++ []) = word.toList :: tokens [] :=
    tokens_plain_append plain fun c first => by cases first
  rw [List.append_nil] at alone
  rw [lineWords, alone]
  simp [tokens, Input.split, Input.splitFrom]

theorem lineWords_tab (line : String) : lineWords ("\t" ++ line) = lineWords line := by
  rw [lineWords, String.toList_append]
  exact congrArg _ (tokens_blank rfl line.toList)

theorem lineWords_alignLeft {word : String} (plain : IsPlainToken word.toList) (width : ℕ) :
    lineWords (alignLeft width word) = [word] := by
  have blanks := List.append_nil (List.replicate (width - word.length) ' ')
  have stops : Stops isBlank (List.replicate (width - word.length) ' ') := by
    intro c first
    obtain rfl := List.eq_of_mem_replicate (List.mem_of_mem_head? first)
    rfl
  rw [lineWords, alignLeft, String.toList_ofList, tokens_plain_append plain stops, ← blanks,
    tokens_blanks]
  simp [tokens, Input.split, Input.splitFrom]

end Words

theorem isPlainToken_of_all {word : String} (filled : word.toList ≠ [])
    (all : word.toList.all isPlain = true) : IsPlainToken word.toList :=
  ⟨filled, List.all_eq_true.mp all⟩

/-! ### The grid -/

section Grid
variable (grid : Grid Float)

/-- A bound of the range. -/
def Grid.boundText (x : Float) : String := signed grid.negativeNan (fixed 8) x

/-- The lines of the description of a grid. -/
def Grid.lines : List String :=
  ["Radial grid" ++ " " ++ ("(" ++ grid.kind.name ++ "):"),
    "\tNumber of points:" ++ " " ++ toString grid.points.length,
    "\tRange:           " ++ " " ++ ("[" ++ grid.boundText grid.range.1 ++ ",") ++ " "
      ++ (grid.boundText grid.range.2 ++ "]")]
  ++ if grid.kind = .exponential then ["\tAnisotropy:      " ++ " " ++ fixedText 6 grid.anisotropy]
    else []

theorem Grid.describe_eq : grid.describe = ofLines grid.lines := by
  have self (s : String) : toString s = s := rfl
  rw [← String.toList_inj]
  unfold describe lines rangeText boundText
  simp only [self]
  generalize signed grid.negativeNan (fixed 8) grid.range.1 = first
  generalize signed grid.negativeNan (fixed 8) grid.range.2 = last
  generalize fixedText 6 grid.anisotropy = anisotropy
  cases grid.kind <;> simp [ofLines_cons, ofLines_nil]

/-- The words of the description: the kind, the number of points, the range and the anisotropy. -/
def Grid.words : List (List String) :=
  [["Radial", "grid", "(" ++ grid.kind.name ++ "):"],
    ["Number", "of", "points:", toString grid.points.length],
    ["Range:", "[" ++ grid.boundText grid.range.1 ++ ",", grid.boundText grid.range.2 ++ "]"]]
  ++ if grid.kind = .exponential then [["Anisotropy:", fixedText 6 grid.anisotropy]] else []

/-- The words of a grid that are not the same for all grids. -/
structure Grid.HasWords : Prop where
  kind : IsPlainToken ("(" ++ grid.kind.name ++ "):").toList
  first : IsPlainToken ("[" ++ grid.boundText grid.range.1 ++ ",").toList
  last : IsPlainToken (grid.boundText grid.range.2 ++ "]").toList
  anisotropy : IsPlainToken (fixedText 6 grid.anisotropy).toList

theorem Grid.hasWords : grid.HasWords := by
  have opening : IsPlainToken "[".toList := isPlainToken_of_all (by decide) (by decide)
  have comma : IsPlainToken ",".toList := isPlainToken_of_all (by decide) (by decide)
  have closing : IsPlainToken "]".toList := isPlainToken_of_all (by decide) (by decide)
  have bound (x : Float) : IsPlainToken (grid.boundText x).toList :=
    (isNumeralText_signed (isNumeralText_fixed 8) _ x).isPlainToken
  refine ⟨?_, isPlainToken_append (isPlainToken_append opening (bound _)) comma,
    isPlainToken_append (bound _) closing,
    (isNumeralText_signed (isNumeralText_fixed 6) _ _).isPlainToken⟩
  cases grid.kind <;> exact isPlainToken_of_all (by decide) (by decide)

theorem Grid.lineWords_lines : grid.lines.map lineWords = grid.words := by
  obtain ⟨kind, first, last, anisotropy⟩ := grid.hasWords
  have title : lineWords "Radial grid" = ["Radial", "grid"] := by decide +kernel
  have number : lineWords "\tNumber of points:" = ["Number", "of", "points:"] := by decide +kernel
  have range : lineWords "\tRange:           " = ["Range:"] := by decide +kernel
  have growth : lineWords "\tAnisotropy:      " = ["Anisotropy:"] := by decide +kernel
  unfold lines words
  split <;>
    simp only [List.map_cons, List.map_nil, lineWords_append, title, number, range, growth,
      lineWords_of_plain kind, lineWords_of_plain (isPlainToken_nat _), lineWords_of_plain first,
      lineWords_of_plain last, lineWords_of_plain anisotropy, List.cons_append, List.nil_append]

theorem Grid.isLine_of_mem_lines : ∀ line ∈ grid.lines, IsLine line := by
  obtain ⟨kind, first, last, anisotropy⟩ := grid.hasWords
  have blank : IsLine " " := by simp [IsLine]
  have title : IsLine "Radial grid" := by simp [IsLine]
  have number : IsLine "\tNumber of points:" := by simp [IsLine]
  have range : IsLine "\tRange:           " := by simp [IsLine]
  have growth : IsLine "\tAnisotropy:      " := by simp [IsLine]
  unfold lines
  split <;>
    simp only [List.cons_append, List.nil_append, List.forall_mem_cons, isLine_append, blank, title,
      number, range, growth, isLine_of_plain kind, isLine_of_plain first, isLine_of_plain last,
      isLine_of_plain anisotropy, isLine_of_plain (isPlainToken_nat _)]
    <;> simp

end Grid

/-! ### Words of the limits -/

namespace Request
variable {request : Request Float}

/-- The full-range limit of a request that is admitted. -/
def limitValue (request : Request Float) : Option Float :=
  match request.limit? with
  | .ok limit => limit
  | .error _ => none

theorem Admitted.limit?_eq (admitted : request.Admitted) :
    request.limit? = .ok request.limitValue := by
  obtain ⟨limit, ok⟩ := admitted.limit
  rw [limitValue, ok]

/-- Only the inner potential has no limit. -/
theorem Admitted.limitValue_isSome (admitted : request.Admitted) :
    request.limitValue.isSome = (request.kind != .innerPotential) := by
  have ok := admitted.limit?_eq
  rw [limit?] at ok
  split at ok <;> rename_i kind
  · cases limit : innerLimit request.alpha request.l₁ with
    | error e =>
      rw [limit] at ok
      cases ok
    | ok x =>
      rw [limit] at ok
      rw [← Except.ok.inj ok, kind]
      rfl
  · rw [← Except.ok.inj ok, kind]
    rfl
  · cases limit : outerOrigin request.alpha request.l₁ with
    | error e =>
      rw [limit] at ok
      cases ok
    | ok x =>
      rw [limit] at ok
      rw [← Except.ok.inj ok, kind]
      rfl

end Request

/-- Where a limit is taken. -/
def limitPlace (request : Request Float) : List String :=
  if request.kind = .inner then ["x", "->", "inf:"] else ["x", "=", "0:"]

/-- The words of the line of a limit. -/
def limitWords (places : ℕ) (request : Request Float) (limit : Float) : List String :=
  request.label :: limitPlace request ++ [scientificText places limit]

def limitText (places : ℕ) (request : Request Float) (limit : Float) : String :=
  "\t" ++ alignLeft 28 request.label ++ " "
    ++ (if request.kind = .inner then "x -> inf:" else "x = 0:   ") ++ " "
    ++ scientificText places limit

theorem lineWords_limitText (places : ℕ) (request : Request Float) (limit : Float) :
    lineWords (limitText places request limit) = limitWords places request limit := by
  have label := isPlainToken_label request
  have number := (isNumeralText_scientificText places limit).isPlainToken
  have infinity : lineWords "x -> inf:" = ["x", "->", "inf:"] := by decide +kernel
  have origin : lineWords "x = 0:   " = ["x", "=", "0:"] := by decide +kernel
  rw [limitText, lineWords_append, lineWords_append, lineWords_tab, lineWords_alignLeft label,
    lineWords_of_plain number, apply_ite lineWords, infinity, origin]
  rfl

theorem isLine_limitText (places : ℕ) (request : Request Float) (limit : Float) :
    IsLine (limitText places request limit) := by
  have blank : IsLine " " := by simp [IsLine]
  have tab : IsLine "\t" := by simp [IsLine]
  have label : IsLine (alignLeft 28 request.label) := by
    have plain := isLine_of_plain (isPlainToken_label request)
    intro c member
    rw [alignLeft, String.toList_ofList, List.mem_append] at member
    rcases member with inside | pad
    · exact plain c inside
    · rw [List.eq_of_mem_replicate pad]
      decide
  have place : IsLine (if request.kind = .inner then "x -> inf:" else "x = 0:   ") := by
    split <;> simp [IsLine]
  have number := isLine_of_plain (isNumeralText_scientificText places limit).isPlainToken
  simp only [limitText, isLine_append]
  exact ⟨⟨⟨⟨⟨tab, label⟩, blank⟩, place⟩, blank⟩, number⟩

/-- The lines of the limits of all requests that have one. -/
def limitTexts (places : ℕ) (requests : List (Request Float)) : List String :=
  requests.filterMap fun request => request.limitValue.map (limitText places request)

theorem limitLine_eq {request : Request Float} (places : ℕ) (admitted : request.Admitted) :
    limitLine places request = .ok (ofLines (limitTexts places [request])) := by
  have checked := checkPrecision_ok (Int.natCast_nonneg places)
  have infinity : "x -> inf: " = "x -> inf:" ++ " " := by decide +kernel
  have origin : "x = 0:    " = "x = 0:   " ++ " " := by decide +kernel
  rw [limitLine, admitted.limit?_eq]
  cases limit : request.limitValue with
  | none =>
    have none : limitTexts places [request] = [] := by simp [limitTexts, limit]
    rw [none]
    rfl
  | some x =>
    have one : limitTexts places [request] = [limitText places request x] := by
      simp [limitTexts, limit]
    rw [one, ofLines_cons, ofLines_nil, limitText, infinity, origin]
    simp only [Except.mapError, bind, Except.bind, checked, Int.toNat_natCast, String.append_assoc,
      String.append_empty]
    split <;> rfl

theorem limitLines_eq {requests : List (Request Float)} (places : ℕ)
    (admitted : ∀ request ∈ requests, request.Admitted) :
    limitLines places requests = .ok (ofLines (limitTexts places requests)) := by
  induction requests with
  | nil => rfl
  | cons request requests ih =>
    obtain ⟨here, later⟩ := List.forall_mem_cons.mp admitted
    have split : limitTexts places (request :: requests) =
        limitTexts places [request] ++ limitTexts places requests :=
      List.filterMap_append (l := [request])
    rw [limitLines, limitLine_eq places here, ih later, split, ofLines_append]
    rfl

/-- The lines of the section of the limits. -/
def sectionTexts (places : ℕ) (requests : List (Request Float)) : List String :=
  "Full-range limits:" :: limitTexts places requests ++ [""]

theorem limits_eq {job : Job Float} {places : ℕ} (precision : job.options.precision = places)
    (admitted : ∀ request ∈ job.requests, request.Admitted) :
    Report.limits job = .ok (ofLines (sectionTexts places job.requests)) := by
  have heading : "Full-range limits:\n" = "Full-range limits:" ++ "\n" := by decide +kernel
  rw [Report.limits, precision, limitLines_eq places admitted, sectionTexts, List.cons_append,
    ofLines_cons, ofLines_append, ofLines_cons, ofLines_nil, heading]
  simp only [bind, Except.bind, String.append_assoc, String.append_empty, String.empty_append]
  rfl

theorem lineWords_sectionTexts (places : ℕ) (requests : List (Request Float)) :
    (sectionTexts places requests).map lineWords =
      ["Full-range", "limits:"] :: (requests.filterMap fun request =>
        request.limitValue.map (limitWords places request)) ++ [[]] := by
  have heading : lineWords "Full-range limits:" = ["Full-range", "limits:"] := by decide +kernel
  have blank : lineWords "" = [] := by decide +kernel
  rw [sectionTexts, List.map_append, List.map_cons, heading, List.map_singleton, blank, limitTexts,
    List.map_filterMap]
  simp only [Option.map_map, Function.comp_def, lineWords_limitText]

theorem isLine_of_mem_sectionTexts (places : ℕ) (requests : List (Request Float)) :
    ∀ line ∈ sectionTexts places requests, IsLine line := by
  simp only [sectionTexts, limitTexts, List.cons_append, List.forall_mem_cons,
    List.forall_mem_append, List.mem_filterMap]
  refine ⟨by simp [IsLine], ?_, by simp [IsLine]⟩
  rintro text ⟨request, -, here⟩
  obtain ⟨limit, -, rfl⟩ := Option.map_eq_some_iff.mp here
  exact isLine_limitText places request limit

/-! ### The table -/

namespace Report.Cells
variable {widths : List ℕ} {texts : List String} {line : List Char}

theorem stops (cells : Cells widths texts line) : Stops isBlank line := by
  cases cells with
  | nil =>
    intro c first
    cases first
  | cons =>
    rintro _ ⟨⟩
    rfl

theorem tokens_eq (cells : Cells widths texts line)
    (plain : ∀ text ∈ texts, IsPlainToken text.toList) : tokens line = texts.map String.toList := by
  induction cells with
  | nil => rfl
  | cons fits rest ih =>
    obtain ⟨here, later⟩ := List.forall_mem_cons.mp plain
    rw [List.cons_append, tokens_blank rfl, padLeft, List.append_assoc, tokens_blanks,
      tokens_plain_append here rest.stops, ih later, List.map_cons]

theorem lineWords_eq {line : String} (cells : Cells widths texts (' ' :: line.toList))
    (plain : ∀ text ∈ texts, IsPlainToken text.toList) : lineWords line = texts := by
  rw [lineWords, ← tokens_blank (c := ' ') rfl, cells.tokens_eq plain, List.map_map]
  simp [Function.comp_def]

end Report.Cells

/-- The words of the table: the labels, and the numbers of each grid point. -/
def tableWords (places : ℕ) (requests : List (Request Float)) (points : List Float)
    (columns : List (List Float)) : List (List String) :=
  ("r" :: requests.map Request.label) :: points.zipIdx.map fun (x, i) =>
    (x :: columns.map (·.getD i 0)).map (scientificText places)

section Table
variable {job : Job Float} {columns : List (List Float)} {places : ℕ}
  (precision : job.options.precision = places) (positive : 1 ≤ places)
  (shape : columns.length = job.requests.length)
include precision positive shape

theorem lineWords_tableLines : (tableLines job columns).map lineWords =
    tableWords places job.requests job.grid.points columns := by
  have header := headerLine_cells places job.requests
  have row := pointLine_cells precision positive shape
  have rows (point : Float × ℕ) : lineWords (pointLine job columns point) =
      (point.1 :: columns.map (·.getD point.2 0)).map (scientificText places) :=
    (row point).lineWords_eq (isPlainToken_numbers places _)
  rw [tableLines_eq, precision, List.map_cons, header.lineWords_eq (isPlainToken_header _),
    List.map_map, tableWords]
  simp only [Function.comp_def, rows]

theorem isLine_of_mem_tableLines : ∀ line ∈ tableLines job columns, IsLine line := by
  have header := headerLine_cells places job.requests
  have row := pointLine_cells precision positive shape
  rw [tableLines_eq, precision, List.forall_mem_cons, List.forall_mem_map]
  refine ⟨(List.forall_mem_cons.mp (header.ne_newLine (isPlainToken_header _))).2,
    fun point _ => ?_⟩
  exact (List.forall_mem_cons.mp ((row point).ne_newLine (isPlainToken_numbers places _))).2

end Table

/-! ### The report -/

def tableTitle (points integrals : ℕ) : String :=
  s!"Radial integrals ({points} points, {integrals} integrals)"

/-- A line that separates parts of a report. -/
def ruleText : String := lineText '-' lineLength

theorem isPlainToken_ruleText : IsPlainToken ruleText.toList := by
  rw [ruleText, lineText, String.toList_ofList]
  refine ⟨by simp [lineLength], fun c member => ?_⟩
  rw [List.eq_of_mem_replicate member]
  decide

theorem headerText_eq (title : String) :
    headerText title '-' lineLength = ofLines [ruleText, title, ruleText] := by
  rw [headerText]
  simp [ofLines_cons, ofLines_nil, ruleText, String.append_assoc]

theorem separatorText_eq : separatorText '-' lineLength = ofLines [ruleText] := by
  rw [separatorText]
  simp [ofLines_cons, ofLines_nil, ruleText]

theorem tableTitle_eq (points integrals : ℕ) : tableTitle points integrals =
    "Radial integrals" ++ " " ++ ("(" ++ toString points) ++ " " ++ "points," ++ " "
      ++ toString integrals ++ " " ++ "integrals)" := by
  have self (s : String) : toString s = s := rfl
  unfold tableTitle
  simp only [self]
  generalize toString points = first
  generalize toString integrals = second
  rw [← String.toList_inj]
  simp

def titleWords (points integrals : ℕ) : List String :=
  ["Radial", "integrals", "(" ++ toString points, "points,", toString integrals, "integrals)"]

theorem lineWords_tableTitle (points integrals : ℕ) :
    lineWords (tableTitle points integrals) = titleWords points integrals := by
  have opening : IsPlainToken "(".toList := isPlainToken_of_all (by decide) (by decide)
  have title : lineWords "Radial integrals" = ["Radial", "integrals"] := by decide +kernel
  have counted : lineWords "points," = ["points,"] := by decide +kernel
  have closing : lineWords "integrals)" = ["integrals)"] := by decide +kernel
  rw [tableTitle_eq]
  simp only [lineWords_append, title, counted, closing,
    lineWords_of_plain (isPlainToken_append opening (isPlainToken_nat points)),
    lineWords_of_plain (isPlainToken_nat integrals)]
  rfl

theorem isLine_tableTitle (points integrals : ℕ) : IsLine (tableTitle points integrals) := by
  rw [tableTitle_eq]
  simp only [isLine_append, isLine_of_plain (isPlainToken_nat _)]
  simp [IsLine]

def reportLines (job : Job Float) (places : ℕ) (columns : List (List Float)) : List String :=
  job.grid.lines ++ [""] ++ (if job.options.limits then sectionTexts places job.requests else [])
    ++ [ruleText, tableTitle job.grid.points.length job.requests.length, ruleText]
    ++ tableLines job columns ++ [ruleText]

/-- The words of the lines of a text report: the grid, the limits, a title and the table. -/
def reportWords (job : Job Float) (places : ℕ) (columns : List (List Float)) :
    List (List String) :=
  let rule := String.ofList (List.replicate 99 '-')
  job.grid.words ++ [[]]
    ++ (if job.options.limits then ["Full-range", "limits:"] :: (job.requests.filterMap
        fun request => request.limitValue.map (limitWords places request)) ++ [[]]
      else [])
    ++ [[rule], titleWords job.grid.points.length job.requests.length, [rule]]
    ++ tableWords places job.requests job.grid.points columns ++ [[rule]]

section Whole
variable {job : Job Float} {columns : List (List Float)} {places : ℕ}
  (precision : job.options.precision = places) (positive : 1 ≤ places)
include precision positive

/-- The pieces of a text report are its lines. -/
theorem reportPieces_text [JsonNumbers] (format : job.options.format = .text)
    (admitted : ∀ request ∈ job.requests, request.Admitted) :
    String.join (untilError (reportPieces job columns)).1 =
      ofLines (reportLines job places columns) := by
  have table : checkedTable job columns = .ok (ofLines (tableLines job columns)) :=
    checkedTable_ok (by omega) columns
  have limits := limits_eq precision admitted
  rw [reportPieces, format]
  dsimp only
  have ended (lines : List String) : ofLines lines ++ "\n" = ofLines (lines ++ [""]) := by
    rw [ofLines_append, ofLines_cons, ofLines_nil, String.empty_append, String.append_empty]
  have header : headerText (tableTitle job.grid.points.length job.requests.length) '-' lineLength =
      ofLines _ := headerText_eq _
  rw [table, limits, job.grid.describe_eq, separatorText_eq, ended, reportLines]
  cases job.options.limits with
  | true =>
    change String.join [ofLines (job.grid.lines ++ [""]),
      ofLines (sectionTexts places job.requests), headerText (tableTitle _ _) _ _, ofLines (tableLines job columns), ofLines [ruleText]] = _
    rw [header, if_pos rfl]
    simp only [ofLines_append, String.join_cons, String.join_nil, String.append_empty,
      String.append_assoc]
  | false =>
    change String.join [ofLines (job.grid.lines ++ [""]), headerText (tableTitle _ _) _ _,
      ofLines (tableLines job columns), ofLines [ruleText]] = _
    rw [header, if_neg Bool.false_ne_true]
    simp only [ofLines_append, String.join_cons, String.join_nil, String.append_empty,
      String.append_assoc, List.append_nil]

variable (shape : columns.length = job.requests.length)
include shape

theorem hasWords_reportLines :
    HasWords (ofLines (reportLines job places columns)) (reportWords job places columns) := by
  have rule : lineWords ruleText = [String.ofList (List.replicate 99 '-')] :=
    lineWords_of_plain isPlainToken_ruleText
  have blank : lineWords "" = [] := by decide +kernel
  have ruleLine := isLine_of_plain isPlainToken_ruleText
  refine ⟨_, ⟨rfl, ?_⟩, ?_⟩
  · have limited : ∀ line ∈ (if job.options.limits then sectionTexts places job.requests else []),
        IsLine line := by
      split
      · exact isLine_of_mem_sectionTexts places job.requests
      · simp
    simp only [reportLines, List.forall_mem_append, List.forall_mem_cons]
    exact ⟨⟨⟨⟨⟨job.grid.isLine_of_mem_lines, by simp [IsLine], by simp⟩, limited⟩, ruleLine,
      isLine_tableTitle _ _, ruleLine, by simp⟩,
      isLine_of_mem_tableLines precision positive shape⟩, ruleLine, by simp⟩
  · simp only [reportLines, List.map_append, List.map_cons, List.map_nil, job.grid.lineWords_lines,
      blank, apply_ite (List.map lineWords), lineWords_sectionTexts, rule, lineWords_tableTitle,
      lineWords_tableLines precision positive shape]
    rfl

end Whole

end GaussianRadial
