import Mathlib
import GaussianRadial.Input.Reader
import GaussianRadial.Proofs.SectionOrder

/-!
# Comments

A comment starts with a `#` that is the first character of its line or follows a blank, and a file
without its comments is read like the file. A `#` in any other place is part of a token: a line keeps
its tokens without its first `#` and all that follows exactly if that `#` starts a comment.
-/

namespace GaussianRadial.Input

/-! ### Runs between separators -/

section Split
variable {isSeparator : Char → Bool}

theorem mem_split {text run : List Char} (member : run ∈ split isSeparator text) :
    ∀ c ∈ run, isSeparator c = false ∧ c ∈ text := by
  induction text generalizing run with
  | nil =>
    obtain rfl := List.mem_singleton.mp member
    exact fun c inside => nomatch inside
  | cons d text ih =>
    have later {run : List Char} (old : run ∈ split isSeparator text) :
        ∀ c ∈ run, isSeparator c = false ∧ c ∈ d :: text :=
      fun c inside => ⟨(ih old c inside).1, List.mem_cons_of_mem _ (ih old c inside).2⟩
    cases here : isSeparator d with
    | true =>
      rw [split_cons_separator here] at member
      rcases List.mem_cons.mp member with rfl | old
      · exact fun c inside => nomatch inside
      · exact later old
    | false =>
      obtain ⟨first, runs, eq⟩ := exists_split isSeparator text
      rw [split_cons here, eq, List.modifyHead_cons] at member
      rw [eq] at later
      rcases List.mem_cons.mp member with rfl | old
      · exact List.forall_mem_cons.mpr ⟨⟨here, List.mem_cons_self⟩, later List.mem_cons_self⟩
      · exact later (List.mem_cons_of_mem _ old)

end Split

/-! ### Changed lines -/

theorem lines_intercalate {texts : List (List Char)} (filled : texts ≠ [])
    (within : ∀ line ∈ texts, ∀ c ∈ line, c ≠ '\n') :
    lines (['\n'].intercalate texts) = texts := by
  induction texts with
  | nil => exact absurd rfl filled
  | cons line later ih =>
    obtain ⟨here, others⟩ := List.forall_mem_cons.mp within
    cases later with
    | nil =>
      have single := lines_append here []
      rw [List.append_nil] at single
      simpa [lines, split, splitFrom] using single
    | cons next later =>
      rw [List.intercalate_cons_cons, List.append_assoc, List.singleton_append, lines_append here,
        lines_newLine, ih (List.cons_ne_nil _ _) others, List.modifyHead_cons, List.append_nil]

def mapLines (change : List Char → List Char) (text : String) : String :=
  String.ofList (['\n'].intercalate ((lines text.toList).map change))

theorem numberedTokens_mapLines {change : List Char → List Char} {text : String}
    (shortens : ∀ line, ∀ c ∈ change line, c ∈ line)
    (keeps : ∀ line ∈ lines text.toList, lineTokens (change line) = lineTokens line) :
    numberedTokens (mapLines change text).toList = numberedTokens text.toList := by
  have within : ∀ line ∈ (lines text.toList).map change, ∀ c ∈ line, c ≠ '\n' := by
    intro changed member c inside
    obtain ⟨line, old, rfl⟩ := List.mem_map.mp member
    simpa using (mem_split old c (shortens line c inside)).1
  obtain ⟨first, later, eq⟩ := exists_lines text.toList
  have filled : (lines text.toList).map change ≠ [] := by simp [eq]
  rw [numberedTokens, mapLines, String.toList_ofList, lines_intercalate filled within,
    numberedTokens, List.zipIdx_map, List.flatMap_map]
  apply List.flatMap_congr
  rintro ⟨line, number⟩ member
  simp only [Prod.map, id, keeps line (List.fst_mem_of_mem_zipIdx member)]

theorem Reader.read_mapLines {change : List Char → List Char} {text : String}
    (shortens : ∀ line, ∀ c ∈ change line, c ∈ line)
    (keeps : ∀ line ∈ lines text.toList, lineTokens (change line) = lineTokens line)
    (reader : Reader) : reader.read (some (mapLines change text)) = reader.read (some text) := by
  apply read_of_sections
  rw [Sections.ofText, Sections.ofText, numberedTokens_mapLines shortens keeps]

/-! ### Where a comment starts -/

/-- The text is empty or ends with a blank, so that a token may start after it. -/
def EndsBlank (before : List Char) : Prop := before.getLast?.all isBlank = true

instance : DecidablePred EndsBlank := fun before =>
  inferInstanceAs (Decidable (before.getLast?.all isBlank = true))

theorem endsBlank_nil : EndsBlank [] := rfl

theorem tokens_append {before : List Char} (ends : EndsBlank before) (rest : List Char) :
    tokens (before ++ rest) = tokens before ++ tokens rest := by
  rcases List.eq_nil_or_concat before with rfl | ⟨front, c, rfl⟩
  · rfl
  · rw [List.concat_eq_append] at ends ⊢
    have blank : isBlank c = true := by simpa [EndsBlank] using ends
    rw [List.append_assoc, List.singleton_append, tokens_append_blank blank,
      tokens_append_blank blank]
    simp [tokens, split, splitFrom]

theorem mem_tokens {line : List Char} {token : Token} (member : token ∈ tokens line) :
    ∀ c ∈ token, c ∈ line :=
  fun c inside => (mem_split (List.mem_filter.mp member).1 c inside).2

theorem lineTokens_append_comment {before : List Char} (ends : EndsBlank before)
    (body : List Char) : lineTokens (before ++ '#' :: body) = lineTokens before := by
  have none : (tokens ('#' :: body)).takeWhile (!isComment ·) = [] := lineTokens_comment body
  rw [lineTokens, lineTokens, tokens_append ends, List.takeWhile_append, none]
  split
  · rename_i whole
    rw [List.append_nil]
    exact ((List.takeWhile_prefix _).eq_of_length whole).symm
  · rfl

/-- What follows the last blank of a text. -/
theorem exists_last_run (text : List Char) :
    ∃ front run, text = front ++ run ∧ EndsBlank front ∧ ∀ c ∈ run, isBlank c = false := by
  induction text with
  | nil => exact ⟨[], [], rfl, endsBlank_nil, by simp⟩
  | cons c text ih =>
    obtain ⟨front, run, rfl, ends, solid⟩ := ih
    cases front with
    | cons d front => exact ⟨c :: d :: front, run, rfl, by simpa [EndsBlank] using ends, solid⟩
    | nil =>
      cases blank : isBlank c with
      | true => exact ⟨[c], run, rfl, by simpa [EndsBlank] using blank, solid⟩
      | false => exact ⟨[], c :: run, rfl, ends, List.forall_mem_cons.mpr ⟨blank, solid⟩⟩

theorem exists_token_of_glued {before : List Char} (noHash : '#' ∉ before)
    (glued : ¬ EndsBlank before) (body : List Char) :
    ∃ token ∈ lineTokens (before ++ '#' :: body), '#' ∈ token := by
  obtain ⟨front, run, rfl, ends, solid⟩ := exists_last_run before
  rw [List.mem_append, not_or] at noHash
  cases run with
  | nil => exact absurd ends (by simpa using glued)
  | cons c run =>
    obtain ⟨more, runs, eq⟩ := exists_split isBlank body
    have hashed : split isBlank (c :: run ++ '#' :: body) = (c :: run ++ '#' :: more) :: runs := by
      rw [split_append solid, split_cons rfl, eq]
      rfl
    have first : tokens (c :: run ++ '#' :: body) =
        (c :: run ++ '#' :: more) :: runs.filter (!·.isEmpty) := by
      rw [tokens, hashed]
      rfl
    have goesOn : ∀ token ∈ tokens front, (!isComment token) = true := by
      intro token member
      rw [Bool.not_eq_true', ← Bool.not_eq_true]
      intro comment
      have starts := List.mem_of_mem_head? (eq_of_beq comment)
      exact noHash.1 (mem_tokens member '#' starts)
    have isToken : (!isComment (c :: run ++ '#' :: more)) = true := by
      have other : c ≠ '#' := fun same => noHash.2 (same ▸ List.mem_cons_self)
      simpa [isComment] using other
    refine ⟨c :: run ++ '#' :: more, ?_, by simp⟩
    rw [lineTokens, List.append_assoc, tokens_append ends, List.takeWhile_append_of_pos goesOn,
      first, List.takeWhile_cons, if_pos isToken]
    simp

/-! ### Lines without comments -/

/-- A line up to its first `#`. -/
def beforeHash (line : List Char) : List Char := line.takeWhile (· != '#')

/-- The first `#` of the line, if it has one, starts a comment. -/
def HashStartsComment (line : List Char) : Prop := '#' ∈ line → EndsBlank (beforeHash line)

instance : DecidablePred HashStartsComment := fun line =>
  inferInstanceAs (Decidable ('#' ∈ line → EndsBlank (beforeHash line)))

theorem exists_body {line : List Char} (hash : '#' ∈ line) :
    ∃ body, line = beforeHash line ++ '#' :: body := by
  induction line with
  | nil => exact nomatch hash
  | cons c line ih =>
    by_cases here : c = '#'
    · subst here
      exact ⟨line, rfl⟩
    · obtain ⟨body, eq⟩ := ih (List.mem_of_ne_of_mem (Ne.symm here) hash)
      have goesOn : (c != '#') = true := by simpa using here
      refine ⟨body, ?_⟩
      rw [beforeHash, List.takeWhile_cons, if_pos goesOn, List.cons_append, ← beforeHash, ← eq]

theorem not_mem_beforeHash (line : List Char) : '#' ∉ beforeHash line :=
  fun member => absurd (List.mem_takeWhile_imp member) (by decide)

theorem lineTokens_beforeHash_iff {line : List Char} :
    lineTokens (beforeHash line) = lineTokens line ↔ HashStartsComment line := by
  by_cases hash : '#' ∈ line
  · obtain ⟨body, eq⟩ := exists_body hash
    constructor
    · intro same _
      by_contra glued
      obtain ⟨token, member, inside⟩ := exists_token_of_glued (not_mem_beforeHash line) glued body
      rw [← eq, ← same] at member
      exact not_mem_beforeHash line
        (mem_tokens ((List.takeWhile_prefix _).subset member) '#' inside)
    · intro starts
      nth_rewrite 2 [eq]
      exact (lineTokens_append_comment (starts hash) body).symm
  · have whole : beforeHash line = line := by
      rw [beforeHash, List.takeWhile_eq_self_iff]
      intro c member
      simpa using fun same : c = '#' => hash (same ▸ member)
    rw [whole]
    exact ⟨fun _ member => absurd member hash, fun _ => rfl⟩

/-- A line up to its comment, where `fresh` tells whether one may start with the next character. -/
def beforeComment (fresh : Bool) : List Char → List Char
  | [] => []
  | c :: rest => if fresh && c == '#' then [] else c :: beforeComment (isBlank c) rest

theorem beforeComment_cases (fresh : Bool) (line : List Char) :
    beforeComment fresh line = line ∨
      ∃ body, line = beforeComment fresh line ++ '#' :: body ∧
        (beforeComment fresh line = [] → fresh = true) ∧ EndsBlank (beforeComment fresh line) := by
  induction line generalizing fresh with
  | nil => exact .inl rfl
  | cons c rest ih =>
    rw [beforeComment]
    split
    · rename_i comment
      rw [Bool.and_eq_true, beq_iff_eq] at comment
      obtain ⟨rfl, rfl⟩ := comment
      exact .inr ⟨rest, rfl, fun _ => rfl, endsBlank_nil⟩
    · rcases ih (isBlank c) with whole | ⟨body, eq, start, ends⟩
      · exact .inl (by rw [whole])
      · refine .inr ⟨body, by rw [List.cons_append, ← eq], by simp, ?_⟩
        cases kept : beforeComment (isBlank c) rest with
        | nil => simpa [EndsBlank] using start kept
        | cons d front =>
          rw [kept] at ends
          simpa [EndsBlank] using ends

theorem lineTokens_beforeComment (line : List Char) :
    lineTokens (beforeComment true line) = lineTokens line := by
  rcases beforeComment_cases true line with whole | ⟨body, eq, -, ends⟩
  · rw [whole]
  · nth_rewrite 2 [eq]
    exact (lineTokens_append_comment ends body).symm

theorem mem_of_mem_beforeComment {fresh : Bool} {line : List Char} {c : Char}
    (member : c ∈ beforeComment fresh line) : c ∈ line := by
  rcases beforeComment_cases fresh line with whole | ⟨body, eq, -⟩
  · rwa [whole] at member
  · rw [eq]
    exact List.mem_append_left _ member

/-- The text without the first `#` of each line and all that follows it on the line. -/
def withoutHashes (text : String) : String := mapLines beforeHash text

/-- The text without its comments. -/
def withoutComments (text : String) : String := mapLines (beforeComment true) text

/--
A file is read like the file without its comments. If the first `#` of every line starts a comment,
it is also read like the file without the first `#` of each line and all that follows it there. A
line whose first `#` does not start a comment has other tokens than what stands before that `#`.
-/
theorem Reader.read_withoutHashes (text : String) (reader : Reader) :
    reader.read (some (withoutComments text)) = reader.read (some text) ∧
    ((∀ line ∈ lines text.toList, HashStartsComment line) →
      reader.read (some (withoutHashes text)) = reader.read (some text)) ∧
    ∀ line, lineTokens (beforeHash line) = lineTokens line ↔ HashStartsComment line := by
  refine ⟨?_, fun starts => ?_, fun line => lineTokens_beforeHash_iff⟩
  · exact read_mapLines (fun line c member => mem_of_mem_beforeComment member)
      (fun line _ => lineTokens_beforeComment line) reader
  · exact read_mapLines (fun line c member => (List.takeWhile_prefix _).subset member)
      (fun line member => lineTokens_beforeHash_iff.mpr (starts line member)) reader

def commentedText : String := "#1\n$grid rmax 2 # $end\n# 3 #4\n$end\t#"

theorem Reader.read_withoutHashes_commented :
    (∀ line ∈ lines commentedText.toList, HashStartsComment line) ∧
      withoutHashes commentedText = "\n$grid rmax 2 \n\n$end\t" ∧
      (Reader.ofName "commented").read (some (withoutHashes commentedText)) =
        (Reader.ofName "commented").read (some commentedText) := by
  have starts : ∀ line ∈ lines commentedText.toList, HashStartsComment line := by decide +kernel
  exact ⟨starts, by decide +kernel, (read_withoutHashes commentedText _).2.1 starts⟩

/-! ### A `#` behind a keyword -/

def gluedText : String :=
  "$grid\ntype equidistant# the default\npoints 2\nrmax 1\n$end\n"
    ++ "$integrals\nc0 1 0\n$end\n$output\n$end\n"

def gluedBlocks : List Block := [
  ⟨.grid, ["type", "equidistant#", "the", "default", "points", "2", "rmax", "1"].map String.toList⟩,
  ⟨.integrals, ["c0", "1", "0"].map String.toList⟩, ⟨.output, []⟩]

def unglued : FileItems :=
  ⟨[.kind .equidistant, .points 2, .radius 1.0], [⟨.inner, 1.0, 0, 0⟩], []⟩

theorem glued_made : MadeOf gluedText gluedBlocks := by
  have marks : List.Forall₂ Block.Marked gluedBlocks (gluedBlocks.map Block.tokens) :=
    .cons (Block.marked_tokens _) (.cons (Block.marked_tokens _)
      (.cons (Block.marked_tokens _) .nil))
  exact ⟨by decide +kernel, _, marks, by decide +kernel⟩

theorem glued_refused :
    Settings.ofText gluedText = .error (.invalidGridKind "equidistant#".toList) := by
  have sections : Sections.ofText gluedText = .ok (Sections.ofBlocks gluedBlocks) := by
    rw [Sections.ofText_of_madeOf glued_made]
    rfl
  have grid : (Sections.ofBlocks gluedBlocks).grid = "type".toList ::
      ["equidistant#", "the", "default", "points", "2", "rmax", "1"].map String.toList := rfl
  rw [Settings.ofText, sections]
  show Settings.ofSections _ = _
  rw [Settings.ofSections, grid, readItems]
  rfl

theorem unglued_settings :
    Settings.ofText (withoutHashes gluedText) = .ok unglued.settings := by
  have kind : SpellsGridOption (.kind .equidistant)
      (["type", "equidistant"].map String.toList) := .kind rfl rfl
  have points : SpellsGridOption (.points 2) (["points", "2"].map String.toList) := .points rfl rfl
  have radius : SpellsGridOption (.radius 1.0) (["rmax", "1"].map String.toList) := .radius rfl rfl
  have request : SpellsRequest ⟨.inner, 1.0, 0, 0⟩ (["c0", "1", "0"].map String.toList) :=
    .intro rfl rfl rfl .inner
  have tokens_eq : fileTokens (withoutHashes gluedText).toList = [
      ⟨.grid, ["type", "equidistant", "points", "2", "rmax", "1"].map String.toList⟩,
      ⟨.integrals, ["c0", "1", "0"].map String.toList⟩, ⟨.output, []⟩].flatMap Block.tokens := by
    decide +kernel
  have written : unglued.WrittenIn (withoutHashes gluedText) :=
    FileItems.writtenIn_of_sections tokens_eq (.cons kind (.cons points (.cons radius .nil)))
      (.cons request .nil) .nil
  exact settings_ofText_iff.mpr ⟨_, written.inText, rfl⟩

/-- A `#` inside a token is read, and a file that it spoils is read without it. -/
theorem glued_hash_not_ignored :
    let reader := Reader.ofName "glued"
    (reader.read (some gluedText)).1 = .error (.invalidGridKind "equidistant#".toList) ∧
      ∃ job, (reader.read (some (withoutHashes gluedText))).1 = .ok job := by
  obtain ⟨grid, built⟩ : ∃ grid, unglued.settings.grid.build = .ok grid := ⟨_, rfl⟩
  have accepted := job_ok_iff.mpr ⟨show unglued.settings.faults = [] from rfl, grid, built, rfl⟩
  constructor
  · rw [Reader.read, ofFile, ofText, glued_refused]
  · rw [Reader.read, ofFile, ofText, unglued_settings]
    exact ⟨_, accepted⟩

end GaussianRadial.Input
