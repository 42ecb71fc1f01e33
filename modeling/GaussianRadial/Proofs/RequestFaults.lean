import Mathlib
import GaussianRadial.Proofs.AcceptedJobs
import GaussianRadial.Proofs.ReaderHistory

/-!
# Faults of the requests

A faulty file is answered with a list of lines. A request has lines in it exactly if it cannot be
evaluated, and they are those of the request at its position alone, whatever else is in the file.
The lines of the requests stand one after the other in their order, and no other line is about a
request: `requests_reported`.
-/

namespace GaussianRadial.Input

/-- The line of a fault in the list that a faulty file is answered with. -/
def Fault.line (fault : Fault) : String := "- " ++ fault.message ++ "\n"

/-- How the lines begin that are about the request at a position. -/
def lineStart (position : Nat) : String := s!"- Integral {position} ("

/-- Whether a line is about the request at a position. -/
def isAbout (position : Nat) (line : String) : Bool :=
  (lineStart position).toList.isPrefixOf line.toList

/-- The lines that a request has at a position. -/
def requestLines (position : Nat) (request : Request Float) : List String :=
  (requestFaults request).map fun fault => (Fault.request position request.kind fault).line

/-! ### What a line is about -/

theorem head?_append {c : Char} {s : String} (first : s.toList.head? = some c) (t : String) :
    (s ++ t).toList.head? = some c := by
  rw [String.toList_append, List.head?_append, first, Option.some_or]

/-- The message names a request, or it starts with another letter than one that does. -/
theorem Fault.message_head (fault : Fault) :
    (∃ position kind wrong, fault = .request position kind wrong) ∨
      ∃ c, c ≠ 'I' ∧ fault.message.toList.head? = some c := by
  cases fault with
  | request position kind wrong => exact .inl ⟨_, _, _, rfl⟩
  | negativeValue position value =>
    have first : "Grid point ".toList.head? = some 'G' := rfl
    refine .inr ⟨'G', by decide, ?_⟩
    exact head?_append (head?_append (head?_append (head?_append first _) _) _) _
  | decreasingValue position =>
    have first : "Grid points in $grid block must be increasing (point ".toList.head? = some 'G' :=
      rfl
    exact .inr ⟨'G', by decide, head?_append (head?_append first _) _⟩
  | tooFewPoints => exact .inr ⟨'P', by decide, rfl⟩
  | radiusNotPositive => exact .inr ⟨'R', by decide, rfl⟩
  | anisotropyNotPositive => exact .inr ⟨'A', by decide, rfl⟩
  | growthTooLarge => exact .inr ⟨'A', by decide, rfl⟩
  | noValues => exact .inr ⟨'A', by decide, rfl⟩
  | noRequests => exact .inr ⟨'N', by decide, rfl⟩
  | precisionOutOfRange => exact .inr ⟨'P', by decide, rfl⟩

theorem lineStart_toList (position : Nat) : (lineStart position).toList =
    "- Integral ".toList ++ (Nat.toDigits 10 position ++ [' ', '(']) := by
  have text : lineStart position = "- Integral " ++ toString position ++ " (" := rfl
  rw [text, String.toList_append, String.toList_append, List.append_assoc]
  simp

theorem request_line_toList (position : Nat) (kind : IntegralKind) (wrong : RequestFault) :
    ∃ rest, (Fault.request position kind wrong).line.toList =
      "- Integral ".toList ++ (Nat.toDigits 10 position ++ ' ' :: '(' :: rest) := by
  have text : (Fault.request position kind wrong).message =
      "Integral " ++ toString position ++ " (" ++ kind.name ++ "): " ++ wrong.message := rfl
  refine ⟨kind.name.toList ++ ("): ".toList ++ (wrong.message.toList ++ ['\n'])), ?_⟩
  rw [Fault.line, text]
  simp only [String.toList_append, List.append_assoc]
  simp

/-- Positions are told apart by their digits, which a blank ends. -/
theorem toDigits_of_blank {m n : Nat} {rest rest' : List Char}
    (same : Nat.toDigits 10 m ++ ' ' :: rest = Nat.toDigits 10 n ++ ' ' :: rest') : m = n := by
  have digits (k : Nat) (rest : List Char) :
      (Nat.toDigits 10 k ++ ' ' :: rest).takeWhile Char.isDigit = Nat.toDigits 10 k := by
    rw [List.takeWhile_append_of_pos
      fun c member => Nat.isDigit_of_mem_toDigits (by decide) (by decide) member]
    exact List.append_nil _
  have front := congrArg (List.takeWhile Char.isDigit) same
  rw [digits, digits] at front
  apply Nat.repr_inj.mp
  rw [Nat.repr_eq_ofList_toDigits, Nat.repr_eq_ofList_toDigits, front]

theorem isAbout_request {position other : Nat} {kind : IntegralKind} {wrong : RequestFault} :
    isAbout position (Fault.request other kind wrong).line = true ↔ other = position := by
  obtain ⟨rest, text⟩ := request_line_toList other kind wrong
  rw [isAbout, List.isPrefixOf_iff_prefix, lineStart_toList, text, List.prefix_append_right_inj]
  constructor
  · rintro ⟨more, same⟩
    rw [List.append_assoc] at same
    exact (toDigits_of_blank same).symm
  · rintro rfl
    exact ⟨rest, by simp⟩

/-- The fault is not one of a request. -/
def Fault.IsGeneral (fault : Fault) : Prop :=
  ∀ position kind wrong, fault ≠ .request position kind wrong

theorem Fault.IsGeneral.isAbout_eq_false {fault : Fault} (general : fault.IsGeneral)
    (position : Nat) : isAbout position fault.line = false := by
  obtain ⟨other, kind, wrong, rfl⟩ | ⟨c, different, first⟩ := fault.message_head
  · exact absurd rfl (general other kind wrong)
  · obtain ⟨tail, text⟩ := List.head?_eq_some_iff.mp first
    rw [Bool.eq_false_iff, isAbout, ne_eq, List.isPrefixOf_iff_prefix, lineStart_toList, line,
      String.toList_append, String.toList_append, text]
    simp [different.symm]

/-! ### Lines of the requests -/

theorem filter_requestLines_self (position : Nat) (request : Request Float) :
    (requestLines position request).filter (isAbout position) = requestLines position request := by
  rw [List.filter_eq_self]
  intro line member
  obtain ⟨wrong, -, rfl⟩ := List.mem_map.mp member
  exact isAbout_request.mpr rfl

theorem filter_requestLines_other {position other : Nat} (different : other ≠ position)
    (request : Request Float) : (requestLines other request).filter (isAbout position) = [] := by
  rw [List.filter_eq_nil_iff]
  intro line member
  obtain ⟨wrong, -, rfl⟩ := List.mem_map.mp member
  exact mt isAbout_request.mp different

/-- The lines of the requests from a position on, one request after the other. -/
def requestsLines (position : Nat) (requests : List (Request Float)) : List String :=
  (requests.zipIdx position).flatMap fun numbered => requestLines numbered.2 numbered.1

theorem requestsLines_cons (position : Nat) (request : Request Float)
    (rest : List (Request Float)) : requestsLines position (request :: rest) =
      requestLines position request ++ requestsLines (position + 1) rest := by
  rw [requestsLines, List.zipIdx_cons, List.flatMap_cons]
  rfl

theorem requestsFaults_lines (position : Nat) (requests : List (Request Float)) :
    (requestsFaults position requests).map Fault.line = requestsLines position requests := by
  induction requests generalizing position with
  | nil => rfl
  | cons request rest ih =>
    rw [requestsFaults, List.map_append, ih, requestsLines_cons, List.map_map]
    rfl

theorem filter_requestsLines_before {position first : Nat} (before : position < first)
    (requests : List (Request Float)) :
    (requestsLines first requests).filter (isAbout position) = [] := by
  induction requests generalizing first with
  | nil => rfl
  | cons request rest ih =>
    rw [requestsLines_cons, List.filter_append, filter_requestLines_other before.ne', ih (by omega)]
    rfl

theorem filter_requestsLines {requests : List (Request Float)} {i : Nat} {request : Request Float}
    (here : requests[i]? = some request) (first : Nat) :
    (requestsLines first requests).filter (isAbout (first + i)) =
      requestLines (first + i) request := by
  induction requests generalizing i first with
  | nil => simp at here
  | cons other rest ih =>
    rw [requestsLines_cons, List.filter_append]
    cases i with
    | zero =>
      obtain rfl : other = request := by simpa using here
      rw [Nat.add_zero, filter_requestLines_self,
        filter_requestsLines_before (Nat.lt_succ_self _), List.append_nil]
    | succ i =>
      have later := ih (by simpa using here) (first + 1)
      rw [Nat.succ_add_eq_add_succ] at later
      rw [filter_requestLines_other (by omega), later, List.nil_append]

/-! ### Lines of a file -/

theorem valueFaults_general {position : Nat} {before : Option Float} {values : List Float} :
    ∀ fault ∈ valueFaults position before values, fault.IsGeneral := by
  induction values generalizing position before with
  | nil => simp [valueFaults]
  | cons x rest ih =>
    rw [valueFaults]
    refine List.forall_mem_append.mpr ⟨fun fault member => ?_, ih⟩
    unfold valueFault at member
    split at member
    · obtain rfl := List.mem_singleton.mp member
      intro position kind wrong
      simp
    · split at member
      · contradiction
      · obtain ⟨-, rfl⟩ := mem_faultIf.mp member
        intro position kind wrong
        simp

theorem general_of_faultIf {condition : Bool} {fault : Fault} (general : fault.IsGeneral) :
    ∀ other ∈ faultIf condition fault, other.IsGeneral := by
  intro other member
  obtain ⟨-, rfl⟩ := mem_faultIf.mp member
  exact general

theorem GridSettings.faults_general (grid : GridSettings) :
    ∀ fault ∈ grid.faults, fault.IsGeneral := by
  rw [faults]
  simp only [List.forall_mem_append]
  refine ⟨⟨⟨⟨⟨?_, ?_⟩, ?_⟩, ?_⟩, ?_⟩, valueFaults_general⟩
  all_goals exact general_of_faultIf fun position kind wrong => by simp

/-- The list of faults has those of the requests in one piece, and none of them elsewhere. -/
theorem Settings.faults_split (settings : Settings) : ∃ before after,
    settings.faults = before ++ requestsFaults 1 settings.requests ++ after ∧
      ∀ fault ∈ before ++ after, fault.IsGeneral := by
  refine ⟨settings.grid.faults ++ faultIf settings.requests.isEmpty .noRequests,
    outputFaults settings.output.options, rfl, ?_⟩
  simp only [List.forall_mem_append]
  refine ⟨⟨settings.grid.faults_general, ?_⟩, ?_⟩
  all_goals exact general_of_faultIf fun position kind wrong => by simp

theorem filter_general {faults : List Fault} (general : ∀ fault ∈ faults, fault.IsGeneral)
    (position : Nat) : (faults.map Fault.line).filter (isAbout position) = [] := by
  rw [List.filter_eq_nil_iff, List.forall_mem_map]
  intro fault member
  rw [(general fault member).isAbout_eq_false position]
  decide

theorem Settings.filter_lines (settings : Settings) {i : Nat} {request : Request Float}
    (here : settings.requests[i]? = some request) :
    (settings.faults.map Fault.line).filter (isAbout (i + 1)) = requestLines (i + 1) request := by
  obtain ⟨before, after, split, general⟩ := settings.faults_split
  obtain ⟨first, last⟩ := List.forall_mem_append.mp general
  rw [split, List.map_append, List.map_append, List.filter_append, List.filter_append,
    requestsFaults_lines, filter_general first, filter_general last, List.nil_append,
    List.append_nil, Nat.add_comm]
  exact filter_requestsLines here 1

theorem requestLines_ne_nil_iff {request : Request Float} (number : request.alpha.isNaN = false)
    (position : Nat) (samples : List Float) :
    requestLines position request ≠ [] ↔ ∃ e, request.evaluateFresh samples = .error e := by
  rw [Request.evaluateFresh_error_iff, requestLines, ne_eq, List.map_eq_nil_iff]
  exact not_congr ⟨admitted_of_faults number, faults_of_admitted⟩

/--
Settings that a file gives are answered with all their faults. A request has lines among them
exactly if it cannot be evaluated over any samples, and these lines are the same in all settings
that have the request at its place. The lines of the requests stand together in the order of the
requests, and the warnings are those that are recorded where no fault has been found.
-/
theorem requests_reported {text : String} {settings : Settings}
    (read : Settings.ofText text = .ok settings) (reader : Reader) :
    let reading := reader.readStepwise (some text)
    let lines := settings.faults.map Fault.line
    (lines ≠ [] →
      ∃ e, reading.1 = .error e ∧ e.text = "INPUT ERROR:\n" ++ String.join lines) ∧
    (∀ i request, settings.requests[i]? = some request →
      lines.filter (isAbout (i + 1)) = requestLines (i + 1) request ∧
      (∀ samples, lines.filter (isAbout (i + 1)) ≠ [] ↔
        ∃ e, request.evaluateFresh samples = .error e) ∧
      ∀ other : Settings, other.requests[i]? = some request →
        (other.faults.map Fault.line).filter (isAbout (i + 1)) =
          lines.filter (isAbout (i + 1))) ∧
    (∃ before after, lines = before ++ requestsLines 1 settings.requests ++ after ∧
      ∀ line ∈ before ++ after, ∀ position, isAbout position line = false) ∧
    reading.2.warnings = ((settings.validate []).outcome []).2 := by
  intro reading lines
  have outcome : reading = (settings.job, ⟨reader.name, settings.warnings⟩) := by
    rw [show reading = _ from reader.readStepwise_eq_read _, Reader.read, ofFile, ofText, read]
  refine ⟨fun faulty => ?_, fun i request here => ?_, ?_, ?_⟩
  · have found : settings.faults.isEmpty = false := by
      rw [List.isEmpty_eq_false_iff]
      exact mt List.map_eq_nil_iff.mpr faulty
    rw [outcome, Settings.job, found]
    exact ⟨_, rfl, rfl⟩
  · have number := (settings_numbers read).alpha request (List.mem_of_getElem? here)
    have own : lines.filter (isAbout (i + 1)) = requestLines (i + 1) request :=
      settings.filter_lines here
    refine ⟨own, fun samples => ?_, fun other there => ?_⟩
    · rw [own]
      exact requestLines_ne_nil_iff number _ samples
    · rw [own, other.filter_lines there]
  · obtain ⟨before, after, split, general⟩ := settings.faults_split
    refine ⟨before.map Fault.line, after.map Fault.line, ?_, ?_⟩
    · rw [← requestsFaults_lines, ← List.map_append, ← List.map_append, ← split]
    · rw [← List.map_append, List.forall_mem_map]
      exact fun fault member => (general fault member).isAbout_eq_false
  · rw [outcome, Settings.outcome_validate]
    exact (List.nil_append _).symm

/-! ### A file with broken requests -/

def brokenText : String :=
  "$grid points 1 $end $integrals c0 1 3 ci 2 2 c0a -1 1 2 $end $output precision 40 $end"

def brokenBlocks : List Block := [
  ⟨.grid, ["points", "1"].map String.toList⟩,
  ⟨.integrals, ["c0", "1", "3", "ci", "2", "2", "c0a", "-1", "1", "2"].map String.toList⟩,
  ⟨.output, ["precision", "40"].map String.toList⟩]

def brokenItems : FileItems :=
  ⟨[.points 1], [⟨.inner, 1.0, 3, 0⟩, ⟨.outer, 2.0, 2, 0⟩, ⟨.innerPotential, -1.0, 1, 2⟩],
    [.precision 40]⟩

theorem broken_read : Settings.ofText brokenText = .ok brokenItems.settings := by
  have points : SpellsGridOption (.points 1) (["points", "1"].map String.toList) := .points rfl rfl
  have inner : SpellsRequest ⟨.inner, 1.0, 3, 0⟩ (["c0", "1", "3"].map String.toList) :=
    .intro rfl rfl rfl .inner
  have outer : SpellsRequest ⟨.outer, 2.0, 2, 0⟩ (["ci", "2", "2"].map String.toList) :=
    .intro rfl rfl rfl .outer
  have potential : SpellsRequest ⟨.innerPotential, -1.0, 1, 2⟩
      (["c0a", "-1", "1", "2"].map String.toList) :=
    .intro rfl rfl rfl (.given rfl)
  have precision : SpellsOutputOption (.precision 40) (["precision", "40"].map String.toList) :=
    .precision rfl rfl
  have tokens_eq : fileTokens brokenText.toList = brokenBlocks.flatMap Block.tokens := by
    decide +kernel
  have written : brokenItems.WrittenIn brokenText :=
    FileItems.writtenIn_of_sections tokens_eq (.cons points .nil)
      (.cons inner (.cons outer (.cons potential .nil))) (.cons precision .nil)
  exact settings_ofText_iff.mpr ⟨_, written.inText, rfl⟩

theorem requests_reported_broken :
    let lines := brokenItems.settings.faults.map Fault.line
    Settings.ofText brokenText = .ok brokenItems.settings ∧
      lines.filter (isAbout 2) = [] ∧
      lines.filter (isAbout 3) = ["- Integral 3 (c0a): the exponent must be positive.\n",
        "- Integral 3 (c0a): the total angular momentum l1 + l2 must be even.\n",
        "- Integral 3 (c0a): l1 must not be smaller than l2.\n"] ∧
      ∃ e, Request.evaluateFresh [1, 2] ⟨.innerPotential, -1.0, 1, 2⟩ = .error e := by
  obtain ⟨-, each, -⟩ := requests_reported broken_read (Reader.ofName "broken")
  obtain ⟨second, -⟩ := each 1 _ rfl
  obtain ⟨third, fails, -⟩ := each 2 _ rfl
  refine ⟨broken_read, second.trans rfl, third.trans rfl, (fails [1, 2]).mp ?_⟩
  rw [third]
  exact List.cons_ne_nil _ _

end GaussianRadial.Input
