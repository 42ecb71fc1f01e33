import Mathlib
import GaussianRadial.Input.BlockStream
import GaussianRadial.Proofs.FileItems
import GaussianRadial.Proofs.PlainTokens

/-!
# Words and numbers of a stream

A blank ends every word and every number: what a reader takes off the front of a text does not
depend on what stands after a blank. So a stream in front of tokens gives the words and the numbers
that the tokens give, and then it is in front of what is left of them: `BlockStream.Stands`.
-/

namespace GaussianRadial.Input
open Number

/-! ### Numbers before a blank -/

section Blank
variable (text more : List Char)

theorem takeDigits_blank : takeDigits (text ++ ' ' :: more) =
    ((takeDigits text).1, (takeDigits text).2 ++ ' ' :: more) := by
  induction text with
  | nil => rfl
  | cons c text ih =>
    cases digit : c.isDigit with
    | false => simp [takeDigits, digit]
    | true => simpa [takeDigits, digit] using ih

theorem takeSign_blank : takeSign (text ++ ' ' :: more) =
    ((takeSign text).1, (takeSign text).2 ++ ' ' :: more) := by
  cases text with
  | nil => rfl
  | cons c text =>
    by_cases minus : c = '-'
    · subst minus
      rfl
    by_cases plus : c = '+'
    · subst plus
      rfl
    rw [takeSign_of_other minus plus]
    exact takeSign_of_other minus plus _

theorem takeFraction_blank : takeFraction (text ++ ' ' :: more) =
    ((takeFraction text).1, (takeFraction text).2 ++ ' ' :: more) := by
  cases text with
  | nil => rfl
  | cons c text =>
    by_cases point : c = '.'
    · subst point
      exact takeDigits_blank text more
    rw [takeFraction_of_other point]
    exact takeFraction_of_other point _

theorem readExponent_blank : readExponent (text ++ ' ' :: more) =
    (readExponent text).map fun r => (r.1, r.2 ++ ' ' :: more) := by
  cases text with
  | nil => rfl
  | cons c text =>
    rw [List.cons_append, readExponent, readExponent]
    by_cases mark : c = 'e' ∨ c = 'E'
    · rw [if_pos mark, if_pos mark]
      simp only [takeSign_blank, takeDigits_blank]
      split <;> rfl
    · rw [if_neg mark, if_neg mark]
      rfl

theorem readMagnitude_blank (negative : Bool) : readMagnitude negative (text ++ ' ' :: more) =
    (readMagnitude negative text).map fun r => (r.1, r.2 ++ ' ' :: more) := by
  simp only [readMagnitude, takeDigits_blank, takeFraction_blank, readExponent_blank]
  split
  · rfl
  · simp only [Option.map_map]
    rfl

theorem readReal_blank : Number.readReal (text ++ ' ' :: more) =
    (Number.readReal text).map fun r => (r.1, r.2 ++ ' ' :: more) := by
  simp only [Number.readReal, takeSign_blank, readMagnitude_blank]
  cases readMagnitude (takeSign text).1 (takeSign text).2 with
  | none => rfl
  | some read =>
    dsimp only [Option.map_some]
    split <;> rfl

theorem readInteger_blank (low high : Int) : readInteger low high (text ++ ' ' :: more) =
    (readInteger low high text).map fun r => (r.1, r.2 ++ ' ' :: more) := by
  simp only [readInteger, takeSign_blank, takeDigits_blank]
  generalize takeDigits (takeSign text).2 = read
  generalize (if (takeSign text).1 then -(digitsValue read.1 : Int) else digitsValue read.1) = value
  split <;> rfl

end Blank

/-- A reader of the front of a text that does not read past a blank. -/
structure StopsAtBlank {β : Type} (read : List Char → Option (β × List Char)) : Prop where
  takes : ∀ {text x rest}, read text = some (x, rest) → Takes text rest
  blank : ∀ text more, read (text ++ ' ' :: more) =
    (read text).map fun r => (r.1, r.2 ++ ' ' :: more)

theorem stopsAtBlank_real : StopsAtBlank Number.readReal := ⟨takes_real, readReal_blank⟩

theorem stopsAtBlank_integer (low high : Int) : StopsAtBlank (Number.readInteger low high) :=
  ⟨takes_integer, fun text more => readInteger_blank text more low high⟩

/-! ### Texts of tokens -/

/-- A run without blanks. What is left of a token may be any. -/
structure IsSolid (token : Token) : Prop where
  ne_nil : token ≠ []
  solid : ∀ c ∈ token, isBlank c = false

theorem isSolid_iff {token : Token} :
    IsSolid token ↔ (!token.isEmpty && token.all (!isBlank ·)) = true := by
  simp only [Bool.and_eq_true, Bool.not_eq_true', List.isEmpty_eq_false_iff, List.all_eq_true]
  exact ⟨fun isSolid => ⟨isSolid.ne_nil, isSolid.solid⟩, fun all => ⟨all.1, all.2⟩⟩

instance : DecidablePred IsSolid := fun _ => decidable_of_iff _ isSolid_iff.symm

theorem blockText_cons (token : Token) (tokens : List Token) :
    blockText (token :: tokens) = token ++ ' ' :: blockText tokens := by
  simp [blockText]

theorem blockText_append (tokens more : List Token) :
    blockText (tokens ++ more) = blockText tokens ++ blockText more :=
  List.flatMap_append

theorem blockText_isEmpty (tokens : List Token) : (blockText tokens).isEmpty = tokens.isEmpty := by
  cases tokens with
  | nil => rfl
  | cons token tokens => simp [blockText_cons]

theorem takeWhile_solid {token : Token} (solid : IsSolid token) (more : List Char) :
    (token ++ ' ' :: more).takeWhile (!isBlank ·) = token := by
  have inside : ∀ c ∈ token, (!isBlank c) = true := fun c member => by simp [solid.solid c member]
  rw [List.takeWhile_append_of_pos inside, List.takeWhile_cons_of_neg (by decide), List.append_nil]

theorem takeWhile_blockText {tokens : List Token} (solid : ∀ token ∈ tokens, IsSolid token) :
    (blockText tokens).takeWhile isBlank = [] := by
  cases tokens with
  | nil => rfl
  | cons token tokens =>
    obtain ⟨filled, solid⟩ := solid token List.mem_cons_self
    obtain ⟨c, body, rfl⟩ := List.exists_cons_of_ne_nil filled
    rw [blockText_cons, List.cons_append, List.takeWhile_cons_of_neg]
    simp [solid c List.mem_cons_self]

theorem dropWhile_blockText {tokens : List Token} (solid : ∀ token ∈ tokens, IsSolid token) :
    (blockText tokens).dropWhile isBlank = blockText tokens := by
  have whole := List.takeWhile_append_dropWhile (p := isBlank) (l := blockText tokens)
  rwa [takeWhile_blockText solid, List.nil_append] at whole

/-! ### Streams in front of tokens -/

namespace BlockStream
variable {stream : BlockStream} {tokens rest : List Token} {first : Token}

theorem ahead_advance (stream : BlockStream) (count : Nat) :
    (stream.advance count).ahead = stream.ahead.drop count :=
  List.drop_drop.symm

theorem atEnd_advance (stream : BlockStream) (count : Nat) :
    (stream.advance count).atEnd = (stream.ahead.drop count).isEmpty :=
  congrArg List.isEmpty (ahead_advance stream count)

theorem advance_advance (stream : BlockStream) (count more : Nat) :
    (stream.advance count).advance more = stream.advance (count + more) := by
  simp only [advance, Nat.add_assoc]

theorem text_skipBlanks (stream : BlockStream) : stream.skipBlanks.text = stream.text := by
  rw [skipBlanks]
  split <;> rfl

/-- After blanks, the tokens are ahead. Only without tokens the stream can be at its end. -/
structure Stands (stream : BlockStream) (tokens : List Token) : Prop where
  solid : ∀ token ∈ tokens, IsSolid token
  failed_eq : stream.failed = false
  atEnd_imp : stream.atEnd = true → tokens = []
  ahead_eq : stream.ahead.dropWhile isBlank = blockText tokens

/-- The tokens are ahead, and nothing before them. -/
structure Before (stream : BlockStream) (tokens : List Token) : Prop where
  solid : ∀ token ∈ tokens, IsSolid token
  failed_eq : stream.failed = false
  atEnd_eq : stream.atEnd = tokens.isEmpty
  ahead_eq : stream.ahead = blockText tokens

/-- The tokens are ahead, and before them the blank that has ended a word. -/
structure BehindWord (stream : BlockStream) (tokens : List Token) : Prop where
  solid : ∀ token ∈ tokens, IsSolid token
  failed_eq : stream.failed = false
  atEnd_eq : stream.atEnd = false
  ahead_eq : stream.ahead = ' ' :: blockText tokens

theorem stands_start (solid : ∀ token ∈ tokens, IsSolid token) :
    (ofText (blockText tokens)).Stands tokens where
  solid := solid
  failed_eq := rfl
  atEnd_imp := fun atEnd => by contradiction
  ahead_eq := dropWhile_blockText solid

theorem Before.stands (before : stream.Before tokens) : stream.Stands tokens where
  solid := before.solid
  failed_eq := before.failed_eq
  atEnd_imp := fun atEnd => List.isEmpty_iff.mp (before.atEnd_eq ▸ atEnd)
  ahead_eq := by rw [before.ahead_eq, dropWhile_blockText before.solid]

theorem BehindWord.stands (behind : stream.BehindWord tokens) : stream.Stands tokens where
  solid := behind.solid
  failed_eq := behind.failed_eq
  atEnd_imp := by simp [behind.atEnd_eq]
  ahead_eq := by
    rw [behind.ahead_eq, List.dropWhile_cons_of_pos (by decide), dropWhile_blockText behind.solid]

section Advance
variable {front : List Char}

theorem before_advance (solid : ∀ token ∈ tokens, IsSolid token)
    (failed_eq : stream.failed = false) (split : stream.ahead = front ++ blockText tokens) :
    (stream.advance front.length).Before tokens where
  solid := solid
  failed_eq := failed_eq
  atEnd_eq := by rw [atEnd_advance, split, List.drop_left, blockText_isEmpty]
  ahead_eq := by rw [ahead_advance, split, List.drop_left]

theorem behindWord_advance (solid : ∀ token ∈ tokens, IsSolid token)
    (failed_eq : stream.failed = false) (split : stream.ahead = front ++ ' ' :: blockText tokens) :
    (stream.advance front.length).BehindWord tokens where
  solid := solid
  failed_eq := failed_eq
  atEnd_eq := by rw [atEnd_advance, split, List.drop_left, List.isEmpty_cons]
  ahead_eq := by rw [ahead_advance, split, List.drop_left]

end Advance

namespace Stands

theorem tail (stands : stream.Stands (first :: rest)) : ∀ token ∈ rest, IsSolid token :=
  (List.forall_mem_cons.mp stands.solid).2

theorem isGood (stands : stream.Stands (first :: rest)) : stream.isGood = true := by
  have notAtEnd : stream.atEnd = false := by
    rw [← Bool.not_eq_true]
    exact fun atEnd => List.cons_ne_nil _ _ (stands.atEnd_imp atEnd)
  simp [BlockStream.isGood, notAtEnd, stands.failed_eq]

theorem before_blanks (stands : stream.Stands tokens) :
    (stream.advance (stream.ahead.takeWhile isBlank).length).Before tokens := by
  refine before_advance stands.solid stands.failed_eq ?_
  rw [← stands.ahead_eq, List.takeWhile_append_dropWhile]

theorem skipBlanks_eq (stands : stream.Stands (first :: rest)) :
    stream.skipBlanks = stream.advance (stream.ahead.takeWhile isBlank).length := by
  rw [skipBlanks, if_pos stands.isGood]

theorem before_skipBlanks (stands : stream.Stands (first :: rest)) :
    stream.skipBlanks.Before (first :: rest) := by
  rw [stands.skipBlanks_eq]
  exact stands.before_blanks

/-- At the end of a stream there is nothing to read. -/
theorem isGood_skipBlanks (stands : stream.Stands []) : stream.skipBlanks.isGood = false := by
  rw [skipBlanks]
  split
  · simp [BlockStream.isGood, stands.before_blanks.atEnd_eq]
  · simp [BlockStream.isGood, fail]

/-! Words -/

theorem readWord_nil (stands : stream.Stands []) :
    stream.readWord = ([], stream.skipBlanks.fail) := by
  rw [readWord]
  dsimp only
  rw [stands.isGood_skipBlanks]
  rfl

theorem readWord_cons (stands : stream.Stands (first :: rest)) :
    stream.readWord = (first, stream.skipBlanks.advance first.length) := by
  have solid : IsSolid first := stands.solid first List.mem_cons_self
  have next := stands.before_skipBlanks
  rw [readWord]
  dsimp only
  rw [if_pos next.stands.isGood, next.ahead_eq, blockText_cons, takeWhile_solid solid]

theorem behindWord (stands : stream.Stands (first :: rest)) :
    (stream.skipBlanks.advance first.length).BehindWord rest :=
  behindWord_advance stands.tail stands.before_skipBlanks.failed_eq
    (stands.before_skipBlanks.ahead_eq.trans (blockText_cons first rest))

/-! Numbers -/

section Numbers
variable {β : Type} {read : List Char → Option (β × List Char)}

theorem readFront_none (stands : stream.Stands tokens) (stops : StopsAtBlank read)
    (unread : Input.readFront read tokens = none) :
    stream.readFront read = (none, stream.skipBlanks.fail) := by
  rw [BlockStream.readFront]
  cases tokens with
  | nil =>
    rw [stands.isGood_skipBlanks]
    rfl
  | cons first rest =>
    have next := stands.before_skipBlanks
    have none : read first = none := by
      rw [Input.readFront] at unread
      split at unread
      · assumption
      · contradiction
      · contradiction
    rw [if_pos next.stands.isGood, next.ahead_eq, blockText_cons, stops.blank, none]
    rfl

theorem readFront_some (stands : stream.Stands tokens) (stops : StopsAtBlank read) {x : β}
    {left : Rest tokens} (found : Input.readFront read tokens = some (x, left)) :
    ∃ count, stream.readFront read = (some x, stream.skipBlanks.advance count) ∧
      (stream.skipBlanks.advance count).Stands left.val := by
  obtain ⟨first, after, taken, left_eq⟩ := readFront_ok found
  obtain ⟨more, rfl⟩ : ∃ more, tokens = first :: more := by
    rcases left_eq with ⟨-, eq⟩ | ⟨-, more, eq, -⟩
    · exact ⟨_, eq⟩
    · exact ⟨more, eq⟩
  obtain ⟨front, rfl, -⟩ := stops.takes taken
  have next := stands.before_skipBlanks
  have ahead : stream.skipBlanks.ahead = front ++ (after ++ ' ' :: blockText more) := by
    rw [next.ahead_eq, blockText_cons, List.append_assoc]
  refine ⟨front.length, ?_, ?_⟩
  · rw [BlockStream.readFront, if_pos next.stands.isGood, ahead, ← List.append_assoc,
      stops.blank, taken]
    simp
  · -- What is left of the token is a token of its own, if it is anything.
    rcases left_eq with ⟨rfl, eq⟩ | ⟨filled, rest, eq, left_eq⟩
    · rw [← (List.cons.inj eq).2]
      exact (behindWord_advance stands.tail next.failed_eq ahead).stands
    · obtain ⟨-, rfl⟩ := List.cons.inj eq
      have inside := (stands.solid _ List.mem_cons_self).solid
      have solid : ∀ token ∈ after :: more, IsSolid token := List.forall_mem_cons.mpr
        ⟨⟨filled, fun c member => inside c (List.mem_append_right _ member)⟩, stands.tail⟩
      rw [← blockText_cons] at ahead
      rw [left_eq]
      exact (before_advance solid next.failed_eq ahead).stands

end Numbers

end Stands

/-! ### Streams behind a word -/

namespace BehindWord

theorem skipBlanks_eq (behind : stream.BehindWord tokens) :
    stream.skipBlanks = stream.advance 1 := by
  have isGood : stream.isGood = true := by
    simp [BlockStream.isGood, behind.atEnd_eq, behind.failed_eq]
  rw [skipBlanks, if_pos isGood, behind.ahead_eq, List.takeWhile_cons_of_pos (by decide),
    takeWhile_blockText behind.solid]
  rfl

theorem before (behind : stream.BehindWord tokens) : (stream.advance 1).Before tokens := by
  have split : stream.ahead = [' '] ++ blockText tokens := behind.ahead_eq
  exact before_advance behind.solid behind.failed_eq split

/-- There is no other blank before the next word. -/
theorem skipBlanks_advance (behind : stream.BehindWord (first :: rest)) :
    (stream.advance 1).skipBlanks = stream.advance 1 := by
  rw [behind.before.stands.skipBlanks_eq, behind.before.ahead_eq, takeWhile_blockText behind.solid]
  exact advance_advance stream 1 0

theorem readWord_advance (behind : stream.BehindWord (first :: rest)) :
    (stream.advance 1).readWord = (first, stream.advance (' ' :: first).length) := by
  rw [behind.before.stands.readWord_cons, behind.skipBlanks_advance, advance_advance,
    Nat.add_comm, List.length_cons]

theorem next (behind : stream.BehindWord (first :: rest)) :
    (stream.advance (' ' :: first).length).BehindWord rest :=
  behindWord_advance behind.stands.tail behind.failed_eq
    (behind.ahead_eq.trans (congrArg _ (blockText_cons first rest)))

/-- A word that has been read is given back. -/
theorem seek_advance (behind : stream.BehindWord (first :: rest)) (count : Nat) :
    (stream.advance count).seek (stream.advance 1).position = stream.advance 1 := by
  have more : (stream.advance 1).atEnd = false := behind.before.atEnd_eq
  have notFailed : ¬ (stream.advance count).failed = true := by simp [advance, behind.failed_eq]
  rw [seek, ← more, if_neg notFailed]
  rfl

end BehindWord

end BlockStream

end GaussianRadial.Input
