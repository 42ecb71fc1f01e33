import GaussianRadial.Input.Settings

/-!
# The grid section as a stream

The tokens of the grid section are also read as one stream of characters, in which each token has a
blank after it. The loop over the options takes a word and its value off the stream. The loop over
the numbers of `values` reads one word too many to find their end, and sets the stream back to where
this word begins. Each step of `BlockState.step` is one pass of one of the two loops.
-/

namespace GaussianRadial.Input

/-- The characters of a section, each token with a blank after it. -/
def blockText (tokens : List Token) : List Char := tokens.flatMap fun token => token ++ [' ']

/-- A stream of characters. Nothing is read from it at its end or after a failure. -/
structure BlockStream where
  text : List Char
  position : Nat
  atEnd : Bool
  failed : Bool
  deriving DecidableEq

namespace BlockStream

def ofText (text : List Char) : BlockStream := ⟨text, 0, false, false⟩

/-- The characters that have not been read. -/
def ahead (stream : BlockStream) : List Char := stream.text.drop stream.position

def isGood (stream : BlockStream) : Bool := !stream.atEnd && !stream.failed

def fail (stream : BlockStream) : BlockStream := { stream with failed := true }

/-- The stream after `count` more characters. Only reading finds out that there are no more. -/
def advance (stream : BlockStream) (count : Nat) : BlockStream :=
  { stream with
    position := stream.position + count
    atEnd := (stream.text.drop (stream.position + count)).isEmpty }

/-- The stream set to a position that it has had. It is not at its end then. -/
def seek (stream : BlockStream) (position : Nat) : BlockStream :=
  { stream with
    position := if stream.failed then stream.position else position
    atEnd := false }

def skipBlanks (stream : BlockStream) : BlockStream :=
  if stream.isGood then stream.advance (stream.ahead.takeWhile isBlank).length else stream.fail

/-- The next characters up to a blank. It is a failure if there are none. -/
def readWord (stream : BlockStream) : Token × BlockStream :=
  let stream := stream.skipBlanks
  if stream.isGood then
    let word := stream.ahead.takeWhile (!isBlank ·)
    (word, stream.advance word.length)
  else ([], stream.fail)

/-- What a reader of the front of a text takes. -/
def readFront {β : Type} (read : List Char → Option (β × List Char)) (stream : BlockStream) :
    Option β × BlockStream :=
  let stream := stream.skipBlanks
  if stream.isGood then
    match read stream.ahead with
    | some (x, rest) => (some x, stream.advance (stream.ahead.length - rest.length))
    | none => (none, stream.fail)
  else (none, stream.fail)

def readReal : BlockStream → Option Float × BlockStream := readFront Number.readReal

def readInt64 : BlockStream → Option Int × BlockStream :=
  readFront (Number.readInteger (-9223372036854775808) 9223372036854775807)

end BlockStream

/-- The settings up to a point of the stream. -/
structure BlockState where
  settings : GridSettings
  stream : BlockStream
  /-- The option whose numbers are being read, if it is `values`. -/
  listing : Option Token

/-- What a pass of a loop leads to. -/
inductive BlockPass where
  | next (state : BlockState)
  | ends (result : Except Error GridSettings)

namespace BlockState

def start (text : List Char) : BlockState := ⟨.empty, .ofText text, none⟩

/-- The end of an option, at which a failure of the stream is noticed. -/
def close (settings : GridSettings) (stream : BlockStream) (option : Token) : BlockPass :=
  if stream.failed then .ends (.error (.unreadableValue option))
  else .next ⟨settings, stream, none⟩

/-- The pass that sets an option to a value that has been read, if there is one. -/
def setRead {β : Type} (settings : GridSettings) (option : Token) (make : β → GridOption) :
    Option β × BlockStream → BlockPass
  | (some x, stream) => close (settings.set (make x)) stream option
  | (none, stream) => close settings stream option

def setKind (settings : GridSettings) (option : Token) : Token × BlockStream → BlockPass
  | (value, stream) =>
    match keyword value with
    | "equidistant" => close (settings.set (.kind .equidistant)) stream option
    | "exponential" => close (settings.set (.kind .exponential)) stream option
    | "explicit" => close (settings.set (.kind .explicit)) stream option
    | _ => .ends (.error (.invalidGridKind value))

def setPoints (settings : GridSettings) (option : Token) : Option Int × BlockStream → BlockPass
  | (some count, stream) =>
    if count < 0 then .ends (.error .negativePointCount)
    else close (settings.set (.points count.toNat)) stream option
  | (none, stream) => close settings stream option

/-- The pass that reads the value of an option. The numbers of `values` are left to their loop. -/
def setOption (settings : GridSettings) (option : Token) (stream : BlockStream) : BlockPass :=
  match keyword option with
  | "type" => setKind settings option stream.readWord
  | "points" => setPoints settings option stream.readInt64
  | "rmax" => setRead settings option .radius stream.readReal
  | "anisotropy" => setRead settings option .anisotropy stream.readReal
  | "values" => .next ⟨settings, stream, some option⟩
  | _ => .ends (.error (.unknownGridOption option))

/-- A pass of the loop over the options. -/
def optionPass (settings : GridSettings) (stream : BlockStream) : BlockPass :=
  let (option, stream) := stream.readWord
  if stream.failed then .ends (.ok settings) else setOption settings option stream

/-- A pass of the loop over the numbers of `values`. -/
def numberPass (settings : GridSettings) (stream : BlockStream) (option : Token) : BlockPass :=
  let stream := stream.skipBlanks
  if stream.isGood then
    let (word, after) := stream.readWord
    match Number.wholeNumber? word with
    | some x => .next ⟨settings.set (.values [x]), after, some option⟩
    | none => close (settings.set (.values [])) (after.seek stream.position) option
  else close (settings.set (.values [])) stream option

def step (state : BlockState) : BlockPass :=
  match state.listing with
  | none => optionPass state.settings state.stream
  | some option => numberPass state.settings state.stream option

end BlockState

end GaussianRadial.Input
