import Readout.Numeral.Literal
import Readout.Validation

/-!
# Readers, and the texts of a document

A reader takes characters from the front of a document or fails (`Readout.Toml.Reader`). The first
readers are those of white space, comments, keys and texts.
-/

namespace Readout.Toml

/-! ### Readers of TOML documents

The parts of a TOML document are read one after the other, each reader taking its
part off the front of the text or failing with a fault (`Readout.Toml.Fault`). A
document is read with all its line ends as single line feeds
(`Readout.Toml.unifyLineEnds`).

Readers of parts that nest – values inside values – and readers that go round in a
loop are given a number of steps. At least every other step takes a character, so twice
the length of the text is always enough.
-/

/-- **What can be wrong with a document.** -/
inductive Fault
  /-- A line that is no statement. -/
  | badStatement
  /-- A key that is none. -/
  | badKey
  /-- A value that is none. -/
  | badValue
  /-- A text with a character or an escape that is not allowed, or without end. -/
  | badText
  /-- A date that is not in the calendar. -/
  | badDate
  /-- A key that is defined already, or part of something closed. -/
  | redefined
  /-- It goes beyond a limit. -/
  | excess (what : Excess)
  deriving DecidableEq, Repr, Inhabited

/-- What is said about a fault. -/
def Fault.message : Fault → String
  | badStatement => "invalid statement"
  | badKey => "invalid key"
  | badValue => "invalid value"
  | badText => "invalid string"
  | badDate => "invalid date"
  | redefined => "key is already defined"
  | excess what => what.message

/-- **A reader** of some part of a document. -/
abbrev Reader (α : Type) := StateT (List Char) (Except Fault) α

/-- Fails. -/
def fail {α : Type} (f : Fault) : Reader α :=
  fun _ => .error f

/-- The first of the characters left. -/
def peek : Reader (Option Char) := do
  return (← get).head?

/-- Takes some characters off. -/
def skip (n : Nat) : Reader Unit :=
  modify (·.drop n)

/-- Takes off the longest run of characters of a class. -/
def takeRun (p : Char → Bool) : Reader (List Char) := do
  let cs ← get
  let run := cs.takeWhile p
  set (cs.drop run.length)
  return run

/-- Takes a given text off, if it comes next. -/
def take? (word : List Char) : Reader Bool := do
  let cs ← get
  if word.isPrefixOf cs then
    set (cs.drop word.length)
    return true
  else return false

/-- Takes a given text off, which must come next. -/
def expect (word : List Char) (f : Fault) : Reader Unit := do
  unless ← take? word do fail f

/-- The blanks inside a line. -/
def isBlank (c : Char) : Bool :=
  c == ' ' || c == '\t'

/-- Takes off blanks inside a line. -/
def skipBlanks : Reader Unit := do
  let _ ← takeRun isBlank

/-- The control characters that a line may not have; the tab is allowed. -/
def isControl (c : Char) : Bool :=
  (c.toNat < 0x20 && c != '\t') || c.toNat == 0x7F

/-- Takes a comment off, up to the end of the line. -/
def skipComment : Reader Unit := do
  if ← take? ['#'] then
    let text ← takeRun (· != '\n')
    if text.any isControl then fail .badStatement

/-- Makes a single line feed of every carriage return with a line feed. -/
def unifyLineEnds : List Char → List Char
  | '\r' :: '\n' :: cs => '\n' :: unifyLineEnds cs
  | c :: cs => c :: unifyLineEnds cs
  | [] => []

/-! ### Texts in TOML

There are four ways to write a text: between quotation marks, where a backslash
starts an escape, or between apostrophes, where nothing is special; and either on one
line, between single marks, or on several, between triple ones. A text on several
lines does not include a line feed right after its opening marks, and may itself end
in one or two of the marks.
-/

/-- The control characters that a text may not have. -/
def isBadInText (multiline : Bool) (c : Char) : Bool :=
  isControl c && !(multiline && c == '\n')

/-- The character of an escape with a single letter. -/
def escapedChar? (c : Char) : Option Char :=
  match c with
  | 'b' => some '\x08'
  | 't' => some '\t'
  | 'n' => some '\n'
  | 'f' => some '\x0c'
  | 'r' => some '\r'
  | '"' => some '"'
  | '\\' => some '\\'
  | _ => none

/-- A character given by its code point in a fixed number of hexadecimal digits. Half
of a surrogate pair is no character. -/
def readCodePoint (width : Nat) : Reader Char := do
  let digits := (← get).take width
  skip width
  let n := Numeral.valueOf 16 digits
  if digits.length = width && digits.all (Numeral.isDigitIn 16) && n.isValidChar then
    return Char.ofNat n
  else fail .badText

/-- The rest of a line that ends in a backslash, with all blanks and line feeds after
it. Only blanks may stand between the backslash and the end of the line. -/
def skipLineEnd : Reader Unit := do
  skipBlanks
  match ← peek with
  | none => return
  | some '\n' => let _ ← takeRun fun c => isBlank c || c == '\n'
  | some _ => fail .badText

/-- What an escape stands for; the backslash has been taken off. -/
def readEscape (multiline : Bool) : Reader (List Char) := do
  match ← peek with
  | none => fail .badText
  | some c =>
    if multiline && (isBlank c || c == '\n') then
      skipLineEnd
      return []
    else
      skip 1
      if c == 'u' then return [← readCodePoint 4]
      else if c == 'U' then return [← readCodePoint 8]
      else match escapedChar? c with
        | some d => return [d]
        | none => fail .badText

/-- The rest of a text between quotation marks, its closing mark included. -/
def readQuoted (multiline : Bool) : (steps : Nat) → Reader (List Char)
  | 0 => fail .badText
  | steps + 1 => do
    match ← peek with
    | none => fail .badText
    | some '"' =>
      if !multiline then
        skip 1
        return []
      else if ← take? ['"', '"', '"'] then return []
      else
        skip 1
        return '"' :: (← readQuoted multiline steps)
    | some '\\' =>
      skip 1
      let cs ← readEscape multiline
      return cs ++ (← readQuoted multiline steps)
    | some c =>
      if isBadInText multiline c then fail .badText
      else
        skip 1
        return c :: (← readQuoted multiline steps)

/-- The rest of a text between apostrophes, its closing mark included. -/
def readLiteral (multiline : Bool) (close : List Char) : (steps : Nat) → Reader (List Char)
  | 0 => fail .badText
  | steps + 1 => do
    if ← take? close then return []
    match ← peek with
    | none => fail .badText
    | some c =>
      if isBadInText multiline c then fail .badText
      else
        skip 1
        return c :: (← readLiteral multiline close steps)

/-- Up to two marks more, which belong to the text that has just been closed. -/
def readTrailingMarks (mark : Char) : Reader (List Char) := do
  if !(← take? [mark]) then return []
  if !(← take? [mark]) then return [mark]
  return [mark, mark]

/-- The number of steps that is enough for what is left. -/
def stepsLeft : Reader Nat := do
  return (← get).length + 1

/-- A text on several lines, behind its opening marks. -/
def readMultiline (mark : Char) (body : Reader (List Char)) : Reader (List Char) := do
  let _ ← take? ['\n']
  let cs ← body
  return cs ++ (← readTrailingMarks mark)

/-- **A text on one line**, behind its opening mark. -/
def readLine (mark : Char) : Reader String := do
  let steps ← stepsLeft
  let cs ← if mark == '"' then readQuoted false steps else readLiteral false [mark] steps
  return String.ofList cs

/-- **A text in any of the four ways**, behind its first mark. -/
def readText (mark : Char) : Reader String := do
  if ← take? [mark, mark] then
    let steps ← stepsLeft
    let cs ← readMultiline mark <|
      if mark == '"' then readQuoted true steps else readLiteral true [mark, mark, mark] steps
    return String.ofList cs
  else readLine mark

end Readout.Toml
