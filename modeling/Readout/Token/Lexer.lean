import Readout.Token.Basic
import Readout.Text

/-!
# The lexer

The lexer moves a cursor (`Readout.Cursor`) over the characters of a source text.
`Readout.Cursor.next` skips spaces, tabs and line feeds and cuts off the longest
token that starts there; `Readout.Lexer` is a cursor together with the lexeme
that was cut last, so that a reader can look one token ahead.

Two things can go wrong at a literal, and they leave the cursor in different
places. A hexadecimal mark without digits leaves it where it was, so that every
further attempt fails in the same way. A literal with a value or a length beyond
the limits has been cut off when this turns out, so the next attempt goes on
after it.

`Readout.Cursor.feed` runs the cursor over the whole rest of a text, as far as it
gets; the parser reads the resulting `Readout.Feed`.
-/

namespace Readout

/-- What is cut off the text at one place. -/
inductive Piece
  /-- A token. -/
  | token (t : Token)
  /-- A hexadecimal mark without digits. -/
  | malformedHex
  /-- A literal above the greatest word. -/
  | outOfRange (literal : String)
  /-- A decimal literal with too many digits. -/
  | oversized (digits : Nat)
  deriving DecidableEq, Repr, Inhabited

namespace Piece

/-- The literal with a given spelling and value. -/
def literal (spelling : List Char) (value : Nat) : Piece :=
  if value < Word.count then token (.int (UInt64.ofNat value))
  else outOfRange (String.ofList spelling)

/-- A hexadecimal literal, from its two mark characters and its digits. -/
def hex (mark : List Char) (digits : List Char) : Piece :=
  if digits.isEmpty then malformedHex
  else literal (mark ++ digits) (Numeral.valueOf 16 digits)

/-- A decimal literal, from its digits. -/
def decimal (digits : List Char) : Piece :=
  if digits.length ≤ Numeral.maxDecimalDigits then literal digits (Numeral.valueOf 10 digits)
  else oversized digits.length

end Piece

/-- The token of two equal characters. -/
def doubledToken? (c d : Char) : Option Token :=
  if c = '<' ∧ d = '<' then some .lshift
  else if c = '>' ∧ d = '>' then some .rshift
  else if c = ':' ∧ d = ':' then some .scope
  else none

/-- The token of a single character. -/
def singleToken (c : Char) : Token :=
  if c = '+' then .plus
  else if c = '-' then .minus
  else if c = '*' then .star
  else if c = '(' then .lparen
  else if c = ')' then .rparen
  else .invalid c

/-- The token of a mark: the longest that the first characters of the text
form. -/
def cutMark (c : Char) (cs : List Char) : Piece × Nat :=
  match cs.head?.bind (doubledToken? c) with
  | some t => (.token t, 1)
  | none => (.token (singleToken c), 0)

/-- The letter that makes a leading zero a hexadecimal mark. -/
def isHexLetter (c : Char) : Bool :=
  c == 'x' || c == 'X'

/-- A literal that starts with a digit. Hexadecimal marks come first, since they
start with a digit too. -/
def cutLiteral (c : Char) (cs : List Char) : Piece × Nat :=
  match cs with
  | x :: rest =>
    if c == '0' && isHexLetter x then
      let digits := rest.takeWhile (Numeral.isDigitIn 16)
      (.hex [c, x] digits, digits.length + 1)
    else
      let digits := cs.takeWhile (Numeral.isDigitIn 10)
      (.decimal (c :: digits), digits.length)
  | [] => (.decimal [c], 0)

/-- **The piece at the start of a text**, given by its first character and the
others, and how many of the others it covers. -/
def cut (c : Char) (cs : List Char) : Piece × Nat :=
  if Numeral.isDigitIn 10 c then cutLiteral c cs
  else if isIdentifierStart c then
    let rest := cs.takeWhile isIdentifierRest
    (.token (.ident (String.ofList (c :: rest))), rest.length)
  else cutMark c cs

/-- The characters that may stand between tokens. -/
def isGap (c : Char) : Bool :=
  c == ' ' || c == '\t' || c == '\n'

/-- **A cursor**: a position in a text and what follows it. -/
structure Cursor where
  /-- The number of characters before the cursor. -/
  pos : Nat
  /-- The characters after it. -/
  rest : List Char
  deriving DecidableEq, Repr, Inhabited

namespace Cursor

/-- The cursor at the start of a text. -/
def start (source : String) : Cursor :=
  ⟨0, source.toList⟩

/-- Moves a cursor over some characters. -/
def skip (n : Nat) (c : Cursor) : Cursor :=
  ⟨c.pos + n, c.rest.drop n⟩

/-- Moves a cursor over the gap that it stands at. -/
def skipGap (c : Cursor) : Cursor :=
  c.skip (c.rest.takeWhile isGap).length

/-- **The next lexeme**, and where the cursor stands after it. At the end of the
text that is the end token, as often as it is asked for. -/
def next (c : Cursor) : Except ReadError Lexeme × Cursor :=
  let here := c.skipGap
  match here.rest with
  | [] => (.ok ⟨.eof, here.pos⟩, here)
  | first :: others =>
    let piece := cut first others
    let after : Cursor := ⟨here.pos + piece.2 + 1, others.drop piece.2⟩
    match piece.1 with
    | .token t => (.ok ⟨t, here.pos⟩, after)
    | .malformedHex => (.error (.fault .malformedHex here.pos), c)
    | .outOfRange literal => (.error (.fault (.outOfRange literal) here.pos), after)
    | .oversized digits => (.error (.oversized digits), after)

end Cursor

/-! ### Looking one lexeme ahead -/

/-- **A lexer**: the lexeme to be consumed next, already cut off, and the cursor
behind it. -/
structure Lexer where
  /-- The cursor, behind the current lexeme. -/
  cursor : Cursor
  /-- The current lexeme. -/
  current : Lexeme
  deriving DecidableEq, Repr, Inhabited

namespace Lexer

/-- A lexer at the first lexeme of a text. -/
def start (source : String) : Except ReadError Lexer :=
  match (Cursor.start source).next with
  | (.ok l, c) => .ok ⟨c, l⟩
  | (.error e, _) => .error e

/-- Consumes the current lexeme. Since the next one is cut off in its place, it is
here that a bad literal shows; the current lexeme is then kept. The end token is
never consumed. -/
def advance (lx : Lexer) : Except ReadError Lexeme × Lexer :=
  if lx.current.token = .eof then (.ok lx.current, lx)
  else match lx.cursor.next with
    | (.ok l, c) => (.ok lx.current, ⟨c, l⟩)
    | (.error e, c) => (.error e, { lx with cursor := c })

/-- Consumes lexemes a number of times, bad literals notwithstanding, and lists
what every attempt gave together with the lexer after it. -/
def advances : Nat → Lexer → List (Except ReadError Lexeme × Lexer)
  | 0, _ => []
  | n + 1, lx =>
    let step := lx.advance
    step :: advances n step.2

end Lexer

/-! ### All lexemes of a text -/

/-- **The lexemes of a text**, up to its end or to the first bad literal. -/
structure Feed where
  /-- The lexemes before the end. -/
  lexemes : List Lexeme
  /-- How the text ends: properly, at some position, or in an error. -/
  ending : Except ReadError Nat

theorem Cursor.length_skipGap_le (c : Cursor) : c.skipGap.rest.length ≤ c.rest.length := by
  simp [skipGap, skip]

/-- Whatever the next lexeme is, unless it is the end, fewer characters follow
it. -/
theorem Cursor.length_next_lt {c c' : Cursor} {l : Lexeme} (h : c.next = (.ok l, c'))
    (hl : l.token ≠ .eof) : c'.rest.length < c.rest.length := by
  have hle := c.length_skipGap_le
  unfold next at h
  dsimp only at h
  split at h
  · -- at the end of the text the lexeme is the end token
    cases h
    exact absurd rfl hl
  · rename_i first others hrest
    have hlen : c.skipGap.rest.length = others.length + 1 := by rw [hrest, List.length_cons]
    split at h <;> cases h
    simp only [List.length_drop]
    omega

/-- The lexemes from a cursor on. -/
def Cursor.feed (c : Cursor) : Feed :=
  match h : c.next with
  | (.ok l, c') =>
    if hl : l.token = .eof then ⟨[], .ok l.pos⟩
    else
      have : c'.rest.length < c.rest.length := c.length_next_lt h hl
      let tail := c'.feed
      ⟨l :: tail.lexemes, tail.ending⟩
  | (.error e, _) => ⟨[], .error e⟩
termination_by c.rest.length

/-- **All tokens of a text**, the end token last. -/
def tokenize (source : String) : Except ReadError (List Lexeme) :=
  let feed := (Cursor.start source).feed
  match feed.ending with
  | .ok pos => .ok (feed.lexemes ++ [⟨.eof, pos⟩])
  | .error e => .error e

end Readout
