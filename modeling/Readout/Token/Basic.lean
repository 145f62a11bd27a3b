import Readout.Expr.Basic
import Readout.Numeral.Literal
import Readout.Text

/-!
# Tokens and faults

What the text of an expression is made of (`Readout.Token`), and what can be wrong with it
(`Readout.Fault`).
-/

namespace Readout

/-! ### Tokens of the expression language

The lexer cuts a source text into tokens (`Readout.Token`), each found at some
position (`Readout.Lexeme`). A character that the grammar has no use for is a
token of its own, and the end of the text is one too.
-/

/-- **Tokens.** -/
inductive Token
  /-- An integer literal. -/
  | int (value : Word)
  /-- An identifier. -/
  | ident (name : String)
  /-- The plus sign. -/
  | plus
  /-- The minus sign. -/
  | minus
  /-- The asterisk. -/
  | star
  /-- Two less-than signs. -/
  | lshift
  /-- Two greater-than signs. -/
  | rshift
  /-- Two colons. -/
  | scope
  /-- An opening parenthesis. -/
  | lparen
  /-- A closing parenthesis. -/
  | rparen
  /-- A character without a use. -/
  | invalid (c : Char)
  /-- The end of the text. -/
  | eof
  deriving DecidableEq, Repr, Inhabited

namespace Token

/-- The name of the kind of a token. -/
def kind : Token → String
  | int _ => "int"
  | ident _ => "ident"
  | plus => "plus"
  | minus => "minus"
  | star => "star"
  | lshift => "lshift"
  | rshift => "rshift"
  | scope => "scope"
  | lparen => "lparen"
  | rparen => "rparen"
  | invalid _ => "invalid"
  | eof => "eof"

/-- The text of a token; a literal is written in decimal, whatever its
spelling was. -/
def text : Token → String
  | int value => Numeral.decimalText value.toNat
  | ident name => name
  | plus => "+"
  | minus => "-"
  | star => "*"
  | lshift => "<<"
  | rshift => ">>"
  | scope => "::"
  | lparen => "("
  | rparen => ")"
  | invalid c => String.singleton c
  | eof => ""

/-- The text of a token as messages show it: quoted, unless it is a number. -/
def shown : Token → String
  | int value => Numeral.decimalText value.toNat
  | t => Text.quoted t.text

end Token

/-- **A lexeme**: a token and the position, in code points, at which it
starts. -/
structure Lexeme where
  /-- The token. -/
  token : Token
  /-- The position of its first character. -/
  pos : Nat
  deriving DecidableEq, Repr, Inhabited

/-- A lexeme as listings show it. -/
def Lexeme.describe (l : Lexeme) : String :=
  "Token(" ++ l.token.kind ++ ", " ++ l.token.shown ++ ", pos=" ++ Numeral.decimalText l.pos ++ ")"

/-! ### What can be wrong with the text of an expression

Reading an expression fails for one of two kinds of reason. A
**fault** (`Readout.Fault`) is a place where the text breaks the rules of the
language: it has a position. Apart from these stands the literal that is too
long to be converted at all (`Readout.Numeral.maxDecimalDigits`), which is not
a matter of the language and carries no position.
-/

/-- **The faults of a text**, by cause. The first two are found by the lexer and
the others by the parser. -/
inductive Fault
  /-- A hexadecimal mark without digits. -/
  | malformedHex
  /-- A literal above the greatest word. -/
  | outOfRange (literal : String)
  /-- More parentheses open at once than allowed. -/
  | tooDeep
  /-- An opening parenthesis without its closing one. -/
  | unclosed
  /-- No identifier after a double colon. -/
  | missingName
  /-- A word before a double colon that selects no scope. -/
  | unknownScope (word : String)
  /-- The text ends where an operand should stand. -/
  | unexpectedEnd
  /-- A token that cannot start an operand. -/
  | unexpected (token : Token)
  /-- Something after a complete expression. -/
  | trailing
  deriving DecidableEq, Repr, Inhabited

namespace Fault

/-- What is said about a fault. -/
def message : Fault → String
  | malformedHex => "malformed hexadecimal literal"
  | outOfRange literal => "integer literal out of range: " ++ literal
  | tooDeep => "expression too deeply nested"
  | unclosed => "expected closing ')'"
  | missingName => "expected an identifier after '::'"
  | unknownScope word => "unrecognised identifier scope '" ++ word ++ "'"
  | unexpectedEnd => "unexpected end of expression"
  | unexpected token => "unexpected token " ++ token.shown
  | trailing => "unexpected tokens after expression"

/-- Whether the lexer is the one that finds a fault. -/
def isLexical : Fault → Bool
  | malformedHex | outOfRange _ => true
  | _ => false

end Fault

/-- **Why a text could not be read.** -/
inductive ReadError
  /-- The text has a fault at a position. -/
  | fault (what : Fault) (pos : Nat)
  /-- The text has a decimal literal with too many digits to be converted. -/
  | oversized (digits : Nat)
  deriving DecidableEq, Repr, Inhabited

/-- What is said about a text that could not be read. -/
def ReadError.message : ReadError → String
  | fault what _ => what.message
  | oversized digits => Numeral.oversizedText digits

end Readout
