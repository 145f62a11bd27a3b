import Readout.Text

/-!
# Numerals

Numbers and their digits, both ways. Numbers are written in decimal and in hexadecimal
(`Readout.Numeral.decimalText`, `Readout.Numeral.hexText`), and integers are read from literals in
four bases (`Readout.Numeral.readInteger?`). Decimal numerals have a greatest length
(`Readout.Numeral.maxDecimalDigits`), which is one of the limits that an answer may go beyond
(`Readout.Excess`).
-/

namespace Readout.Numeral

/-! ### Positional numerals

Reading and writing natural numbers in a base. `Readout.Numeral.valueIn` is the
value of a digit sequence, most significant digit first;
`Readout.Numeral.decimalText` and `Readout.Numeral.hexText` are the two
spellings that answers use.
-/

/-- The value of a sequence of digits in a base, most significant first. -/
def valueIn (base : Nat) (digits : List Nat) : Nat :=
  digits.foldl (fun value d => base * value + d) 0

/-- The value of an ASCII digit or letter as a digit, letters counting from
ten on in either case. -/
def digitValue? (c : Char) : Option Nat :=
  let n := c.toNat
  if 0x30 ≤ n && n ≤ 0x39 then some (n - 0x30)
  else if 0x41 ≤ n && n ≤ 0x5A then some (n - 0x41 + 10)
  else if 0x61 ≤ n && n ≤ 0x7A then some (n - 0x61 + 10)
  else none

/-- The value of an ASCII digit below a base. -/
def digitIn? (base : Nat) (c : Char) : Option Nat :=
  (digitValue? c).filter (· < base)

/-- Whether a character is an ASCII digit below a base. -/
def isDigitIn (base : Nat) (c : Char) : Bool :=
  (digitIn? base c).isSome

/-- The number that a text of digits stands for; characters that are no digit
of the base count for nothing. -/
def valueOf (base : Nat) (cs : List Char) : Nat :=
  valueIn base (cs.filterMap (digitIn? base))

/-- The sign that goes before a number: a minus for a negative one. -/
def signText (n : Int) : String :=
  if n < 0 then "-" else ""

/-- A number in decimal, without superfluous zeros. -/
def decimalText (n : Int) : String :=
  signText n ++ String.ofList (Nat.toDigits 10 n.natAbs)

/-- A number in lower-case hexadecimal after the mark 0x, without superfluous
zeros. -/
def hexText (n : Int) : String :=
  signText n ++ "0x" ++ String.ofList (Nat.toDigits 16 n.natAbs)

theorem valueIn_append_singleton (base : Nat) (ds : List Nat) (d : Nat) :
    valueIn base (ds ++ [d]) = base * valueIn base ds + d := by
  simp [valueIn]

/-! ### The length limit on decimal numerals

Converting between numbers and decimal text takes time quadratic in the
length, so conversions refuse numerals of more than
`Readout.Numeral.maxDecimalDigits` digits, in both directions. Hexadecimal,
octal and binary text is not limited.

Reading says how long the text was (`Readout.Numeral.oversizedText`); writing
only says that the limit was exceeded (`Readout.Numeral.unprintableText`), and
that sentence then takes the place of the whole message the number was to
appear in (`Readout.Numeral.withDecimal`).
-/

/-- The greatest number of decimal digits that is read or written. -/
def maxDecimalDigits : Nat := 4300

/-- The first half of both complaints about the limit. -/
def limitText : String :=
  "Exceeds the limit (" ++ decimalText maxDecimalDigits ++
    " digits) for integer string conversion"

/-- The second half of both complaints about the limit. -/
def limitAdvice : String :=
  "; use sys.set_int_max_str_digits() to increase the limit"

/-- What is said of a decimal numeral with too many digits. -/
def oversizedText (digits : Nat) : String :=
  limitText ++ ": value has " ++ decimalText digits ++ " digits" ++ limitAdvice

/-- What is said of a number too large to be written in decimal. -/
def unprintableText : String :=
  limitText ++ limitAdvice

/-- Whether the decimal numeral of a number is short enough to be written. -/
def isWritable (n : Int) : Bool :=
  n.natAbs < Nat.pow 10 maxDecimalDigits

/-- **A message about a number**: what `message` makes of its decimal text, or
the complaint about the limit when it has none. -/
def withDecimal (n : Int) (message : String → String) : String :=
  if isWritable n then message (decimalText n) else unprintableText

/-! ### Integer literals

Values given as text – in an assignment, in a string of a context file, as a
bit pattern – are integer literals: an optional sign, then digits in the base
that the start of the literal announces, with single underscores allowed
between digits and right after a base mark. A decimal literal has no
superfluous leading zeros, though any number of zeros spells zero, and at most
`Readout.Numeral.maxDecimalDigits` digits.

`Readout.Numeral.readInteger?` is the reader. It sees the digits of all
scripts as their ASCII counterparts (`Readout.Numeral.asciiForm`); letters and
marks must be ASCII.
-/

open Readout.Text

/-- The ASCII character that a character counts as inside a literal: itself
within ASCII, a space for a blank beyond it, the digit of the same value for a
decimal digit, and for all else the question mark, which no literal has. -/
def asciiForm (c : Char) : Char :=
  if c.toNat < 0x7F then c
  else if isBlank c then ' '
  else match decimalDigit? c with
    | some d => Nat.digitChar d
    | none => '?'

/-- The blanks that may stand around a literal. -/
def isPadding (c : Char) : Bool :=
  let n := c.toNat
  n == 0x20 || (0x09 ≤ n && n ≤ 0x0D)

/-- The digits of a literal in a base: one digit at least, and at most one
underscore between two of them. -/
def readDigits? (base : Nat) : List Char → Option (List Nat)
  | [] => none
  | [c] => (digitIn? base c).map ([·])
  | c :: '_' :: cs => do
    let d ← digitIn? base c
    let ds ← readDigits? base cs
    return d :: ds
  | c :: cs => do
    let d ← digitIn? base c
    let ds ← readDigits? base cs
    return d :: ds

/-- The digits after a base mark, which one underscore may separate from
it. -/
def readMarked? (base : Nat) : List Char → Option Nat
  | '_' :: cs => (readDigits? base cs).map (valueIn base)
  | cs => (readDigits? base cs).map (valueIn base)

/-- A decimal literal: not too long, and without superfluous leading zeros. -/
def readDecimal? (cs : List Char) : Option Nat := do
  let ds ← readDigits? 10 cs
  let value := valueIn 10 ds
  if ds.length ≤ maxDecimalDigits && (ds.head? != some 0 || value == 0) then some value else none

/-- The base announced by the letter after a leading zero. -/
def markedBase? (c : Char) : Option Nat :=
  if c == 'x' || c == 'X' then some 16
  else if c == 'o' || c == 'O' then some 8
  else if c == 'b' || c == 'B' then some 2
  else none

/-- A literal without sign. -/
def readNatural? (cs : List Char) : Option Nat :=
  match cs with
  | '0' :: mark :: rest =>
    match markedBase? mark with
    | some base => readMarked? base rest
    | none => readDecimal? cs
  | _ => readDecimal? cs

/-- A literal with at most one sign before it. -/
def readSigned? : List Char → Option Int
  | '-' :: cs => (readNatural? cs).map (- Int.ofNat ·)
  | '+' :: cs => (readNatural? cs).map Int.ofNat
  | cs => (readNatural? cs).map Int.ofNat

/-- **The integer that a text spells**, if it is a literal with nothing but
padding around it. -/
def readInteger? (s : String) : Option Int :=
  readSigned? (trimBoth isPadding (s.toList.map asciiForm))

end Readout.Numeral

namespace Readout

/-! ### What goes beyond the limits

Some requests break no rule and are refused all the same, because answering them would
take too much time or space: decimal numerals that are too long, values that are nested
too deeply, numbers that would not fit in memory.
-/

/-- **What goes beyond a limit.** -/
inductive Excess
  /-- A decimal numeral has too many digits to be converted. -/
  | digits (count : Nat)
  /-- Values are nested too deeply. -/
  | depth
  /-- A value does not fit in memory. -/
  | space
  /-- A value has more places than can be numbered. -/
  | places
  deriving DecidableEq, Repr, Inhabited

namespace Excess

/-- What is said then. -/
def message : Excess → String
  | digits count => Numeral.oversizedText count
  | depth => "maximum recursion depth exceeded"
  | space => "out of memory"
  | places => "size exceeds the address space"

/-- The number of places that can be numbered. -/
def maxPlaces : Nat := 0x8000000000000000

/-- The number of places that fit in memory. -/
def maxMemory : Nat := 0x1000000000

/-- What is too much about a list of so many items. -/
def ofLength? (items : Nat) : Option Excess :=
  if maxPlaces ≤ items then some places
  else if maxMemory ≤ items then some space
  else none

/-- What is too much about a number of so many bits. Its places have thirty bits each, and
four bytes. -/
def ofWidth? (bits : Nat) : Option Excess :=
  if maxPlaces ≤ bits / 30 * 4 then some places
  else if maxMemory ≤ bits then some space
  else none

end Excess

end Readout
