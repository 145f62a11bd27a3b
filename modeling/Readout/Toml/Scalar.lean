import Readout.Numeral.Literal
import Readout.Toml.Reader

/-!
# Numbers and moments in a document

The readers of integers and fractions, and of dates and times.
-/

namespace Readout.Toml

/-! ### Numbers in TOML

Integers are written in decimal, with an optional sign and without leading zeros, or
without sign in hexadecimal, octal or binary after a mark. Between any two digits an
underscore may stand. A decimal integer followed by a fraction or an exponent is no
integer.

A number ends where no longer number can be read: `1_` is the number one, and
something after it.
-/

/-- The longest run of digits of a class, with underscores between them, that goes on
a number; and what follows. -/
def moreDigits (p : Char → Bool) : List Char → List Char × List Char
  | '_' :: c :: cs =>
    if p c then
      let r := moreDigits p cs
      (c :: r.1, r.2)
    else ([], '_' :: c :: cs)
  | c :: cs =>
    if p c then
      let r := moreDigits p cs
      (c :: r.1, r.2)
    else ([], c :: cs)
  | [] => ([], [])

/-- One digit at least, and those that go on. -/
def digits? (p : Char → Bool) : List Char → Option (List Char × List Char)
  | [] => none
  | c :: cs =>
    if p c then
      let r := moreDigits p cs
      some (c :: r.1, r.2)
    else none

/-- The base that the letter of a mark stands for. -/
def markBase? (c : Char) : Option Nat :=
  match c with
  | 'x' => some 16
  | 'o' => some 8
  | 'b' => some 2
  | _ => none

/-- An integer after a mark. -/
def marked? : List Char → Option (Nat × List Char)
  | '0' :: c :: cs => do
    let base ← markBase? c
    let r ← digits? (Numeral.isDigitIn base) cs
    return (Numeral.valueOf base r.1, r.2)
  | _ => none

/-- The digits of a decimal integer: a single zero, or digits that do not start with
one. -/
def wholeDigits? : List Char → Option (List Char × List Char)
  | '0' :: cs => some (['0'], cs)
  | cs => digits? (Numeral.isDigitIn 10) cs

/-- A sign, if there is one: whether it is a minus, and what follows. -/
def sign : List Char → Bool × List Char
  | '-' :: cs => (true, cs)
  | '+' :: cs => (false, cs)
  | cs => (false, cs)

/-- What follows a fraction, if there is one. -/
def afterFraction : List Char → Option (List Char)
  | '.' :: cs => (digits? (Numeral.isDigitIn 10) cs).map (·.2)
  | _ => none

/-- What follows an exponent, if there is one. -/
def afterExponent : List Char → Option (List Char)
  | c :: cs =>
    if c == 'e' || c == 'E' then (digits? (Numeral.isDigitIn 10) (sign cs).2).map (·.2) else none
  | [] => none

/-- What follows a fraction and an exponent, if there is either. -/
def afterFloat (cs : List Char) : Option (List Char) :=
  match afterFraction cs with
  | some rest => some ((afterExponent rest).getD rest)
  | none => afterExponent cs

/-- The words for infinity and for what is no number, with an optional sign. -/
def afterSpecial (cs : List Char) : Option (List Char) :=
  let rest := (sign cs).2
  if ['i', 'n', 'f'].isPrefixOf rest || ['n', 'a', 'n'].isPrefixOf rest then some (rest.drop 3)
  else none

/-- **A number**, if one comes next, and what follows. Decimal integers have to be short
enough to be converted. -/
def number? (cs : List Char) : Option (Except Fault (Value × List Char)) :=
  match marked? cs with
  | some (n, rest) => some (.ok (.integer n, rest))
  | none =>
    match wholeDigits? (sign cs).2 with
    | none => (afterSpecial cs).map fun rest => .ok (.float, rest)
    | some (digits, rest) =>
      match afterFloat rest with
      | some after => some (.ok (.float, after))
      | none =>
        if Numeral.maxDecimalDigits < digits.length then
          some (.error (.excess (.digits digits.length)))
        else
          let n := Numeral.valueOf 10 digits
          some (.ok (.integer (if (sign cs).1 then - Int.ofNat n else n), rest))

/-! ### Dates and times in TOML

A date is a year of four digits, a month and a day, and it must be in the Gregorian
calendar, which starts with the year one. A time of day has hours, minutes, seconds
and perhaps a fraction. A date may be followed by a time, and that by its distance
from universal time. Where the second part does not follow properly, the first one
stands alone.

Only the kind of a moment is kept, not the moment itself.
-/

/-- A number of exactly two digits within bounds. -/
def pair? (least greatest : Nat) : List Char → Option (Nat × List Char)
  | c :: d :: cs =>
    if Numeral.isDigitIn 10 c && Numeral.isDigitIn 10 d then
      let n := Numeral.valueOf 10 [c, d]
      if least ≤ n && n ≤ greatest then some (n, cs) else none
    else none
  | _ => none

/-- A number of exactly four digits. -/
def year? (cs : List Char) : Option (Nat × List Char) :=
  let digits := cs.take 4
  if digits.length = 4 && digits.all (Numeral.isDigitIn 10) then
    some (Numeral.valueOf 10 digits, cs.drop 4)
  else none

/-- A given character. -/
def mark? (c : Char) : List Char → Option (List Char)
  | d :: cs => if c = d then some cs else none
  | [] => none

/-- A date by its numbers, in the calendar or not, and what follows. -/
def ymd? (cs : List Char) : Option ((Nat × Nat × Nat) × List Char) := do
  let (y, cs) ← year? cs
  let (m, cs) ← pair? 1 12 (← mark? '-' cs)
  let (d, cs) ← pair? 1 31 (← mark? '-' cs)
  return ((y, m, d), cs)

/-- Whether a year has a leap day. -/
def isLeapYear (y : Nat) : Bool :=
  y % 4 == 0 && (y % 100 != 0 || y % 400 == 0)

/-- The number of days of a month. -/
def daysIn (y m : Nat) : Nat :=
  if m = 2 then (if isLeapYear y then 29 else 28)
  else if m = 4 || m = 6 || m = 9 || m = 11 then 30
  else 31

/-- Whether a date is in the calendar. -/
def inCalendar (y m d : Nat) : Bool :=
  1 ≤ y && d ≤ daysIn y m

/-- What follows the fraction of a second, if there is one. -/
def afterSeconds (cs : List Char) : List Char :=
  match cs with
  | '.' :: rest =>
    let digits := rest.takeWhile (Numeral.isDigitIn 10)
    if digits.isEmpty then cs else rest.drop digits.length
  | _ => cs

/-- What follows a time of day, if there is one. -/
def afterTime? (cs : List Char) : Option (List Char) := do
  let (_, cs) ← pair? 0 23 cs
  let (_, cs) ← pair? 0 59 (← mark? ':' cs)
  let (_, cs) ← pair? 0 59 (← mark? ':' cs)
  return afterSeconds cs

/-- What follows a distance from universal time, if there is one. -/
def afterOffset (cs : List Char) : List Char :=
  match cs with
  | [] => []
  | c :: rest =>
    if c == 'Z' || c == 'z' then rest
    else if c == '+' || c == '-' then
      let after : Option (List Char) := do
        let (_, cs) ← pair? 0 23 rest
        let (_, cs) ← pair? 0 59 (← mark? ':' cs)
        return cs
      after.getD cs
    else cs

/-- What follows the time that belongs to a date, if there is one. -/
def afterDateTime? : List Char → Option (List Char)
  | c :: cs =>
    if c == 'T' || c == 't' || c == ' ' then (afterTime? cs).map afterOffset else none
  | [] => none

/-- **A moment**, if one comes next, and what follows. -/
def moment? (cs : List Char) : Option (Except Fault (Value × List Char)) :=
  match ymd? cs with
  | some ((y, m, d), rest) =>
    if inCalendar y m d then
      match afterDateTime? rest with
      | some after => some (.ok (.datetime, after))
      | none => some (.ok (.date, rest))
    else some (.error .badDate)
  | none => (afterTime? cs).map fun rest => .ok (.time, rest)

end Readout.Toml
