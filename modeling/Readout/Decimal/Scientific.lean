import Readout.Decimal.PowerTable

/-!
# Scientific notation

Products of an integer and a power of two, rounded to a number of places and written with an
exponent (`Readout.renderFrom`), and the bounds up to which the powers that this takes are within
reach (`Readout.boundedRenderFrom`).
-/

namespace Readout

/-! ### Binary fractions in scientific notation

A number `m · 2 ^ e` is written with a given number of significant decimal digits,
correctly rounded, ties going to the even neighbour. No approximation enters: for a
negative `e` the number is `m · 5 ^ (- e) · 10 ^ e`, so in either case a product of
natural numbers has all its digits, and only the place of the point remains to be
settled.

Rounding is done on the digits (`Readout.Decimal.roundAt`). If the first dropped
digit is at least five, adding five there, or one unit in the last place of all less
than that, carries into the last kept digit exactly when the number is to be rounded
up; which of the two is added depends on whether the last kept digit is odd.

`Readout.render` is the whole way from a number to its text.
-/

/-- **Rounds off the digits up to a position**, that one included, in the sense that
the digits above it are those of the rounded number. -/
def Decimal.roundAt (a : Decimal) (cut : Nat) : Decimal :=
  if 5 ≤ a.digit cut then
    if a.digit (cut + 1) % 2 = 1 then a.add (shifted 5 cut 0 (by decide))
    else a.add (shifted 4 cut 9 (by decide))
  else a

/-- **A number in scientific notation**: its significant digits, the first one before
the point, and its decimal exponent. -/
structure Scientific where
  /-- The significant digits, the most significant one first. -/
  digits : List Nat
  /-- The exponent of ten. -/
  exponent : Int
  deriving DecidableEq, Repr, Inhabited

namespace Scientific

/-- An exponent as it is written: a sign, and two digits at least. -/
def exponentText (e : Int) : String :=
  let digits := Nat.toDigits 10 e.natAbs
  (if e < 0 then "-" else "+") ++
    String.ofList (List.replicate (2 - digits.length) '0' ++ digits)

/-- **The text of a number in scientific notation.** The point stands after the first
digit, even if no other follows. -/
def text (s : Scientific) : String :=
  let digits := s.digits.map Nat.digitChar
  String.ofList (digits.take 1) ++ "." ++ String.ofList (digits.drop 1) ++ "e" ++
    exponentText s.exponent

end Scientific

/-- **A decimal natural times a power of ten, in scientific notation**: rounded to a
number of digits. A carry out of the leading digit moves the point. The exponent of
zero is zero. -/
def Decimal.toScientific (a : Decimal) (power : Int) (precision : Nat) : Scientific :=
  let top : Int := a.digitCount - 1
  let cut := top - precision
  let rounded := if 0 ≤ cut then a.roundAt cut.toNat else a
  let lead : Int := max top (rounded.digitCount - 1)
  ⟨(List.range precision).map fun (i : Nat) => rounded.digit (lead - i),
    if rounded.digitCount = 0 then 0 else power + lead⟩

/-- The factor that scales a mantissa, and the power of ten that remains. Only an
exponent that is not zero makes use of the table. -/
def PowerTable.scale (t : PowerTable) (exponent : Int) : Option Decimal × Int × PowerTable :=
  if 0 < exponent then
    let found := t.lookup .two exponent.toNat
    (some found.1, 0, found.2)
  else if exponent < 0 then
    let found := t.lookup .five (-exponent).toNat
    (some found.1, exponent, found.2)
  else (none, 0, t)

/-- **Why a number is not written.** -/
inductive RenderFault
  /-- The mantissa is negative. -/
  | negativeMantissa (mantissa : Int)
  /-- No digit is asked for. -/
  | badPrecision (precision : Int)
  /-- What was given as a power table is something else. -/
  | notATable (kind : String)
  /-- The mantissa has too many digits. -/
  | oversized
  /-- The number is out of reach. -/
  | excess (what : Excess)
  deriving DecidableEq, Repr, Inhabited

/-- What is said then. -/
def RenderFault.message : RenderFault → String
  | negativeMantissa mantissa =>
    Numeral.withDecimal mantissa fun m => "mantissa must be non-negative, got " ++ m
  | badPrecision precision =>
    Numeral.withDecimal precision fun p => "precision must be at least 1, got " ++ p
  | notATable kind => "cache must be a PowerCache, got " ++ kind
  | oversized => Numeral.unprintableText
  | excess what => what.message

/-- What a caller gives as a power table. -/
inductive PowerSource
  /-- A power table. -/
  | table (t : PowerTable)
  /-- Something of another kind. -/
  | other (kind : String)
  deriving Inhabited

namespace PowerSource

/-- The power table, if it is one. -/
def table? : PowerSource → Except RenderFault PowerTable
  | table t => .ok t
  | other kind => .error (.notATable kind)

/-- The power table to write a number with, if the number can be written at all. The
mantissa is checked first, then the precision, then what is given as a table. -/
def tableFor (source : PowerSource) (mantissa precision : Int) : Except RenderFault PowerTable := do
  if mantissa < 0 then .error (.negativeMantissa mantissa)
  if precision < 1 then .error (.badPrecision precision)
  let t ← source.table?
  if !Numeral.isWritable mantissa then .error .oversized
  return t

end PowerSource

/-- **The number `mantissa · 2 ^ exponent` in scientific notation**, written with the
help of a power table, and the table after that. -/
def renderFrom (source : PowerSource) (mantissa exponent precision : Int) :
    Except RenderFault (String × PowerTable) := do
  let t ← source.tableFor mantissa precision
  let m := Decimal.ofNat mantissa.toNat
  let (factor, power, t') := t.scale exponent
  let scaled := match factor with
    | some f => m.mul f
    | none => m
  return ((scaled.toScientific power precision.toNat).text, t')

/-- The number `mantissa · 2 ^ exponent` in scientific notation. A number that is not
written leaves the table as it was. -/
def render (t : PowerTable) (mantissa exponent precision : Int) :
    Except RenderFault String × PowerTable :=
  match renderFrom (.table t) mantissa exponent precision with
  | .ok (s, t') => (.ok s, t')
  | .error e => (.error e, t)

/-! ### Powers out of reach

A power that is missing in a table is put together from smaller ones, one look-up inside
the other: for every bit of the exponent but the last one, and then for every halving of
the power of two that is left. Only so many look-ups may be open at once
(`Readout.PowerTable.maxOpenLookups`). An exponent that needs more of them is refused
before anything is looked up, so the table stays as it was.

Requests for powers and for numbers are answered under that bound. All exponents of the hardware
formats are far below it.
-/

/-- The number of bits that are set. -/
def bitCount (n : Nat) : Nat :=
  if n = 0 then 0 else n % 2 + bitCount (n / 2)
decreasing_by omega

namespace PowerTable

/-- The number of look-ups inside each other that an empty table needs for an exponent. -/
def openLookups (exponent : Nat) : Nat :=
  bitCount exponent + exponent.log2

/-- The number of look-ups that may be open at once. -/
def maxOpenLookups : Nat := 980

/-- Whether the power for an exponent can be put together. A long exponent is out of reach
whatever its bits are. -/
def isWithinReach (exponent : Int) : Bool :=
  exponent.natAbs.log2 ≤ maxOpenLookups && openLookups exponent.natAbs ≤ maxOpenLookups

/-- **A request for a power** that may be out of reach. Base and exponent are checked
first. -/
def boundedRequest (t : PowerTable) (base exponent : Int) :
    Except Fault Decimal × PowerTable :=
  if (Base.ofInt? base).isSome && 0 ≤ exponent && !isWithinReach exponent then
    (.error (.excess .depth), t)
  else t.request base exponent

end PowerTable

/-- **The number `mantissa · 2 ^ exponent` in scientific notation**, where the power may be
out of reach. Everything else is checked first. -/
def boundedRenderFrom (source : PowerSource) (mantissa exponent precision : Int) :
    Except RenderFault (String × PowerTable) := do
  let _ ← source.tableFor mantissa precision
  if !PowerTable.isWithinReach exponent then .error (.excess .depth)
  renderFrom source mantissa exponent precision

/-- Within reach nothing changes. -/
theorem boundedRenderFrom_eq_renderFrom {exponent : Int} (h : PowerTable.isWithinReach exponent)
    (source : PowerSource) (mantissa precision : Int) :
    boundedRenderFrom source mantissa exponent precision =
      renderFrom source mantissa exponent precision := by
  cases ha : source.tableFor mantissa precision <;>
    simp [boundedRenderFrom, renderFrom, ha, h, bind, Except.bind]

/-- The number `mantissa · 2 ^ exponent` in scientific notation, where the power may be out
of reach. A number that is not written leaves the table as it was. -/
def boundedRender (t : PowerTable) (mantissa exponent precision : Int) :
    Except RenderFault String × PowerTable :=
  match boundedRenderFrom (.table t) mantissa exponent precision with
  | .ok (s, t') => (.ok s, t')
  | .error e => (.error e, t)

end Readout
