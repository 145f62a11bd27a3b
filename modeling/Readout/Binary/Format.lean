import Readout.Decimal.Scientific
import Readout.Validation

/-!
# Binary formats

Bit patterns of floating-point numbers in any split into fields, the bounds up to which they are
written, and formats with checked parameters (`Readout.FloatFormat`).
-/

namespace Readout

/-! ### Bit patterns of binary interchange formats

A pattern has a sign bit, a biased exponent and a mantissa, from the most
significant bit down, and the widths of the last two fix the format. What it stands
for is a `Readout.FloatValue`: a signed multiple of a power of two, an infinity, or no
number at all (`Readout.FloatValue.ofBits`).

`Readout.renderBits` writes a pattern in decimal. The text starts with a sign column,
a minus or a space.
-/

/-- What the bits behind the sign stand for. -/
inductive Magnitude
  /-- The number `mantissa · 2 ^ exponent`. -/
  | finite (mantissa : Nat) (exponent : Int)
  /-- Infinity. -/
  | infinite
  /-- No number. -/
  | nan
  deriving DecidableEq, Repr, Inhabited

/-- **What a bit pattern stands for.** -/
structure FloatValue where
  /-- Whether the sign bit is set. -/
  negative : Bool
  /-- What the other bits stand for. -/
  magnitude : Magnitude
  deriving DecidableEq, Repr, Inhabited

/-- The magnitude with given fields. An exponent field of ones marks infinity and what
is no number; one of zeros goes with the least exponent and no implicit bit. -/
def Magnitude.ofFields (ebits mbits field mantissa : Nat) : Magnitude :=
  let bias : Nat := (1 <<< (ebits - 1)) - 1
  if field = (1 <<< ebits) - 1 then
    if mantissa = 0 then .infinite else .nan
  else if field = 0 then .finite mantissa (1 - bias - mbits)
  else .finite ((1 <<< mbits) + mantissa) (field - bias - mbits)

/-- **Decodes a bit pattern** of a format with given widths. -/
def FloatValue.ofBits (ebits mbits bits : Nat) : FloatValue :=
  ⟨(bits >>> (ebits + mbits)) % 2 = 1,
    .ofFields ebits mbits ((bits >>> mbits) % (1 <<< ebits)) (bits % (1 <<< mbits))⟩

/-- The sign column. -/
def FloatValue.signColumn (x : FloatValue) : String :=
  if x.negative then "-" else " "

/-- **Why a bit pattern is not written.** -/
inductive BitsFault
  /-- A field has no bits. -/
  | badWidths (ebits mbits : Int)
  /-- The pattern does not fit in the width of the format. -/
  | doesNotFit (bits width : Int)
  /-- The number that it stands for is not written. -/
  | unwritten (fault : RenderFault)
  deriving DecidableEq, Repr, Inhabited

/-- What is said then. -/
def BitsFault.message : BitsFault → String
  | badWidths ebits mbits =>
    Numeral.withDecimal ebits fun e => Numeral.withDecimal mbits fun m =>
      "field widths must be positive, got ebits=" ++ e ++ " mbits=" ++ m
  | doesNotFit bits width =>
    "bit pattern " ++ Numeral.hexText bits ++ " does not fit a " ++ Numeral.decimalText width ++
      "-bit format"
  | unwritten fault => fault.message

/-- **What a pattern of a format stands for**, if there is such a format and the pattern
fits in its width. -/
def FloatValue.read (bits ebits mbits : Int) : Except BitsFault FloatValue :=
  if ebits < 1 ∨ mbits < 1 then .error (.badWidths ebits mbits)
  else
    let width := 1 + ebits.toNat + mbits.toNat
    if bits < 0 ∨ ((1 <<< width : Nat) : Int) ≤ bits then .error (.doesNotFit bits width)
    else .ok (.ofBits ebits.toNat mbits.toNat bits.toNat)

/-- The text of what a pattern stands for, given a way to write numbers, which may change
what it is written with: a power table, or the memory that one lives in. -/
def FloatValue.text {τ : Type} (number : Nat → Int → Except RenderFault String × τ)
    (t : τ) (x : FloatValue) : Except BitsFault String × τ :=
  match x.magnitude with
  | .infinite => (.ok (x.signColumn ++ "Inf"), t)
  | .nan => (.ok (x.signColumn ++ "NaN"), t)
  | .finite mantissa exponent =>
    match number mantissa exponent with
    | (.ok s, t') => (.ok (x.signColumn ++ s), t')
    | (.error e, t') => (.error (.unwritten e), t')

/-- **A bit pattern in decimal**, written with the help of a power table, and the table
after that. The precision does not matter for what is no finite number. -/
def renderBits (t : PowerTable) (bits ebits mbits precision : Int) :
    Except BitsFault String × PowerTable :=
  match FloatValue.read bits ebits mbits with
  | .ok x => x.text (fun mantissa exponent => render t mantissa exponent precision) t
  | .error e => (.error e, t)

/-! ### Bit patterns out of reach

A format can be so wide that its patterns do not fit in memory, and the exponent of a
number can be out of reach for a power table. Nothing is said against the pattern itself
then, but it is not written either (`Readout.boundedRenderBits`).
-/

/-- What is too much about the width of a format. It is looked at only if there is such a
format and the pattern is not refused at first sight. -/
def widthExcess? (bits ebits mbits : Int) : Option Excess :=
  if ebits < 1 ∨ mbits < 1 ∨ bits < 0 then none
  else Excess.ofWidth? (1 + ebits.toNat + mbits.toNat)

/-- **A bit pattern in decimal**, where the pattern or its number may be out of reach. -/
def boundedRenderBits (t : PowerTable) (bits ebits mbits precision : Int) :
    Except BitsFault String × PowerTable :=
  match widthExcess? bits ebits mbits with
  | some what => (.error (.unwritten (.excess what)), t)
  | none =>
    match FloatValue.read bits ebits mbits with
    | .ok x => x.text (fun mantissa exponent => boundedRender t mantissa exponent precision) t
    | .error e => (.error e, t)

/-! ### Binary interchange formats

A format fixes the widths of the exponent and the mantissa, and the number of decimal
digits that its numbers are written with. The two formats of hardware are
`Readout.FloatFormat.binary32` and `Readout.FloatFormat.binary64`; their precisions
are the least that tell any two numbers of the format apart.

Formats can also be made from data (`Readout.FloatFormat.Draft`), in which any
parameter may be missing or out of its range.
-/

/-- **A binary format** and its output precision. -/
structure FloatFormat where
  /-- The name of the format. -/
  name : String
  /-- The width of the exponent. -/
  ebits : Nat
  /-- The width of the stored mantissa. -/
  mbits : Nat
  /-- The number of significant decimal digits. -/
  precision : Nat
  /-- The exponent has a bit. -/
  ebits_pos : 0 < ebits
  /-- The mantissa has a bit. -/
  mbits_pos : 0 < mbits
  /-- A digit is written. -/
  precision_pos : 0 < precision

namespace FloatFormat

/-- Single precision. -/
def binary32 : FloatFormat := ⟨"binary32", 8, 23, 9, by decide, by decide, by decide⟩

/-- Double precision. -/
def binary64 : FloatFormat := ⟨"binary64", 11, 52, 17, by decide, by decide, by decide⟩

/-- The number of bits, that of the sign included. -/
def width (f : FloatFormat) : Nat :=
  1 + f.ebits + f.mbits

/-- **A bit pattern of a format in decimal.** -/
def render (f : FloatFormat) (bits : Int) : Except BitsFault String :=
  (renderBits .empty bits f.ebits f.mbits f.precision).1

/-- A bit pattern of a format in decimal, where the pattern or its number may be out of
reach. -/
def boundedRender (f : FloatFormat) (bits : Int) : Except BitsFault String :=
  (boundedRenderBits .empty bits f.ebits f.mbits f.precision).1

/-! ### Formats from data -/

/-- The parameters of a format, as far as they are given. -/
structure Draft where
  /-- The name of the format. -/
  name : Option String
  /-- The width of the exponent. -/
  ebits : Option Int
  /-- The width of the stored mantissa. -/
  mbits : Option Int
  /-- The number of significant decimal digits. -/
  precision : Option Int
  deriving DecidableEq, Repr, Inhabited

/-- What is wrong with a parameter that must be there and have a property. -/
def parameterFault (field : String) (value : Option Int) (bad : Int → Bool) (reason : Reason) :
    List Rejection :=
  match value with
  | none => [⟨field, .missing⟩]
  | some n => if bad n then [⟨field, reason⟩] else []

/-- Everything that is wrong with a draft, in the order of its parameters. -/
def Draft.faults (d : Draft) : List Rejection :=
  (if d.name.isNone then [⟨"name", .missing⟩] else []) ++
    parameterFault "ebits" d.ebits (· ≤ 0) (.notAbove 0) ++
    parameterFault "mbits" d.mbits (· ≤ 0) (.notAbove 0) ++
    parameterFault "precision" d.precision (· < 1) (.below 1)

/-- **The format of a draft**, or what is wrong with it. -/
def Draft.check (d : Draft) : Except (List Rejection) FloatFormat :=
  match d.name, d.ebits, d.mbits, d.precision with
  | some name, some e, some m, some p =>
    if h : 0 < e ∧ 0 < m ∧ 0 < p then
      .ok ⟨name, e.toNat, m.toNat, p.toNat, Int.lt_toNat.2 h.1, Int.lt_toNat.2 h.2.1,
        Int.lt_toNat.2 h.2.2⟩
    else .error d.faults
  | _, _, _, _ => .error d.faults

end FloatFormat

end Readout
