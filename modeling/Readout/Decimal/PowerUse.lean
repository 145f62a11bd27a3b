import Readout.Binary.Format

/-!
# Power tables in use

Steps that share a power table (`Readout.PowerTable.step`), and the same steps where the powers are
kept in a memory, handed out as copies and changed in place by those who asked for them
(`Readout.PowerCells`).
-/

namespace Readout.PowerTable

/-! ### Using one power table for many requests

A power table may serve any number of requests, for powers and for numbers to be
written. What a caller does with a power that it was given does not reach the table,
and clearing makes the table as good as new (`Readout.PowerTable.step`). A request that is
out of reach fails and leaves the table as it was.
-/

/-- **What can be asked of a power table.** -/
inductive Step
  /-- A power. -/
  | power (base exponent : Int)
  /-- A power, which the caller then multiplies by a number. -/
  | scaled (base exponent factor : Int)
  /-- Whether a power is kept. -/
  | contains (base exponent : Int)
  /-- To forget everything. -/
  | clear
  /-- To write a number. -/
  | render (mantissa exponent precision : Int)
  /-- To write a bit pattern. -/
  | renderBits (bits ebits mbits precision : Int)
  deriving DecidableEq, Repr, Inhabited

/-- What a step answers. -/
inductive Answer
  /-- Nothing but the change itself. -/
  | done
  /-- A text. -/
  | text (s : String)
  /-- Whether something is so. -/
  | verdict (b : Bool)
  deriving DecidableEq, Repr, Inhabited

/-- Why a step fails. -/
inductive Failure
  /-- There is no such power. -/
  | noPower (fault : Fault)
  /-- The factor is no decimal natural. -/
  | badFactor (why : Decimal.Unmakeable)
  /-- The bit pattern or the number is not written. -/
  | unwritten (fault : BitsFault)
  deriving DecidableEq, Repr, Inhabited

/-- What is said about a step that fails. -/
def Failure.message : Failure → String
  | noPower fault => fault.message
  | badFactor why => why.message
  | unwritten fault => fault.message

/-- **One step**: its answer or its failure, and the table after it. -/
def step (t : PowerTable) : Step → Except Failure Answer × PowerTable
  | .power base exponent =>
    match t.boundedRequest base exponent with
    | (.ok p, t') => (.ok (.text p.text), t')
    | (.error e, t') => (.error (.noPower e), t')
  | .scaled base exponent factor =>
    match t.boundedRequest base exponent with
    | (.ok p, t') =>
      match Decimal.ofInt factor 0 0 with
      | .ok k => (.ok (.text (p.mul k).text), t')
      | .error why => (.error (.badFactor why), t')
    | (.error e, t') => (.error (.noPower e), t')
  | .contains base exponent => (.ok (.verdict (t.contains base exponent)), t)
  | .clear => (.ok .done, empty)
  | .render mantissa exponent precision =>
    match boundedRender t mantissa exponent precision with
    | (.ok s, t') => (.ok (.text s), t')
    | (.error e, t') => (.error (.unwritten (.unwritten e)), t')
  | .renderBits bits ebits mbits precision =>
    match boundedRenderBits t bits ebits mbits precision with
    | (.ok s, t') => (.ok (.text s), t')
    | (.error e, t') => (.error (.unwritten e), t')

/-- **A run of steps**: what each of them gave, with the table after it. -/
def run : PowerTable → List Step → List (Except Failure Answer × PowerTable)
  | _, [] => []
  | t, st :: steps =>
    let here := t.step st
    here :: run here.2 steps

end Readout.PowerTable

namespace Readout

/-! ### Power tables in memory

Decimal naturals can be changed in place: whoever multiplies a number that others hold too
multiplies it for all of them. Here numbers live in a memory and are known by their addresses.
A power table keeps addresses, and callers hold addresses (`Readout.PowerCells`); a caller may
add to the numbers that it holds and multiply them, whenever it likes.

So it matters what is copied. A product is built up in a copy of its first factor, and a caller
is given a copy of the power that is kept (`Readout.PowerCells.lookup`,
`Readout.PowerCells.power`).
-/

/-- **A power table in memory**, and what callers hold of the memory. -/
structure PowerCells where
  /-- The memory: numbers by address. -/
  cells : List Decimal
  /-- The addresses of the powers of two, by exponent. -/
  twos : List (Nat × Nat)
  /-- The addresses of the powers of five, by exponent. -/
  fives : List (Nat × Nat)
  /-- The number of look-ups answered from the table. -/
  hits : Nat
  /-- The number of powers that had to be computed. -/
  misses : Nat
  /-- The addresses that callers hold, in the order in which they came to hold them. -/
  held : List Nat
  deriving DecidableEq, Inhabited

namespace PowerCells

/-- No memory is used yet. -/
def start : PowerCells := ⟨[], [], [], 0, 0, []⟩

/-- The addresses that are kept for a base, by exponent. -/
def addresses (s : PowerCells) : Base → List (Nat × Nat)
  | .two => s.twos
  | .five => s.fives

/-- The address that is kept for an exponent. -/
def find? (s : PowerCells) (base : Base) (n : Nat) : Option Nat :=
  (s.addresses base).lookup n

/-- The number at an address. -/
def read (s : PowerCells) (a : Nat) : Decimal :=
  s.cells.getD a .zero

/-- **The table of numbers** that the memory holds. -/
def view (s : PowerCells) : PowerTable where
  twos := s.twos.map fun e => (e.1, s.read e.2)
  fives := s.fives.map fun e => (e.1, s.read e.2)
  hits := s.hits
  misses := s.misses

/-- Puts a number at a new address. -/
def new (s : PowerCells) (x : Decimal) : Nat × PowerCells :=
  (s.cells.length, { s with cells := s.cells ++ [x] })

/-- Copies a number to a new address. -/
def copy (s : PowerCells) (a : Nat) : Nat × PowerCells :=
  s.new (s.read a)

/-- **Changes a number in place**, by an operation on it and another one, or on it twice. -/
def inPlace (s : PowerCells) (op : Decimal → Decimal → Decimal) (a b : Nat) : PowerCells :=
  { s with cells := s.cells.set a (op (s.read a) (s.read b)) }

/-- Lets callers hold an address. -/
def hold (s : PowerCells) (a : Nat) : PowerCells :=
  { s with held := s.held ++ [a] }

/-- Counts a look-up that was answered from the table. -/
def hit (s : PowerCells) : PowerCells :=
  { s with hits := s.hits + 1 }

/-- Keeps the address of a power that had to be computed. -/
def keep (s : PowerCells) (base : Base) (n a : Nat) : PowerCells :=
  match base with
  | .two => { s with twos := (n, a) :: s.twos, misses := s.misses + 1 }
  | .five => { s with fives := (n, a) :: s.fives, misses := s.misses + 1 }

/-- Forgets all powers. Their numbers stay where they are. -/
def clear (s : PowerCells) : PowerCells :=
  { s with twos := [], fives := [], hits := 0, misses := 0 }

/-- **Looks a power up**, computing it in a cell of its own and keeping its address if it is
missing. -/
def lookup (base : Base) (n : Nat) (s : PowerCells) : Nat × PowerCells :=
  match s.find? base n with
  | some a => (a, s.hit)
  | none =>
    if h₁ : n ≤ 1 then
      let p := s.new (Decimal.ofNat (if n = 1 then base.value else 1))
      (p.1, p.2.keep base n p.1)
    else if h₂ : lowBit n = n then
      let half := lookup base (n / 2) s
      let p := half.2.copy half.1
      (p.1, (p.2.inPlace .mul p.1 half.1).keep base n p.1)
    else
      have := lowBit_le n
      have := lowBit_pos (n := n) (by omega)
      let high := lookup base (n - lowBit n) s
      let p := high.2.copy high.1
      let low := lookup base (lowBit n) p.2
      (p.1, (low.2.inPlace .mul p.1 low.1).keep base n p.1)
termination_by n
decreasing_by all_goals omega

/-- **A power of one's own**: a copy of what is kept. -/
def power (s : PowerCells) (base : Base) (n : Nat) : Nat × PowerCells :=
  let found := s.lookup base n
  found.2.copy found.1

/-- **A request for a power.** One that is refused leaves everything as it was. -/
def request (s : PowerCells) (base exponent : Int) : Except PowerTable.Fault Nat × PowerCells :=
  match Base.ofInt? base with
  | none => (.error (.badBase base), s)
  | some b =>
    if exponent < 0 then (.error (.negativeExponent exponent), s)
    else
      let p := s.power b exponent.toNat
      (.ok p.1, p.2)

/-- A request for a power that may be out of reach. -/
def boundedRequest (s : PowerCells) (base exponent : Int) :
    Except PowerTable.Fault Nat × PowerCells :=
  if (Base.ofInt? base).isSome && 0 ≤ exponent && !PowerTable.isWithinReach exponent then
    (.error (.excess .depth), s)
  else s.request base exponent

/-- Multiplies the number at an address by a power. -/
def mulPower (s : PowerCells) (a : Nat) (base : Base) (n : Nat) : PowerCells :=
  let p := s.power base n
  p.2.inPlace .mul a p.1

/-- Scales the number at an address by a power of two, up to the power of ten that remains. -/
def scale (s : PowerCells) (a : Nat) (exponent : Int) : Int × PowerCells :=
  if 0 < exponent then (0, s.mulPower a .two exponent.toNat)
  else if exponent < 0 then (exponent, s.mulPower a .five (-exponent).toNat)
  else (0, s)

/-- The text of the number `mantissa · 2 ^ exponent`, which is put together at a new address. -/
def write (s : PowerCells) (mantissa : Nat) (exponent : Int) (precision : Nat) :
    String × PowerCells :=
  let number := s.new (Decimal.ofNat mantissa)
  let scaled := number.2.scale number.1 exponent
  (((scaled.2.read number.1).toScientific scaled.1 precision).text, scaled.2)

/-- **The number `mantissa · 2 ^ exponent` in scientific notation**, where the power may be out
of reach. -/
def boundedRender (s : PowerCells) (mantissa exponent precision : Int) :
    Except RenderFault String × PowerCells :=
  match (PowerSource.table s.view).tableFor mantissa precision with
  | .error e => (.error e, s)
  | .ok _ =>
    if PowerTable.isWithinReach exponent then
      let written := s.write mantissa.toNat exponent precision.toNat
      (.ok written.1, written.2)
    else (.error (.excess .depth), s)

/-- A bit pattern in decimal, where the pattern or its number may be out of reach. -/
def boundedRenderBits (s : PowerCells) (bits ebits mbits precision : Int) :
    Except BitsFault String × PowerCells :=
  match widthExcess? bits ebits mbits with
  | some what => (.error (.unwritten (.excess what)), s)
  | none =>
    match FloatValue.read bits ebits mbits with
    | .ok x => x.text (fun mantissa exponent => s.boundedRender mantissa exponent precision) s
    | .error e => (.error e, s)

/-! ### Use -/

/-- **What is asked of a power table**, with the powers given out and held from then on. -/
def ask (s : PowerCells) :
    PowerTable.Step → Except PowerTable.Failure PowerTable.Answer × PowerCells
  | .power base exponent =>
    match s.boundedRequest base exponent with
    | (.ok a, s') => (.ok (.text (s'.read a).text), s'.hold a)
    | (.error e, s') => (.error (.noPower e), s')
  | .scaled base exponent factor =>
    match s.boundedRequest base exponent with
    | (.ok a, s') =>
      match Decimal.ofInt factor 0 0 with
      | .ok k =>
        let number := s'.new k
        let product := number.2.inPlace .mul a number.1
        (.ok (.text (product.read a).text), product.hold a)
      | .error why => (.error (.badFactor why), s'.hold a)
    | (.error e, s') => (.error (.noPower e), s')
  | .contains base exponent => (.ok (.verdict (s.view.contains base exponent)), s)
  | .clear => (.ok .done, s.clear)
  | .render mantissa exponent precision =>
    match s.boundedRender mantissa exponent precision with
    | (.ok text, s') => (.ok (.text text), s')
    | (.error e, s') => (.error (.unwritten (.unwritten e)), s')
  | .renderBits bits ebits mbits precision =>
    match s.boundedRenderBits bits ebits mbits precision with
    | (.ok text, s') => (.ok (.text text), s')
    | (.error e, s') => (.error (.unwritten e), s')

/-- **What can happen**: a table is asked something, or a caller works on numbers of its own. -/
inductive Step
  /-- The table is asked. -/
  | ask (st : PowerTable.Step)
  /-- A caller makes a number. -/
  | make (value extra fill : Int)
  /-- A caller adds a number that it holds to another one, or to itself. -/
  | add (i j : Nat)
  /-- A caller multiplies a number that it holds by another one, or by itself. -/
  | mul (i j : Nat)
  deriving DecidableEq, Repr, Inhabited

/-- A caller changes a number that it holds, if it does hold it. -/
def work (s : PowerCells) (op : Decimal → Decimal → Decimal) (i j : Nat) : PowerCells :=
  match s.held[i]?, s.held[j]? with
  | some a, some b => s.inPlace op a b
  | _, _ => s

/-- **One step.** -/
def step (s : PowerCells) : Step → PowerCells
  | .ask st => (s.ask st).2
  | .make value extra fill =>
    match Decimal.ofInt value extra fill with
    | .ok x => (s.new x).2.hold (s.new x).1
    | .error _ => s
  | .add i j => s.work .add i j
  | .mul i j => s.work .mul i j

end PowerCells

end Readout
