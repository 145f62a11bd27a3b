import Readout.Decimal.Basic

/-!
# Tables of powers

Scaling a binary fraction takes powers of two or of five, and the same ones again
and again. A power table (`Readout.PowerTable`) keeps every power that was
computed for it and counts how often it could answer from what it kept.

A power that is missing is put together from smaller ones. An exponent with
several bits is split into its lowest bit and the rest, a power of two above one
is halved, and zero and one are answered directly (`Readout.PowerTable.lookup`).
The smaller powers are looked up in the same way, so they are kept and counted
too.
-/

namespace Readout

/-- The bases that powers are kept of. -/
inductive Base
  /-- Two. -/
  | two
  /-- Five. -/
  | five
  deriving DecidableEq, Repr, Inhabited

namespace Base

/-- A base as a number. -/
def value : Base → Nat
  | two => 2
  | five => 5

/-- The base that a number is. -/
def ofInt? (n : Int) : Option Base :=
  if n = 2 then some two
  else if n = 5 then some five
  else none

end Base

/-! ### The lowest bit -/

/-- The lowest bit of a number, as a power of two; zero has none and stays zero. -/
def lowBit (n : Nat) : Nat :=
  if n = 0 then 0
  else if n % 2 = 1 then 1
  else 2 * lowBit (n / 2)
decreasing_by omega

theorem lowBit_le (n : Nat) : lowBit n ≤ n := by
  induction n using Nat.strongRecOn with
  | ind n ih =>
    rw [lowBit]
    split
    · omega
    · split
      · omega
      · have := ih (n / 2) (by omega)
        omega

theorem lowBit_pos {n : Nat} (h : 0 < n) : 0 < lowBit n := by
  induction n using Nat.strongRecOn with
  | ind n ih =>
    rw [lowBit]
    split
    · omega
    · split
      · omega
      · have := ih (n / 2) (by omega) (by omega)
        omega

/-! ### The table -/

/-- **A power table**: the powers that are kept, by exponent, and how many
look-ups were answered from them and how many were not. -/
structure PowerTable where
  /-- The powers of two. -/
  twos : List (Nat × Decimal)
  /-- The powers of five. -/
  fives : List (Nat × Decimal)
  /-- The number of look-ups answered from the table. -/
  hits : Nat
  /-- The number of powers that had to be computed. -/
  misses : Nat
  deriving DecidableEq, Inhabited

namespace PowerTable

/-- A table that keeps nothing yet. -/
def empty : PowerTable := ⟨[], [], 0, 0⟩

/-- The powers that are kept of a base. -/
def powers (t : PowerTable) : Base → List (Nat × Decimal)
  | .two => t.twos
  | .five => t.fives

/-- The power that is kept for an exponent. -/
def find? (t : PowerTable) (base : Base) (n : Nat) : Option Decimal :=
  (t.powers base).lookup n

/-- The number of powers that are kept. -/
def size (t : PowerTable) : Nat :=
  t.twos.length + t.fives.length

/-- Counts a look-up that was answered from the table. -/
def hit (t : PowerTable) : PowerTable :=
  { t with hits := t.hits + 1 }

/-- Keeps a power that had to be computed. -/
def keep (t : PowerTable) (base : Base) (n : Nat) (p : Decimal) : PowerTable :=
  match base with
  | .two => { t with twos := (n, p) :: t.twos, misses := t.misses + 1 }
  | .five => { t with fives := (n, p) :: t.fives, misses := t.misses + 1 }

/-- **Looks a power up**, computing and keeping it if it is missing. -/
def lookup (base : Base) (n : Nat) (t : PowerTable) : Decimal × PowerTable :=
  match t.find? base n with
  | some p => (p, t.hit)
  | none =>
    if h₁ : n ≤ 1 then
      let p := Decimal.ofNat (if n = 1 then base.value else 1)
      (p, t.keep base n p)
    else if h₂ : lowBit n = n then
      let half := lookup base (n / 2) t
      let p := half.1.mul half.1
      (p, half.2.keep base n p)
    else
      have := lowBit_le n
      have := lowBit_pos (n := n) (by omega)
      let high := lookup base (n - lowBit n) t
      let low := lookup base (lowBit n) high.2
      let p := high.1.mul low.1
      (p, low.2.keep base n p)
termination_by n
decreasing_by all_goals omega

/-- **Why there is no such power.** -/
inductive Fault
  /-- Powers of that base are not kept. -/
  | badBase (base : Int)
  /-- The exponent is negative. -/
  | negativeExponent (exponent : Int)
  /-- The power is out of reach. -/
  | excess (what : Excess)
  deriving DecidableEq, Repr, Inhabited

/-- What is said then. -/
def Fault.message : Fault → String
  | badBase base => Numeral.withDecimal base fun b => "base must be 2 or 5, got " ++ b
  | negativeExponent exponent =>
    Numeral.withDecimal exponent fun e => "exponent must be non-negative, got " ++ e
  | excess what => what.message

/-- **A request for a power.** One that is refused leaves the table as it was. -/
def request (t : PowerTable) (base exponent : Int) : Except Fault Decimal × PowerTable :=
  match Base.ofInt? base with
  | none => (.error (.badBase base), t)
  | some b =>
    if exponent < 0 then (.error (.negativeExponent exponent), t)
    else
      let found := t.lookup b exponent.toNat
      (.ok found.1, found.2)

/-- Whether a power is kept. -/
def contains (t : PowerTable) (base exponent : Int) : Bool :=
  match Base.ofInt? base with
  | none => false
  | some b => 0 ≤ exponent && (t.find? b exponent.toNat).isSome

end PowerTable

end Readout
