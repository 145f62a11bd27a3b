import Readout.Decimal.Digits

/-!
# Arithmetic in place

Digit sequences in a memory are added to and multiplied where they stand
(`Readout.DigitMemory.addInPlace`, `Readout.DigitMemory.mulInPlace`), and the carry pass that both
of them end with goes over the entries one by one (`Readout.Digits.sweep`).
-/

namespace Readout

/-! ### Arithmetic in place

Digit sequences can be added to and multiplied where they stand. They live in a memory here and
are known by their addresses (`Readout.DigitMemory`), so the two operands may be one and the same
number, and everything is done to the digits of the first one, its receiver, one position after
the other.

Both operations start by copying the digits of the second operand; what they do to the receiver
cannot change what they still have to read. Then they make room for the result.

* A sum adds the copied digits to those of the receiver and is brought into order by one carry pass
  (`Readout.DigitMemory.addInPlace`).
* A product takes the digits of the receiver out of their places, the most significant one first.
  Each of them adds its multiple of the copied digits to the places from its own on, where the
  digits above it have left theirs, and a carry pass follows
  (`Readout.DigitMemory.mulInPlace`).

There is no result if a carry is left over, or if something is to be added to a position that does
not exist.
-/

namespace Digits

/-- Zeros at the most significant end, up to a number of entries. -/
def expand (size : Nat) (ds : List Nat) : List Nat :=
  ds ++ List.replicate (size - ds.length) 0

/-- **Adds a multiple of a sequence** to the entries from a position on, one after the other. -/
def addFrom (k : Nat) : (position : Nat) → (rs ds : List Nat) → Option (List Nat)
  | _, [], ds => some ds
  | i, r :: rs, ds =>
    match ds[i]? with
    | some d => addFrom k (i + 1) rs (ds.set i (d + r * k))
    | none => none

/-- **One round of a product**: the digit at a position is taken out of its place, and its multiple
of a sequence is added from there on. -/
def mulRound (rs : List Nat) (i : Nat) (ds : List Nat) : Option (List Nat) :=
  match ds[i]? with
  | some digit =>
    let cleared := ds.set i 0
    if digit = 0 then some cleared
    else (addFrom digit i rs cleared).bind (normalise i (i + rs.length))
  | none => none

end Digits

/-- **A memory of digit sequences**, by address. -/
abbrev DigitMemory := List (List Nat)

namespace DigitMemory

open Digits

/-- Changes the sequence at an address. -/
def change (m : DigitMemory) (a : Nat) (f : List Nat → Option (List Nat)) : Option DigitMemory :=
  (m[a]?.bind f).map fun ds => m.set a ds

/-- **The sum in place**: adds the number at the address `b` to the one at `a`. -/
def addInPlace (m : DigitMemory) (a b : Nat) : Option DigitMemory := do
  let rs ← m[b]?
  let m₁ ← m.change a fun ds => some (expand (max ds.length rs.length + 1) ds)
  let m₂ ← m₁.change a (addFrom 1 0 rs)
  let m₃ ← m₂.change a (normalise 0 rs.length)
  m₃.change a fun ds => some (trim ds)

/-- The rounds of a product from the one below a position down. -/
def mulRounds (rs : List Nat) (a : Nat) : Nat → DigitMemory → Option DigitMemory
  | 0, m => some m
  | i + 1, m => (m.change a (mulRound rs i)).bind (mulRounds rs a i)

/-- **The product in place**: multiplies the number at the address `a` by the one at `b`. -/
def mulInPlace (m : DigitMemory) (a b : Nat) : Option DigitMemory := do
  let rs ← m[b]?
  let size ← m[a]?.map List.length
  let m₁ ← m.change a fun ds => some (expand (size + rs.length + 1) ds)
  let m₂ ← m₁.mulRounds rs a size
  m₂.change a fun ds => some (trim ds)

end DigitMemory

/-! ### Carry passes in place

A carry pass brings the entries of a sequence into order where they stand, one position after the
other from a start upward. On its way (`Readout.Sweep`) it knows the position that comes next and
what is carried there. At a position it leaves the last digit of what has come together, and carries
the rest on (`Readout.Sweep.next`).

It ends with the last entry. It also ends in front of a position from which on the entries are
digits already, if nothing is carried there (`Readout.Sweep.isSettled`), and never looks at the
entries that are left.

How a pass ends is said by `Readout.Digits.sweep`, also if something is carried beyond the last
entry; `Readout.Digits.normalise` has no result then.
-/

/-- **A carry pass on its way.** -/
structure Sweep where
  /-- The entries, as they are now. -/
  entries : List Nat
  /-- The position that comes next. -/
  position : Nat
  /-- What is carried there. -/
  carry : Nat
  deriving DecidableEq, Repr, Inhabited

namespace Sweep

/-- **What is done at a position.** -/
def next (s : Sweep) : Sweep :=
  let sum := s.carry + s.entries.getD s.position 0
  ⟨s.entries.set s.position (sum % 10), s.position + 1, sum / 10⟩

/-- Whether a pass may end in front of its next position: the entries from `stop` on are digits
already, and nothing is carried. -/
def isSettled (stop : Nat) (s : Sweep) : Bool :=
  decide (stop ≤ s.position) && s.carry == 0

/-- A pass over a number of positions, unless it may end before that. -/
def run (stop : Nat) : (positions : Nat) → Sweep → Sweep
  | 0, s => s
  | n + 1, s => if s.isSettled stop then s else run stop n s.next

end Sweep

/-- **The carry pass in place** over the entries of a sequence from `start` upward, where those from
`stop` on are digits already. -/
def Digits.sweep (start stop : Nat) (ds : List Nat) : Sweep :=
  Sweep.run stop (ds.length - start) ⟨ds, start, 0⟩

end Readout
