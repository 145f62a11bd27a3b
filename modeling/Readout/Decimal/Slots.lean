import Readout.Decimal.Basic
import Readout.Decimal.InPlace
import Readout.Table

/-!
# Decimal naturals in slots

Steps on named decimal naturals (`Readout.Slots`), and the same steps where the digits are kept in a
memory and changed in place (`Readout.SlotCells`).
-/

namespace Readout

/-! ### Decimal naturals by name

A set of slots holds decimal naturals by name. Each step works on one slot, its
receiver, and may read another one; a step that fails leaves all slots as they were
(`Readout.Slots.step`).
-/

/-- **Slots**: decimal naturals by name. -/
abbrev Slots := Table Decimal

namespace Slots

/-- **What can be done with slots.** -/
inductive Step
  /-- Fills a slot from an integer and further digits. -/
  | new (slot : String) (value extra fill : Int)
  /-- Adds another slot, or the slot itself, to a slot. -/
  | add (slot other : String)
  /-- Multiplies a slot by another one, or by itself. -/
  | mul (slot other : String)
  /-- Copies another slot to a slot. -/
  | copy (slot other : String)
  /-- Reads digits off a slot. -/
  | digits (slot : String) (positions : List Int)
  /-- Compares a slot with another one. -/
  | equals (slot other : String)
  /-- Compares a slot with an integer, which is never equal to a decimal natural. -/
  | equalsInt (slot : String) (n : Int)
  /-- Converts a slot to an integer. -/
  | integer (slot : String)
  /-- Shows a slot. -/
  | describe (slot : String)
  deriving DecidableEq, Repr, Inhabited

/-- The slot that a step works on. -/
def Step.receiver : Step → String
  | new slot .. | add slot _ | mul slot _ | copy slot _ | digits slot _ | equals slot _
  | equalsInt slot _ | integer slot | describe slot => slot

/-- What a step answers. -/
inductive Answer
  /-- Nothing but the change itself. -/
  | done
  /-- Digits. -/
  | digits (ds : List Nat)
  /-- The outcome of a comparison. -/
  | verdict (b : Bool)
  /-- A text. -/
  | text (s : String)
  deriving DecidableEq, Repr, Inhabited

/-- Why a step fails. -/
inductive Failure
  /-- The slot cannot be filled in this way. -/
  | unmakeable (why : Decimal.Unmakeable)
  /-- The number has too many digits to be converted. -/
  | oversized (digits : Nat)
  /-- The slot is empty. -/
  | emptySlot (slot : String)
  deriving DecidableEq, Repr, Inhabited

/-- What is in a slot. -/
def get (s : Slots) (slot : String) : Except Failure Decimal :=
  match s.find? slot with
  | some a => .ok a
  | none => .error (.emptySlot slot)

/-- What a step answers, and the slots after it, if it succeeds. -/
def step? (s : Slots) : Step → Except Failure (Answer × Slots)
  | .new slot value extra fill =>
    match Decimal.ofInt value extra fill with
    | .ok a => .ok (.done, s.insert slot a)
    | .error why => .error (.unmakeable why)
  | .add slot other => do
    let a ← s.get slot
    let b ← s.get other
    return (.done, s.insert slot (a.add b))
  | .mul slot other => do
    let a ← s.get slot
    let b ← s.get other
    return (.done, s.insert slot (a.mul b))
  | .copy slot other => do
    let b ← s.get other
    return (.done, s.insert slot b)
  | .digits slot positions => do
    let a ← s.get slot
    return (.digits (positions.map a.digit), s)
  | .equals slot other => do
    let a ← s.get slot
    let b ← s.get other
    return (.verdict (a == b), s)
  | .equalsInt slot _ => do
    let _ ← s.get slot
    return (.verdict false, s)
  | .integer slot => do
    let a ← s.get slot
    match a.integerText with
    | .ok t => return (.text t, s)
    | .error digits => .error (.oversized digits)
  | .describe slot => do
    let a ← s.get slot
    return (.text a.describe, s)

/-- **One step**: its answer or its failure, and the slots after it. -/
def step (s : Slots) (st : Step) : Except Failure Answer × Slots :=
  match s.step? st with
  | .ok (a, s') => (.ok a, s')
  | .error e => (.error e, s)

/-- **A run of steps**: what each of them gave, with the slots after it. -/
def run : Slots → List Step → List (Except Failure Answer × Slots)
  | _, [] => []
  | s, st :: steps =>
    let here := step s st
    here :: run here.2 steps

end Slots

/-! ### Slots in a memory

The numbers in slots are changed where they stand. Here the digits of all numbers that were ever
made are in one memory, and a slot has an address in it (`Readout.SlotCells`). Sums and products
are formed in place, in the cell of their receiver; another slot with the same address would change
with it. A new number gets a cell behind all others, and so does a copy.

A step (`Readout.SlotCells.step`) that fails, because a slot is empty or a number cannot be made,
leaves everything as it was. There is nothing after a step only if a carry is left over.
-/

/-- **Slots in a memory**: the digits of numbers, and the addresses of those that are in slots. -/
structure SlotCells where
  /-- The digits of all numbers, also of those that are in no slot any more. -/
  memory : DigitMemory
  /-- The address of the number in a slot. -/
  addresses : Table Nat

namespace SlotCells

/-- No numbers, and no slots. -/
def empty : SlotCells := ⟨[], .empty⟩

instance : Inhabited SlotCells := ⟨empty⟩

/-- The digits of the number in a slot. -/
def digits? (c : SlotCells) (slot : String) : Option (List Nat) :=
  (c.addresses.find? slot).bind (c.memory[·]?)

/-- Makes a number with given digits, and puts it in a slot. -/
def make (c : SlotCells) (slot : String) (ds : List Nat) : SlotCells :=
  ⟨c.memory ++ [ds], c.addresses.insert slot c.memory.length⟩

/-- Changes the number in a slot in place, with the one in another slot. -/
def change (c : SlotCells) (op : DigitMemory → Nat → Nat → Option DigitMemory)
    (slot other : String) : Option SlotCells :=
  match c.addresses.find? slot, c.addresses.find? other with
  | some a, some b => (op c.memory a b).map fun m => ⟨m, c.addresses⟩
  | _, _ => some c

/-- **What is in memory after a step.** -/
def step (c : SlotCells) : Slots.Step → Option SlotCells
  | .new slot value extra fill =>
    match Decimal.ofInt value extra fill with
    | .ok a => some (c.make slot a.digits)
    | .error _ => some c
  | .add slot other => c.change DigitMemory.addInPlace slot other
  | .mul slot other => c.change DigitMemory.mulInPlace slot other
  | .copy slot other =>
    match c.digits? other with
    | some ds => some (c.make slot ds)
    | none => some c
  | .digits .. | .equals .. | .equalsInt .. | .integer .. | .describe .. => some c

/-- What is in memory after a run of steps. -/
def after (c : SlotCells) (steps : List Slots.Step) : Option SlotCells :=
  steps.foldlM step c

end SlotCells

end Readout
