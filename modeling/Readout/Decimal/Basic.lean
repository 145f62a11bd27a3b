import Readout.Decimal.Digits
import Readout.Numeral.Literal

/-!
# Decimal naturals

A decimal natural (`Readout.Decimal`) is a canonical digit sequence, so that two
of them are equal exactly when they stand for the same number. They are added and
multiplied, their digits can be read off one by one, and their text can be
printed whatever its length.

Decimal naturals are made from integers (`Readout.Decimal.ofInt`), with further
digits of one kind below those of the integer. The integer is converted through
its decimal text, and the limit on the length of such texts applies.
-/

namespace Readout

open Digits in
/-- **Decimal naturals.** -/
@[ext] structure Decimal where
  /-- The digits, least significant first. -/
  digits : List Nat
  /-- They are digits, without superfluous zeros. -/
  canonical : Canonical digits
  deriving DecidableEq

namespace Decimal

open Digits

/-- The number that a decimal natural stands for. -/
def value (a : Decimal) : Nat :=
  Digits.value a.digits

/-- Zero. -/
def zero : Decimal := ⟨[], by simp [Canonical, AreDigits]⟩

instance : Inhabited Decimal := ⟨zero⟩

/-- The decimal natural with given digits, of which the most significant may be
zero. -/
def ofDigits (ds : List Nat) (h : AreDigits ds) : Decimal :=
  ⟨trim ds, canonical_trim h⟩

/-- The decimal natural of a natural number. -/
def ofNat (n : Nat) : Decimal :=
  ofDigits (Digits.ofNat n) (areDigits_ofNat n)

/-- Digits that have passed through a computation which always succeeds. -/
def ofResult (r : Option (List Nat)) {n : Nat}
    (h : ∃ ds, r = some ds ∧ Digits.value ds = n ∧ Canonical ds) : Decimal :=
  match r, h with
  | some ds, h => ⟨ds, by obtain ⟨_, he, _, hc⟩ := h; cases he; exact hc⟩

/-- **The sum.** -/
def add (a b : Decimal) : Decimal :=
  ofResult (Digits.add a.digits b.digits) (exists_add a.canonical.1 b.canonical.1)

/-- **The product.** -/
def mul (a b : Decimal) : Decimal :=
  ofResult (Digits.mul a.digits b.digits) (exists_mul a.canonical.1 b.canonical.1)

/-- The number of digits; zero has none. -/
def digitCount (a : Decimal) : Nat :=
  a.digits.length

/-- The digit at a position, the least significant one at zero; outside the digits
there are zeros, at negative positions too. -/
def digit (a : Decimal) (i : Int) : Nat :=
  if i < 0 then 0 else a.digits.getD i.toNat 0

/-- The decimal text. -/
def text (a : Decimal) : String :=
  if a.digits.isEmpty then "0" else String.ofList (a.digits.reverse.map Nat.digitChar)

/-- A decimal natural as listings show it. -/
def describe (a : Decimal) : String :=
  "BigDecimal(" ++ a.text ++ ")"

/-- The decimal text of the value, unless it is longer than a numeral may be; the
length is given then. -/
def integerText (a : Decimal) : Except Nat String :=
  if a.digitCount ≤ Numeral.maxDecimalDigits then .ok a.text else .error a.digitCount

/-! ### Making decimal naturals from integers -/

/-- **Why an integer and further digits make no decimal natural.** -/
inductive Unmakeable
  /-- The integer is negative. -/
  | negative (value : Int)
  /-- The further digit is none. -/
  | badFill (digit : Int)
  /-- The number of further digits is negative. -/
  | negativeExtra (count : Int)
  /-- The further digits are too many. -/
  | excess (what : Excess)
  /-- The integer has too many digits. -/
  | oversized
  deriving DecidableEq, Repr, Inhabited

/-- What is said then. -/
def Unmakeable.message : Unmakeable → String
  | negative value =>
    Numeral.withDecimal value fun v => "BigDecimal value must be non-negative, got " ++ v
  | badFill digit =>
    Numeral.withDecimal digit fun d => "fill_digit must be a decimal digit, got " ++ d
  | negativeExtra count =>
    Numeral.withDecimal count fun c => "extra_digits must be non-negative, got " ++ c
  | excess what => what.message
  | oversized => Numeral.unprintableText

/-- The digits of a number above a number of equal digits. -/
def shifted (n extra fill : Nat) (h : fill < 10) : Decimal :=
  ofDigits (List.replicate extra fill ++ Digits.ofNat n)
    (areDigits_append (areDigits_replicate extra h) (areDigits_ofNat n))

/-- **The decimal natural of an integer**, with `extra` further digits `fill` below
its own. The integer is checked first, then the digit, then the number of
them. -/
def ofInt (value extra fill : Int) : Except Unmakeable Decimal :=
  if value < 0 then .error (.negative value)
  else if h : 0 ≤ fill ∧ fill ≤ 9 then
    if extra < 0 then .error (.negativeExtra extra)
    else
      match Excess.ofLength? extra.toNat with
      | some what => .error (.excess what)
      | none =>
        if Numeral.isWritable value then
          .ok (shifted value.toNat extra.toNat fill.toNat (by omega))
        else .error .oversized
  else .error (.badFill fill)

/-! ### Values -/

theorem value_ofResult (r : Option (List Nat)) {n : Nat}
    (h : ∃ ds, r = some ds ∧ Digits.value ds = n ∧ Canonical ds) : (ofResult r h).value = n := by
  obtain ⟨ds, rfl, hv, hc⟩ := h
  exact hv

@[simp] theorem value_ofDigits (ds : List Nat) (h : AreDigits ds) :
    (ofDigits ds h).value = Digits.value ds :=
  value_trim ds

@[simp] theorem value_ofNat (n : Nat) : (ofNat n).value = n := by
  rw [ofNat, value_ofDigits, Digits.value_ofNat]

@[simp] theorem value_add (a b : Decimal) : (a.add b).value = a.value + b.value :=
  value_ofResult _ _

@[simp] theorem value_mul (a b : Decimal) : (a.mul b).value = a.value * b.value :=
  value_ofResult _ _

end Decimal

end Readout
