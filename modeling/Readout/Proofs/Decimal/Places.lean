import Mathlib.Tactic.Linarith
import Mathlib.Tactic.Ring
import Readout.Decimal.Basic

/-!
# The places of a decimal natural

A decimal natural is its digits, but what is proved about it is a matter of the
number that it stands for. This file is the bridge: every digit is a quotient and
a remainder of the value (`Readout.Decimal.digit_natCast`), and the number of
digits is the place of the value between two powers of ten
(`Readout.Decimal.lt_pow_digitCount`, `Readout.Decimal.pow_le_value`).

After that no proof about numbers looks at a digit sequence again.
-/

namespace Readout

/-- A number is short enough to be written if its absolute value lies below a power of ten. -/
theorem Numeral.isWritable_iff (n : ℤ) :
    Numeral.isWritable n = true ↔ n.natAbs < 10 ^ Numeral.maxDecimalDigits := by
  unfold Numeral.isWritable
  generalize Numeral.maxDecimalDigits = k
  rw [decide_eq_true_iff]
  exact Iff.rfl

theorem Numeral.isWritable_natCast_iff (n : ℕ) :
    Numeral.isWritable n = true ↔ n < 10 ^ Numeral.maxDecimalDigits := by
  rw [isWritable_iff, Int.natAbs_natCast]

namespace Digits

/-- The weight of a position is a power of ten. -/
theorem weight_eq_pow (n : ℕ) : weight n = 10 ^ n := by
  induction n with
  | zero => rfl
  | succ n ih => rw [weight_succ, ih, pow_succ']

/-- **Each digit is a quotient and a remainder of the value**, beyond the last one
too. -/
theorem getD_eq_div_mod {ds : List ℕ} (h : AreDigits ds) (i : ℕ) :
    ds.getD i 0 = value ds / 10 ^ i % 10 := by
  induction ds generalizing i with
  | nil => simp
  | cons d ds ih =>
    have hd : d < 10 := h d List.mem_cons_self
    have htail : AreDigits ds := fun e he => h e (List.mem_cons_of_mem d he)
    rw [value_cons]
    cases i with
    | zero =>
      rw [List.getD_cons_zero, pow_zero, Nat.div_one]
      omega
    | succ i =>
      rw [List.getD_cons_succ, ih htail i, pow_succ', ← Nat.div_div_eq_div_mul,
        show (d + 10 * value ds) / 10 = value ds by omega]

/-- A canonical sequence stands for at least the weight of its most significant
position. -/
theorem pow_le_value {ds : List ℕ} (h : Canonical ds) (hne : ds ≠ []) :
    10 ^ (ds.length - 1) ≤ value ds := by
  induction ds with
  | nil => exact absurd rfl hne
  | cons d ds ih =>
    obtain ⟨hdig, hlast⟩ := h
    rcases ds with _ | ⟨e, es⟩
    · -- a single digit, which is the most significant one
      have hd : d ≠ 0 := by simpa using hlast
      rw [value_cons, value_nil, List.length_singleton, pow_zero]
      omega
    · have htail : Canonical (e :: es) :=
        ⟨fun x hx => hdig x (List.mem_cons_of_mem d hx), by rwa [List.getLast?_cons_cons] at hlast⟩
      have hih := ih htail (List.cons_ne_nil e es)
      rw [List.length_cons, Nat.add_sub_cancel] at hih
      rw [value_cons, List.length_cons, Nat.add_sub_cancel, List.length_cons, pow_succ']
      omega

/-- The value of a number of equal digits. -/
theorem nine_mul_value_replicate (n d : ℕ) :
    9 * value (List.replicate n d) + d = d * 10 ^ n := by
  induction n with
  | zero => simp
  | succ n ih =>
    rw [List.replicate_succ, value_cons, pow_succ']
    linarith

end Digits

namespace Decimal

open Digits

/-- **A digit at a natural position**, in terms of the value. -/
theorem digit_natCast (a : Decimal) (i : ℕ) : a.digit i = a.value / 10 ^ i % 10 := by
  rw [digit, if_neg (by omega), Int.toNat_natCast]
  exact getD_eq_div_mod a.canonical.1 i

/-- Below the least significant digit there are zeros. -/
theorem digit_of_neg (a : Decimal) {i : ℤ} (h : i < 0) : a.digit i = 0 := by
  rw [digit, if_pos h]

/-- The value needs no more than the digits that there are. -/
theorem lt_pow_digitCount (a : Decimal) : a.value < 10 ^ a.digitCount := by
  rw [← weight_eq_pow]
  exact value_lt a.canonical.1

/-- The number of digits is zero for zero only. -/
theorem digitCount_eq_zero_iff (a : Decimal) : a.digitCount = 0 ↔ a.value = 0 := by
  constructor
  · intro h
    have hlt := a.lt_pow_digitCount
    rw [h, pow_zero] at hlt
    omega
  · intro h
    by_contra hne
    have hds : a.digits ≠ [] := fun hnil => hne (by rw [digitCount, hnil, List.length_nil])
    have hle := Digits.pow_le_value a.canonical hds
    have hpos : 0 < 10 ^ (a.digits.length - 1) := Nat.pow_pos (by decide)
    have hval : Digits.value a.digits = 0 := h
    omega

/-- **The value needs as many digits as there are.** -/
theorem pow_le_value (a : Decimal) (h : a.value ≠ 0) : 10 ^ (a.digitCount - 1) ≤ a.value := by
  refine Digits.pow_le_value a.canonical fun hnil => h ?_
  rw [value, hnil, value_nil]

/-- The number of digits is known as soon as the value is placed between two
powers of ten. -/
theorem digitCount_eq {a : Decimal} {n : ℕ} (hle : 10 ^ n ≤ a.value)
    (hlt : a.value < 10 ^ (n + 1)) : a.digitCount = n + 1 := by
  have hne : a.value ≠ 0 := by
    have : 0 < 10 ^ n := Nat.pow_pos (by decide)
    omega
  have hlo := (Nat.pow_lt_pow_iff_right (by decide : 1 < 10)).1 (hle.trans_lt a.lt_pow_digitCount)
  have hhi := (Nat.pow_lt_pow_iff_right (by decide : 1 < 10)).1 ((a.pow_le_value hne).trans_lt hlt)
  omega

/-- **A decimal natural is known by its value.** -/
theorem value_injective : Function.Injective value := by
  intro a b h
  have hcount : a.digitCount = b.digitCount := by
    rcases eq_or_ne b.value 0 with hzero | hne
    · rw [a.digitCount_eq_zero_iff.2 (h.trans hzero), b.digitCount_eq_zero_iff.2 hzero]
    · have hpos : b.digitCount ≠ 0 := fun hnil => hne (b.digitCount_eq_zero_iff.1 hnil)
      obtain ⟨n, hn⟩ := Nat.exists_eq_succ_of_ne_zero hpos
      have hle := b.pow_le_value hne
      have hlt := b.lt_pow_digitCount
      rw [hn, Nat.succ_sub_one, ← h] at hle
      rw [hn, ← h] at hlt
      rw [digitCount_eq hle hlt, hn]
  refine Decimal.ext (List.ext_getElem hcount fun i hi hi' => ?_)
  rw [List.getElem_eq_getD 0, List.getElem_eq_getD 0, getD_eq_div_mod a.canonical.1,
    getD_eq_div_mod b.canonical.1]
  exact congrArg (· / 10 ^ i % 10) h

/-- **The value of a number with further digits below it**: the number moved up,
and below it a number of equal digits. -/
theorem nine_mul_value_shifted (n extra fill : ℕ) (h : fill < 10) :
    9 * (shifted n extra fill h).value + fill = (9 * n + fill) * 10 ^ extra := by
  rw [shifted, value_ofDigits, value_append, Digits.value_ofNat, List.length_replicate,
    weight_eq_pow]
  have hrep := nine_mul_value_replicate extra fill
  linarith

end Decimal

end Readout
