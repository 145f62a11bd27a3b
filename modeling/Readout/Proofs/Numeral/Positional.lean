import Mathlib.Data.List.Basic
import Readout.Numeral.Literal

/-!
# Written numbers read back

A number has one numeral in every base (`Readout.Numeral.IsCanonical`), and that is what it is
written with. Reading the digits of the numeral gives the number back, in every base up to sixteen
(`Readout.Numeral.valueOf_toDigits`). Zeros before the digits make no difference, and a number that
is not zero is written without them (`Readout.Numeral.head?_toDigits_ne`).
-/

namespace Readout.Numeral

theorem digitIn?_eq_some_iff {base d : ℕ} {c : Char} :
    digitIn? base c = some d ↔ digitValue? c = some d ∧ d < base := by
  rw [digitIn?, Option.filter_eq_some_iff, decide_eq_true_eq]

/-- A digit that is written reads back as itself. -/
theorem digitValue?_digitChar {d : ℕ} (h : d < 16) : digitValue? (Nat.digitChar d) = some d := by
  have hvalue : ∀ d < 16, digitValue? (Nat.digitChar d) = some d := by decide
  exact hvalue d h

theorem digitIn?_digitChar {base d : ℕ} (hd : d < base) (hb : base ≤ 16) :
    digitIn? base (Nat.digitChar d) = some d :=
  digitIn?_eq_some_iff.2 ⟨digitValue?_digitChar (Nat.lt_of_lt_of_le hd hb), hd⟩

theorem isDigitIn_digitChar {base d : ℕ} (hd : d < base) (hb : base ≤ 16) :
    isDigitIn base (Nat.digitChar d) = true := by
  rw [isDigitIn, digitIn?_digitChar hd hb, Option.isSome_some]

/-- Digits that are written one by one have the value of the digits. -/
theorem valueOf_map_digitChar {base : ℕ} (hb : base ≤ 16) {ds : List ℕ} (h : ∀ d ∈ ds, d < base) :
    valueOf base (ds.map Nat.digitChar) = valueIn base ds := by
  have hread : (ds.map Nat.digitChar).filterMap (digitIn? base) = ds := by
    induction ds with
    | nil => rfl
    | cons d ds ih =>
      rw [List.map_cons, List.filterMap_cons_some (digitIn?_digitChar (h d List.mem_cons_self) hb),
        ih fun e he => h e (List.mem_cons_of_mem d he)]
  rw [valueOf, hread]

theorem valueOf_append_digitChar {base d : ℕ} (hd : d < base) (hb : base ≤ 16) (cs : List Char) :
    valueOf base (cs ++ [Nat.digitChar d]) = base * valueOf base cs + d := by
  rw [valueOf, List.filterMap_append,
    List.filterMap_cons_some (digitIn?_digitChar hd hb), List.filterMap_nil,
    valueIn_append_singleton, valueOf]

/-! ### The numeral of a number -/

/-- **The numeral of a number** in a base: one digit, or the numeral of a positive number with one
more digit behind it. So no zero stands in front of other digits. Digits from ten on are small
letters. -/
inductive IsCanonical (base : ℕ) : ℕ → List Char → Prop
  /-- A number below the base is one digit. -/
  | digit {d : ℕ} (hd : d < base) : IsCanonical base d [Nat.digitChar d]
  /-- One more digit behind a numeral is added to its number times the base. -/
  | append {n d : ℕ} {cs : List Char} (hn : 0 < n) (h : IsCanonical base n cs) (hd : d < base) :
    IsCanonical base (base * n + d) (cs ++ [Nat.digitChar d])

/-- The digits that a number is written with are its numeral, -/
theorem isCanonical_toDigits {base : ℕ} (h : 1 < base) (n : ℕ) :
    IsCanonical base n (Nat.toDigits base n) := by
  induction n using Nat.strongRecOn with
  | ind n ih =>
    rcases Nat.lt_or_ge n base with hlt | hge
    · rw [Nat.toDigits_of_lt_base hlt]
      exact .digit hlt
    · have hpos : 0 < n / base := Nat.div_pos hge (by omega)
      have happend := IsCanonical.append hpos (ih (n / base) (Nat.div_lt_self (by omega) h))
        (Nat.mod_lt n (by omega))
      rwa [Nat.div_add_mod, ← Nat.toDigits_of_base_le h hge] at happend

namespace IsCanonical

variable {base n : ℕ} {cs : List Char}

/-- **and there is no other numeral.** -/
theorem eq_toDigits (h : IsCanonical base n cs) (hbase : 1 < base) :
    cs = Nat.toDigits base n := by
  induction h with
  | digit hd => exact (Nat.toDigits_of_lt_base hd).symm
  | append hn _ hd ih =>
    rw [ih, ← Nat.toDigits_of_lt_base hd]
    exact Nat.toDigits_append_toDigits hbase hn hd

theorem isDigitIn (h : IsCanonical base n cs) (hb : base ≤ 16) :
    ∀ c ∈ cs, isDigitIn base c = true := by
  induction h with
  | digit hd =>
    rw [List.forall_mem_singleton]
    exact isDigitIn_digitChar hd hb
  | append _ _ hd ih =>
    rw [List.forall_mem_append, List.forall_mem_singleton]
    exact ⟨ih, isDigitIn_digitChar hd hb⟩

/-- A numeral has the value of its number. -/
theorem valueOf_eq (h : IsCanonical base n cs) (hb : base ≤ 16) : valueOf base cs = n := by
  induction h with
  | digit hd =>
    rw [← List.nil_append [_], valueOf_append_digitChar hd hb]
    exact Nat.zero_add _
  | append _ _ hd ih => rw [valueOf_append_digitChar hd hb, ih]

theorem ne_nil (h : IsCanonical base n cs) : cs ≠ [] := by
  cases h with
  | digit => exact List.cons_ne_nil _ _
  | append => exact List.concat_ne_nil _ _

theorem head?_ne (h : IsCanonical base n cs) (hb : base ≤ 16) (hn : n ≠ 0) :
    cs.head? ≠ some '0' := by
  induction h with
  | @digit d hd =>
    have hchar : ∀ d < 16, d ≠ 0 → some (Nat.digitChar d) ≠ some '0' := by decide
    exact hchar d (Nat.lt_of_lt_of_le hd hb) hn
  | append hpos h _ ih =>
    rw [List.head?_append_of_ne_nil _ h.ne_nil]
    exact ih (Nat.ne_of_gt hpos)

end IsCanonical

section Written

variable {base : ℕ} (h : 1 < base) (hb : base ≤ 16) {n : ℕ}
include h hb

/-- **A number that is written reads back.** -/
theorem valueOf_toDigits (n : ℕ) : valueOf base (Nat.toDigits base n) = n :=
  (isCanonical_toDigits h n).valueOf_eq hb

/-- A number is written with digits only. -/
theorem isDigitIn_of_mem_toDigits {c : Char} (hc : c ∈ Nat.toDigits base n) :
    isDigitIn base c = true :=
  (isCanonical_toDigits h n).isDigitIn hb c hc

/-- **A number that is not zero is written without zeros before it.** -/
theorem head?_toDigits_ne (hn : n ≠ 0) : (Nat.toDigits base n).head? ≠ some '0' :=
  (isCanonical_toDigits h n).head?_ne hb hn

end Written

/-- Zeros before a number make no difference. -/
theorem valueOf_zeros_append (base k : ℕ) (cs : List Char) (h : 0 < base) :
    valueOf base (List.replicate k '0' ++ cs) = valueOf base cs := by
  induction k with
  | zero => rfl
  | succ k ih =>
    have hzero : digitIn? base '0' = some 0 := by
      rw [digitIn?, show digitValue? '0' = some 0 from rfl, Option.filter_some,
        if_pos (by simpa using h)]
    rw [← ih, List.replicate_succ, List.cons_append, valueOf, List.filterMap_cons_some hzero]
    rfl

/-! ### The two spellings -/

theorem signText_natCast (n : ℕ) : signText n = "" :=
  if_neg (Int.not_lt.2 (Int.natCast_nonneg n))

theorem toList_decimalText (n : ℕ) : (decimalText n).toList = Nat.toDigits 10 n := by
  rw [decimalText, signText_natCast, String.empty_append, String.toList_ofList, Int.natAbs_natCast]

theorem toList_hexText (n : ℕ) : (hexText n).toList = '0' :: 'x' :: Nat.toDigits 16 n := by
  have hdigits : (String.ofList (Nat.toDigits 16 n)).toList = Nat.toDigits 16 n :=
    String.toList_ofList
  rw [hexText, signText_natCast, String.empty_append, String.toList_append, Int.natAbs_natCast,
    hdigits]
  rfl

end Readout.Numeral
