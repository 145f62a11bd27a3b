import Readout.Proofs.Decimal.Powers
import Readout.Proofs.Decimal.Rounding
import Readout.Proofs.Numeral.Positional

/-!
# Scientific notation is correctly rounded

What is printed for `m · 2 ^ e` is the number rounded to the asked number of significant
digits, ties going to the even digit, and it does not matter how the number is given or
what the power table has been used for before (`Readout.render_correctlyRounded`).

Two things are kept apart. The one is **arithmetic**: which significand and which
exponent belong to a number (`Readout.Scientific.Approximates`), and that the digits of
a scaled decimal natural are those (`Readout.Decimal.exists_toScientific`). A number
that has fewer digits than asked for is filled up with zeros; one that has more is
rounded; and the rounding may carry through nines into a new leading digit. The other is
**writing**: that the text shows the significand and the exponent and nothing else
(`Readout.Scientific.Shows`).
-/

namespace Readout

/-! ### Numbers with given significant digits -/

namespace Scientific

/-- The scientific notation with a given **significand**: its digits are those of the
significand, as many as asked for. -/
def ofSignificand (precision significand : ℕ) (exponent : ℤ) : Scientific :=
  ⟨(List.range precision).map fun i => significand / 10 ^ (precision - 1 - i) % 10, exponent⟩

/-- **The correctly rounded form of a number.** The exponent is the decimal logarithm,
and the significand is the number in units of the last place, rounded to the nearest
integer with ties going to the even one. If that has one digit too many, it is a power
of ten, and the exponent is one more. Zero has the exponent zero. -/
def Approximates (x : ℚ) (precision significand : ℕ) (exponent : ℤ) : Prop :=
  if x = 0 then significand = 0 ∧ exponent = 0
  else ∃ n : ℕ, RoundsToEven (x / 10 ^ (Int.log 10 x - precision + 1)) n ∧
    (n < 10 ^ precision ∧ significand = n ∧ exponent = Int.log 10 x ∨
      n = 10 ^ precision ∧ significand = 10 ^ (precision - 1) ∧ exponent = Int.log 10 x + 1)

/-- **A number has one correctly rounded form.** -/
theorem Approximates.unique {x : ℚ} {precision N N' : ℕ} {E E' : ℤ}
    (h : Approximates x precision N E) (h' : Approximates x precision N' E') : N = N' ∧ E = E' := by
  unfold Approximates at h h'
  split at h
  · rename_i hx
    rw [if_pos hx] at h'
    exact ⟨h.1.trans h'.1.symm, h.2.trans h'.2.symm⟩
  · rename_i hx
    rw [if_neg hx] at h'
    obtain ⟨n, hn, hcase⟩ := h
    obtain ⟨n', hn', hcase'⟩ := h'
    have heq : n = n' := by exact_mod_cast hn.unique hn'
    omega

end Scientific

namespace Decimal

open Scientific

/-- The digits from a leading position down are those of a significand, whether the
number is long enough for them or zeros have to be filled in. -/
theorem map_digit_eq (a : Decimal) (lead precision : ℕ) (E : ℤ) :
    (List.range precision).map (fun (i : ℕ) => a.digit ((lead : ℤ) - i)) =
      (ofSignificand precision
        (a.value * 10 ^ (precision - (lead + 1)) / 10 ^ (lead + 1 - precision)) E).digits := by
  refine List.map_congr_left fun i hi => ?_
  have hi' : i < precision := List.mem_range.1 hi
  rcases le_or_gt i lead with hle | hgt
  · rw [← Nat.cast_sub hle, digit_natCast]
    rcases le_total precision (lead + 1) with hp | hp
    · rw [show precision - (lead + 1) = 0 by omega, pow_zero, mul_one, Nat.div_div_eq_div_mul,
        ← pow_add, show lead + 1 - precision + (precision - 1 - i) = lead - i by omega]
    · rw [show lead + 1 - precision = 0 by omega, pow_zero, Nat.div_one,
        show precision - 1 - i = lead - i + (precision - (lead + 1)) by omega, pow_add,
        Nat.mul_div_mul_right _ _ (Nat.pow_pos (by decide))]
  · -- below the least significant digit there are zeros on both sides
    rw [digit_of_neg a (by omega), show lead + 1 - precision = 0 by omega, pow_zero, Nat.div_one,
      show precision - (lead + 1) = i - lead - 1 + 1 + (precision - 1 - i) by omega, pow_add,
      ← mul_assoc, Nat.mul_div_cancel _ (Nat.pow_pos (by decide)), pow_succ, ← mul_assoc,
      Nat.mul_mod_left]

/-- The decimal logarithm of a scaled decimal natural. -/
theorem log_value_mul_zpow {a : Decimal} (h : a.value ≠ 0) (power : ℤ) :
    Int.log 10 ((a.value : ℚ) * 10 ^ power) = power + (a.digitCount - 1 : ℕ) := by
  have hlo : (10 : ℚ) ^ (a.digitCount - 1) ≤ a.value := by exact_mod_cast a.pow_le_value h
  have hhi : (a.value : ℚ) < 10 ^ (a.digitCount - 1 + 1) := by
    have hcount : a.digitCount ≠ 0 := fun h0 => h ((a.digitCount_eq_zero_iff).1 h0)
    rw [show a.digitCount - 1 + 1 = a.digitCount by omega]
    exact_mod_cast a.lt_pow_digitCount
  have hscale : (0 : ℚ) < 10 ^ power := zpow_pos (by norm_num) power
  have hpos : (0 : ℚ) < a.value * 10 ^ power := by
    have : (0 : ℚ) < a.value := by exact_mod_cast Nat.pos_of_ne_zero h
    positivity
  -- the bounds of the logarithm are those of the digit count, times the scale
  refine le_antisymm ?_ ?_
  · refine Int.lt_add_one_iff.1 ((Int.lt_zpow_iff_log_lt (by decide) hpos).1 ?_)
    push_cast
    rw [add_assoc, zpow_add₀ (by norm_num), mul_comm]
    refine mul_lt_mul_of_pos_left ?_ hscale
    exact_mod_cast hhi
  · refine (Int.zpow_le_iff_le_log (by decide) hpos).1 ?_
    push_cast
    rw [zpow_add₀ (by norm_num), mul_comm]
    refine mul_le_mul_of_nonneg_right ?_ hscale.le
    exact_mod_cast hlo

/-- In units of the last place, a scaled decimal natural is a quotient or a product by a
power of ten. -/
theorem div_unit_of_long {a : Decimal} (h : a.value ≠ 0) (power : ℤ) {precision : ℕ}
    (hlong : precision < a.digitCount) :
    (a.value : ℚ) * 10 ^ power /
        10 ^ (Int.log 10 ((a.value : ℚ) * 10 ^ power) - precision + 1) =
      (a.value : ℚ) / 10 ^ (a.digitCount - precision - 1 + 1) := by
  have hunit : Int.log 10 ((a.value : ℚ) * 10 ^ power) - precision + 1 =
      power + (a.digitCount - precision - 1 + 1 : ℕ) := by
    rw [log_value_mul_zpow h]
    omega
  rw [hunit, zpow_add₀ (by norm_num), zpow_natCast]
  have : (10 : ℚ) ^ power ≠ 0 := zpow_ne_zero power (by norm_num)
  field_simp

theorem div_unit_of_short {a : Decimal} (h : a.value ≠ 0) (power : ℤ) {precision : ℕ}
    (hshort : a.digitCount ≤ precision) :
    (a.value : ℚ) * 10 ^ power /
        10 ^ (Int.log 10 ((a.value : ℚ) * 10 ^ power) - precision + 1) =
      ((a.value * 10 ^ (precision - a.digitCount) : ℕ) : ℤ) := by
  have hcount : a.digitCount ≠ 0 := fun h0 => h ((a.digitCount_eq_zero_iff).1 h0)
  have hunit : Int.log 10 ((a.value : ℚ) * 10 ^ power) - precision + 1 =
      power - (precision - a.digitCount : ℕ) := by
    rw [log_value_mul_zpow h]
    omega
  rw [hunit, zpow_sub₀ (by norm_num), zpow_natCast]
  have : (10 : ℚ) ^ power ≠ 0 := zpow_ne_zero power (by norm_num)
  push_cast
  field_simp

/-- A number that is too short to be rounded is written as it is. -/
theorem toScientific_of_short {a : Decimal} (h : a.value ≠ 0) (power : ℤ) {precision : ℕ}
    (hshort : a.digitCount ≤ precision) :
    ∃ N E, N < 10 ^ precision ∧ a.toScientific power precision = ofSignificand precision N E ∧
      Approximates (a.value * 10 ^ power) precision N E := by
  have hcount : a.digitCount ≠ 0 := fun h0 => h ((a.digitCount_eq_zero_iff).1 h0)
  have hlt : a.value * 10 ^ (precision - a.digitCount) < 10 ^ precision := by
    calc a.value * 10 ^ (precision - a.digitCount)
        < 10 ^ a.digitCount * 10 ^ (precision - a.digitCount) :=
          Nat.mul_lt_mul_of_pos_right a.lt_pow_digitCount (Nat.pow_pos (by decide))
      _ = 10 ^ precision := by rw [← pow_add, Nat.add_sub_cancel' hshort]
  refine ⟨a.value * 10 ^ (precision - a.digitCount), power + (a.digitCount - 1 : ℕ), hlt, ?_, ?_⟩
  · have hdigits := a.map_digit_eq (a.digitCount - 1) precision (power + (a.digitCount - 1 : ℕ))
    rw [show a.digitCount - 1 + 1 = a.digitCount by omega,
      show a.digitCount - precision = 0 by omega, pow_zero, Nat.div_one] at hdigits
    unfold toScientific
    dsimp only
    rw [if_neg (by omega), max_self, if_neg hcount,
      show (a.digitCount : ℤ) - 1 = (a.digitCount - 1 : ℕ) by omega, hdigits]
    rfl
  · have hx : (a.value : ℚ) * 10 ^ power ≠ 0 :=
      mul_ne_zero (by exact_mod_cast h) (zpow_ne_zero power (by norm_num))
    rw [Approximates, if_neg hx]
    refine ⟨_, ?_, Or.inl ⟨hlt, rfl, (log_value_mul_zpow h power).symm⟩⟩
    rw [div_unit_of_short h power hshort]
    exact roundsToEven_intCast _

section Long

variable {a : Decimal} {precision c : ℕ}

/-- How a number with dropped positions is written, once it is known where the rounded
number starts. -/
theorem toScientific_of_lead (power : ℤ) (hc : a.digitCount = precision + c + 1) {lead : ℕ}
    (hlead : (a.roundAt c).digitCount = lead + 1) (hle : precision + c ≤ lead) :
    a.toScientific power precision =
      ofSignificand precision ((a.roundAt c).value / 10 ^ (lead + 1 - precision))
        (power + lead) := by
  have hdigits := (a.roundAt c).map_digit_eq lead precision (power + lead)
  rw [show precision - (lead + 1) = 0 by omega, pow_zero, mul_one] at hdigits
  unfold toScientific
  dsimp only
  rw [if_pos (by omega), show ((a.digitCount : ℤ) - 1 - precision).toNat = c by omega,
    if_neg (by omega), hlead,
    show max ((a.digitCount : ℤ) - 1) ((lead + 1 : ℕ) - 1) = (lead : ℤ) by omega, hdigits]
  rfl

/-- The rounded number has no more digits than are kept, or it is a power of ten. -/
theorem value_roundAt_div_le (hc : a.digitCount = precision + c + 1) :
    (a.roundAt c).value / 10 ^ (c + 1) ≤ 10 ^ precision := by
  have hq : a.value / 10 ^ (c + 1) < 10 ^ precision := by
    rw [Nat.div_lt_iff_lt_mul (Nat.pow_pos (by decide)), ← pow_add, ← add_assoc, ← hc]
    exact a.lt_pow_digitCount
  rw [value_roundAt_div]
  split <;> omega

theorem digitCount_roundAt_of_lt (h : a.value ≠ 0) (hc : a.digitCount = precision + c + 1)
    (hfits : (a.roundAt c).value / 10 ^ (c + 1) < 10 ^ precision) :
    (a.roundAt c).digitCount = precision + c + 1 := by
  refine digitCount_eq ?_ ?_
  · have hle := a.pow_le_value h
    rw [hc, Nat.add_sub_cancel] at hle
    exact hle.trans (a.value_le_value_roundAt c)
  · rwa [Nat.div_lt_iff_lt_mul (Nat.pow_pos (by decide)), ← pow_add] at hfits

/-- Nines that carry into a new leading digit make the number one digit longer. -/
theorem digitCount_roundAt_of_eq
    (hcarry : (a.roundAt c).value / 10 ^ (c + 1) = 10 ^ precision) :
    (a.roundAt c).digitCount = precision + c + 1 + 1 := by
  have hdm := Nat.div_add_mod (a.roundAt c).value (10 ^ (c + 1))
  have hmod := Nat.mod_lt (a.roundAt c).value
    (Nat.pow_pos (by decide : 0 < 10) : 0 < 10 ^ (c + 1))
  rw [hcarry, ← pow_add, show c + 1 + precision = precision + c + 1 by omega] at hdm
  have hle : 10 ^ (c + 1) ≤ 10 ^ (precision + c + 1) :=
    Nat.pow_le_pow_right (by decide) (by omega)
  refine digitCount_eq (by omega) ?_
  rw [pow_succ _ (precision + c + 1)]
  omega

/-- A number that is long enough to be rounded is rounded correctly, also if nines carry
into a new leading digit. -/
theorem toScientific_of_long (h : a.value ≠ 0) (power : ℤ) (hp : 1 ≤ precision)
    (hc : a.digitCount = precision + c + 1) :
    ∃ N E, N < 10 ^ precision ∧ a.toScientific power precision = ofSignificand precision N E ∧
      Approximates (a.value * 10 ^ power) precision N E := by
  have hx : (a.value : ℚ) * 10 ^ power ≠ 0 :=
    mul_ne_zero (by exact_mod_cast h) (zpow_ne_zero power (by norm_num))
  have hlog := log_value_mul_zpow h power
  rw [hc, Nat.add_sub_cancel] at hlog
  have hround := a.roundsToEven_roundAt c
  rw [← show a.digitCount - precision - 1 + 1 = c + 1 by omega,
    ← div_unit_of_long h power (by omega)] at hround
  rw [show a.digitCount - precision - 1 + 1 = c + 1 by omega] at hround
  rcases (value_roundAt_div_le hc).lt_or_eq with hfits | hcarry
  · -- the leading digit stays where it was
    have hsci := toScientific_of_lead power hc (digitCount_roundAt_of_lt h hc hfits) (le_refl _)
    rw [show precision + c + 1 - precision = c + 1 by omega] at hsci
    refine ⟨_, _, hfits, hsci, ?_⟩
    rw [Approximates, if_neg hx]
    exact ⟨_, hround, Or.inl ⟨hfits, rfl, hlog.symm⟩⟩
  · -- the nines carried: one digit more is dropped, and it is a zero
    have hsci := toScientific_of_lead power hc (digitCount_roundAt_of_eq hcarry) (by omega)
    have hdiv : (a.roundAt c).value / 10 ^ (precision + c + 1 + 1 - precision) =
        10 ^ (precision - 1) := by
      rw [show precision + c + 1 + 1 - precision = c + 1 + 1 by omega, pow_succ,
        ← Nat.div_div_eq_div_mul, hcarry]
      obtain ⟨q, rfl⟩ : ∃ q, precision = q + 1 := ⟨precision - 1, by omega⟩
      rw [pow_succ, Nat.mul_div_cancel _ (by decide), Nat.add_sub_cancel]
    rw [hdiv] at hsci
    refine ⟨_, _, Nat.pow_lt_pow_right (by decide) (by omega), hsci, ?_⟩
    rw [Approximates, if_neg hx]
    refine ⟨_, hround, Or.inr ⟨hcarry, rfl, ?_⟩⟩
    rw [hlog]
    push_cast
    ring

end Long

/-- **Scientific notation is the correctly rounded form**, for zero too. -/
theorem exists_toScientific (a : Decimal) (power : ℤ) {precision : ℕ} (hp : 1 ≤ precision) :
    ∃ N E, N < 10 ^ precision ∧ a.toScientific power precision = ofSignificand precision N E ∧
      Approximates (a.value * 10 ^ power) precision N E := by
  by_cases h : a.value = 0
  · have hcount := (a.digitCount_eq_zero_iff).2 h
    refine ⟨0, 0, Nat.pow_pos (by decide), ?_, ?_⟩
    · unfold toScientific ofSignificand
      dsimp only
      rw [if_neg (by omega), if_pos hcount, max_self, hcount]
      refine congrArg (Scientific.mk · 0) (List.map_congr_left fun i _ => ?_)
      rw [digit_of_neg a (by omega), Nat.zero_div, Nat.zero_mod]
    · rw [Approximates, h, Nat.cast_zero, zero_mul, if_pos rfl]
      exact ⟨rfl, rfl⟩
  · rcases le_or_gt a.digitCount precision with hshort | hlong
    · exact toScientific_of_short h power hshort
    · exact toScientific_of_long (c := a.digitCount - precision - 1) h power hp (by omega)

end Decimal

/-! ### Writing -/

namespace Scientific

open Numeral

/-- **A text shows a number in scientific notation**: one digit, a point, the other
digits, the letter, a sign, and two digits of the exponent or more. Read as numerals, the
digits before the letter are the significand and those after it the size of the exponent,
which starts with a zero only where it would otherwise have a single digit. -/
def Shows (text : String) (precision significand : ℕ) (exponent : ℤ) : Prop :=
  ∃ (lead : Char) (fraction places : List Char),
    text = String.ofList (lead :: '.' :: fraction ++
      'e' :: (if exponent < 0 then '-' else '+') :: places) ∧
    fraction.length + 1 = precision ∧ (∀ c ∈ lead :: fraction, isDigitIn 10 c = true) ∧
    valueOf 10 (lead :: fraction) = significand ∧
    2 ≤ places.length ∧ (∀ c ∈ places, isDigitIn 10 c = true) ∧
    (2 < places.length → places.head? ≠ some '0') ∧ valueOf 10 places = exponent.natAbs

/-- Reading the digits of a significand, the most significant one first. -/
theorem valueIn_digits_ofSignificand (precision significand : ℕ) (exponent : ℤ) :
    valueIn 10 (ofSignificand precision significand exponent).digits =
      significand % 10 ^ precision := by
  induction precision generalizing significand with
  | zero => rw [pow_zero, Nat.mod_one]; rfl
  | succ p ih =>
    -- the last digit is the remainder by ten, and the others are those of the quotient
    have hinit : (ofSignificand (p + 1) significand exponent).digits =
        (ofSignificand p (significand / 10) exponent).digits ++ [significand % 10] := by
      unfold ofSignificand
      dsimp only
      rw [List.range_succ, List.map_append, List.map_singleton]
      congr 1
      · refine List.map_congr_left fun i hi => ?_
        have hi' : i < p := List.mem_range.1 hi
        rw [show p + 1 - 1 - i = p - 1 - i + 1 by omega, pow_succ', ← Nat.div_div_eq_div_mul]
      · rw [Nat.add_sub_cancel, Nat.sub_self, pow_zero, Nat.div_one]
    rw [hinit, valueIn_append_singleton, ih, pow_succ', Nat.mod_mul]
    omega

/-- The digits of the exponent. -/
theorem exponentText_eq (E : ℤ) : ∃ places : List Char,
    exponentText E = String.ofList ((if E < 0 then '-' else '+') :: places) ∧
      2 ≤ places.length ∧ (∀ c ∈ places, isDigitIn 10 c = true) ∧
      (2 < places.length → places.head? ≠ some '0') ∧ valueOf 10 places = E.natAbs := by
  refine ⟨List.replicate (2 - (Nat.toDigits 10 E.natAbs).length) '0' ++ Nat.toDigits 10 E.natAbs,
    ?_, ?_, ?_, ?_, ?_⟩
  · rw [← String.toList_inj]
    unfold exponentText
    split <;> simp
  · rw [List.length_append, List.length_replicate]
    omega
  · intro c hc
    rcases List.mem_append.1 hc with hc | hc
    · rw [List.eq_of_mem_replicate hc]
      rfl
    · exact isDigitIn_of_mem_toDigits (by decide) (by decide) hc
  · intro hlong
    rw [List.length_append, List.length_replicate] at hlong
    have hzero : E.natAbs ≠ 0 := by
      intro h0
      rw [h0, Nat.toDigits_zero] at hlong
      exact absurd hlong (by decide)
    -- nothing is filled up, and numerals do not start with a zero
    rw [show 2 - (Nat.toDigits 10 E.natAbs).length = 0 by omega]
    exact head?_toDigits_ne (by decide) (by decide) hzero
  · rw [valueOf_zeros_append 10 _ _ (by decide), valueOf_toDigits (by decide) (by decide)]

/-- **The text shows significand and exponent.** -/
theorem shows_text {precision significand : ℕ} (hp : 1 ≤ precision)
    (hlt : significand < 10 ^ precision) (E : ℤ) :
    Shows (ofSignificand precision significand E).text precision significand E := by
  have hval := valueIn_digits_ofSignificand precision significand E
  rw [Nat.mod_eq_of_lt hlt] at hval
  have hdig : ∀ d ∈ (ofSignificand precision significand E).digits, d < 10 := by
    intro d hd
    obtain ⟨i, -, rfl⟩ := List.mem_map.1 hd
    exact Nat.mod_lt _ (by decide)
  have hlen : (ofSignificand precision significand E).digits.length = precision := by
    rw [ofSignificand, List.length_map, List.length_range]
  obtain ⟨places, hplaces, hrest⟩ := exponentText_eq E
  unfold text
  rw [show (ofSignificand precision significand E).exponent = E from rfl, hplaces]
  generalize (ofSignificand precision significand E).digits = ds at hval hdig hlen ⊢
  obtain ⟨d, ds, rfl⟩ : ∃ d ds', ds = d :: ds' :=
    List.exists_cons_of_ne_nil (List.ne_nil_of_length_pos (by omega))
  refine ⟨Nat.digitChar d, ds.map Nat.digitChar, places, ?_, ?_, ?_, ?_, hrest⟩
  · rw [← String.toList_inj]
    simp
  · rw [List.length_map]
    exact hlen
  · intro c hc
    rw [← List.map_cons] at hc
    obtain ⟨e, he, rfl⟩ := List.mem_map.1 hc
    exact isDigitIn_digitChar (hdig e he) (by decide)
  · rw [← List.map_cons, valueOf_map_digitChar (by decide) hdig, hval]

end Scientific

/-! ### The whole way from a number to its text -/

open PowerTable Scientific

/-- **What is written for a number**, with the help of a sound table: its correctly
rounded form. -/
theorem exists_render {t : PowerTable} (ht : t.Sound) {mantissa : ℕ}
    (hm : mantissa < 10 ^ Numeral.maxDecimalDigits) (exponent : ℤ) {precision : ℕ}
    (hp : 1 ≤ precision) :
    ∃ N E, N < 10 ^ precision ∧
      renderFrom (.table t) mantissa exponent precision =
        .ok ((ofSignificand precision N E).text, (t.scale exponent).2.2) ∧
      Approximates ((mantissa : ℚ) * 2 ^ exponent) precision N E := by
  have htable : (PowerSource.table t).tableFor mantissa precision = .ok t :=
    tableFor_table_eq_ok_iff.2
      ⟨by omega, by omega, (Numeral.isWritable_natCast_iff mantissa).2 hm, rfl⟩
  have hval := ht.value_scaled (Decimal.ofNat mantissa) exponent
  obtain ⟨N, E, hlt, hsci, happrox⟩ :=
    (t.scaled (Decimal.ofNat mantissa) exponent).exists_toScientific (t.scale exponent).2.1 hp
  refine ⟨N, E, hlt, ?_, ?_⟩
  · rw [renderFrom_of_tableFor htable, Int.toNat_natCast, Int.toNat_natCast, hsci]
  · rwa [hval, Decimal.value_ofNat] at happrox

/-- **Numbers are written correctly rounded.** Whatever the power table has been used for,
the text of `m · 2 ^ e` shows a significand of as many digits as asked for and an exponent,
and these are the number rounded to the nearest, ties going to the even significand. So
the text depends on the number alone: however it is given, and with whatever table, the
same number has the same text. -/
theorem render_correctlyRounded {t : PowerTable} (ht : t.Reachable) {mantissa : ℕ}
    (hm : mantissa < 10 ^ Numeral.maxDecimalDigits) (exponent : ℤ) {precision : ℕ}
    (hp : 1 ≤ precision) :
    ∃ text significand E,
      (render t mantissa exponent precision).1 = .ok text ∧
      Shows text precision significand E ∧
      Approximates ((mantissa : ℚ) * 2 ^ exponent) precision significand E ∧
      (isWithinReach exponent = true →
        (boundedRender t mantissa exponent precision).1 = .ok text) ∧
      ∀ (t' : PowerTable) (mantissa' : ℕ) (exponent' : ℤ), t'.Reachable →
        mantissa' < 10 ^ Numeral.maxDecimalDigits →
        (mantissa' : ℚ) * 2 ^ exponent' = mantissa * 2 ^ exponent →
        (render t' mantissa' exponent' precision).1 = .ok text := by
  obtain ⟨N, E, hlt, hrender, happrox⟩ := exists_render ht.sound hm exponent hp
  refine ⟨(ofSignificand precision N E).text, N, E, ?_, shows_text hp hlt E, happrox, ?_, ?_⟩
  · rw [render, hrender]
  · intro hreach
    rw [boundedRender, boundedRenderFrom_eq_renderFrom hreach, hrender]
  · -- another way to give the number has the same form
    intro t' mantissa' exponent' ht' hm' hsame
    obtain ⟨N', E', -, hrender', happrox'⟩ := exists_render ht'.sound hm' exponent' hp
    rw [hsame] at happrox'
    obtain ⟨rfl, rfl⟩ := happrox'.unique happrox
    rw [render, hrender']

/-- Five halves with one digit, by a table that has kept a power of five and other things
before: a tie, which goes to the even digit. -/
theorem render_five_halves :
    ((empty.step (.power 5 3)).2.step (.render 1 (-2) 4)).2.Reachable ∧
      5 < 10 ^ Numeral.maxDecimalDigits ∧ 1 ≤ 1 ∧
      ∃ significand E, Shows "2.e+00" 1 significand E ∧
        Approximates (((5 : ℕ) : ℚ) * 2 ^ (-1 : ℤ)) 1 significand E := by
  have hreach : ((empty.step (.power 5 3)).2.step (.render 1 (-2) 4)).2.Reachable :=
    (Reachable.empty.step _).step _
  have hm : 5 < 10 ^ Numeral.maxDecimalDigits :=
    lt_of_lt_of_le (by norm_num : 5 < 10 ^ 1) (Nat.pow_le_pow_right (by decide) (by decide))
  obtain ⟨text, N, E, hrender, hshows, happrox, -⟩ :=
    render_correctlyRounded hreach hm (-1) (le_refl 1)
  have htext : (render ((empty.step (.power 5 3)).2.step (.render 1 (-2) 4)).2 (5 : ℕ) (-1)
      (1 : ℕ)).1.toOption = some "2.e+00" := by decide +kernel
  rw [hrender, Except.toOption, Option.some.injEq] at htext
  exact ⟨hreach, hm, le_refl 1, N, E, htext ▸ hshows, happrox⟩

end Readout
