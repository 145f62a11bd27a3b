import Mathlib.Data.Int.Log
import Mathlib.Data.Rat.Floor
import Mathlib.Tactic.FieldSimp
import Mathlib.Tactic.Positivity
import Readout.Decimal.Scientific
import Readout.Proofs.Decimal.Places

/-!
# Rounding on the digits is correct rounding

A decimal natural is rounded off by adding something at the first dropped position
and looking at the positions above it. This file says what comes of that in terms of
numbers: the positions above hold the **nearest integer** to the number divided by
the weight of the last kept position, and of two nearest ones the **even** one
(`Readout.RoundsToEven`, `Readout.Decimal.roundsToEven_roundAt`).

From there to scientific notation one case is left, and it is the one that digits make
easy to forget: a run of nines may carry into a new leading digit, and then all printed
digits but the first are zeros and the exponent is one more
(`Readout.Scientific.Approximates`).
-/

namespace Readout

/-! ### The nearest integer, ties going to the even one -/

/-- **The nearest integer to a number, ties going to the even one.** -/
structure RoundsToEven (x : ℚ) (n : ℤ) : Prop where
  /-- No integer is nearer. -/
  near : |x - n| ≤ 1 / 2
  /-- If another one is as near, this is the even one of the two. -/
  even_of_tie : |x - n| = 1 / 2 → Even n

/-- **A number is rounded in one way only.** -/
theorem RoundsToEven.unique {x : ℚ} {n m : ℤ} (hn : RoundsToEven x n) (hm : RoundsToEven x m) :
    n = m := by
  wlog hlt : n < m generalizing n m
  · rcases lt_trichotomy n m with h | h | h
    · exact absurd h hlt
    · exact h
    · exact (this hm hn h).symm
  -- the two are neighbours, and the number is half-way between them
  have hn₁ := (abs_le.1 hn.near).2
  have hm₁ := (abs_le.1 hm.near).1
  have hnm : (m : ℚ) ≤ n + 1 := by linarith
  have hsucc : m = n + 1 := by
    have : m ≤ n + 1 := by exact_mod_cast hnm
    omega
  have hcast : (m : ℚ) = n + 1 := by exact_mod_cast hsucc
  have htie : x - n = 1 / 2 := by linarith
  have hn₂ := hn.even_of_tie (by rw [htie]; norm_num)
  have hm₂ := hm.even_of_tie (by rw [show x - m = -(1 / 2) by linarith]; norm_num)
  rw [hsucc] at hm₂
  exact absurd hm₂ (Int.not_even_iff_odd.2 hn₂.add_one)

/-- **Rounding keeps the order.** -/
theorem RoundsToEven.mono {x y : ℚ} {n m : ℤ} (hn : RoundsToEven x n) (hm : RoundsToEven y m)
    (h : x ≤ y) : n ≤ m := by
  by_contra hlt
  -- the greater number would have to be as small as the smaller one
  have hn₁ := (abs_le.1 hn.near).1
  have hm₁ := (abs_le.1 hm.near).2
  have hnm : (m : ℚ) + 1 ≤ n := by
    have : m + 1 ≤ n := by omega
    exact_mod_cast this
  obtain rfl : x = y := by linarith
  exact hlt (hn.unique hm).le

/-- An integer is rounded to itself. -/
theorem roundsToEven_intCast (n : ℤ) : RoundsToEven n n := by
  refine ⟨?_, fun htie => ?_⟩
  · rw [sub_self, abs_zero]
    norm_num
  · rw [sub_self, abs_zero] at htie
    norm_num at htie

/-- **Rounding a quotient**: the remainder decides. -/
theorem roundsToEven_div (v : ℕ) {d : ℕ} (hd : 0 < d) :
    RoundsToEven ((v : ℚ) / d)
      (if 2 * (v % d) < d ∨ 2 * (v % d) = d ∧ v / d % 2 = 0 then (v / d : ℕ) else
        (v / d + 1 : ℕ)) := by
  have hd' : (0 : ℚ) < d := by exact_mod_cast hd
  have hquot : (v : ℚ) / d = (v / d : ℕ) + ((v % d : ℕ) : ℚ) / d := by
    have hsum : (v : ℚ) = d * (v / d : ℕ) + (v % d : ℕ) := by
      exact_mod_cast (Nat.div_add_mod v d).symm
    rw [hsum, add_div, mul_div_cancel_left₀ _ hd'.ne']
  -- only the fraction `r / d` matters, and on which side of one half it lies
  rw [hquot]
  generalize hr : v % d = r
  generalize v / d = q
  have hrd : r < d := hr ▸ Nat.mod_lt v hd
  have hrd' : (r : ℚ) < d := by exact_mod_cast hrd
  have hr0 : (0 : ℚ) ≤ (r : ℚ) / d := by positivity
  split
  · -- rounded down, which leaves a distance of `r / d`
    rename_i hdown
    have hhalf : (r : ℚ) / d ≤ 1 / 2 := by
      have : (2 * r : ℚ) ≤ d := by exact_mod_cast (by omega : 2 * r ≤ d)
      rw [div_le_iff₀ hd']
      linarith
    refine ⟨?_, fun htie => ?_⟩
    · rw [Int.cast_natCast, add_sub_cancel_left, abs_of_nonneg hr0]
      exact hhalf
    · rw [Int.cast_natCast, add_sub_cancel_left, abs_of_nonneg hr0, div_eq_iff hd'.ne'] at htie
      have heq : 2 * r = d := by
        have : (2 * r : ℚ) = d := by linarith
        exact_mod_cast this
      rcases hdown with hlt | ⟨-, heven⟩
      · omega
      · exact (Int.even_coe_nat q).2 (Nat.even_iff.2 heven)
  · -- rounded up, which leaves the rest of the unit
    rename_i hup
    have hhalf : 1 / 2 ≤ (r : ℚ) / d := by
      have : (d : ℚ) ≤ 2 * r := by exact_mod_cast (by omega : d ≤ 2 * r)
      rw [le_div_iff₀ hd']
      linarith
    have hone : (r : ℚ) / d < 1 := (div_lt_one hd').2 hrd'
    have hdist : |(q : ℚ) + (r : ℚ) / d - ((q + 1 : ℕ) : ℤ)| = 1 - (r : ℚ) / d := by
      push_cast
      rw [abs_of_nonpos (by linarith)]
      ring
    refine ⟨?_, fun htie => ?_⟩
    · rw [hdist]
      linarith
    · rw [hdist] at htie
      have heq : 2 * r = d := by
        have h₁ : (r : ℚ) / d = 1 / 2 := by linarith
        rw [div_eq_iff hd'.ne'] at h₁
        have : (2 * r : ℚ) = d := by linarith
        exact_mod_cast this
      rw [Int.even_coe_nat]
      exact Nat.even_iff.2 (by omega)

/-! ### Rounding on the digits -/

namespace Decimal

/-- The first dropped digit is at least five if at least half of a unit is dropped. -/
theorem five_le_digit_iff (a : Decimal) (c : ℕ) :
    5 ≤ a.digit c ↔ 10 ^ (c + 1) ≤ 2 * (a.value % 10 ^ (c + 1)) := by
  have hpos : 0 < 10 ^ c := Nat.pow_pos (by decide)
  rw [digit_natCast, ← Nat.mod_mul_right_div_self, ← pow_succ, Nat.le_div_iff_mul_le hpos, pow_succ]
  omega

/-- The last kept digit is odd if what is kept is. -/
theorem digit_succ_mod_two (a : Decimal) (c : ℕ) :
    a.digit ((c : ℤ) + 1) % 2 = a.value / 10 ^ (c + 1) % 2 := by
  rw [show (c : ℤ) + 1 = ((c + 1 : ℕ) : ℤ) by push_cast; rfl, digit_natCast]
  omega

/-- Adding five at a position. -/
theorem value_add_five (a : Decimal) (c : ℕ) :
    2 * (a.add (shifted 5 c 0 (by decide))).value = 2 * a.value + 10 ^ (c + 1) := by
  have hshift := nine_mul_value_shifted 5 c 0 (by decide)
  rw [value_add, pow_succ]
  omega

/-- Adding one unit in the last place less than five at a position. -/
theorem value_add_almost_five (a : Decimal) (c : ℕ) :
    2 * (a.add (shifted 4 c 9 (by decide))).value + 2 = 2 * a.value + 10 ^ (c + 1) := by
  have hshift := nine_mul_value_shifted 4 c 9 (by decide)
  rw [value_add, pow_succ]
  omega

/-- What is added is not negative. -/
theorem value_le_value_roundAt (a : Decimal) (c : ℕ) : a.value ≤ (a.roundAt c).value := by
  unfold roundAt
  split
  · split
    · rw [value_add]
      omega
    · rw [value_add]
      omega
  · exact le_refl _

/-- **What rounding leaves above the dropped positions**: what was there, or one more,
as the dropped part says. -/
theorem value_roundAt_div (a : Decimal) (c : ℕ) :
    (a.roundAt c).value / 10 ^ (c + 1) =
      if 2 * (a.value % 10 ^ (c + 1)) < 10 ^ (c + 1) ∨
          2 * (a.value % 10 ^ (c + 1)) = 10 ^ (c + 1) ∧ a.value / 10 ^ (c + 1) % 2 = 0 then
        a.value / 10 ^ (c + 1)
      else a.value / 10 ^ (c + 1) + 1 := by
  have hfive := a.five_le_digit_iff c
  have hodd := a.digit_succ_mod_two c
  have hdm := Nat.div_add_mod a.value (10 ^ (c + 1))
  have hlt := Nat.mod_lt a.value (Nat.pow_pos (by decide : 0 < 10) : 0 < 10 ^ (c + 1))
  have h₁ := a.value_add_five c
  have h₂ := a.value_add_almost_five c
  -- what is left is linear in the quotient, the remainder and the unit
  unfold roundAt
  generalize a.value / 10 ^ (c + 1) = q at *
  generalize a.value % 10 ^ (c + 1) = r at *
  generalize 10 ^ (c + 1) = d at *
  have hsucc : d * (q + 1) = d * q + d := Nat.mul_succ d q
  have hquot : ∀ w k, d * k ≤ w → w < d * k + d → w / d = k := fun w k hle hw =>
    Nat.div_eq_of_lt_le (by rwa [Nat.mul_comm]) (by rwa [Nat.mul_comm, Nat.mul_succ])
  split
  · rename_i hge
    have hr := hfive.1 hge
    split
    · -- the last kept digit is odd, so a tie is rounded up as well
      rename_i hq
      rw [if_neg (by omega)]
      exact hquot _ _ (by omega) (by omega)
    · rename_i hq
      split
      · -- a tie, which what is added falls short of by one unit
        exact hquot _ _ (by omega) (by omega)
      · exact hquot _ _ (by omega) (by omega)
  · rename_i hlt5
    rw [if_pos (by omega)]
    exact hquot _ _ (by omega) (by omega)

/-- **Rounding on the digits is rounding to the nearest integer**, ties going to the
even one. -/
theorem roundsToEven_roundAt (a : Decimal) (c : ℕ) :
    RoundsToEven ((a.value : ℚ) / 10 ^ (c + 1)) ((a.roundAt c).value / 10 ^ (c + 1) : ℕ) := by
  have h := roundsToEven_div a.value (Nat.pow_pos (by decide : 0 < 10) : 0 < 10 ^ (c + 1))
  rw [value_roundAt_div]
  push_cast at h ⊢
  split <;> rename_i hc <;> simpa [hc] using h

end Decimal

end Readout
