import Mathlib.Data.Rat.Floor
import Mathlib.Tactic.Ring
import Readout.Binary.Format

/-!
# The numbers of a format

A finite pattern stands for a rational number. It can be read off the fields of the pattern
(`Readout.FloatFormat.number?`), and it is what decoding makes of the pattern
(`Readout.FloatFormat.number?_decode`). This file says how far apart the numbers of one format
lie. Measured against the number itself the gap is
never small: a number is at most `2 ^ (mbits + 1)` times its distance from any other one
(`Readout.FloatValue.abs_le_mul_abs_sub`). That holds on both sides of a power of two,
where the gap below is half the gap above, and for subnormal numbers, whose gaps do not
shrink any more.

All of it follows from the form of the finite numbers (`Readout.InForm`): the mantissa has one
bit more than is stored, the exponent is at least that of the format, and only a number with
the least exponent can lack the leading bit. So numbers are given in one way only
(`Readout.InForm.eq_of_eq`), and patterns of the same sign stand for different things
(`Readout.FloatValue.eq_of_ofBits`).
-/

namespace Readout

/-! ### What patterns stand for -/

/-- The number of a magnitude, if it is finite. -/
def Magnitude.number? : Magnitude → Option ℚ
  | finite mantissa exponent => some (mantissa * 2 ^ exponent)
  | infinite => none
  | nan => none

/-- **The number that a value stands for**, if it is finite. -/
def FloatValue.number? (x : FloatValue) : Option ℚ :=
  x.magnitude.number?.map fun q => if x.negative then -q else q

/-- A value is its sign and its magnitude. -/
theorem FloatValue.eq_of_parts {x y : FloatValue} (hsign : x.negative = y.negative)
    (hmag : x.magnitude = y.magnitude) : x = y := by
  obtain ⟨negative, magnitude⟩ := x
  obtain ⟨negative', magnitude'⟩ := y
  cases hsign
  cases hmag
  rfl

/-- The number of a value is that of its magnitude with its sign. -/
theorem FloatValue.number?_eq_some_iff {x : FloatValue} {q : ℚ} :
    x.number? = some q ↔ ∃ m e, x.magnitude = .finite m e ∧
      q = (if x.negative then -1 else 1) * (m * 2 ^ e) := by
  obtain ⟨negative, magnitude⟩ := x
  unfold number?
  cases magnitude with
  | finite m e =>
    cases negative <;> simp [Magnitude.number?, eq_comm]
  | infinite => simp [Magnitude.number?]
  | nan => simp [Magnitude.number?]

/-! ### The form of finite numbers -/

/-- **The form of the finite numbers of a format**, by the number of stored bits of the
mantissa and the least exponent. -/
structure InForm (mbits : ℕ) (least : ℤ) (mantissa : ℕ) (exponent : ℤ) : Prop where
  /-- The mantissa has one bit more than is stored. -/
  mantissa_lt : mantissa < 2 ^ (mbits + 1)
  /-- The exponent is not below the least one. -/
  least_le : least ≤ exponent
  /-- Above the least exponent there is a leading bit. -/
  leading : least < exponent → 2 ^ mbits ≤ mantissa

/-- Of two natural numbers the one is at most a bound times their distance, if it lies below
the bound, or if the bound separates them. -/
theorem le_mul_abs_sub {bound m n : ℕ} (hne : m ≠ n) (h : m < bound ∨ n < bound ∧ bound ≤ m) :
    (m : ℚ) ≤ bound * |(m : ℚ) - n| := by
  rcases h with hlt | ⟨hn, hm⟩
  · have hone : (1 : ℚ) ≤ |(m : ℚ) - n| := by
      exact_mod_cast Int.one_le_abs (show (m : ℤ) - n ≠ 0 by omega)
    have hle : (m : ℚ) ≤ bound := by exact_mod_cast hlt.le
    calc (m : ℚ) ≤ bound * 1 := by rwa [mul_one]
      _ ≤ bound * |(m : ℚ) - n| := mul_le_mul_of_nonneg_left hone (Nat.cast_nonneg bound)
  · -- the distance is at least one more than what lies above the bound
    have hn' : (n : ℚ) + 1 ≤ bound := by exact_mod_cast hn
    have hm' : (bound : ℚ) ≤ m := by exact_mod_cast hm
    have hbound : (1 : ℚ) ≤ bound := le_trans (by linarith [(Nat.cast_nonneg n : (0 : ℚ) ≤ n)]) hn'
    rw [abs_of_nonneg (by linarith)]
    calc (m : ℚ) ≤ m + (bound - 1) * (m - bound) :=
          le_add_of_nonneg_right (mul_nonneg (by linarith) (by linarith))
      _ = bound * (m - (bound - 1)) := by ring
      _ ≤ bound * (m - n) := mul_le_mul_of_nonneg_left (by linarith) (by linarith)

namespace InForm

variable {mbits m m' : ℕ} {least e e' : ℤ}

/-- A mantissa with a leading bit outgrows all others when it is moved up. -/
theorem pow_le_mul (h : InForm mbits least m e) (hlt : least < e) {k : ℕ} (hk : 0 < k) :
    2 ^ (mbits + 1) ≤ m * 2 ^ k := by
  obtain ⟨k, rfl⟩ : ∃ j, k = j + 1 := ⟨k - 1, by omega⟩
  calc 2 ^ (mbits + 1) = 2 ^ mbits * 2 := pow_succ 2 mbits
    _ ≤ m * 2 ^ (k + 1) := Nat.mul_le_mul (h.leading hlt) (Nat.le_self_pow (Nat.succ_ne_zero k) 2)

/-- **The gap around a number**: it is at most `2 ^ (mbits + 1)` times its distance from any
other number of the form. -/
theorem le_mul_abs_sub (h : InForm mbits least m e) (h' : InForm mbits least m' e')
    (hne : (m : ℚ) * 2 ^ e ≠ m' * 2 ^ e') :
    (m : ℚ) * 2 ^ e ≤ 2 ^ (mbits + 1) * |(m : ℚ) * 2 ^ e - m' * 2 ^ e'| := by
  -- both numbers are multiples of the smaller power of two
  have hscaled : ∀ (low : ℤ) (M M' : ℕ), (m : ℚ) * 2 ^ e = M * 2 ^ low →
      (m' : ℚ) * 2 ^ e' = M' * 2 ^ low →
      (M < 2 ^ (mbits + 1) ∨ M' < 2 ^ (mbits + 1) ∧ 2 ^ (mbits + 1) ≤ M) →
      (m : ℚ) * 2 ^ e ≤ 2 ^ (mbits + 1) * |(m : ℚ) * 2 ^ e - m' * 2 ^ e'| := by
    intro low M M' hM hM' hbound
    have hpos : (0 : ℚ) < 2 ^ low := zpow_pos (by norm_num) low
    rw [hM, hM'] at hne ⊢
    have hgap := Readout.le_mul_abs_sub (fun heq => hne (by rw [heq])) hbound
    push_cast at hgap
    rw [← sub_mul, abs_mul, abs_of_pos hpos, ← mul_assoc]
    exact mul_le_mul_of_nonneg_right hgap hpos.le
  rcases le_or_gt e e' with hle | hlt
  · obtain ⟨k, rfl⟩ : ∃ k : ℕ, e' = e + k := ⟨(e' - e).toNat, by omega⟩
    refine hscaled e m (m' * 2 ^ k) rfl ?_ (Or.inl h.mantissa_lt)
    rw [zpow_add₀ (by norm_num), zpow_natCast]
    push_cast
    ring
  · -- the number itself has the greater exponent, so it has a leading bit
    obtain ⟨k, rfl⟩ : ∃ k : ℕ, e = e' + k := ⟨(e - e').toNat, by omega⟩
    have hk : 0 < k := by omega
    have hleading := h.pow_le_mul (lt_of_le_of_lt h'.least_le hlt) hk
    refine hscaled e' (m * 2 ^ k) m' ?_ rfl (Or.inr ⟨h'.mantissa_lt, hleading⟩)
    rw [zpow_add₀ (by norm_num), zpow_natCast]
    push_cast
    ring

/-- **Numbers are ordered by their exponents**, and those with the same exponent by their
mantissas. -/
theorem lt_of_lt (h : InForm mbits least m e) (h' : InForm mbits least m' e')
    (hlt : e < e' ∨ e = e' ∧ m < m') : (m : ℚ) * 2 ^ e < m' * 2 ^ e' := by
  have hpos : (0 : ℚ) < 2 ^ e := zpow_pos (by norm_num) e
  rcases hlt with hlt | ⟨rfl, hlt⟩
  · -- the greater exponent comes with a leading bit
    obtain ⟨k, rfl⟩ : ∃ k : ℕ, e' = e + k := ⟨(e' - e).toNat, by omega⟩
    have hk : 0 < k := by omega
    have hleading := h'.pow_le_mul (lt_of_le_of_lt h.least_le hlt) hk
    have hm : (m : ℚ) < (m' * 2 ^ k : ℕ) := by
      exact_mod_cast lt_of_lt_of_le h.mantissa_lt hleading
    calc (m : ℚ) * 2 ^ e < (m' * 2 ^ k : ℕ) * 2 ^ e := mul_lt_mul_of_pos_right hm hpos
      _ = m' * 2 ^ (e + k) := by
        rw [zpow_add₀ (by norm_num), zpow_natCast]
        push_cast
        ring
  · exact mul_lt_mul_of_pos_right (by exact_mod_cast hlt) hpos

/-- **A number is given in one way only.** -/
theorem eq_of_eq (h : InForm mbits least m e) (h' : InForm mbits least m' e')
    (heq : (m : ℚ) * 2 ^ e = m' * 2 ^ e') : m = m' ∧ e = e' := by
  have hbelow : ¬(e < e' ∨ e = e' ∧ m < m') := fun hlt => (h.lt_of_lt h' hlt).ne heq
  have habove : ¬(e' < e ∨ e' = e ∧ m' < m) := fun hlt => (h'.lt_of_lt h hlt).ne heq.symm
  omega

end InForm

/-! ### The fields of a pattern -/

/-- The least exponent of a format. -/
def leastExponent (ebits mbits : ℕ) : ℤ :=
  1 - ((1 <<< (ebits - 1) - 1 : ℕ) : ℤ) - mbits

namespace Magnitude

variable {ebits mbits field mantissa m : ℕ} {e : ℤ}

/-- What the fields of a finite number say. -/
theorem ofFields_eq_finite_iff : ofFields ebits mbits field mantissa = .finite m e ↔
    field ≠ 2 ^ ebits - 1 ∧
      (field = 0 ∧ m = mantissa ∧ e = leastExponent ebits mbits ∨
        field ≠ 0 ∧ m = 2 ^ mbits + mantissa ∧ e = leastExponent ebits mbits + (field - 1)) := by
  unfold ofFields leastExponent
  dsimp only
  rw [Nat.one_shiftLeft, Nat.one_shiftLeft, Nat.one_shiftLeft]
  by_cases hones : field = 2 ^ ebits - 1
  · rw [if_pos hones]
    split <;> simp [hones]
  · rw [if_neg hones]
    by_cases hzero : field = 0
    · rw [if_pos hzero, finite.injEq]
      constructor
      · rintro ⟨rfl, rfl⟩
        exact ⟨hones, Or.inl ⟨hzero, rfl, rfl⟩⟩
      · rintro ⟨-, ⟨-, rfl, rfl⟩ | ⟨hne, -⟩⟩
        · exact ⟨rfl, rfl⟩
        · exact absurd hzero hne
    · rw [if_neg hzero, finite.injEq]
      constructor
      · rintro ⟨rfl, rfl⟩
        exact ⟨hones, Or.inr ⟨hzero, rfl, by omega⟩⟩
      · rintro ⟨-, ⟨heq, -⟩ | ⟨-, rfl, rfl⟩⟩
        · exact absurd heq hzero
        · exact ⟨rfl, by omega⟩

/-- **Finite magnitudes are in form.** -/
theorem inForm_of_ofFields (hmantissa : mantissa < 2 ^ mbits)
    (h : ofFields ebits mbits field mantissa = .finite m e) :
    InForm mbits (leastExponent ebits mbits) m e := by
  have hpow : 2 ^ (mbits + 1) = 2 * 2 ^ mbits := pow_succ' 2 mbits
  obtain ⟨-, ⟨-, rfl, rfl⟩ | ⟨hfield, rfl, rfl⟩⟩ := ofFields_eq_finite_iff.1 h
  · exact ⟨by omega, le_refl _, fun hlt => absurd hlt (lt_irrefl _)⟩
  · exact ⟨by omega, by omega, fun _ => Nat.le_add_right _ _⟩

/-- Fields of what is no finite number: the exponent field has ones only, and infinity has no
mantissa. -/
theorem ofFields_eq_infinite_iff :
    ofFields ebits mbits field mantissa = .infinite ↔ field = 2 ^ ebits - 1 ∧ mantissa = 0 := by
  unfold ofFields
  dsimp only
  rw [Nat.one_shiftLeft, Nat.one_shiftLeft, Nat.one_shiftLeft]
  split
  · split <;> simp_all
  · split <;> simp_all

/-- Fields of what is no number. -/
theorem ofFields_eq_nan_iff :
    ofFields ebits mbits field mantissa = .nan ↔ field = 2 ^ ebits - 1 ∧ mantissa ≠ 0 := by
  unfold ofFields
  dsimp only
  rw [Nat.one_shiftLeft, Nat.one_shiftLeft, Nat.one_shiftLeft]
  split
  · split <;> simp_all
  · split <;> simp_all

/-- **The fields can be read off a magnitude** that is a number or infinity. -/
theorem ofFields_inj {field' mantissa' : ℕ} (hm : mantissa < 2 ^ mbits)
    (hm' : mantissa' < 2 ^ mbits)
    (h : ofFields ebits mbits field mantissa = ofFields ebits mbits field' mantissa')
    (hnan : ofFields ebits mbits field mantissa ≠ .nan) :
    field = field' ∧ mantissa = mantissa' := by
  cases hmag : ofFields ebits mbits field mantissa with
  | nan => exact absurd hmag hnan
  | infinite =>
    rw [hmag] at h
    obtain ⟨hf, h0⟩ := ofFields_eq_infinite_iff.1 hmag
    obtain ⟨hf', h0'⟩ := ofFields_eq_infinite_iff.1 h.symm
    omega
  | finite m e =>
    rw [hmag] at h
    -- the leading bit tells the least numbers with one from those without
    obtain ⟨-, hcase⟩ := ofFields_eq_finite_iff.1 hmag
    obtain ⟨-, hcase'⟩ := ofFields_eq_finite_iff.1 h.symm
    omega

end Magnitude

namespace FloatValue

variable {ebits mbits bits : ℕ}

/-- Finite patterns are in form. -/
theorem inForm_of_ofBits {m : ℕ} {e : ℤ} (h : (ofBits ebits mbits bits).magnitude = .finite m e) :
    InForm mbits (leastExponent ebits mbits) m e := by
  refine Magnitude.inForm_of_ofFields ?_ h
  rw [Nat.one_shiftLeft]
  exact Nat.mod_lt _ (Nat.two_pow_pos mbits)

/-- A pattern is put together from its sign and its fields. -/
theorem bits_eq (ebits mbits bits : ℕ) : bits =
    bits >>> (ebits + mbits) * 2 ^ (ebits + mbits) +
      ((bits >>> mbits) % (1 <<< ebits) * 2 ^ mbits + bits % (1 <<< mbits)) := by
  rw [Nat.one_shiftLeft, Nat.one_shiftLeft, Nat.shiftRight_eq_div_pow, Nat.shiftRight_eq_div_pow,
    add_comm ebits, pow_add, ← Nat.div_div_eq_div_mul]
  have hlow := Nat.div_add_mod bits (2 ^ mbits)
  have hhigh := Nat.div_add_mod (bits / 2 ^ mbits) (2 ^ ebits)
  calc bits = 2 ^ mbits * (2 ^ ebits * (bits / 2 ^ mbits / 2 ^ ebits) +
        bits / 2 ^ mbits % 2 ^ ebits) + bits % 2 ^ mbits := by rw [hhigh, hlow]
    _ = _ := by ring

/-- Above the fields there is a single bit. -/
theorem shiftRight_lt_two (hbits : bits < 2 ^ (1 + ebits + mbits)) :
    bits >>> (ebits + mbits) < 2 := by
  rw [Nat.shiftRight_eq_div_pow, Nat.div_lt_iff_lt_mul (Nat.two_pow_pos _), ← pow_succ']
  rwa [add_assoc, add_comm 1] at hbits

/-- **A pattern is known by what it stands for**, unless that is no number. -/
theorem eq_of_ofBits {bits' : ℕ} (hbits : bits < 2 ^ (1 + ebits + mbits))
    (hbits' : bits' < 2 ^ (1 + ebits + mbits))
    (h : ofBits ebits mbits bits = ofBits ebits mbits bits')
    (hnan : (ofBits ebits mbits bits).magnitude ≠ .nan) : bits = bits' := by
  obtain ⟨hsign, hmag⟩ := FloatValue.mk.inj h
  have hfield : ∀ b, b % (1 <<< mbits) < 2 ^ mbits := fun b => by
    rw [Nat.one_shiftLeft]
    exact Nat.mod_lt _ (Nat.two_pow_pos mbits)
  obtain ⟨hf, hm⟩ := Magnitude.ofFields_inj (hfield bits) (hfield bits') hmag hnan
  have hsame : bits >>> (ebits + mbits) = bits' >>> (ebits + mbits) := by
    have h₁ := shiftRight_lt_two hbits
    have h₂ := shiftRight_lt_two hbits'
    have h₃ := decide_eq_decide.1 hsign
    generalize bits >>> (ebits + mbits) = s at *
    generalize bits' >>> (ebits + mbits) = s' at *
    omega
  rw [bits_eq ebits mbits bits, bits_eq ebits mbits bits', hsame, hf, hm]

/-- **The gap around a number of a format**: in size it is at most `2 ^ (mbits + 1)` times its
distance from any other number of the format. -/
theorem abs_le_mul_abs_sub {bits' : ℕ} {x y : ℚ} (hx : (ofBits ebits mbits bits).number? = some x)
    (hy : (ofBits ebits mbits bits').number? = some y) (hne : y ≠ x) :
    |x| ≤ 2 ^ (mbits + 1) * |x - y| := by
  obtain ⟨m, e, hmag, rfl⟩ := number?_eq_some_iff.1 hx
  obtain ⟨m', e', hmag', rfl⟩ := number?_eq_some_iff.1 hy
  have hform := inForm_of_ofBits hmag
  have hform' := inForm_of_ofBits hmag'
  have hpos : (0 : ℚ) ≤ m * 2 ^ e := mul_nonneg m.cast_nonneg (zpow_nonneg (by norm_num) e)
  have hpos' : (0 : ℚ) ≤ m' * 2 ^ e' := mul_nonneg m'.cast_nonneg (zpow_nonneg (by norm_num) e')
  have hone : (1 : ℚ) ≤ 2 ^ (mbits + 1) := one_le_pow₀ (by norm_num)
  -- numbers of different signs are at least as far apart as zero is
  have hopposite : (m : ℚ) * 2 ^ e ≤ 2 ^ (mbits + 1) * (m * 2 ^ e + m' * 2 ^ e') := by
    calc (m : ℚ) * 2 ^ e ≤ 1 * (m * 2 ^ e + m' * 2 ^ e') := by linarith
      _ ≤ 2 ^ (mbits + 1) * (m * 2 ^ e + m' * 2 ^ e') :=
        mul_le_mul_of_nonneg_right hone (by linarith)
  clear hx hy
  generalize (ofBits ebits mbits bits).negative = s at *
  generalize (ofBits ebits mbits bits').negative = s' at *
  cases s <;> cases s'
  · simp only [Bool.false_eq_true, if_false, one_mul] at hne ⊢
    rw [abs_of_nonneg hpos]
    exact hform.le_mul_abs_sub hform' hne.symm
  · simp only [Bool.false_eq_true, if_false, if_true, one_mul, neg_one_mul, sub_neg_eq_add] at hne ⊢
    rwa [abs_of_nonneg hpos, abs_of_nonneg (by linarith)]
  · simp only [Bool.false_eq_true, if_false, if_true, one_mul, neg_one_mul] at hne ⊢
    rwa [abs_neg, abs_of_nonneg hpos, ← neg_add', abs_neg, abs_of_nonneg (by linarith)]
  · simp only [if_true, neg_one_mul] at hne ⊢
    rw [abs_neg, abs_of_nonneg hpos, neg_sub_neg, abs_sub_comm]
    exact hform.le_mul_abs_sub hform' fun heq => hne (by rw [heq])

end FloatValue

/-! ### The fields say the number -/

namespace FloatFormat

/-- What a pattern of a format stands for. -/
def decode (f : FloatFormat) (bits : ℕ) : FloatValue :=
  .ofBits f.ebits f.mbits bits

/-- **The number of a pattern**, read off its three fields: the sign, the biased exponent and
the fraction, which has a leading one unless the exponent field is zero. An exponent field of
ones only does not belong to a number. -/
def number? (f : FloatFormat) (bits : ℕ) : Option ℚ :=
  let sign : ℚ := (-1) ^ (bits / 2 ^ (f.ebits + f.mbits))
  let field : ℕ := bits / 2 ^ f.mbits % 2 ^ f.ebits
  let fraction : ℚ := (bits % 2 ^ f.mbits : ℕ) / 2 ^ f.mbits
  let bias : ℤ := 2 ^ (f.ebits - 1) - 1
  if field = 2 ^ f.ebits - 1 then none
  else if field = 0 then some (sign * (fraction * 2 ^ (1 - bias)))
  else some (sign * ((1 + fraction) * 2 ^ (field - bias)))

/-- A pattern is no number and no infinity: after an exponent field of ones, the fraction is
not zero. -/
def IsNaN (f : FloatFormat) (bits : ℕ) : Prop :=
  bits / 2 ^ f.mbits % 2 ^ f.ebits = 2 ^ f.ebits - 1 ∧ bits % 2 ^ f.mbits ≠ 0

variable {f : FloatFormat} {bits : ℕ}

/-- The sign of a pattern. -/
theorem sign_decode (hbits : bits < 2 ^ f.width) :
    (if (f.decode bits).negative then (-1 : ℚ) else 1) =
      (-1) ^ (bits / 2 ^ (f.ebits + f.mbits)) := by
  have htop := FloatValue.shiftRight_lt_two hbits
  unfold decode FloatValue.ofBits
  dsimp only
  rw [← Nat.shiftRight_eq_div_pow]
  rcases Nat.le_one_iff_eq_zero_or_eq_one.1 (Nat.lt_succ_iff.1 htop) with hs | hs <;>
    simp [hs]

/-- The magnitude of a pattern, by its fields. -/
theorem magnitude_decode (f : FloatFormat) (bits : ℕ) :
    (f.decode bits).magnitude = Magnitude.ofFields f.ebits f.mbits
      (bits / 2 ^ f.mbits % 2 ^ f.ebits) (bits % 2 ^ f.mbits) := by
  unfold decode FloatValue.ofBits
  dsimp only
  rw [Nat.one_shiftLeft, Nat.one_shiftLeft, Nat.shiftRight_eq_div_pow]

/-- The least exponent and the bias. -/
theorem leastExponent_eq :
    leastExponent f.ebits f.mbits = 1 - (2 ^ (f.ebits - 1) - 1) - f.mbits := by
  unfold leastExponent
  rw [Nat.one_shiftLeft, Nat.cast_sub Nat.one_le_two_pow]
  push_cast
  rfl

/-- **Patterns are decoded to their numbers.** -/
theorem number?_decode (hbits : bits < 2 ^ f.width) :
    (f.decode bits).number? = f.number? bits := by
  have hsign := sign_decode hbits
  have hmag := magnitude_decode f bits
  have hpow : (2 : ℚ) ^ f.mbits ≠ 0 := pow_ne_zero _ two_ne_zero
  unfold number?
  dsimp only
  rw [← hsign]
  generalize bits / 2 ^ f.mbits % 2 ^ f.ebits = field at hmag ⊢
  generalize bits % 2 ^ f.mbits = mantissa at hmag ⊢
  split
  · rename_i hones
    rw [Option.eq_none_iff_forall_ne_some]
    intro q hq
    obtain ⟨m, e, hfinite, -⟩ := FloatValue.number?_eq_some_iff.1 hq
    exact (Magnitude.ofFields_eq_finite_iff.1 (hmag.symm.trans hfinite)).1 hones
  · rename_i hones
    split
    · rename_i hzero
      refine FloatValue.number?_eq_some_iff.2 ⟨mantissa, leastExponent f.ebits f.mbits,
        hmag.trans (Magnitude.ofFields_eq_finite_iff.2 ⟨hones, Or.inl ⟨hzero, rfl, rfl⟩⟩), ?_⟩
      rw [leastExponent_eq, zpow_sub₀ two_ne_zero _ (f.mbits : ℤ), zpow_natCast]
      ring
    · rename_i hzero
      refine FloatValue.number?_eq_some_iff.2 ⟨2 ^ f.mbits + mantissa,
        leastExponent f.ebits f.mbits + (field - 1),
        hmag.trans (Magnitude.ofFields_eq_finite_iff.2 ⟨hones, Or.inr ⟨hzero, rfl, rfl⟩⟩), ?_⟩
      rw [leastExponent_eq, show (1 : ℤ) - (2 ^ (f.ebits - 1) - 1) - f.mbits + (field - 1) =
        field - (2 ^ (f.ebits - 1) - 1) - f.mbits by ring, zpow_sub₀ two_ne_zero _ (f.mbits : ℤ),
        zpow_natCast]
      push_cast
      field_simp

/-- Patterns are decoded to no number just when they are none. -/
theorem magnitude_decode_eq_nan_iff : (f.decode bits).magnitude = .nan ↔ f.IsNaN bits := by
  rw [magnitude_decode, Magnitude.ofFields_eq_nan_iff, IsNaN]

end FloatFormat

end Readout
