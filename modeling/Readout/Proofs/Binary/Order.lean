import Readout.Proofs.Binary.Nearest

/-!
# Patterns and what is printed for them are in the same order

While the sign bit is clear, patterns are numbered in the order of what they stand for. First come
the finite ones, whose numbers grow with the pattern, then infinity, and then whatever is no number
(`Readout.FloatFormat.decode_cases`). The reason is that the exponent field stands above the
mantissa field, and that numbers are ordered by their exponents first
(`Readout.InForm.lt_of_lt`). The least exponent is the only one that belongs to two values of the
exponent field; there the leading bit, which only the greater of the two values brings along,
decides (`Readout.Magnitude.lt_of_fields`).

Texts have fewer digits than the numbers, and two numbers of different size are cut at different
places. The order survives all the same: a power of ten lies between the two, and no rounding leads
past it (`Readout.Scientific.Approximates.shown_le`).

`Readout.FloatFormat.KeepsOrder` collects what follows for the patterns of a format, those with the
sign bit and those that do not fit included, and `Readout.FloatFormat.keepsOrder` says that all of
it holds of every format.
-/

namespace Readout

open Scientific

/-! ### Rounding to digits keeps the order -/

namespace Scientific

/-- The number that is shown for nothing is nothing. -/
theorem Approximates.significand_eq_zero {precision N : ℕ} {E : ℤ}
    (h : Approximates 0 precision N E) : N = 0 := by
  rw [Approximates, if_pos rfl] at h
  exact h.1

/-- A number has at most `10 ^ precision` units in the last place. -/
theorem le_pow_mul_unit (x : ℚ) (precision : ℕ) :
    x ≤ (10 : ℚ) ^ precision * 10 ^ (Int.log 10 x - precision + 1) := by
  rw [pow_mul_unit (show Int.log 10 x + 1 = Int.log 10 x - precision + 1 + precision by ring)]
  exact_mod_cast (Int.lt_zpow_succ_log_self (by decide : 1 < 10) x).le

/-- **Rounding to digits keeps the order**, also if the two numbers are cut at different places. -/
theorem Approximates.shown_le {x y : ℚ} (hx : 0 ≤ x) (hxy : x ≤ y) {precision N N' : ℕ} {E E' : ℤ}
    (hp : 1 ≤ precision) (h : Approximates x precision N E) (h' : Approximates y precision N' E') :
    (N : ℚ) * 10 ^ (E - precision + 1) ≤ N' * 10 ^ (E' - precision + 1) := by
  rcases hx.eq_or_lt with rfl | hpos
  · rw [h.significand_eq_zero, Nat.cast_zero, zero_mul]
    exact mul_nonneg N'.cast_nonneg (zpow_nonneg (by norm_num) _)
  obtain ⟨n, hround, hshown⟩ := h.exists_roundsToEven hpos.ne' hp
  obtain ⟨n', hround', hshown'⟩ := h'.exists_roundsToEven (hpos.trans_le hxy).ne' hp
  have hunit : ∀ z : ℚ, (0 : ℚ) < 10 ^ (Int.log 10 z - precision + 1) := fun z =>
    zpow_pos (by norm_num) _
  rw [hshown, hshown']
  rcases (Int.log_mono_right hpos hxy).eq_or_lt with hlog | hlog
  · -- both are cut at the same place
    rw [hlog] at hround ⊢
    have hn : (n : ℤ) ≤ n' := hround.mono hround' (div_le_div_of_nonneg_right hxy (hunit y).le)
    exact mul_le_mul_of_nonneg_right (by exact_mod_cast hn) (hunit y).le
  · -- a power of ten lies between the two
    have hn : (n : ℤ) ≤ 10 ^ precision := by
      refine hround.mono (roundsToEven_intCast _) ?_
      rw [div_le_iff₀ (hunit x)]
      exact_mod_cast le_pow_mul_unit x precision
    have hn' : (10 : ℤ) ^ (precision - 1) ≤ n' := by
      refine (roundsToEven_intCast _).mono hround' ?_
      rw [le_div_iff₀ (hunit y)]
      exact_mod_cast pow_mul_unit_le (hpos.trans_le hxy) hp
    calc (n : ℚ) * 10 ^ (Int.log 10 x - precision + 1)
        ≤ 10 ^ precision * 10 ^ (Int.log 10 x - precision + 1) :=
          mul_le_mul_of_nonneg_right (by exact_mod_cast hn) (hunit x).le
      _ = 10 ^ (Int.log 10 x + 1) := pow_mul_unit (by ring)
      _ ≤ 10 ^ Int.log 10 y := zpow_le_zpow_right₀ (by norm_num) hlog
      _ = 10 ^ (precision - 1) * 10 ^ (Int.log 10 y - precision + 1) :=
          (pow_mul_unit (by omega)).symm
      _ ≤ n' * 10 ^ (Int.log 10 y - precision + 1) :=
          mul_le_mul_of_nonneg_right (by exact_mod_cast hn') (hunit y).le

end Scientific

/-! ### Numbers that are not written -/

/-- A mantissa that is too long is not written. -/
theorem renderFrom_of_oversized {t : PowerTable} {mantissa : ℕ}
    (hm : ¬mantissa < 10 ^ Numeral.maxDecimalDigits) (exponent : ℤ) {precision : ℕ}
    (hp : 1 ≤ precision) :
    renderFrom (.table t) mantissa exponent precision = .error .oversized := by
  rw [← Numeral.isWritable_natCast_iff] at hm
  rw [renderFrom, PowerTable.tableFor_table, if_neg (by omega), if_neg (by omega), if_neg hm]
  rfl

/-- A number out of reach is not written either, and the reason is that it is out of reach. -/
theorem boundedRenderFrom_of_not_reach {t : PowerTable} {mantissa : ℕ}
    (hm : mantissa < 10 ^ Numeral.maxDecimalDigits) {exponent : ℤ}
    (he : ¬PowerTable.isWithinReach exponent = true) {precision : ℕ} (hp : 1 ≤ precision) :
    boundedRenderFrom (.table t) mantissa exponent precision = .error (.excess .depth) := by
  rw [boundedRenderFrom, PowerTable.tableFor_table_eq_ok_iff.2
    ⟨by omega, by omega, (Numeral.isWritable_natCast_iff mantissa).2 hm, rfl⟩]
  rw [Bool.not_eq_true] at he
  rw [he]
  rfl

/-! ### The order of patterns -/

/-- **The fields of a number say how large it is**: the exponent field first, and the mantissa field
only for numbers with the same exponent field. -/
theorem Magnitude.lt_of_fields {ebits mbits field field' mantissa mantissa' m m' : ℕ} {e e' : ℤ}
    (h : ofFields ebits mbits field mantissa = .finite m e)
    (h' : ofFields ebits mbits field' mantissa' = .finite m' e') (hm : mantissa < 2 ^ mbits)
    (hm' : mantissa' < 2 ^ mbits) (hlt : field < field' ∨ field = field' ∧ mantissa < mantissa') :
    (m : ℚ) * 2 ^ e < m' * 2 ^ e' := by
  refine (inForm_of_ofFields hm h).lt_of_lt (inForm_of_ofFields hm' h') ?_
  -- the exponent fields zero and one have the same exponent, but one has a leading bit
  obtain ⟨-, hcase⟩ := ofFields_eq_finite_iff.1 h
  obtain ⟨-, hcase'⟩ := ofFields_eq_finite_iff.1 h'
  omega

namespace FloatFormat

/-- The pattern with the sign bit alone. -/
def signBit (f : FloatFormat) : ℕ :=
  2 ^ (f.ebits + f.mbits)

/-- The pattern of infinity: ones in the exponent field alone. -/
def infinity (f : FloatFormat) : ℕ :=
  (2 ^ f.ebits - 1) * 2 ^ f.mbits

variable {f : FloatFormat} {b b' : ℕ}

theorem width_eq (f : FloatFormat) : 2 ^ f.width = f.signBit + f.signBit := by
  rw [signBit, ← two_mul, ← pow_succ', width]
  congr 1
  omega

theorem signBit_pos (f : FloatFormat) : 0 < f.signBit :=
  Nat.two_pow_pos _

/-- The sign is told by the sign bit. -/
theorem negative_decode (f : FloatFormat) (bits : ℕ) :
    (f.decode bits).negative = decide (bits / f.signBit % 2 = 1) := by
  rw [decode, FloatValue.ofBits, Nat.shiftRight_eq_div_pow, signBit]

/-- Below the sign bit are the two fields. -/
theorem field_lt (hb : b < f.signBit) : b / 2 ^ f.mbits < 2 ^ f.ebits := by
  rw [Nat.div_lt_iff_lt_mul (Nat.two_pow_pos _), ← pow_add]
  exact hb

/-- A pattern without the sign bit. -/
theorem decode_of_lt (hb : b < f.signBit) :
    f.decode b = ⟨false, .ofFields f.ebits f.mbits (b / 2 ^ f.mbits) (b % 2 ^ f.mbits)⟩ := by
  refine FloatValue.eq_of_parts ?_ ?_
  · rw [negative_decode, Nat.div_eq_of_lt hb]
    rfl
  · rw [magnitude_decode, Nat.mod_eq_of_lt (field_lt hb)]

/-- **The sign bit is the sign**, and nothing else depends on it. -/
theorem decode_signBit_add (hb : b < f.signBit) :
    f.decode (f.signBit + b) = ⟨true, (f.decode b).magnitude⟩ := by
  refine FloatValue.eq_of_parts ?_ ?_
  · rw [negative_decode, Nat.add_div_left _ f.signBit_pos, Nat.div_eq_of_lt hb]
    rfl
  · have hsplit : f.signBit = 2 ^ f.mbits * 2 ^ f.ebits := by rw [signBit, add_comm, pow_add]
    dsimp only
    rw [magnitude_decode, magnitude_decode, hsplit, Nat.mul_add_mod,
      Nat.mul_add_div (Nat.two_pow_pos _), Nat.add_mod_left]

/-- **What patterns without the sign bit stand for**: numbers come first, then infinity, and what
is no number comes last. -/
theorem decode_cases (hb : b < f.signBit) :
    b < f.infinity ∧ (∃ m e, f.decode b = ⟨false, .finite m e⟩) ∨
      b = f.infinity ∧ f.decode b = ⟨false, .infinite⟩ ∨
      f.infinity < b ∧ f.decode b = ⟨false, .nan⟩ := by
  have hfield := field_lt hb
  have hsplit := Nat.div_add_mod b (2 ^ f.mbits)
  have hmantissa := Nat.mod_lt b (Nat.two_pow_pos f.mbits)
  rw [decode_of_lt hb, infinity, Nat.mul_comm]
  generalize b / 2 ^ f.mbits = field at *
  generalize b % 2 ^ f.mbits = mantissa at *
  by_cases hones : field = 2 ^ f.ebits - 1
  · rw [← hones]
    rcases Nat.eq_zero_or_pos mantissa with rfl | hpos
    · refine Or.inr (Or.inl ⟨by omega, ?_⟩)
      rw [Magnitude.ofFields_eq_infinite_iff.2 ⟨hones, rfl⟩]
    · refine Or.inr (Or.inr ⟨by omega, ?_⟩)
      rw [Magnitude.ofFields_eq_nan_iff.2 ⟨hones, hpos.ne'⟩]
  · -- the exponent field is smaller, and the mantissa field does not make up for it
    have hle : 2 ^ f.mbits * (field + 1) ≤ 2 ^ f.mbits * (2 ^ f.ebits - 1) :=
      Nat.mul_le_mul_left _ (by omega)
    rw [Nat.mul_succ] at hle
    refine Or.inl ⟨by omega, ?_⟩
    rcases Nat.eq_zero_or_pos field with hzero | hpos
    · exact ⟨_, _, congrArg _ (Magnitude.ofFields_eq_finite_iff.2
        ⟨hones, Or.inl ⟨hzero, rfl, rfl⟩⟩)⟩
    · exact ⟨_, _, congrArg _ (Magnitude.ofFields_eq_finite_iff.2
        ⟨hones, Or.inr ⟨hpos.ne', rfl, rfl⟩⟩)⟩

theorem decode_zero (f : FloatFormat) :
    f.decode 0 = ⟨false, .finite 0 (leastExponent f.ebits f.mbits)⟩ := by
  have hones : 0 ≠ 2 ^ f.ebits - 1 := by
    have := Nat.one_lt_two_pow f.ebits_pos.ne'
    omega
  rw [decode_of_lt f.signBit_pos, Nat.zero_div, Nat.zero_mod,
    Magnitude.ofFields_eq_finite_iff.2 ⟨hones, Or.inl ⟨rfl, rfl, rfl⟩⟩]

theorem infinity_lt_signBit (f : FloatFormat) : f.infinity < f.signBit := by
  rw [infinity, signBit, pow_add]
  exact Nat.mul_lt_mul_of_pos_right (Nat.sub_lt (Nat.two_pow_pos _) one_pos) (Nat.two_pow_pos _)

/-- **Numbers grow with their patterns.** -/
theorem number_lt (hlt : b < b') (hb' : b' < f.infinity) : ∃ m e m' e',
    f.decode b = ⟨false, .finite m e⟩ ∧ f.decode b' = ⟨false, .finite m' e'⟩ ∧
      (m : ℚ) * 2 ^ e < m' * 2 ^ e' := by
  have hsign' := hb'.trans f.infinity_lt_signBit
  have hsign := hlt.trans hsign'
  obtain ⟨-, m, e, h⟩ | ⟨rfl, -⟩ | ⟨hgt, -⟩ := decode_cases hsign
  · obtain ⟨-, m', e', h'⟩ | ⟨rfl, -⟩ | ⟨hgt, -⟩ := decode_cases hsign'
    · refine ⟨m, e, m', e', h, h', ?_⟩
      rw [decode_of_lt hsign] at h
      rw [decode_of_lt hsign'] at h'
      refine Magnitude.lt_of_fields (FloatValue.mk.inj h).2 (FloatValue.mk.inj h').2
        (Nat.mod_lt b (Nat.two_pow_pos _)) (Nat.mod_lt b' (Nat.two_pow_pos _)) ?_
      -- the exponent field stands above the mantissa field
      have hle : b / 2 ^ f.mbits ≤ b' / 2 ^ f.mbits := Nat.div_le_div_right hlt.le
      have hsplit := Nat.div_add_mod b (2 ^ f.mbits)
      have hsplit' := Nat.div_add_mod b' (2 ^ f.mbits)
      rcases hle.lt_or_eq with hfield | hfield
      · exact Or.inl hfield
      · rw [hfield] at hsplit
        exact Or.inr ⟨hfield, by omega⟩
    · exact absurd hb' (lt_irrefl _)
    · exact absurd hb' hgt.asymm
  · exact absurd hb' hlt.asymm
  · exact absurd (hlt.trans hb') hgt.asymm

/-! ### The order of texts -/

/-- **A text is written for a pattern**, whatever the power table has been used for. Within reach
that is also what is written where patterns and numbers may be out of reach. -/
def Writes (f : FloatFormat) (bits : ℕ) (text : String) : Prop :=
  ∀ t : PowerTable, t.Reachable →
    (renderBits t bits f.ebits f.mbits f.precision).1 = .ok text ∧
      (f.IsWithinReach bits →
        (boundedRenderBits t bits f.ebits f.mbits f.precision).1 = .ok text)

/-- The text that is written for a pattern shows a number. -/
def WritesNumber (f : FloatFormat) (bits : ℕ) (q : ℚ) : Prop :=
  ∃ text, f.Writes bits text ∧ ShowsNumber text f.precision q

/-- A pattern has one text at most. -/
theorem Writes.unique {bits : ℕ} {text text' : String} (h : f.Writes bits text)
    (h' : f.Writes bits text') : text = text' := by
  have hrender := (h _ .empty).1
  rw [(h' _ .empty).1, Except.ok.injEq] at hrender
  exact hrender.symm

/-- A pattern shows one number at most. -/
theorem WritesNumber.unique {bits : ℕ} {q q' : ℚ} (h : f.WritesNumber bits q)
    (h' : f.WritesNumber bits q') : q = q' := by
  obtain ⟨text, hwrites, hshows⟩ := h
  obtain ⟨text', hwrites', hshows'⟩ := h'
  obtain rfl := hwrites.unique hwrites'
  exact hshows.unique hshows'

/-- The sign column, and what is written for the magnitude. -/
theorem exists_writes (hb : b < 2 ^ f.width) (hm : f.IsWritable b) :
    ∃ body, (f.decode b).magnitude.Written f.precision body ∧
      f.Writes b ((f.decode b).signColumn ++ body) := by
  obtain ⟨body, hwritten, htext⟩ := exists_text hm
  exact ⟨body, hwritten, fun t ht => htext b hb rfl t ht.sound⟩

/-- Only patterns with a mantissa that is not too long are written. -/
theorem Writes.isWritable {text : String} (hb : b < 2 ^ f.width) (h : f.Writes b text) :
    f.IsWritable b := by
  intro m e hmag
  have hrender := (h _ .empty).1
  rw [renderBits, read_of_lt hb] at hrender
  dsimp only at hrender
  rw [FloatValue.text, hmag] at hrender
  by_contra hlong
  dsimp only at hrender
  rw [Readout.render, renderFrom_of_oversized hlong e f.precision_pos] at hrender
  cases hrender

/-- So what is written is always the sign column, and what is written for the magnitude. -/
theorem Writes.exists_body {text : String} (hb : b < 2 ^ f.width) (h : f.Writes b text) :
    ∃ body, (f.decode b).magnitude.Written f.precision body ∧
      text = (f.decode b).signColumn ++ body := by
  obtain ⟨body, hwritten, hwrites⟩ := exists_writes hb (h.isWritable hb)
  exact ⟨body, hwritten, h.unique hwrites⟩

/-- The number that is shown for a pattern without the sign bit. -/
theorem exists_writesNumber {m : ℕ} {e : ℤ} (hb : b < 2 ^ f.width) (hm : f.IsWritable b)
    (h : f.decode b = ⟨false, .finite m e⟩) :
    ∃ (N : ℕ) (E : ℤ), Approximates ((m : ℚ) * 2 ^ e) f.precision N E ∧
      f.WritesNumber b (N * 10 ^ (E - f.precision + 1)) := by
  obtain ⟨body, hwritten, hwrites⟩ := exists_writes hb hm
  rw [h] at hwritten hwrites
  cases hwritten with
  | finite hshows happrox =>
    exact ⟨_, _, happrox, _, hwrites, false, body, _, _, rfl, hshows, (one_mul _).symm⟩

/-- The text of a pattern without the sign bit tells infinity and what is no number. -/
theorem Writes.word_iff {body : String} (hb : b < f.signBit) (h : f.Writes b (" " ++ body)) :
    (body = "Inf" ↔ b = f.infinity) ∧ (body = "NaN" ↔ f.infinity < b) := by
  obtain ⟨body', hwritten, htext⟩ := h.exists_body (by rw [f.width_eq]; omega)
  obtain ⟨hlt, m, e, hdecode⟩ | ⟨rfl, hdecode⟩ | ⟨hgt, hdecode⟩ := decode_cases hb
  all_goals
    rw [hdecode] at hwritten htext
    obtain rfl :=
      (signColumn_append_inj (show (if false then "-" else " ") ++ body = _ from htext)).2
  · cases hwritten with
    | finite hshows _ =>
      exact ⟨iff_of_false hshows.ne_word.1 hlt.ne, iff_of_false hshows.ne_word.2 hlt.asymm⟩
  · cases hwritten
    exact ⟨iff_of_true rfl rfl, iff_of_false (by decide) (lt_irrefl _)⟩
  · cases hwritten
    exact ⟨iff_of_false (by decide) hgt.ne', iff_of_true rfl hgt⟩

/-- **The numbers that are shown do not get smaller.** -/
theorem shown_le (hlt : b < b') (hb' : b' < f.infinity) (hm : f.IsWritable b)
    (hm' : f.IsWritable b') :
    ∃ q q', f.WritesNumber b q ∧ f.WritesNumber b' q' ∧ q ≤ q' := by
  obtain ⟨m, e, m', e', h, h', hnumber⟩ := number_lt hlt hb'
  have hwidth := f.width_eq
  have hsign := f.infinity_lt_signBit
  obtain ⟨N, E, happrox, hwrites⟩ := exists_writesNumber (by omega) hm h
  obtain ⟨N', E', happrox', hwrites'⟩ := exists_writesNumber (by omega) hm' h'
  refine ⟨_, _, hwrites, hwrites', happrox.shown_le ?_ hnumber.le f.precision_pos happrox'⟩
  exact mul_nonneg m.cast_nonneg (zpow_nonneg (by norm_num) e)

/-- The first pattern shows zero. -/
theorem writesNumber_zero (f : FloatFormat) : f.WritesNumber 0 0 := by
  have hm : f.IsWritable 0 := fun m e h => by
    rw [f.decode_zero] at h
    cases h
    exact Nat.pow_pos (by decide)
  obtain ⟨N, E, happrox, hwrites⟩ := exists_writesNumber (Nat.two_pow_pos _) hm f.decode_zero
  rw [Nat.cast_zero, zero_mul] at happrox
  rwa [happrox.significand_eq_zero, Nat.cast_zero, zero_mul] at hwrites

/-- From infinity on there is no mantissa to be written. -/
theorem isWritable_of_infinity_le (hb : b < f.signBit) (hle : f.infinity ≤ b) :
    f.IsWritable b := by
  intro m e hmag
  obtain ⟨hlt, -⟩ | ⟨-, hdecode⟩ | ⟨-, hdecode⟩ := decode_cases hb
  · exact absurd hle (Nat.not_le.2 hlt)
  · rw [hdecode] at hmag
    cases hmag
  · rw [hdecode] at hmag
    cases hmag

/-- **The sign bit changes the first column alone.** -/
theorem exists_signed (hb : b < f.signBit) (hfinite : b < f.infinity → f.IsWritable b) : ∃ body,
    f.Writes b (" " ++ body) ∧ f.Writes (f.signBit + b) ("-" ++ body) ∧
      (body = "Inf" ↔ b = f.infinity) ∧ (body = "NaN" ↔ f.infinity < b) := by
  have hwidth := f.width_eq
  have hm : f.IsWritable b := by
    rcases Nat.lt_or_ge b f.infinity with hlt | hle
    · exact hfinite hlt
    · exact isWritable_of_infinity_le hb hle
  obtain ⟨body, -, htext⟩ := exists_text hm
  have hplus : f.Writes b (" " ++ body) := fun t ht => by
    have h := htext b (by omega) rfl t ht.sound
    rwa [decode_of_lt hb] at h
  have hminus : f.Writes (f.signBit + b) ("-" ++ body) := fun t ht => by
    have h := htext (f.signBit + b) (by omega) (by rw [decode_signBit_add hb]) t ht.sound
    rwa [decode_signBit_add hb] at h
  exact ⟨body, hplus, hminus, hplus.word_iff hb⟩

/-! ### Patterns that do not fit -/

/-- A pattern that does not fit in the width is not read. -/
theorem read_of_not_fit {bits : ℤ} (hbits : bits < 0 ∨ 2 ^ f.width ≤ bits) :
    FloatValue.read bits f.ebits f.mbits = .error (.doesNotFit bits f.width) := by
  have he := f.ebits_pos
  have hm := f.mbits_pos
  unfold FloatValue.read
  dsimp only
  rw [if_neg (by omega), Int.toNat_natCast, Int.toNat_natCast, Nat.one_shiftLeft, if_pos]
  · rfl
  · rw [width] at hbits
    exact_mod_cast hbits

/-- A pattern that fits is written, unless its mantissa is too long. -/
theorem renderBits_ne_error {t : PowerTable} (ht : t.Reachable) (hb : b < 2 ^ f.width)
    (hm : f.IsWritable b) (fault : BitsFault) :
    (renderBits t b f.ebits f.mbits f.precision).1 ≠ .error fault ∧
      (widthExcess? b f.ebits f.mbits = none → (∀ what, fault ≠ .unwritten (.excess what)) →
        (boundedRenderBits t b f.ebits f.mbits f.precision).1 ≠ .error fault) := by
  obtain ⟨body, -, hwrites⟩ := exists_writes hb hm
  obtain ⟨hrender, hbounded⟩ := hwrites t ht
  refine ⟨fun hfault => ?_, fun hwidth hwhat hfault => ?_⟩
  · rw [hrender] at hfault
    cases hfault
  · by_cases hreach : f.IsWithinReach b
    · rw [hbounded hreach] at hfault
      cases hfault
    · -- only a number can be out of reach now
      obtain ⟨m, e, hmag, hfar⟩ : ∃ m e, (f.decode b).magnitude = .finite m e ∧
          ¬PowerTable.isWithinReach e = true := by
        by_contra hnone
        exact hreach ⟨hwidth, fun m e hmag => by_contra fun hfar => hnone ⟨m, e, hmag, hfar⟩⟩
      rw [boundedRenderBits, hwidth, read_of_lt hb] at hfault
      dsimp only at hfault
      rw [FloatValue.text, hmag] at hfault
      dsimp only at hfault
      rw [Readout.boundedRender, boundedRenderFrom_of_not_reach (hm m e hmag) hfar f.precision_pos]
        at hfault
      exact hwhat _ (Except.error.inj hfault).symm

/-- **Just what does not fit is refused**, and that is said. Where patterns and numbers may be out
of reach, nothing else is refused for another reason than that. -/
theorem refused_iff {t : PowerTable} (ht : t.Reachable) {bits : ℤ}
    (hm : ∀ b < 2 ^ f.width, bits = (b : ℕ) → f.IsWritable b) (fault : BitsFault) :
    ((renderBits t bits f.ebits f.mbits f.precision).1 = .error fault ↔
      (bits < 0 ∨ 2 ^ f.width ≤ bits) ∧ fault = .doesNotFit bits f.width) ∧
    (widthExcess? bits f.ebits f.mbits = none → (∀ what, fault ≠ .unwritten (.excess what)) →
      ((boundedRenderBits t bits f.ebits f.mbits f.precision).1 = .error fault ↔
        (bits < 0 ∨ 2 ^ f.width ≤ bits) ∧ fault = .doesNotFit bits f.width)) := by
  by_cases hfit : bits < 0 ∨ 2 ^ f.width ≤ bits
  · have hread := read_of_not_fit hfit
    have hiff : Except.error (.doesNotFit bits f.width) = (.error fault : Except BitsFault String) ↔
        (bits < 0 ∨ 2 ^ f.width ≤ bits) ∧ fault = .doesNotFit bits f.width :=
      ⟨fun h => ⟨hfit, (Except.error.inj h).symm⟩, fun h => by rw [h.2]⟩
    refine ⟨?_, fun hwidth _ => ?_⟩
    · rw [renderBits, hread]
      exact hiff
    · rw [boundedRenderBits, hwidth, hread]
      exact hiff
  · obtain ⟨b, rfl⟩ := Int.eq_ofNat_of_zero_le (show 0 ≤ bits by omega)
    have hb : b < 2 ^ f.width := by
      have : (b : ℤ) < 2 ^ f.width := by omega
      exact_mod_cast this
    obtain ⟨hne, hne'⟩ := renderBits_ne_error ht hb (hm b hb rfl) fault
    exact ⟨iff_of_false hne fun h => hfit h.1, fun hwidth hwhat =>
      iff_of_false (hne' hwidth hwhat) fun h => hfit h.1⟩

/-! ### The order of a format -/

/-- **The patterns of a format and what is printed for them are in the same order.** Mantissas that
are too long to be written are left aside. -/
structure KeepsOrder (f : FloatFormat) : Prop where
  /-- Without the sign bit and below infinity, the exact numbers strictly grow with the pattern. -/
  number_lt : ∀ b b', b < b' → b' < f.infinity → ∃ m e m' e',
    f.decode b = ⟨false, .finite m e⟩ ∧ f.decode b' = ⟨false, .finite m' e'⟩ ∧
      (m : ℚ) * 2 ^ e < m' * 2 ^ e'
  /-- Both have a text, and the numbers that the texts show do not get smaller. -/
  shown_le : ∀ b b', b < b' → b' < f.infinity → f.IsWritable b → f.IsWritable b' →
    ∃ q q', f.WritesNumber b q ∧ f.WritesNumber b' q' ∧ q ≤ q'
  /-- The first pattern shows zero. -/
  zero : f.WritesNumber 0 0
  /-- The text without the sign bit and the text with it differ in the first column alone. Of those
  without it, one pattern says that it is infinite, and all above it, and no others, that they
  are no numbers. -/
  sign : ∀ b < f.signBit, (b < f.infinity → f.IsWritable b) → ∃ body,
    f.Writes b (" " ++ body) ∧ f.Writes (f.signBit + b) ("-" ++ body) ∧
      (body = "Inf" ↔ b = f.infinity) ∧ (body = "NaN" ↔ f.infinity < b)
  /-- What does not fit in the width is refused, and nothing else is. Where patterns and numbers may
  be out of reach, they are not refused for any other reason than that. -/
  refused_iff : ∀ t : PowerTable, t.Reachable → ∀ bits : ℤ,
    (∀ b < 2 ^ f.width, bits = (b : ℕ) → f.IsWritable b) → ∀ fault,
    ((renderBits t bits f.ebits f.mbits f.precision).1 = .error fault ↔
      (bits < 0 ∨ 2 ^ f.width ≤ bits) ∧ fault = .doesNotFit bits f.width) ∧
    (widthExcess? bits f.ebits f.mbits = none → (∀ what, fault ≠ .unwritten (.excess what)) →
      ((boundedRenderBits t bits f.ebits f.mbits f.precision).1 = .error fault ↔
        (bits < 0 ∨ 2 ^ f.width ≤ bits) ∧ fault = .doesNotFit bits f.width))

end FloatFormat

/-- **All formats keep the order of their patterns**, whatever the widths of their fields are and
however many digits they are written with. -/
theorem FloatFormat.keepsOrder (f : FloatFormat) : f.KeepsOrder where
  number_lt _ _ hlt hb' := number_lt hlt hb'
  shown_le _ _ hlt hb' hm hm' := shown_le hlt hb' hm hm'
  zero := writesNumber_zero f
  sign _ hb hfinite := exists_signed hb hfinite
  refused_iff _ ht _ hm fault := refused_iff ht hm fault

/-- The greatest subnormal number of single precision, and the least number with a leading bit,
whose exponents are the same: they are shown in this order. -/
theorem FloatFormat.keepsOrder_least_normal :
    binary32.IsWritable 0x7FFFFF ∧ binary32.IsWritable 0x800000 ∧
      ∃ q q', ShowsNumber " 1.17549421e-38" 9 q ∧ ShowsNumber " 1.17549435e-38" 9 q' ∧ q ≤ q' := by
  have hwritable : ∀ bits, binary32.IsWritable bits := fun bits m e h =>
    (FloatValue.inForm_of_ofBits h).mantissa_lt.trans_le
      (le_trans (by norm_num [binary32] : 2 ^ (binary32.mbits + 1) ≤ 10 ^ 8)
        (Nat.pow_le_pow_right (by decide) (by decide)))
  obtain ⟨q, q', ⟨text, hwrites, hshows⟩, ⟨text', hwrites', hshows'⟩, hle⟩ :=
    (keepsOrder binary32).shown_le 0x7FFFFF 0x800000 (by decide) (by decide) (hwritable _)
      (hwritable _)
  have hrender : ∀ bits text, binary32.Writes bits text →
      (renderBits .empty bits 8 23 9).1.toOption = some text := fun bits text h => by
    rw [show (renderBits .empty bits 8 23 9).1 = _ from (h .empty .empty).1, Except.toOption]
  have htext : (renderBits .empty (0x7FFFFF : ℕ) 8 23 9).1.toOption = some " 1.17549421e-38" := by
    decide +kernel
  have htext' : (renderBits .empty (0x800000 : ℕ) 8 23 9).1.toOption = some " 1.17549435e-38" := by
    decide +kernel
  rw [hrender _ _ hwrites, Option.some.injEq] at htext
  rw [hrender _ _ hwrites', Option.some.injEq] at htext'
  exact ⟨hwritable _, hwritable _, q, q', htext ▸ hshows, htext' ▸ hshows', hle⟩

end Readout
