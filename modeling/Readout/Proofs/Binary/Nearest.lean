import Readout.Proofs.Binary.Exact
import Readout.Proofs.Decimal.Scientific

/-!
# Printed numbers tell patterns apart

A number that is written with enough digits is nearer to the number of its pattern than to
that of any other pattern of the format, so the pattern can be recovered from the text. How
many digits are enough is a matter of the mantissa alone
(`Readout.FloatFormat.IsSeparating`): the unit of the last place, measured against the
number, must be smaller than the gap between neighbouring numbers of the format
(`Readout.FloatValue.abs_le_mul_abs_sub`).

What a text says is read off the text (`Readout.ShowsNumber`), and the text says one thing
only (`Readout.ShowsNumber.unique`). For every pattern there is one text, whatever the power
table has been used for (`Readout.FloatFormat.exists_renderBits`).
-/

namespace Readout

open Scientific

/-! ### The number that a text shows -/

namespace Scientific

/-- **A text shows one number.** -/
theorem Shows.unique {text : String} {precision N N' : ℕ} {E E' : ℤ}
    (h : Shows text precision N E) (h' : Shows text precision N' E') : N = N' ∧ E = E' := by
  obtain ⟨lead, fraction, places, htext, hlength, -, hN, -, -, -, hE⟩ := h
  obtain ⟨lead', fraction', places', htext', hlength', -, hN', -, -, -, hE'⟩ := h'
  -- the fractions have the same length, so all parts are the same
  have hlists := String.ofList_injective (htext.symm.trans htext')
  rw [List.cons_append, List.cons_append, List.cons_append, List.cons_append, List.cons.injEq,
    List.cons.injEq] at hlists
  obtain ⟨rfl, -, htail⟩ := hlists
  obtain ⟨rfl, hend⟩ := List.append_inj htail (by omega)
  rw [List.cons.injEq, List.cons.injEq] at hend
  obtain ⟨-, hsign, rfl⟩ := hend
  refine ⟨hN.symm.trans hN', ?_⟩
  split at hsign <;> split at hsign <;> first | omega | exact absurd hsign (by decide)

/-- **The number that is shown for the correctly rounded form**: a multiple of the unit in the last
place of the number itself. A carry into a new digit makes the unit ten times as large and the
significand smaller. -/
theorem Approximates.exists_roundsToEven {x : ℚ} (hx : x ≠ 0) {precision N : ℕ} {E : ℤ}
    (hp : 1 ≤ precision) (h : Approximates x precision N E) :
    ∃ n : ℕ, RoundsToEven (x / 10 ^ (Int.log 10 x - precision + 1)) n ∧
      (N : ℚ) * 10 ^ (E - precision + 1) = n * 10 ^ (Int.log 10 x - precision + 1) := by
  rw [Approximates, if_neg hx] at h
  obtain ⟨n, hround, ⟨-, rfl, rfl⟩ | ⟨rfl, rfl, rfl⟩⟩ := h
  · exact ⟨N, hround, rfl⟩
  · refine ⟨_, hround, ?_⟩
    obtain ⟨p, rfl⟩ : ∃ p, precision = p + 1 := ⟨precision - 1, by omega⟩
    rw [show Int.log 10 x + 1 - ((p + 1 : ℕ) : ℤ) + 1 =
      Int.log 10 x - ((p + 1 : ℕ) : ℤ) + 1 + 1 by ring, zpow_add_one₀ (by norm_num),
      Nat.add_sub_cancel, pow_succ]
    push_cast
    ring

/-- Units in the last place of numbers with the decimal logarithm `L` make up powers of ten. -/
theorem pow_mul_unit {k precision : ℕ} {L M : ℤ} (h : M = L - precision + 1 + k) :
    (10 : ℚ) ^ k * 10 ^ (L - precision + 1) = 10 ^ M := by
  rw [← zpow_natCast, ← zpow_add₀ (by norm_num), add_comm, ← h]

/-- A number has at least `10 ^ (precision - 1)` units in the last place. -/
theorem pow_mul_unit_le {x : ℚ} (hx : 0 < x) {precision : ℕ} (hp : 1 ≤ precision) :
    (10 : ℚ) ^ (precision - 1) * 10 ^ (Int.log 10 x - precision + 1) ≤ x := by
  rw [pow_mul_unit (show Int.log 10 x =
    Int.log 10 x - precision + 1 + (precision - 1 : ℕ) by omega)]
  exact_mod_cast Int.zpow_log_le_self (by decide : 1 < 10) hx

/-- **The error of the correctly rounded form**: it is at most half a unit in the last place,
and the number itself has at least `10 ^ (precision - 1)` of these units. -/
theorem Approximates.mul_abs_sub_le {x : ℚ} (hx : 0 ≤ x) {precision N : ℕ} {E : ℤ}
    (hp : 1 ≤ precision) (h : Approximates x precision N E) :
    2 * 10 ^ (precision - 1) * |(N : ℚ) * 10 ^ (E - precision + 1) - x| ≤ x := by
  rcases hx.eq_or_lt with rfl | hpos
  · rw [Approximates, if_pos rfl] at h
    rw [h.1, Nat.cast_zero, zero_mul, sub_zero, abs_zero, mul_zero]
  · obtain ⟨n, hround, hvalue⟩ := h.exists_roundsToEven hpos.ne' hp
    have hunit : (0 : ℚ) < 10 ^ (Int.log 10 x - precision + 1) := zpow_pos (by norm_num) _
    have herror : |(N : ℚ) * 10 ^ (E - precision + 1) - x| ≤
        1 / 2 * 10 ^ (Int.log 10 x - precision + 1) := by
      have hnear := mul_le_mul_of_nonneg_right hround.near hunit.le
      rw [← abs_of_pos hunit, ← abs_mul, abs_of_pos hunit, sub_mul, div_mul_cancel₀ _ hunit.ne',
        abs_sub_comm] at hnear
      rw [hvalue]
      exact_mod_cast hnear
    calc 2 * 10 ^ (precision - 1) * |(N : ℚ) * 10 ^ (E - precision + 1) - x|
        ≤ 2 * 10 ^ (precision - 1) * (1 / 2 * 10 ^ (Int.log 10 x - precision + 1)) :=
          mul_le_mul_of_nonneg_left herror (by positivity)
      _ = 10 ^ (precision - 1) * 10 ^ (Int.log 10 x - precision + 1) := by ring
      _ ≤ x := pow_mul_unit_le hpos hp

end Scientific

/-- **A text shows a signed number**: after the sign column, a number in scientific notation
with a given number of digits. -/
def ShowsNumber (text : String) (precision : ℕ) (q : ℚ) : Prop :=
  ∃ (negative : Bool) (body : String) (N : ℕ) (E : ℤ),
    text = (if negative then "-" else " ") ++ body ∧ Shows body precision N E ∧
    q = (if negative then -1 else 1) * (N * 10 ^ (E - precision + 1))

/-- The sign column can be read off a text. -/
theorem signColumn_append_inj {negative negative' : Bool} {body body' : String}
    (h : (if negative then "-" else " ") ++ body = (if negative' then "-" else " ") ++ body') :
    negative = negative' ∧ body = body' := by
  have hlists := congrArg String.toList h
  rw [String.toList_append, String.toList_append] at hlists
  obtain ⟨hsign, hbody⟩ := List.append_inj hlists (by cases negative <;> cases negative' <;> rfl)
  refine ⟨?_, String.toList_inj.1 hbody⟩
  cases negative <;> cases negative' <;> first | rfl | exact absurd hsign (by decide)

theorem ShowsNumber.unique {text : String} {precision : ℕ} {q q' : ℚ}
    (h : ShowsNumber text precision q) (h' : ShowsNumber text precision q') : q = q' := by
  obtain ⟨negative, body, N, E, rfl, hshows, rfl⟩ := h
  obtain ⟨negative', body', N', E', htext, hshows', rfl⟩ := h'
  obtain ⟨rfl, rfl⟩ := signColumn_append_inj htext
  obtain ⟨rfl, rfl⟩ := hshows.unique hshows'
  rfl

/-! ### What is written for a pattern -/

/-- **What is written for a magnitude**, after the sign column. -/
inductive Magnitude.Written (precision : ℕ) : Magnitude → String → Prop
  /-- A number is written in its correctly rounded form. -/
  | finite {m : ℕ} {e : ℤ} {N : ℕ} {E : ℤ} {body : String} (hshows : Shows body precision N E)
    (happrox : Approximates ((m : ℚ) * 2 ^ e) precision N E) : Written precision (.finite m e) body
  /-- Infinity has a word of its own. -/
  | infinite : Written precision .infinite "Inf"
  /-- And so has what is no number. -/
  | nan : Written precision .nan "NaN"

/-- Numbers are not written as words. -/
theorem Scientific.Shows.ne_word {body : String} {precision N : ℕ} {E : ℤ}
    (h : Shows body precision N E) : body ≠ "Inf" ∧ body ≠ "NaN" := by
  obtain ⟨lead, fraction, places, rfl, -⟩ := h
  -- the second character is a point
  have hword : ∀ word : String, word.toList[1]? ≠ some '.' →
      String.ofList (lead :: '.' :: fraction ++
        'e' :: (if E < 0 then '-' else '+') :: places) ≠ word := by
    rintro word hpoint rfl
    rw [String.toList_ofList] at hpoint
    exact hpoint rfl
  exact ⟨hword _ (by decide), hword _ (by decide)⟩

/-- What is written is known by its text, except for numbers. -/
theorem Magnitude.Written.eq_or_finite {precision : ℕ} {mag mag' : Magnitude} {body body' : String}
    (h : mag.Written precision body) (h' : mag'.Written precision body') (hbody : body = body') :
    mag = mag' ∨ ∃ m e m' e', mag = .finite m e ∧ mag' = .finite m' e' := by
  cases h with
  | finite hshows happrox =>
    cases h' with
    | finite hshows' happrox' => exact Or.inr ⟨_, _, _, _, rfl, rfl⟩
    | infinite => exact absurd hbody hshows.ne_word.1
    | nan => exact absurd hbody hshows.ne_word.2
  | infinite =>
    cases h' with
    | finite hshows' happrox' => exact absurd hbody.symm hshows'.ne_word.1
    | infinite => exact Or.inl rfl
    | nan => exact absurd hbody (by decide)
  | nan =>
    cases h' with
    | finite hshows' happrox' => exact absurd hbody.symm hshows'.ne_word.2
    | infinite => exact absurd hbody (by decide)
    | nan => exact Or.inl rfl

/-- **What is written for a magnitude** is settled by the magnitude: whatever the sign, and whatever
table it is written with, the same comes after the sign column. -/
theorem Magnitude.exists_text {mag : Magnitude} {precision : ℕ} (hp : 1 ≤ precision)
    (hm : ∀ m e, mag = .finite m e → m < 10 ^ Numeral.maxDecimalDigits) :
    ∃ body, mag.Written precision body ∧
      ∀ t : PowerTable, t.Sound → ∀ x : FloatValue, x.magnitude = mag →
        (x.text (fun m e => render t m e precision) t).1 = .ok (x.signColumn ++ body) ∧
        ((∀ m e, mag = .finite m e → PowerTable.isWithinReach e = true) →
          (x.text (fun m e => boundedRender t m e precision) t).1 =
            .ok (x.signColumn ++ body)) := by
  unfold FloatValue.text
  cases mag with
  | infinite =>
    refine ⟨"Inf", .infinite, fun t _ x hx => ?_⟩
    rw [hx]
    exact ⟨rfl, fun _ => rfl⟩
  | nan =>
    refine ⟨"NaN", .nan, fun t _ x hx => ?_⟩
    rw [hx]
    exact ⟨rfl, fun _ => rfl⟩
  | finite m e =>
    -- the form does not depend on the table, and the empty one is as good as any
    obtain ⟨N, E, hlt, -, happrox⟩ :=
      exists_render PowerTable.Reachable.empty.sound (hm m e rfl) e hp
    refine ⟨_, .finite (shows_text hp hlt E) happrox, fun t ht x hx => ?_⟩
    obtain ⟨N', E', -, hrender, happrox'⟩ := exists_render ht (hm m e rfl) e hp
    obtain ⟨rfl, rfl⟩ := happrox.unique happrox'
    rw [hx]
    dsimp only
    refine ⟨?_, fun hreach => ?_⟩
    · rw [Readout.render, hrender]
    · rw [Readout.boundedRender, boundedRenderFrom_eq_renderFrom (hreach m e rfl), hrender]

namespace FloatFormat

/-- **The precision of a format tells its numbers apart.** -/
def IsSeparating (f : FloatFormat) : Prop :=
  2 ^ (f.mbits + 1) < 10 ^ (f.precision - 1)

instance (f : FloatFormat) : Decidable f.IsSeparating :=
  inferInstanceAs (Decidable (2 ^ (f.mbits + 1) < 10 ^ (f.precision - 1)))

/-- The mantissa of a pattern is not too long to be written. -/
def IsWritable (f : FloatFormat) (bits : ℕ) : Prop :=
  ∀ m e, (f.decode bits).magnitude = .finite m e → m < 10 ^ Numeral.maxDecimalDigits

/-- The power for the number of a pattern can be put together, and the format is not too wide. -/
def IsWithinReach (f : FloatFormat) (bits : ℕ) : Prop :=
  widthExcess? bits f.ebits f.mbits = none ∧
    ∀ m e, (f.decode bits).magnitude = .finite m e → PowerTable.isWithinReach e = true

variable {f : FloatFormat} {bits : ℕ}

theorem read_of_lt (hbits : bits < 2 ^ f.width) :
    FloatValue.read bits f.ebits f.mbits = .ok (f.decode bits) := by
  have he := f.ebits_pos
  have hm := f.mbits_pos
  unfold FloatValue.read
  dsimp only
  rw [if_neg (by omega), Int.toNat_natCast, Int.toNat_natCast, Int.toNat_natCast,
    Nat.one_shiftLeft]
  rw [if_neg (by rw [width] at hbits; omega)]
  rfl

/-- **Every magnitude has a text**: what is written for the patterns that have it, after their
sign columns. -/
theorem exists_text {mag : Magnitude}
    (hm : ∀ m e, mag = .finite m e → m < 10 ^ Numeral.maxDecimalDigits) :
    ∃ body, mag.Written f.precision body ∧
      ∀ bits < 2 ^ f.width, (f.decode bits).magnitude = mag → ∀ t : PowerTable, t.Sound →
        (renderBits t bits f.ebits f.mbits f.precision).1 =
          .ok ((f.decode bits).signColumn ++ body) ∧
        (f.IsWithinReach bits → (boundedRenderBits t bits f.ebits f.mbits f.precision).1 =
          .ok ((f.decode bits).signColumn ++ body)) := by
  obtain ⟨body, hwritten, htext⟩ := Magnitude.exists_text f.precision_pos hm
  refine ⟨body, hwritten, fun bits hbits hmag t ht => ?_⟩
  obtain ⟨hrender, hbounded⟩ := htext t ht (f.decode bits) hmag
  refine ⟨?_, fun hreach => ?_⟩
  · rw [renderBits, read_of_lt hbits]
    exact hrender
  · rw [boundedRenderBits, hreach.1, read_of_lt hbits]
    exact hbounded (hmag ▸ hreach.2)

/-- **Every pattern has a text**: its sign column, and what is written for its magnitude. -/
theorem exists_renderBits (hbits : bits < 2 ^ f.width) (hm : f.IsWritable bits) {t : PowerTable}
    (ht : t.Sound) : ∃ body, (f.decode bits).magnitude.Written f.precision body ∧
      (renderBits t bits f.ebits f.mbits f.precision).1 =
        .ok ((f.decode bits).signColumn ++ body) ∧
      (f.IsWithinReach bits → (boundedRenderBits t bits f.ebits f.mbits f.precision).1 =
        .ok ((f.decode bits).signColumn ++ body)) := by
  obtain ⟨body, hwritten, htext⟩ := exists_text hm
  exact ⟨body, hwritten, htext bits hbits rfl t ht⟩

/-- What is written for a finite pattern shows a number, which is off by at most half a unit in
the last place. -/
theorem exists_showsNumber {body : String}
    (h : (f.decode bits).magnitude.Written f.precision body) {x : ℚ}
    (hx : (f.decode bits).number? = some x) :
    ∃ q, ShowsNumber ((f.decode bits).signColumn ++ body) f.precision q ∧
      2 * 10 ^ (f.precision - 1) * |q - x| ≤ |x| := by
  obtain ⟨m, e, hmag, rfl⟩ := FloatValue.number?_eq_some_iff.1 hx
  rw [hmag] at h
  obtain ⟨hshows, happrox⟩ := h
  rename_i N E
  have hpos : (0 : ℚ) ≤ m * 2 ^ e := mul_nonneg m.cast_nonneg (zpow_nonneg (by norm_num) e)
  refine ⟨_, ⟨(f.decode bits).negative, body, N, E, rfl, hshows, rfl⟩, ?_⟩
  have hsign : |(if (f.decode bits).negative then (-1 : ℚ) else 1)| = 1 := by
    split <;> simp
  rw [← mul_sub, abs_mul, abs_mul, hsign, one_mul, one_mul, abs_of_nonneg hpos]
  exact happrox.mul_abs_sub_le hpos f.precision_pos

/-- **Nearer than half the gap is nearest**, if there are enough digits. -/
theorem abs_sub_lt_abs_sub (hf : f.IsSeparating) {bits' : ℕ} {x y q : ℚ}
    (hx : (f.decode bits).number? = some x) (hy : (f.decode bits').number? = some y) (hne : y ≠ x)
    (hq : 2 * 10 ^ (f.precision - 1) * |q - x| ≤ |x|) : |q - x| < |q - y| := by
  have hgap := FloatValue.abs_le_mul_abs_sub hx hy hne
  have hdist : 0 < |x - y| := abs_pos.2 (sub_ne_zero.2 hne.symm)
  have hdigits : (2 : ℚ) ^ (f.mbits + 1) < 10 ^ (f.precision - 1) := by exact_mod_cast hf
  have hhalf : 10 ^ (f.precision - 1) * (2 * |q - x|) < 10 ^ (f.precision - 1) * |x - y| := by
    calc 10 ^ (f.precision - 1) * (2 * |q - x|) = 2 * 10 ^ (f.precision - 1) * |q - x| := by ring
      _ ≤ |x| := hq
      _ ≤ 2 ^ (f.mbits + 1) * |x - y| := hgap
      _ < 10 ^ (f.precision - 1) * |x - y| := mul_lt_mul_of_pos_right hdigits hdist
  have hlt : 2 * |q - x| < |x - y| := lt_of_mul_lt_mul_left hhalf (by positivity)
  have htriangle : |x - y| ≤ |q - x| + |q - y| := by
    rw [abs_sub_comm q x]
    exact abs_sub_le x q y
  linarith

/-- A finite value is known by its sign and its number. The number alone does not tell the two
zeros apart. -/
theorem decode_eq_of_number? {bits' : ℕ} {x : ℚ}
    (hsign : (f.decode bits).negative = (f.decode bits').negative)
    (hx : (f.decode bits).number? = some x) (hy : (f.decode bits').number? = some x) :
    f.decode bits = f.decode bits' := by
  obtain ⟨m, e, hmag, rfl⟩ := FloatValue.number?_eq_some_iff.1 hx
  obtain ⟨m', e', hmag', heq⟩ := FloatValue.number?_eq_some_iff.1 hy
  have hunsigned : (m : ℚ) * 2 ^ e = m' * 2 ^ e' := by
    rw [hsign] at heq
    exact mul_left_cancel₀ (by split <;> norm_num) heq
  obtain ⟨rfl, rfl⟩ := (FloatValue.inForm_of_ofBits hmag).eq_of_eq
    (FloatValue.inForm_of_ofBits hmag') hunsigned
  exact FloatValue.eq_of_parts hsign (hmag.trans hmag'.symm)

/-- **Different values have different texts**, if there are enough digits. -/
theorem text_ne (hf : f.IsSeparating) {bits' : ℕ} {body body' : String}
    (h : (f.decode bits).magnitude.Written f.precision body)
    (h' : (f.decode bits').magnitude.Written f.precision body')
    (hne : f.decode bits ≠ f.decode bits') :
    (f.decode bits).signColumn ++ body ≠ (f.decode bits').signColumn ++ body' := by
  intro htext
  obtain ⟨hsign, rfl⟩ := signColumn_append_inj htext
  rcases h.eq_or_finite h' rfl with hmag | ⟨m, e, m', e', hmag, hmag'⟩
  · exact hne (FloatValue.eq_of_parts hsign hmag)
  · obtain ⟨x, hx⟩ : ∃ x, (f.decode bits).number? = some x :=
      ⟨_, FloatValue.number?_eq_some_iff.2 ⟨m, e, hmag, rfl⟩⟩
    obtain ⟨y, hy⟩ : ∃ y, (f.decode bits').number? = some y :=
      ⟨_, FloatValue.number?_eq_some_iff.2 ⟨m', e', hmag', rfl⟩⟩
    have hxy : x ≠ y := by
      rintro rfl
      exact hne (decode_eq_of_number? hsign hx hy)
    -- the number shown would be nearer to either of the two than to the other
    obtain ⟨q, hshows, hq⟩ := exists_showsNumber h hx
    obtain ⟨q', hshows', hq'⟩ := exists_showsNumber h' hy
    rw [← htext] at hshows'
    obtain rfl := hshows.unique hshows'
    exact lt_asymm (abs_sub_lt_abs_sub hf hx hy hxy.symm hq) (abs_sub_lt_abs_sub hf hy hx hxy hq')

end FloatFormat

/-! ### Printed numbers read back -/

/-- **Printed floats read back to the same pattern.** Take a format with enough digits, as
single and double precision have, and a pattern of it whose mantissa is not too long to be
written. The pattern has a text, whatever the power table has been used for. If the pattern is
finite, then the text shows one number, and this is strictly nearer to the number of the
pattern than to any other number of the format. Any other pattern has another text, the two
zeros too, unless both patterns are no numbers. -/
theorem renderBits_nearest :
    (FloatFormat.binary32.IsSeparating ∧ FloatFormat.binary64.IsSeparating) ∧
    ∀ f : FloatFormat, f.IsSeparating → ∀ t : PowerTable, t.Reachable →
    ∀ bits < 2 ^ f.width, f.IsWritable bits →
    ∃ text, (renderBits t bits f.ebits f.mbits f.precision).1 = .ok text ∧
      (f.IsWithinReach bits →
        (boundedRenderBits t bits f.ebits f.mbits f.precision).1 = .ok text) ∧
      (∀ x, f.number? bits = some x →
        ∃ q, ShowsNumber text f.precision q ∧ (∀ q', ShowsNumber text f.precision q' → q' = q) ∧
          ∀ bits' < 2 ^ f.width, ∀ y, f.number? bits' = some y → y ≠ x → |q - x| < |q - y|) ∧
      ∀ t' : PowerTable, t'.Reachable → ∀ bits' < 2 ^ f.width, f.IsWritable bits' → bits' ≠ bits →
        ¬(f.IsNaN bits ∧ f.IsNaN bits') →
        ∃ text', (renderBits t' bits' f.ebits f.mbits f.precision).1 = .ok text' ∧
          text' ≠ text := by
  refine ⟨by decide, fun f hf t ht bits hbits hm => ?_⟩
  obtain ⟨body, hwritten, hrender, hbounded⟩ := FloatFormat.exists_renderBits hbits hm ht.sound
  refine ⟨_, hrender, hbounded, fun x hx => ?_, fun t' ht' bits' hbits' hm' hne hnan => ?_⟩
  · rw [← FloatFormat.number?_decode hbits] at hx
    obtain ⟨q, hshows, hq⟩ := FloatFormat.exists_showsNumber hwritten hx
    refine ⟨q, hshows, fun q' hq' => hq'.unique hshows, fun bits' hbits' y hy hne => ?_⟩
    rw [← FloatFormat.number?_decode hbits'] at hy
    exact FloatFormat.abs_sub_lt_abs_sub hf hx hy hne hq
  · obtain ⟨body', hwritten', hrender', -⟩ := FloatFormat.exists_renderBits hbits' hm' ht'.sound
    refine ⟨_, hrender', FloatFormat.text_ne hf hwritten' hwritten fun heq => ?_⟩
    -- patterns that stand for the same are the same, unless they are no numbers
    rw [← FloatFormat.magnitude_decode_eq_nan_iff, ← FloatFormat.magnitude_decode_eq_nan_iff,
      heq, and_self] at hnan
    exact hne (FloatValue.eq_of_ofBits hbits' hbits heq (by rwa [← heq] at hnan))

/-- The single precision pattern next to a tenth, by a table that has kept a power of five and
other things before: nine digits tell it from the pattern just below. -/
theorem renderBits_nearest_tenth :
    FloatFormat.binary32.IsSeparating ∧
      ((PowerTable.empty.step (.power 5 3)).2.step (.render 1 (-2) 4)).2.Reachable ∧
      0x3DCCCCCD < 2 ^ FloatFormat.binary32.width ∧
      FloatFormat.binary32.IsWritable 0x3DCCCCCD ∧
      ∃ q, ShowsNumber " 1.00000001e-01" 9 q ∧
        |q - 13421773 / 2 ^ 27| < |q - 13421772 / 2 ^ 27| := by
  have hreach : ((PowerTable.empty.step (.power 5 3)).2.step (.render 1 (-2) 4)).2.Reachable :=
    (PowerTable.Reachable.empty.step _).step _
  have hwritable : FloatFormat.binary32.IsWritable 0x3DCCCCCD := fun m e h =>
    lt_of_lt_of_le (FloatValue.inForm_of_ofBits h).mantissa_lt
      (le_trans (by norm_num [FloatFormat.binary32] : 2 ^ (FloatFormat.binary32.mbits + 1) ≤ 10 ^ 8)
        (Nat.pow_le_pow_right (by decide) (by decide)))
  obtain ⟨text, hrender, -, hnear, -⟩ := renderBits_nearest.2 FloatFormat.binary32 (by decide) _
    hreach 0x3DCCCCCD (by decide) hwritable
  have htext : (renderBits ((PowerTable.empty.step (.power 5 3)).2.step (.render 1 (-2) 4)).2
      (0x3DCCCCCD : ℕ) FloatFormat.binary32.ebits FloatFormat.binary32.mbits
      FloatFormat.binary32.precision).1.toOption = some " 1.00000001e-01" := by decide +kernel
  rw [hrender, Except.toOption, Option.some.injEq] at htext
  obtain ⟨q, hshows, -, hlt⟩ := hnear (13421773 / 2 ^ 27)
    (by norm_num [FloatFormat.number?, FloatFormat.binary32])
  exact ⟨by decide, hreach, by decide, hwritable, q, htext ▸ hshows,
    hlt 0x3DCCCCCC (by decide) _ (by norm_num [FloatFormat.number?, FloatFormat.binary32])
      (by norm_num)⟩

end Readout
