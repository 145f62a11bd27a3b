import Mathlib.Data.Rat.Floor
import Mathlib.Tactic.FieldSimp
import Readout.Decimal.PowerUse
import Readout.Proofs.Decimal.Places

/-!
# The power tables that can come about

A power table is used by one request after the other, and every request may leave
it changed. What a single request can do to it is little, though: it looks up a
power, or it forgets everything, or it leaves the table alone
(`Readout.PowerTable.step_snd`). So a property of tables that holds of the empty
one and is kept by every look-up holds of every table that can come about
(`Readout.PowerTable.Reachable.of_lookup`).

The property that matters is **soundness** (`Readout.PowerTable.Sound`): what is
kept for an exponent is that power of the base. A look-up in a sound table gives
the power, whether it was kept or had to be put together
(`Readout.PowerTable.value_lookup`).
-/

namespace Readout.PowerTable

/-! ### Soundness -/

/-- **A sound table** keeps nothing but powers, each under its exponent. -/
def Sound (t : PowerTable) : Prop :=
  ∀ (base : Base) (n : ℕ) (p : Decimal), t.find? base n = some p → p.value = base.value ^ n

theorem sound_empty : empty.Sound := by
  intro base n p h
  cases base <;> cases h

@[simp] theorem find?_hit (t : PowerTable) (base : Base) (n : ℕ) :
    t.hit.find? base n = t.find? base n := by
  cases base <;> rfl

/-- Keeping a power changes what is found for its exponent and nothing else. -/
theorem find?_keep (t : PowerTable) (base base' : Base) (n m : ℕ) (p : Decimal) :
    (t.keep base n p).find? base' m =
      if base' = base ∧ m = n then some p else t.find? base' m := by
  by_cases hm : m = n
  · subst hm
    cases base <;> cases base' <;> simp [find?, powers, keep]
  · have hb : (m == n) = false := by simpa using hm
    cases base <;> cases base' <;> simp [find?, powers, keep, List.lookup_cons, hb, hm]

theorem Sound.hit {t : PowerTable} (h : t.Sound) : t.hit.Sound := by
  intro base n p hp
  exact h base n p (by rwa [find?_hit] at hp)

/-- A table stays sound if a power is kept under its own exponent. -/
theorem Sound.keep {t : PowerTable} (h : t.Sound) {base : Base} {n : ℕ} {p : Decimal}
    (hp : p.value = base.value ^ n) : (t.keep base n p).Sound := by
  intro base' m q hq
  rw [find?_keep] at hq
  split at hq
  · rename_i heq
    cases hq
    rw [heq.1, heq.2, hp]
  · exact h base' m q hq

/-- **A look-up in a sound table gives the power**, and leaves a sound table. -/
theorem lookup_of_sound {t : PowerTable} (h : t.Sound) (base : Base) (n : ℕ) :
    (lookup base n t).1.value = base.value ^ n ∧ (lookup base n t).2.Sound := by
  fun_induction PowerTable.lookup base n t with
  | case1 n t p hp =>
    -- what the table holds is right by assumption
    exact ⟨h base n p hp, h.hit⟩
  | case2 n t hn hle p =>
    have hval : p.value = base.value ^ n := by
      rcases Nat.le_one_iff_eq_zero_or_eq_one.1 hle with rfl | rfl
      · exact Decimal.value_ofNat _
      · rw [pow_one]
        exact Decimal.value_ofNat _
    exact ⟨hval, h.keep hval⟩
  | case3 n t hn hle hlow half p ih =>
    -- a power of two above one is even, so its half squared is the whole
    obtain ⟨hhalf, hsound⟩ := ih h
    have heven : n / 2 + n / 2 = n := by
      have hlow' := hlow
      rw [lowBit] at hlow'
      split at hlow'
      · omega
      · split at hlow' <;> omega
    have hval : p.value = base.value ^ n := by
      rw [show p.value = half.1.value * half.1.value from Decimal.value_mul _ _, hhalf, ← pow_add,
        heven]
    exact ⟨hval, hsound.keep hval⟩
  | case4 n t hn hle hlow hle' hpos high low p ih₁ ih₂ =>
    -- the second look-up is made in the table that the first one leaves
    obtain ⟨hhigh, hsound₁⟩ := ih₁ h
    obtain ⟨hlowval, hsound₂⟩ := ih₂ hsound₁
    have hval : p.value = base.value ^ n := by
      rw [show p.value = high.1.value * low.1.value from Decimal.value_mul _ _, hhigh, hlowval,
        ← pow_add, Nat.sub_add_cancel hle']
    exact ⟨hval, hsound₂.keep hval⟩

/-- The power that a sound table gives. -/
theorem value_lookup {t : PowerTable} (h : t.Sound) (base : Base) (n : ℕ) :
    (lookup base n t).1.value = base.value ^ n :=
  (lookup_of_sound h base n).1

/-- The power itself, which does not depend on the table. -/
theorem lookup_eq {t : PowerTable} (h : t.Sound) (base : Base) (n : ℕ) :
    (lookup base n t).1 = Decimal.ofNat (base.value ^ n) :=
  Decimal.value_injective (by rw [value_lookup h, Decimal.value_ofNat])

/-! ### Within reach -/

/-- A number has no more bits that are set than bits. -/
theorem bitCount_le (n : ℕ) : bitCount n ≤ n.log2 + 1 := by
  induction n using Nat.strongRecOn with
  | ind n ih =>
    rw [bitCount, Nat.log2_def]
    split
    · omega
    · have hhalf := ih (n / 2) (by omega)
      split
      · omega
      · -- the only number left is one
        obtain rfl : n = 1 := by omega
        have hzero : bitCount (1 / 2) = 0 := by rw [bitCount, if_pos (by decide)]
        rw [hzero]

/-- **Short exponents are within reach**, since every bit takes two look-ups at most. -/
theorem isWithinReach_of_lt {n : ℕ} (h : n < 2 ^ (maxOpenLookups / 2)) :
    isWithinReach n = true := by
  have hlog : n.log2 < maxOpenLookups / 2 := by
    rcases eq_or_ne n 0 with rfl | hne
    · decide
    · exact (Nat.log2_lt hne).2 h
  have hbits := bitCount_le n
  rw [isWithinReach, openLookups, Int.natAbs_natCast, Bool.and_eq_true, decide_eq_true_iff,
    decide_eq_true_iff]
  omega

/-! ### What a step does to the table -/

/-- The power that scales a number: a power of two for a positive exponent, a power of five for
a negative one, and none for zero. -/
def scaleDemand? (exponent : ℤ) : Option (Base × ℕ) :=
  if 0 < exponent then some (.two, exponent.toNat)
  else if exponent < 0 then some (.five, (-exponent).toNat)
  else none

/-- The power that a request asks for, if it is accepted. -/
def powerDemand? (base exponent : ℤ) : Option (Base × ℕ) :=
  if 0 ≤ exponent ∧ isWithinReach exponent then
    (Base.ofInt? base).map fun b => (b, exponent.toNat)
  else none

/-- The power that is asked for when a number is written, if it is accepted. -/
def numberDemand? (mantissa exponent precision : ℤ) : Option (Base × ℕ) :=
  if 0 ≤ mantissa ∧ 1 ≤ precision ∧ Numeral.isWritable mantissa ∧ isWithinReach exponent then
    scaleDemand? exponent
  else none

/-- The power that is asked for when a bit pattern is written. Infinity and what is no number
ask for none. -/
def bitsDemand? (bits ebits mbits precision : ℤ) : Option (Base × ℕ) :=
  match widthExcess? bits ebits mbits with
  | some _ => none
  | none =>
    match FloatValue.read bits ebits mbits with
    | .ok ⟨_, .finite mantissa exponent⟩ => numberDemand? mantissa exponent precision
    | _ => none

/-- **The power that a step asks a table for.** A step that is refused asks for none. -/
def Step.demand? : Step → Option (Base × ℕ)
  | .power base exponent => powerDemand? base exponent
  | .scaled base exponent _ => powerDemand? base exponent
  | .render mantissa exponent precision => numberDemand? mantissa exponent precision
  | .renderBits bits ebits mbits precision => bitsDemand? bits ebits mbits precision
  | .contains _ _ => none
  | .clear => none

/-- The table after a power was looked up in it, if one was asked for. -/
def serve (t : PowerTable) : Option (Base × ℕ) → PowerTable
  | none => t
  | some d => (lookup d.1 d.2 t).2

theorem boundedRequest_snd (t : PowerTable) (base exponent : ℤ) :
    (t.boundedRequest base exponent).2 = t.serve (powerDemand? base exponent) := by
  unfold boundedRequest request powerDemand?
  cases Base.ofInt? base with
  | none => simp [serve]
  | some b =>
    by_cases hneg : exponent < 0
    · simp [serve, hneg, Int.not_le.2 hneg]
    · cases isWithinReach exponent with
      | false => simp [serve, Int.not_lt.1 hneg]
      | true => simp [serve, hneg, Int.not_lt.1 hneg]

theorem scale_snd (t : PowerTable) (exponent : ℤ) :
    (t.scale exponent).2.2 = t.serve (scaleDemand? exponent) := by
  unfold scale scaleDemand?
  split_ifs <;> rfl

/-- What is asked before a number is written with the help of a table: it must not be
negative, a digit must be asked for, and the mantissa must not be too long. -/
theorem tableFor_table (t : PowerTable) (mantissa precision : ℤ) :
    (PowerSource.table t).tableFor mantissa precision =
      if mantissa < 0 then .error (.negativeMantissa mantissa)
      else if precision < 1 then .error (.badPrecision precision)
      else if Numeral.isWritable mantissa then .ok t
      else .error .oversized := by
  simp only [PowerSource.tableFor, PowerSource.table?, bind, Except.bind, pure, Except.pure]
  by_cases hm : mantissa < 0
  · simp [hm]
  · by_cases hp : precision < 1
    · simp [hm, hp]
    · cases hw : Numeral.isWritable mantissa with
      | false => simp [hm, hp]
      | true => simp [hm, hp]

/-- **When a number can be written with the help of a table.** -/
theorem tableFor_table_eq_ok_iff {t t' : PowerTable} {mantissa precision : ℤ} :
    (PowerSource.table t).tableFor mantissa precision = .ok t' ↔
      0 ≤ mantissa ∧ 1 ≤ precision ∧ Numeral.isWritable mantissa = true ∧ t' = t := by
  rw [tableFor_table]
  split_ifs with hm hp hw
  · simp [hm]
  · simp [hp]
  · rw [Except.ok.injEq]
    exact ⟨fun h => ⟨not_lt.1 hm, not_lt.1 hp, hw, h.symm⟩, fun h => h.2.2.2.symm⟩
  · simp [hw]

/-- Whether a number can be written, and why not, is the same for all tables. -/
theorem tableFor_table_cases (mantissa precision : ℤ) :
    (∃ e, ∀ t, (PowerSource.table t).tableFor mantissa precision = .error e) ∨
      ∀ t, (PowerSource.table t).tableFor mantissa precision = .ok t := by
  simp only [tableFor_table]
  split_ifs
  · exact Or.inl ⟨_, fun _ => rfl⟩
  · exact Or.inl ⟨_, fun _ => rfl⟩
  · exact Or.inr fun _ => rfl
  · exact Or.inl ⟨_, fun _ => rfl⟩

/-- A number scaled by a power of two, up to the power of ten that remains. -/
def scaled (t : PowerTable) (m : Decimal) (exponent : ℤ) : Decimal :=
  match (t.scale exponent).1 with
  | some f => m.mul f
  | none => m

/-- **How a number is written** once it is known which table to use. -/
theorem renderFrom_of_tableFor {source : PowerSource} {t : PowerTable}
    {mantissa precision : ℤ} (h : source.tableFor mantissa precision = .ok t) (exponent : ℤ) :
    renderFrom source mantissa exponent precision =
      .ok (((t.scaled (Decimal.ofNat mantissa.toNat) exponent).toScientific
        (t.scale exponent).2.1 precision.toNat).text, (t.scale exponent).2.2) := by
  unfold renderFrom
  rw [h]
  rfl

theorem boundedRender_snd (t : PowerTable) (mantissa exponent precision : ℤ) :
    (boundedRender t mantissa exponent precision).2 =
      t.serve (numberDemand? mantissa exponent precision) := by
  unfold boundedRender boundedRenderFrom
  cases hsrc : (PowerSource.table t).tableFor mantissa precision with
  | error e =>
    have hnone : numberDemand? mantissa exponent precision = none := by
      refine if_neg ?_
      rintro ⟨hm, hp, hw, -⟩
      rw [tableFor_table_eq_ok_iff.2 ⟨hm, hp, hw, rfl⟩] at hsrc
      cases hsrc
    rw [hnone]
    rfl
  | ok t₀ =>
    obtain ⟨hm, hp, hw, rfl⟩ := tableFor_table_eq_ok_iff.1 hsrc
    unfold numberDemand?
    cases hreach : isWithinReach exponent with
    | false => simp [bind, Except.bind, serve]
    | true =>
      rw [renderFrom_of_tableFor hsrc, if_pos (show 0 ≤ mantissa ∧ _ from ⟨hm, hp, hw, rfl⟩)]
      exact t₀.scale_snd exponent

theorem boundedRenderBits_snd (t : PowerTable) (bits ebits mbits precision : ℤ) :
    (boundedRenderBits t bits ebits mbits precision).2 =
      t.serve (bitsDemand? bits ebits mbits precision) := by
  unfold boundedRenderBits bitsDemand?
  cases widthExcess? bits ebits mbits with
  | some what => rfl
  | none =>
    cases FloatValue.read bits ebits mbits with
    | error e => rfl
    | ok x =>
      obtain ⟨negative, magnitude⟩ := x
      cases magnitude with
      | infinite => rfl
      | nan => rfl
      | finite mantissa exponent =>
        have hnumber := t.boundedRender_snd mantissa exponent precision
        unfold FloatValue.text
        dsimp only
        generalize boundedRender t mantissa exponent precision = r at hnumber
        obtain ⟨answer, t'⟩ := r
        cases answer <;> exact hnumber

/-- **What a step does to a table**: the power that it asks for is looked up, or everything is
forgotten. -/
theorem step_snd (t : PowerTable) (s : Step) :
    (t.step s).2 = if s = .clear then empty else t.serve s.demand? := by
  cases s with
  | power base exponent =>
    have hrequest := t.boundedRequest_snd base exponent
    rw [step, if_neg (by simp)]
    generalize t.boundedRequest base exponent = r at hrequest
    obtain ⟨answer, t'⟩ := r
    cases answer <;> exact hrequest
  | scaled base exponent factor =>
    have hrequest := t.boundedRequest_snd base exponent
    rw [step, if_neg (by simp)]
    generalize t.boundedRequest base exponent = r at hrequest
    obtain ⟨answer, t'⟩ := r
    cases answer with
    | error e => exact hrequest
    | ok p => cases Decimal.ofInt factor 0 0 <;> exact hrequest
  | contains base exponent => rfl
  | clear => rfl
  | render mantissa exponent precision =>
    have hnumber := t.boundedRender_snd mantissa exponent precision
    rw [step, if_neg (by simp)]
    generalize boundedRender t mantissa exponent precision = r at hnumber
    obtain ⟨answer, t'⟩ := r
    cases answer <;> exact hnumber
  | renderBits bits ebits mbits precision =>
    have hbits := t.boundedRenderBits_snd bits ebits mbits precision
    rw [step, if_neg (by simp)]
    generalize boundedRenderBits t bits ebits mbits precision = r at hbits
    obtain ⟨answer, t'⟩ := r
    cases answer <;> exact hbits

/-! ### Tables that can come about -/

/-- **The tables that can come about**: the empty one, and whatever steps make of
it. -/
inductive Reachable : PowerTable → Prop
  /-- A table starts empty. -/
  | empty : Reachable empty
  /-- Every step may change it. -/
  | step {t : PowerTable} (h : Reachable t) (s : Step) : Reachable (t.step s).2

/-- **The induction on what has happened to a table**: only look-ups count. -/
theorem Reachable.of_lookup {P : PowerTable → Prop} (hempty : P PowerTable.empty)
    (hlookup : ∀ t b n, P t → P (lookup b n t).2) {t : PowerTable} (h : t.Reachable) : P t := by
  induction h with
  | empty => exact hempty
  | @step t _ s ih =>
    rw [step_snd]
    split_ifs
    · exact hempty
    · cases s.demand? with
      | none => exact ih
      | some d => exact hlookup t d.1 d.2 ih

/-- **Every table that can come about is sound.** -/
theorem Reachable.sound {t : PowerTable} (h : t.Reachable) : t.Sound :=
  h.of_lookup sound_empty fun _ b n ht => (lookup_of_sound ht b n).2

/-! ### Scaling -/

/-- **Scaling is exact**: the factor of a sound table makes of the mantissa a natural
number, and what is left over is a power of ten. A negative power of two is a power
of five and a negative power of ten. -/
theorem Sound.value_scaled {t : PowerTable} (h : t.Sound) (m : Decimal) (exponent : ℤ) :
    ((t.scaled m exponent).value : ℚ) * 10 ^ (t.scale exponent).2.1 = m.value * 2 ^ exponent := by
  rcases lt_trichotomy exponent 0 with hneg | rfl | hpos
  · -- a half is five tenths
    obtain ⟨n, rfl⟩ : ∃ n : ℕ, exponent = -n := ⟨exponent.natAbs, by omega⟩
    have hscale : t.scale (-n) =
        (some (lookup .five n t).1, -(n : ℤ), (lookup .five n t).2) := by
      rw [scale, if_neg (by omega), if_pos hneg, neg_neg, Int.toNat_natCast]
    rw [scaled, hscale]
    dsimp only
    rw [Decimal.value_mul, value_lookup h, Base.value]
    push_cast
    rw [zpow_neg, zpow_neg, zpow_natCast, zpow_natCast, mul_assoc,
      show (10 : ℚ) = 5 * 2 by norm_num, mul_pow]
    field_simp
  · rw [show t.scaled m 0 = m from rfl, show (t.scale 0).2.1 = 0 from rfl, zpow_zero, zpow_zero]
  · obtain ⟨n, rfl⟩ : ∃ n : ℕ, exponent = n := ⟨exponent.natAbs, by omega⟩
    have hscale : t.scale n = (some (lookup .two n t).1, 0, (lookup .two n t).2) := by
      rw [scale, if_pos hpos, Int.toNat_natCast]
    rw [scaled, hscale]
    dsimp only
    rw [Decimal.value_mul, value_lookup h, Base.value]
    push_cast
    rw [mul_one, zpow_natCast]

/-! ### One sound table is as good as another -/

section Texts

variable {t t' : PowerTable} (h : t.Sound) (h' : t'.Sound)

include h h'

theorem Sound.scale_eq (exponent : ℤ) :
    (t.scale exponent).1 = (t'.scale exponent).1 ∧
      (t.scale exponent).2.1 = (t'.scale exponent).2.1 := by
  unfold scale
  by_cases hpos : 0 < exponent
  · rw [if_pos hpos, if_pos hpos]
    exact ⟨congrArg some ((lookup_eq h _ _).trans (lookup_eq h' _ _).symm), rfl⟩
  · rw [if_neg hpos, if_neg hpos]
    by_cases hneg : exponent < 0
    · rw [if_pos hneg, if_pos hneg]
      exact ⟨congrArg some ((lookup_eq h _ _).trans (lookup_eq h' _ _).symm), rfl⟩
    · rw [if_neg hneg, if_neg hneg]
      exact ⟨rfl, rfl⟩

/-- **The text of a number does not depend on the table**, nor does the reason why there is
none. -/
theorem Sound.boundedRender_eq (mantissa exponent precision : ℤ) :
    (boundedRender t mantissa exponent precision).1 =
      (boundedRender t' mantissa exponent precision).1 := by
  unfold boundedRender boundedRenderFrom
  rcases tableFor_table_cases mantissa precision with ⟨e, herror⟩ | hok
  · rw [herror t, herror t']
    rfl
  · rw [renderFrom_of_tableFor (hok t), renderFrom_of_tableFor (hok t'), hok t, hok t']
    cases isWithinReach exponent with
    | false => rfl
    | true =>
      obtain ⟨hfactor, hpower⟩ := Sound.scale_eq h h' exponent
      unfold scaled
      rw [hfactor, hpower]
      rfl

/-- The same is true of bit patterns. -/
theorem Sound.boundedRenderBits_eq (bits ebits mbits precision : ℤ) :
    (boundedRenderBits t bits ebits mbits precision).1 =
      (boundedRenderBits t' bits ebits mbits precision).1 := by
  unfold boundedRenderBits
  split
  · rfl
  · split
    · rename_i x _
      unfold FloatValue.text
      split
      · rfl
      · rfl
      · rename_i mantissa exponent _
        have hnumber := Sound.boundedRender_eq h h' mantissa exponent precision
        dsimp only
        generalize boundedRender t mantissa exponent precision = r at hnumber
        generalize boundedRender t' mantissa exponent precision = r' at hnumber
        obtain ⟨answer, t₁⟩ := r
        obtain ⟨answer', t₂⟩ := r'
        cases hnumber
        cases answer <;> rfl
    · rfl

end Texts

end Readout.PowerTable
