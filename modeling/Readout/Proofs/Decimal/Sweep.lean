import Readout.Decimal.InPlace
import Readout.Proofs.Decimal.Places

/-!
# A carry pass keeps the value

Between two positions (`Readout.Sweep.Between`) a carry pass has digits behind it, down to its
start, and the entries as they were ahead of it. The number is in three parts: what the digits stand
for, what the entries ahead stand for, and what is carried, which counts as much as a one at the
next position. One position changes the parts and not their sum (`Readout.Sweep.Between.next`), so
a whole pass does not change it either (`Readout.Sweep.Between.exists_run`).

There are two ways to end. Either no entry is ahead, or nothing is carried and the entries ahead are
digits. In both of them all entries from the start upward are digits, and they stand for the number
up to what is carried beyond the last of them (`Readout.Digits.ended_sweep`). So something is
carried there exactly if the number does not fit (`Readout.Digits.sweep_settles`).
-/

namespace Readout

open Digits

namespace Sweep

variable {low settled ahead : List ℕ} {total stop d : ℕ} {s : Sweep}

/-- **A pass between two positions.** What is below its start is `low`, the digits from there up to
its next position are `settled`, and the entries from that one on, which it has not come to, are
`ahead`. -/
structure Between (low settled ahead : List ℕ) (total : ℕ) (s : Sweep) : Prop where
  /-- These are the entries, -/
  entries : s.entries = low ++ settled ++ ahead
  /-- the next position is behind the digits, -/
  position : s.position = (low ++ settled).length
  /-- they are digits, -/
  areDigits : AreDigits settled
  /-- and the number is in the digits, the carry and the entries ahead. -/
  value : value settled + 10 ^ settled.length * (s.carry + value ahead) = total

/-- **What is done at a position** changes the entry there, and nothing else. -/
theorem next_eq (behind ahead : List ℕ) (d carry : ℕ) :
    next ⟨behind ++ d :: ahead, behind.length, carry⟩ =
      ⟨behind ++ [(carry + d) % 10] ++ ahead, (behind ++ [(carry + d) % 10]).length,
        (carry + d) / 10⟩ := by
  simp [next]

theorem value_append_singleton (ds : List ℕ) (d : ℕ) :
    Digits.value (ds ++ [d]) = Digits.value ds + 10 ^ ds.length * d := by
  rw [value_append, weight_eq_pow, value_cons, value_nil, Nat.mul_zero, Nat.add_zero]

/-- **One position** takes its entry from ahead and leaves a digit behind. -/
theorem Between.next (h : Between low settled (d :: ahead) total s) :
    Between low (settled ++ [(s.carry + d) % 10]) ahead total s.next := by
  obtain ⟨entries, position, carry⟩ := s
  obtain ⟨hentries, hposition, hdigits, hvalue⟩ := h
  dsimp only at hentries hposition hvalue ⊢
  subst hentries hposition
  rw [next_eq]
  refine ⟨by simp, by simp, ?_, ?_⟩
  · intro e he
    rcases List.mem_append.1 he with he | he
    · exact hdigits e he
    · rw [List.mem_singleton.1 he]
      exact Nat.mod_lt _ (by decide)
  · -- the entry and the carry are ten times what is carried on, and the digit that is left
    have hsplit := Nat.mod_add_div (carry + d) 10
    rw [value_append_singleton, List.length_append, List.length_singleton, ← hvalue, value_cons]
    dsimp only
    rw [pow_succ]
    calc Digits.value settled + 10 ^ settled.length * ((carry + d) % 10) +
          10 ^ settled.length * 10 * ((carry + d) / 10 + Digits.value ahead)
        = Digits.value settled + 10 ^ settled.length *
            ((carry + d) % 10 + 10 * ((carry + d) / 10) + 10 * Digits.value ahead) := by ring
      _ = Digits.value settled + 10 ^ settled.length * (carry + (d + 10 * Digits.value ahead)) := by
        rw [hsplit, Nat.add_assoc]

/-- **A whole pass** ends between two positions too: with no entry ahead of it, or with digits ahead
and nothing carried. -/
theorem Between.exists_run (h : Between low settled ahead total s)
    (hahead : AreDigits (ahead.drop (stop - s.position))) :
    ∃ settled' ahead', Between low settled' ahead' total (run stop ahead.length s) ∧
      settled'.length + ahead'.length = settled.length + ahead.length ∧ AreDigits ahead' ∧
      (ahead' = [] ∨ (run stop ahead.length s).carry = 0) := by
  induction ahead generalizing settled s with
  | nil => exact ⟨settled, [], h, rfl, fun e he => absurd he List.not_mem_nil, Or.inl rfl⟩
  | cons d ahead ih =>
    rw [List.length_cons, run]
    split
    · -- the pass ends here, and what is ahead has been digits from the beginning
      rename_i hsettled
      rw [isSettled, Bool.and_eq_true, decide_eq_true_eq, beq_iff_eq] at hsettled
      rw [Nat.sub_eq_zero_of_le hsettled.1, List.drop_zero] at hahead
      exact ⟨settled, d :: ahead, h, rfl, hahead, Or.inr hsettled.2⟩
    · have hposition : s.next.position = s.position + 1 := rfl
      have hdrop : AreDigits (ahead.drop (stop - s.next.position)) := by
        intro e he
        refine hahead e ?_
        rw [hposition] at he
        rcases Nat.eq_zero_or_pos (stop - s.position) with hzero | hpos
        · rw [hzero, List.drop_zero]
          exact List.mem_cons_of_mem d (List.mem_of_mem_drop he)
        · rwa [← Nat.sub_add_cancel hpos, List.drop_succ_cons, Nat.sub_sub]
      obtain ⟨settled', ahead', hbetween, hlength, hdigits, hend⟩ := ih h.next hdrop
      refine ⟨settled', ahead', hbetween, ?_, hdigits, hend⟩
      rw [hlength, List.length_append, List.length_singleton]
      omega

/-- **A pass that may end** has digits from its start upward, and they stand for the number up to
what is carried. -/
theorem Between.ends (h : Between low settled ahead total s) (hahead : AreDigits ahead)
    (hend : ahead = [] ∨ s.carry = 0) : AreDigits (settled ++ ahead) ∧
      Digits.value (settled ++ ahead) + 10 ^ (settled ++ ahead).length * s.carry = total := by
  refine ⟨areDigits_append h.areDigits hahead, ?_⟩
  rw [value_append, weight_eq_pow, ← h.value]
  rcases hend with rfl | hcarry
  · rw [List.append_nil, value_nil, Nat.mul_zero, Nat.add_zero, Nat.add_zero]
  · rw [hcarry, Nat.mul_zero, Nat.add_zero, Nat.zero_add]

/-- **A pass does what is done to the entries ahead of it**: the carry pass leaves what a pass in
place leaves, unless something is carried beyond the last entry. -/
theorem map_carryPass (stop : ℕ) (behind ahead : List ℕ) (carry : ℕ) :
    (carryPass (stop - behind.length) carry ahead).map (behind ++ ·) =
      if (run stop ahead.length ⟨behind ++ ahead, behind.length, carry⟩).carry = 0 then
        some (run stop ahead.length ⟨behind ++ ahead, behind.length, carry⟩).entries
      else none := by
  induction ahead generalizing behind carry with
  | nil => cases carry <;> simp [carryPass, run]
  | cons d ahead ih =>
    rw [List.length_cons, run]
    split
    · rename_i hsettled
      rw [isSettled, Bool.and_eq_true, decide_eq_true_eq, beq_iff_eq] at hsettled
      obtain ⟨hstop, rfl⟩ : stop ≤ behind.length ∧ carry = 0 := hsettled
      rw [Nat.sub_eq_zero_of_le hstop, carryPass, Option.map_some, if_pos rfl]
    · rename_i hsettled
      have hstep : carryPass (stop - behind.length) carry (d :: ahead) =
          (carryPass (stop - behind.length - 1) ((carry + d) / 10) ahead).map
            ((carry + d) % 10 :: ·) := by
        rw [carryPass]
        intro hwindow hcarry
        refine hsettled ?_
        rw [isSettled, Bool.and_eq_true, decide_eq_true_eq, beq_iff_eq]
        exact ⟨Nat.le_of_sub_eq_zero hwindow, hcarry⟩
      rw [next_eq, ← ih, hstep, Option.map_map, List.length_append, List.length_singleton,
        Nat.sub_sub]
      refine congrArg (Option.map · _) (funext fun rest => ?_)
      rw [Function.comp_apply, List.append_assoc, List.singleton_append]

end Sweep

namespace Digits

variable {ds : List ℕ} {start stop : ℕ}

/-- **The carry pass and the carry pass in place**: there is a result unless something is carried
beyond the last entry, and then it is what stands in place. -/
theorem normalise_eq_sweep (stop : ℕ) (h : start ≤ ds.length) :
    normalise start stop ds =
      if (sweep start stop ds).carry = 0 then some (sweep start stop ds).entries else none := by
  have hpass := Sweep.map_carryPass stop (ds.take start) (ds.drop start) 0
  rw [List.take_append_drop, List.length_take_of_le h, List.length_drop] at hpass
  exact hpass

/-- **A pass that has ended.** -/
structure Ended (start : ℕ) (ds : List ℕ) (s : Sweep) : Prop where
  /-- There are as many entries as before, -/
  length : s.entries.length = ds.length
  /-- and what is below the start is as it was. -/
  take : s.entries.take start = ds.take start
  /-- From the start upward all entries are digits. -/
  areDigits : AreDigits (s.entries.drop start)
  /-- They have kept the value, up to what is carried beyond the last of them. -/
  value : value (s.entries.drop start) + 10 ^ (ds.length - start) * s.carry = value (ds.drop start)
  /-- A pass that has not come to the last entry carries nothing. -/
  early : s.position < ds.length → s.carry = 0

/-- **A pass ends like this**, if the entries from `stop` on are digits. -/
theorem ended_sweep (hstart : start ≤ ds.length) (hdigits : AreDigits (ds.drop (max start stop))) :
    Ended start ds (sweep start stop ds) := by
  have hlow : (ds.take start).length = start := List.length_take_of_le hstart
  have hbegin : Sweep.Between (ds.take start) [] (ds.drop start) (value (ds.drop start))
      ⟨ds, start, 0⟩ :=
    ⟨by rw [List.append_nil, List.take_append_drop], by rw [List.append_nil, hlow],
      fun e he => absurd he List.not_mem_nil, by simp⟩
  have hahead : AreDigits ((ds.drop start).drop (stop - start)) := by
    rwa [List.drop_drop, show start + (stop - start) = max start stop by omega]
  obtain ⟨settled, ahead, hbetween, hlength, hrest, hend⟩ := hbegin.exists_run hahead
  rw [List.length_drop] at hbetween hend
  rw [List.length_nil, Nat.zero_add, List.length_drop] at hlength
  change Sweep.Between _ _ _ _ (sweep start stop ds) at hbetween
  change ahead = [] ∨ (sweep start stop ds).carry = 0 at hend
  generalize sweep start stop ds = s at hbetween hend ⊢
  obtain ⟨hdrop, hvalue⟩ := hbetween.ends hrest hend
  have hentries : s.entries = ds.take start ++ (settled ++ ahead) := by
    rw [hbetween.entries, List.append_assoc]
  refine ⟨?_, ?_, ?_, ?_, fun hlt => ?_⟩
  · rw [hentries, List.length_append, List.length_append, hlow, hlength]
    omega
  · rw [hentries, List.take_left' hlow]
  · rwa [hentries, List.drop_left' hlow]
  · rwa [hentries, List.drop_left' hlow, ← hlength, ← List.length_append]
  · refine hend.resolve_left fun hnil => ?_
    rw [hnil, List.length_nil] at hlength
    rw [hbetween.position, List.length_append, hlow] at hlt
    omega

/-- **The contract of the carry pass.** Take any entries, a start among them or right behind them,
and a position `stop` such that the entries from the start upward are digits from there on.

* The pass leaves what is below its start as it was, and the number of entries; from its start
  upward it leaves digits.
* If it ends before the last entry, then nothing is carried.
* If the value of the entries from the start upward fits in their places, then nothing is carried
  beyond the last of them, so there is a result, and it has kept that value.
* Otherwise something is carried beyond the last of them, so there is no result. -/
theorem sweep_settles (hstart : start ≤ ds.length)
    (hdigits : AreDigits (ds.drop (max start stop))) :
    let after := sweep start stop ds
    (after.entries.take start = ds.take start ∧ after.entries.length = ds.length ∧
      AreDigits (after.entries.drop start)) ∧
    (after.position < ds.length → after.carry = 0) ∧
    (value (ds.drop start) < 10 ^ (ds.length - start) →
      after.carry = 0 ∧ normalise start stop ds = some after.entries ∧
        value (after.entries.drop start) = value (ds.drop start)) ∧
    (10 ^ (ds.length - start) ≤ value (ds.drop start) →
      after.carry ≠ 0 ∧ normalise start stop ds = none) := by
  intro after
  have hended : Ended start ds after := ended_sweep hstart hdigits
  have hvalue := hended.value
  have hplaces : value (after.entries.drop start) < 10 ^ (ds.length - start) := by
    have hlt := value_lt hended.areDigits
    rwa [weight_eq_pow, List.length_drop, hended.length] at hlt
  -- what is carried is the quotient by the weight behind the last place
  have hcarry : after.carry = 0 ↔ value (ds.drop start) < 10 ^ (ds.length - start) := by
    constructor
    · intro hzero
      rw [hzero, Nat.mul_zero, Nat.add_zero] at hvalue
      rwa [← hvalue]
    · intro hfits
      by_contra hne
      have hle := Nat.le_mul_of_pos_right (10 ^ (ds.length - start)) (Nat.pos_of_ne_zero hne)
      omega
  have hresult : normalise start stop ds = if after.carry = 0 then some after.entries else none :=
    normalise_eq_sweep stop hstart
  refine ⟨⟨hended.take, hended.length, hended.areDigits⟩, hended.early, fun hfits => ?_,
    fun hover => ?_⟩
  · have hzero := hcarry.2 hfits
    rw [hzero, Nat.mul_zero, Nat.add_zero] at hvalue
    exact ⟨hzero, by rw [hresult, if_pos hzero], hvalue⟩
  · have hne : after.carry ≠ 0 := fun hzero => Nat.not_lt.2 hover (hcarry.1 hzero)
    exact ⟨hne, by rw [hresult, if_neg hne]⟩

/-- A pass that ends in front of a digit, with an entry below its start that is no digit, and a pass
that carries something beyond the last entry. -/
theorem sweep_settles_early :
    AreDigits ([70, 25, 117, 4, 0, 9].drop (max 1 3)) ∧
      normalise 1 3 [70, 25, 117, 4, 0, 9] = some [70, 5, 9, 5, 1, 9] ∧
      (sweep 1 3 [70, 25, 117, 4, 0, 9]).position = 5 ∧
      value [5, 9, 5, 1, 9] = value [25, 117, 4, 0, 9] ∧
      AreDigits ([70, 25, 99].drop (max 1 3)) ∧ normalise 1 3 [70, 25, 99] = none := by
  have hdigits : AreDigits ([70, 25, 117, 4, 0, 9].drop (max 1 3)) := by
    unfold AreDigits
    decide
  have hnone : AreDigits ([70, 25, 99].drop (max 1 3)) := by
    unfold AreDigits
    decide
  have hfits := (sweep_settles (by decide : 1 ≤ [70, 25, 117, 4, 0, 9].length) hdigits).2.2.1
    (by decide)
  have hover := (sweep_settles (by decide : 1 ≤ [70, 25, 99].length) hnone).2.2.2 (by decide)
  exact ⟨hdigits, hfits.2.1, by decide, hfits.2.2, hnone, hover.2⟩

end Digits

end Readout
