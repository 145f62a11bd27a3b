import Mathlib.Data.List.Induction
import Readout.Decimal.InPlace
import Readout.Decimal.PowerUse

/-!
# Arithmetic in place is exact

A product in place overwrites its receiver from the most significant digit down, and the places that
one digit adds to are those that the digits above it have added to already. What holds between two
rounds is this: below the position that has been reached the receiver is still what it was, and from
that position on it is the product of the digits that have been taken out, with room for those that
are to come (`Readout.DigitMemory.mulRounds_eq`). A round makes of the one product the next
(`Readout.Digits.mulRound_append`), which is the recursion of `Readout.Digits.mulUntrimmed`; and
that no carry is left over is a matter of the recursion alone.

So sums and products in place are those of digit sequences, put where the first operand was
(`Readout.DigitMemory.addInPlace_eq`, `Readout.DigitMemory.mulInPlace_eq`). This is also what
callers of a power table do to the numbers that they hold
(`Readout.PowerCells.digits_inPlace`).
-/

namespace Readout

/-! ### Working above a position -/

namespace Digits

/-- Adding from a position on leaves what is below it. -/
theorem addFrom_append (k : ℕ) {rs high : List ℕ} (low : List ℕ) (h : rs.length ≤ high.length) :
    addFrom k low.length rs (low ++ high) = some (low ++ addScaled k high rs) := by
  induction rs generalizing low high with
  | nil => rw [addFrom, addScaled]
  | cons r rs ih =>
    rcases high with - | ⟨d, high⟩
    · exact absurd h (Nat.not_succ_le_zero _)
    · -- the entry that was added to is below the next position
      have hd : (low ++ d :: high)[low.length]? = some d := by simp
      have hset : (low ++ d :: high).set low.length (d + r * k) = low ++ [d + r * k] ++ high := by
        simp
      have hlen : low.length + 1 = (low ++ [d + r * k]).length := by simp
      rw [addFrom, hd]
      dsimp only
      rw [hset, hlen, ih _ (Nat.le_of_succ_le_succ h), addScaled, Nat.mul_comm, List.append_assoc,
        List.singleton_append]

/-- The carry pass from a position on leaves what is below it. -/
theorem normalise_append (low high : List ℕ) (window : ℕ) :
    normalise low.length (low.length + window) (low ++ high) =
      (carryPass window 0 high).map (low ++ ·) := by
  rw [normalise, List.drop_left, List.take_left, Nat.add_sub_cancel_left]

/-- **What a round of a product does**: nothing below its position, and from there on one turn of
the recursion. -/
theorem mulRound_append {bs low highs above : List ℕ} (d : ℕ)
    (habove : mulUntrimmed bs highs = some above) (h : bs.length ≤ above.length) :
    mulRound bs low.length (low ++ d :: above) = (mulUntrimmed bs (d :: highs)).map (low ++ ·) := by
  have hd : (low ++ d :: above)[low.length]? = some d := by simp
  have hset : (low ++ d :: above).set low.length 0 = low ++ 0 :: above := by simp
  rw [mulRound, hd, mulUntrimmed, habove]
  dsimp only
  rw [hset]
  split
  · rfl
  · rw [addFrom_append d low (Nat.le_succ_of_le h), Option.bind_some, normalise_append]

end Digits

/-! ### What is put where the receiver was -/

namespace DigitMemory

open Digits

variable {m : DigitMemory} {a b : ℕ} {ds es : List ℕ}

/-- Only what is at the address matters to a change. -/
theorem change_eq (h : m[a]? = some ds) (f : List ℕ → Option (List ℕ)) :
    m.change a f = (f ds).map fun r => m.set a r := by
  rw [change, h, Option.bind_some]

/-- What was put at an address is there. -/
theorem get_set (h : m[a]? = some ds) (r : List ℕ) : (m.set a r)[a]? = some r := by
  obtain ⟨hlt, -⟩ := List.getElem?_eq_some_iff.1 h
  rw [List.getElem?_set_self hlt]

/-- So a change after another one is made to what the first one has put there. -/
theorem change_set (h : m[a]? = some ds) (r : List ℕ) (f : List ℕ → Option (List ℕ)) :
    change (m.set a r) a f = (f r).map fun r' => m.set a r' := by
  rw [change_eq (get_set h r)]
  simp only [List.set_set]

/-- **The sum in place is the sum**, put where the first operand was. -/
theorem addInPlace_eq (ha : m[a]? = some ds) (hb : m[b]? = some es) :
    m.addInPlace a b = (Digits.add ds es).map fun r => m.set a r := by
  have hroom : es.length ≤ (expand (max ds.length es.length + 1) ds).length := by
    rw [expand, List.length_append, List.length_replicate]
    omega
  have hadd := addFrom_append 1 [] hroom
  have hpass := normalise_append [] (addScaled 1 (expand (max ds.length es.length + 1) ds) es)
    es.length
  simp only [List.length_nil, List.nil_append, Nat.zero_add, Option.map_id'] at hadd hpass
  unfold addInPlace
  simp only [Option.bind_eq_bind]
  rw [hb, Option.bind_some, change_eq ha, Option.map_some, Option.bind_some, change_set ha, hadd,
    Option.map_some, Option.bind_some, change_set ha, hpass, Digits.add]
  dsimp only [expand]
  cases carryPass es.length 0 (addScaled 1
      (ds ++ List.replicate (max ds.length es.length + 1 - ds.length) 0) es) with
  | none => rfl
  | some r => exact change_set ha r _

/-- **The rounds of a product**: while the digits above a position have given their product, those
below it are still to come. -/
theorem mulRounds_eq {lows highs above : List ℕ} (h : m[a]? = some ds)
    (hdigits : AreDigits (lows ++ highs)) (hes : AreDigits es)
    (habove : mulUntrimmed es highs = some above) (hlen : es.length ≤ above.length) :
    mulRounds es a lows.length (m.set a (lows ++ above)) =
      (mulUntrimmed es (lows ++ highs)).map fun r => m.set a r := by
  -- on the digits below the position, the last of which is taken out next
  induction lows using List.reverseRecOn generalizing highs above with
  | nil =>
    rw [List.length_nil, mulRounds, List.nil_append, List.nil_append, habove, Option.map_some]
  | append_singleton lows d ih =>
    rw [List.append_assoc, List.singleton_append] at hdigits ⊢
    have hhighs : AreDigits (d :: highs) := fun e he => hdigits e (List.mem_append_right lows he)
    obtain ⟨next, hnext, -, hlength, -⟩ := exists_mulUntrimmed hhighs hes
    rw [List.append_assoc, List.singleton_append, List.length_append, List.length_singleton,
      mulRounds, change_set h, mulRound_append d habove hlen, hnext, Option.map_some,
      Option.map_some, Option.bind_some]
    exact ih hdigits hnext (by omega)

/-- **The product in place is the product**, put where the first operand was. -/
theorem mulInPlace_eq (ha : m[a]? = some ds) (hb : m[b]? = some es) (hds : AreDigits ds)
    (hes : AreDigits es) : m.mulInPlace a b = (Digits.mul ds es).map fun r => m.set a r := by
  have hroom : expand (ds.length + es.length + 1) ds =
      ds ++ List.replicate (es.length + 1) 0 := by
    rw [expand, Nat.add_assoc, Nat.add_sub_cancel_left]
  -- no digit has been taken out yet, and the product of none is zero
  have hrounds : mulRounds es a ds.length (m.set a (ds ++ List.replicate (es.length + 1) 0)) =
      (mulUntrimmed es (ds ++ [])).map fun r => m.set a r :=
    mulRounds_eq ha (by rwa [List.append_nil]) hes rfl
      (by rw [List.length_replicate]; exact Nat.le_succ _)
  rw [List.append_nil] at hrounds
  unfold mulInPlace
  simp only [Option.bind_eq_bind]
  rw [hb, Option.bind_some, ha, Option.map_some, Option.bind_some, change_eq ha, hroom,
    Option.map_some, Option.bind_some, hrounds, Digits.mul]
  cases mulUntrimmed es ds with
  | none => rfl
  | some r => exact change_set ha r _

/-! ### Sums and products in place -/

/-- **Addition in place is exact**, whatever the lengths of the two numbers, and also if they are
at the same address. There is a sum, no carry is left over, and where the receiver was there is a
canonical sequence for the sum of the two values, the one that decimal naturals are added by.
Everything else in the memory is as it was. -/
theorem exists_addInPlace (ha : m[a]? = some ds) (hb : m[b]? = some es) (hds : Canonical ds)
    (hes : Canonical es) : ∃ m', m.addInPlace a b = some m' ∧
      (∃ r, m'[a]? = some r ∧ Canonical r ∧ value r = value ds + value es ∧
        Digits.add ds es = some r) ∧
      ∀ c, c ≠ a → m'[c]? = m[c]? := by
  obtain ⟨r, hr, hvalue, hcanonical⟩ := exists_add hds.1 hes.1
  refine ⟨m.set a r, ?_, ⟨r, get_set ha r, hcanonical, hvalue, hr⟩, fun c hc => ?_⟩
  · rw [addInPlace_eq ha hb, hr, Option.map_some]
  · rw [List.getElem?_set_ne hc.symm]

/-- A carry through nines, in front of a number that is left alone, and a number that is added to
itself. -/
theorem exists_addInPlace_nines :
    ([[9, 9, 9], [1]] : DigitMemory)[0]? = some [9, 9, 9] ∧
      ([[9, 9, 9], [1]] : DigitMemory)[1]? = some [1] ∧ Canonical [9, 9, 9] ∧ Canonical [1] ∧
      (∃ m', addInPlace [[9, 9, 9], [1]] 0 1 = some m' ∧
        (∃ r, m'[0]? = some r ∧ Canonical r ∧ value r = 1000) ∧ m'[1]? = some [1]) ∧
      ∃ m', addInPlace [[9, 9, 9], [1]] 0 0 = some m' ∧
        ∃ r, m'[0]? = some r ∧ Canonical r ∧ value r = 1998 := by
  have hnines : Canonical [9, 9, 9] := ⟨by unfold AreDigits; decide, by decide⟩
  have hone : Canonical [1] := ⟨by unfold AreDigits; decide, by decide⟩
  have hfirst : ([[9, 9, 9], [1]] : DigitMemory)[0]? = some [9, 9, 9] := rfl
  have hsecond : ([[9, 9, 9], [1]] : DigitMemory)[1]? = some [1] := rfl
  obtain ⟨m', hm', ⟨r, hr, hcanonical, hvalue, -⟩, hframe⟩ :=
    exists_addInPlace hfirst hsecond hnines hone
  obtain ⟨m'', hm'', ⟨r', hr', hcanonical', hvalue', -⟩, -⟩ :=
    exists_addInPlace hfirst hfirst hnines hnines
  exact ⟨hfirst, hsecond, hnines, hone,
    ⟨m', hm', ⟨r, hr, hcanonical, hvalue⟩, hframe 1 (by decide)⟩,
    m'', hm'', r', hr', hcanonical', hvalue'⟩

/-- **Multiplication in place is exact**, also if the two numbers are at the same address. There is
a product, no carry is left over in any round, and where the receiver was there is a canonical
sequence for the product of the two values, the one that decimal naturals are multiplied by.
Everything else in the memory is as it was. -/
theorem exists_mulInPlace (ha : m[a]? = some ds) (hb : m[b]? = some es) (hds : Canonical ds)
    (hes : Canonical es) : ∃ m', m.mulInPlace a b = some m' ∧
      (∃ r, m'[a]? = some r ∧ Canonical r ∧ value r = value ds * value es ∧
        Digits.mul ds es = some r) ∧
      ∀ c, c ≠ a → m'[c]? = m[c]? := by
  obtain ⟨r, hr, hvalue, hcanonical⟩ := exists_mul hds.1 hes.1
  refine ⟨m.set a r, ?_, ⟨r, get_set ha r, hcanonical, hvalue, hr⟩, fun c hc => ?_⟩
  · rw [mulInPlace_eq ha hb hds.1 hes.1, hr, Option.map_some]
  · rw [List.getElem?_set_ne hc.symm]

/-- A number with a zero in it is squared where it stands; another one is left alone. -/
theorem exists_mulInPlace_square :
    ([[9, 0, 9], [7]] : DigitMemory)[0]? = some [9, 0, 9] ∧ Canonical [9, 0, 9] ∧
      ∃ m', mulInPlace [[9, 0, 9], [7]] 0 0 = some m' ∧
        (∃ r, m'[0]? = some r ∧ Canonical r ∧ value r = 826281) ∧ m'[1]? = some [7] := by
  have hcanonical : Canonical [9, 0, 9] := ⟨by unfold AreDigits; decide, by decide⟩
  have hfirst : ([[9, 0, 9], [7]] : DigitMemory)[0]? = some [9, 0, 9] := rfl
  obtain ⟨m', hm', ⟨r, hr, hcanonical', hvalue, -⟩, hframe⟩ :=
    exists_mulInPlace hfirst hfirst hcanonical hcanonical
  exact ⟨hfirst, hcanonical, m', hm', ⟨r, hr, hcanonical', hvalue⟩, hframe 1 (by decide)⟩

end DigitMemory

/-! ### Numbers that callers change -/

/-- What a computation that always succeeds has given. -/
theorem Decimal.eq_some_digits_ofResult {r : Option (List ℕ)} {n : ℕ}
    (h : ∃ ds, r = some ds ∧ Digits.value ds = n ∧ Digits.Canonical ds) :
    r = some (ofResult r h).digits := by
  obtain ⟨ds, rfl, hvalue, hcanonical⟩ := h
  rfl

/-- Sums and products of decimal naturals are those of their digits. -/
theorem Decimal.add_digits (a b : Decimal) :
    Digits.add a.digits b.digits = some (a.add b).digits :=
  eq_some_digits_ofResult _

theorem Decimal.mul_digits (a b : Decimal) :
    Digits.mul a.digits b.digits = some (a.mul b).digits :=
  eq_some_digits_ofResult _

/-- **Callers change the numbers that they hold in place**: what becomes of the memory is what
becomes of the digits in it. -/
theorem PowerCells.digits_inPlace {s : PowerCells} {a b : ℕ} (ha : a < s.cells.length)
    (hb : b < s.cells.length) :
    DigitMemory.addInPlace (s.cells.map Decimal.digits) a b =
        some ((s.inPlace .add a b).cells.map Decimal.digits) ∧
      DigitMemory.mulInPlace (s.cells.map Decimal.digits) a b =
        some ((s.inPlace .mul a b).cells.map Decimal.digits) := by
  have hread : ∀ c, c < s.cells.length →
      (s.cells.map Decimal.digits)[c]? = some (s.read c).digits := fun c hc => by
    simp [PowerCells.read, hc]
  constructor
  · rw [DigitMemory.addInPlace_eq (hread a ha) (hread b hb), Decimal.add_digits, Option.map_some,
      PowerCells.inPlace, List.map_set]
  · rw [DigitMemory.mulInPlace_eq (hread a ha) (hread b hb) (s.read a).canonical.1
      (s.read b).canonical.1, Decimal.mul_digits, Option.map_some, PowerCells.inPlace, List.map_set]

end Readout
