import Mathlib.Order.Bounds.Basic
import Readout.Decimal.Slots
import Readout.Proofs.Decimal.InPlace
import Readout.Proofs.Decimal.Places

/-!
# Runs on slots

Whatever is made, added, multiplied and copied in slots, and in whatever order, the numbers stay
canonical digit sequences, and they are the right ones (`Readout.SlotCells.exists_after`). Three
things that a run can be seen as are compared step by step:

* **In a memory**, numbers are digit sequences that are changed where they stand
  (`Readout.SlotCells.step`).
* **In slots**, numbers are decimal naturals (`Readout.Slots.step`). A memory holds slots
  (`Readout.SlotCells.Holds`) if no two of them have the same address; that is why a change in
  place is a change of one slot only.
* **As amounts**, numbers are just natural numbers (`Readout.Slots.Step.effect`). Slots stand for
  amounts because sums and products have the right values, and because what is made of an integer
  and further digits has (`Readout.Decimal.exists_ofInt`).

All that can be seen of a decimal natural is a matter of the amount, since its digits are canonical
(`Readout.Decimal.readsAs_value`).
-/

namespace Readout

/-! ### What can be seen of a decimal natural -/

namespace Digits

/-- Canonical digits are those that the number is written with. -/
theorem toDigits_value {ds : List ℕ} (h : Canonical ds) (hne : ds ≠ []) :
    Nat.toDigits 10 (value ds) = ds.reverse.map Nat.digitChar := by
  induction ds with
  | nil => exact absurd rfl hne
  | cons d ds ih =>
    obtain ⟨hdigits, hlast⟩ := h
    have hd : d < 10 := hdigits d List.mem_cons_self
    rcases ds with - | ⟨e, es⟩
    · rw [value_cons, value_nil, Nat.mul_zero, Nat.add_zero, Nat.toDigits_of_lt_base hd]
      rfl
    · have htail : Canonical (e :: es) :=
        ⟨fun x hx => hdigits x (List.mem_cons_of_mem d hx),
          by rwa [List.getLast?_cons_cons] at hlast⟩
      have hpos : 0 < value (e :: es) :=
        (Nat.pow_pos (by decide)).trans_le (pow_le_value htail (List.cons_ne_nil e es))
      rw [value_cons, Nat.toDigits_of_base_le (by decide) (by omega),
        show (d + 10 * value (e :: es)) / 10 = value (e :: es) by omega,
        show (d + 10 * value (e :: es)) % 10 = d by omega, ih htail (List.cons_ne_nil e es)]
      simp

end Digits

namespace Decimal

/-- **A decimal natural reads as a number**: that is what its digits, their number, its text and
comparisons say. -/
structure ReadsAs (a : Decimal) (n : ℕ) : Prop where
  value_eq : a.value = n
  digit_natCast : ∀ i : ℕ, a.digit i = n / 10 ^ i % 10
  digit_of_neg : ∀ i : ℤ, i < 0 → a.digit i = 0
  isLeast_digitCount : IsLeast {k | n < 10 ^ k} a.digitCount
  text_eq : a.text = Nat.repr n
  beq_eq : ∀ b : Decimal, (a == b) = decide (n = b.value)

theorem isLeast_digitCount (a : Decimal) : IsLeast {k | a.value < 10 ^ k} a.digitCount := by
  refine ⟨a.lt_pow_digitCount, fun k hk => ?_⟩
  rcases eq_or_ne a.value 0 with hzero | hne
  · rw [a.digitCount_eq_zero_iff.2 hzero]
    exact Nat.zero_le k
  · have hlt := (Nat.pow_lt_pow_iff_right (by decide : 1 < 10)).1 ((a.pow_le_value hne).trans_lt hk)
    omega

/-- The text of a decimal natural is the numeral of its value. -/
theorem text_eq_repr (a : Decimal) : a.text = Nat.repr a.value := by
  unfold text
  split
  · rename_i hempty
    rw [value, List.isEmpty_iff.1 hempty]
    rfl
  · rename_i hne
    rw [Nat.repr, value, Digits.toDigits_value a.canonical (by simpa using hne)]

/-- **Every decimal natural reads as its value.** -/
theorem readsAs_value (a : Decimal) : a.ReadsAs a.value where
  value_eq := rfl
  digit_natCast := a.digit_natCast
  digit_of_neg _ := a.digit_of_neg
  isLeast_digitCount := a.isLeast_digitCount
  text_eq := a.text_eq_repr
  beq_eq b := by
    rw [beq_eq_decide]
    exact decide_eq_decide.2 value_injective.eq_iff.symm

/-! ### Making decimal naturals -/

/-- What a decimal natural can be made of: a natural number that is not too long to be written, and
a number of equal digits for which there is room. -/
def Makeable (value extra fill : ℤ) : Prop :=
  (0 ≤ value ∧ value < 10 ^ Numeral.maxDecimalDigits) ∧
    (0 ≤ extra ∧ extra < Excess.maxMemory) ∧ 0 ≤ fill ∧ fill ≤ 9

instance (value extra fill : ℤ) : Decidable (Makeable value extra fill) :=
  inferInstanceAs (Decidable ((_ ∧ _) ∧ (_ ∧ _) ∧ _ ∧ _))

/-- The number that is made: the digits of the natural number, and below them the equal digits. -/
def made (value extra fill : ℤ) : ℕ :=
  value.toNat * 10 ^ extra.toNat + fill.toNat * (10 ^ extra.toNat - 1) / 9

theorem value_shifted (n extra fill : ℕ) (h : fill < 10) :
    (shifted n extra fill h).value = n * 10 ^ extra + fill * (10 ^ extra - 1) / 9 := by
  have hvalue := nine_mul_value_shifted n extra fill h
  have hpos : 0 < 10 ^ extra := Nat.pow_pos (by decide)
  have hle : fill ≤ fill * 10 ^ extra := Nat.le_mul_of_pos_right fill hpos
  rw [Nat.add_mul, Nat.mul_assoc] at hvalue
  rw [Nat.mul_sub, Nat.mul_one]
  omega

theorem ofLength?_eq_none_iff (n : ℕ) : Excess.ofLength? n = none ↔ n < Excess.maxMemory := by
  have hle : Excess.maxMemory ≤ Excess.maxPlaces := by decide
  unfold Excess.ofLength?
  split_ifs with hplaces hmemory
  · exact iff_of_false nofun (hle.trans hplaces).not_gt
  · exact iff_of_false nofun hmemory.not_gt
  · exact iff_of_true rfl (not_le.1 hmemory)

theorem makeable_natCast_iff (n k fill : ℕ) : Makeable n k fill ↔
    Numeral.isWritable n = true ∧ Excess.ofLength? k = none ∧ fill ≤ 9 := by
  rw [Numeral.isWritable_natCast_iff, ofLength?_eq_none_iff, Makeable]
  generalize Numeral.maxDecimalDigits = m
  have hpow : (n : ℤ) < 10 ^ m ↔ n < 10 ^ m := by exact_mod_cast Iff.rfl
  rw [hpow]
  omega

/-- **What can be made is made**, and stands for the right number. -/
theorem exists_ofInt {value extra fill : ℤ} (h : Makeable value extra fill) :
    ∃ a, ofInt value extra fill = .ok a ∧ a.value = made value extra fill := by
  obtain ⟨n, rfl⟩ := Int.eq_ofNat_of_zero_le h.1.1
  obtain ⟨k, rfl⟩ := Int.eq_ofNat_of_zero_le h.2.1.1
  obtain ⟨f, rfl⟩ := Int.eq_ofNat_of_zero_le h.2.2.1
  obtain ⟨hwritable, hlength, hfill⟩ := (makeable_natCast_iff n k f).1 h
  refine ⟨shifted n k f (by omega), ?_, value_shifted n k f (by omega)⟩
  rw [ofInt, if_neg (by omega), dif_pos (by omega), if_neg (by omega)]
  simp only [Int.toNat_natCast, hlength, if_pos hwritable]

/-- Nothing else is made. -/
theorem makeable_of_ofInt {value extra fill : ℤ} {a : Decimal}
    (h : ofInt value extra fill = .ok a) : Makeable value extra fill := by
  by_cases hvalue : value < 0
  · rw [ofInt, if_pos hvalue] at h
    cases h
  by_cases hfill : 0 ≤ fill ∧ fill ≤ 9
  · by_cases hextra : extra < 0
    · rw [ofInt, if_neg hvalue, dif_pos hfill, if_pos hextra] at h
      cases h
    rw [ofInt, if_neg hvalue, dif_pos hfill, if_neg hextra] at h
    obtain ⟨n, rfl⟩ := Int.eq_ofNat_of_zero_le (not_lt.1 hvalue)
    obtain ⟨k, rfl⟩ := Int.eq_ofNat_of_zero_le (not_lt.1 hextra)
    obtain ⟨f, rfl⟩ := Int.eq_ofNat_of_zero_le hfill.1
    rw [Int.toNat_natCast k] at h
    cases hlength : Excess.ofLength? k with
    | some what =>
      rw [hlength] at h
      cases h
    | none =>
      rw [hlength] at h
      by_cases hwritable : Numeral.isWritable n = true
      · exact (makeable_natCast_iff n k f).2 ⟨hwritable, hlength, by omega⟩
      · dsimp only at h
        rw [if_neg hwritable] at h
        cases h
  · rw [ofInt, if_neg hvalue, dif_neg hfill] at h
    cases h

end Decimal

/-! ### Steps on slots -/

namespace Slots

/-- The slots after a run of steps. -/
def after (s : Slots) (steps : List Step) : Slots :=
  steps.foldl (fun s st => (s.step st).2) s

/-- **A run gives what its steps give**, each of them in the slots that those before it leave. -/
theorem run_append (s : Slots) (steps more : List Step) :
    s.run (steps ++ more) = s.run steps ++ (s.after steps).run more := by
  induction steps generalizing s with
  | nil => rfl
  | cons st steps ih => exact congrArg (s.step st :: ·) (ih (s.step st).2)

/-- The number that a step puts in its receiver. -/
def result? (s : Slots) : Step → Option Decimal
  | .new _ value extra fill => (Decimal.ofInt value extra fill).toOption
  | .add slot other => Option.map₂ Decimal.add (s.find? slot) (s.find? other)
  | .mul slot other => Option.map₂ Decimal.mul (s.find? slot) (s.find? other)
  | .copy _ other => s.find? other
  | .digits .. | .equals .. | .equalsInt .. | .integer .. | .describe .. => none

/-- Puts a number in a slot, if there is one. -/
def put (s : Slots) (slot : String) (r : Option Decimal) : Slots :=
  r.elim s (s.insert slot)

/-- **What a step does to slots**: there may be a number that it puts in its receiver. -/
theorem step_snd (s : Slots) (st : Step) : (s.step st).2 = s.put st.receiver (s.result? st) := by
  cases st with
  | new slot value extra fill =>
    rw [step, step?, result?]
    cases Decimal.ofInt value extra fill <;> rfl
  | copy slot other =>
    rw [step, step?, result?, get]
    cases s.find? other <;> rfl
  | add slot other =>
    rw [step, step?, result?, get, get]
    cases s.find? slot <;> cases s.find? other <;> rfl
  | mul slot other =>
    rw [step, step?, result?, get, get]
    cases s.find? slot <;> cases s.find? other <;> rfl
  | digits slot positions =>
    rw [step, step?, get]
    cases s.find? slot <;> rfl
  | equals slot other =>
    rw [step, step?, get, get]
    cases s.find? slot <;> cases s.find? other <;> rfl
  | equalsInt slot n =>
    rw [step, step?, get]
    cases s.find? slot <;> rfl
  | integer slot =>
    rw [step, step?, get]
    cases s.find? slot with
    | none => rfl
    | some a =>
      simp only [bind, Except.bind]
      cases a.integerText <;> rfl
  | describe slot =>
    rw [step, step?, get]
    cases s.find? slot <;> rfl

/-- Every other slot is left alone. -/
theorem find?_put_of_ne {s : Slots} {slot other : String} (h : other ≠ slot) (r : Option Decimal) :
    (s.put slot r).find? other = s.find? other := by
  cases r with
  | none => rfl
  | some a => rw [put, Option.elim_some, Table.find?_insert, if_neg h]

/-! ### Amounts -/

/-- The numbers that slots stand for. -/
def amountOf (s : Slots) : String → Option ℕ :=
  fun slot => (s.find? slot).map Decimal.value

/-- The amount that a step puts in its receiver. -/
def Step.amount? (v : String → Option ℕ) : Step → Option ℕ
  | .new _ value extra fill =>
    if Decimal.Makeable value extra fill then some (Decimal.made value extra fill) else none
  | .add slot other => Option.map₂ (· + ·) (v slot) (v other)
  | .mul slot other => Option.map₂ (· * ·) (v slot) (v other)
  | .copy _ other => v other
  | .digits .. | .equals .. | .equalsInt .. | .integer .. | .describe .. => none

/-- **What a step does to amounts**: only that of its receiver may become another one. -/
def Step.effect (v : String → Option ℕ) (st : Step) : String → Option ℕ :=
  (st.amount? v).elim v fun n => Function.update v st.receiver (some n)

/-- The amounts after a run of steps, with empty slots before it. -/
def amounts (steps : List Step) : String → Option ℕ :=
  steps.foldl Step.effect fun _ => none

theorem map_value_result? (s : Slots) (st : Step) :
    (s.result? st).map Decimal.value = st.amount? s.amountOf := by
  have hmap : ∀ {f : Decimal → Decimal → Decimal} {g : ℕ → ℕ → ℕ},
      (∀ a b, (f a b).value = g a.value b.value) → ∀ slot other,
        (Option.map₂ f (s.find? slot) (s.find? other)).map Decimal.value =
          Option.map₂ g (s.amountOf slot) (s.amountOf other) := by
    intro f g hfg slot other
    rw [amountOf, amountOf, Option.map_map₂, Option.map₂_map_left, Option.map₂_map_right]
    simp only [hfg]
  cases st with
  | new slot value extra fill =>
    rw [result?, Step.amount?]
    split_ifs with h
    · obtain ⟨a, ha, hvalue⟩ := Decimal.exists_ofInt h
      rw [ha, ← hvalue]
      rfl
    · cases hmake : Decimal.ofInt value extra fill with
      | ok a => exact absurd (Decimal.makeable_of_ofInt hmake) h
      | error why => rfl
  | add slot other => exact hmap Decimal.value_add slot other
  | mul slot other => exact hmap Decimal.value_mul slot other
  | copy slot other => rfl
  | digits slot positions => rfl
  | equals slot other => rfl
  | equalsInt slot n => rfl
  | integer slot => rfl
  | describe slot => rfl

/-- **Slots stand for amounts**, in every step -/
theorem amountOf_step (s : Slots) (st : Step) :
    (s.step st).2.amountOf = Step.effect s.amountOf st := by
  rw [step_snd, Step.effect, ← map_value_result?]
  cases s.result? st with
  | none => rfl
  | some a =>
    funext slot
    rw [put, Option.elim_some, amountOf, Table.find?_insert, Option.map_some, Option.elim_some,
      Function.update_apply]
    split_ifs
    · rfl
    · rfl

/-- and so in every run. -/
theorem amountOf_after (s : Slots) (steps : List Step) :
    (s.after steps).amountOf = steps.foldl Step.effect s.amountOf := by
  induction steps generalizing s with
  | nil => rfl
  | cons st steps ih => exact (ih (s.step st).2).trans (by rw [amountOf_step, List.foldl_cons])

end Slots

/-! ### Slots in a memory -/

namespace SlotCells

open Digits

variable {c : SlotCells} {s : Slots}

/-- **A memory holds slots**: in it are canonical digit sequences only, every slot has an address of
its own, and at that address are the digits of the number in the slot. -/
structure Holds (c : SlotCells) (s : Slots) : Prop where
  canonical : ∀ ds ∈ c.memory, Canonical ds
  unused : ∀ slot, c.addresses.find? slot = none → s.find? slot = none
  held : ∀ slot a, c.addresses.find? slot = some a →
    ∃ d : Decimal, s.find? slot = some d ∧ c.memory[a]? = some d.digits
  apart : ∀ slot other a, c.addresses.find? slot = some a → c.addresses.find? other = some a →
    slot = other

/-- **Only one number is changed**, if any: the one that was in a slot. -/
def ChangesOnly (slot : String) (c c' : SlotCells) : Prop :=
  ∀ a < c.memory.length, c.addresses.find? slot ≠ some a → c'.memory[a]? = c.memory[a]?

namespace Holds

/-- What is in a slot can be read from the memory. -/
theorem digits?_eq (h : Holds c s) (slot : String) :
    c.digits? slot = (s.find? slot).map Decimal.digits := by
  rw [digits?]
  cases ha : c.addresses.find? slot with
  | none =>
    rw [h.unused slot ha]
    rfl
  | some a =>
    obtain ⟨d, hd, hread⟩ := h.held slot a ha
    rw [hd, Option.bind_some, hread]
    rfl

theorem lt_length (h : Holds c s) {slot : String} {a : ℕ}
    (ha : c.addresses.find? slot = some a) : a < c.memory.length := by
  obtain ⟨d, -, hread⟩ := h.held slot a ha
  exact (List.getElem?_eq_some_iff.1 hread).1

/-- A memory without numbers holds empty slots. -/
theorem empty : Holds empty Table.empty where
  canonical _ h := nomatch h
  unused _ _ := rfl
  held _ _ h := nomatch h
  apart _ _ _ h := nomatch h

/-- A new number has a cell of its own. -/
theorem make (h : Holds c s) (slot : String) (d : Decimal) :
    Holds (c.make slot d.digits) (s.insert slot d) where
  canonical ds hds := by
    rcases List.mem_append.1 hds with hds | hds
    · exact h.canonical ds hds
    · rw [List.mem_singleton.1 hds]
      exact d.canonical
  unused other hother := by
    rw [SlotCells.make, Table.find?_insert] at hother
    rw [Table.find?_insert]
    split_ifs at hother ⊢
    exact h.unused other hother
  held other a ha := by
    rw [SlotCells.make, Table.find?_insert] at ha
    rw [Table.find?_insert]
    split_ifs at ha ⊢ with hslot
    · cases ha
      exact ⟨d, rfl, List.getElem?_concat_length⟩
    · obtain ⟨e, he, hread⟩ := h.held other a ha
      exact ⟨e, he, (List.getElem?_append_left (h.lt_length ha)).trans hread⟩
  apart one other a hone hother := by
    rw [SlotCells.make, Table.find?_insert] at hone hother
    -- the address of a new number is behind all others
    split_ifs at hone hother with h₁ h₂ h₂
    · exact h₁.trans h₂.symm
    · cases hone
      exact absurd (h.lt_length hother) (lt_irrefl _)
    · cases hother
      exact absurd (h.lt_length hone) (lt_irrefl _)
    · exact h.apart one other a hone hother

/-- A number is changed in its cell, and the others are not in it. -/
theorem set (h : Holds c s) {slot : String} {a : ℕ} (ha : c.addresses.find? slot = some a)
    (d : Decimal) : Holds ⟨c.memory.set a d.digits, c.addresses⟩ (s.insert slot d) where
  canonical ds hds := by
    rcases List.mem_or_eq_of_mem_set hds with hds | rfl
    · exact h.canonical ds hds
    · exact d.canonical
  unused other hother := by
    rw [Table.find?_insert]
    split_ifs with hslot
    · rw [hslot, ha] at hother
      cases hother
    · exact h.unused other hother
  held other b hb := by
    rw [Table.find?_insert]
    split_ifs with hslot
    · rw [hslot, ha] at hb
      cases hb
      exact ⟨d, rfl, List.getElem?_set_self (h.lt_length ha)⟩
    · obtain ⟨e, he, hread⟩ := h.held other b hb
      have hne : a ≠ b := fun hab => hslot (h.apart other slot b hb (hab ▸ ha))
      exact ⟨e, he, (List.getElem?_set_ne hne).trans hread⟩
  apart := h.apart

/-- **An operation in place** puts its result in its receiver, and changes no other number. -/
theorem change (h : Holds c s) {op : DigitMemory → ℕ → ℕ → Option DigitMemory}
    {f : Decimal → Decimal → Decimal}
    (hop : ∀ {m : DigitMemory} {a b : ℕ} {x y : Decimal}, m[a]? = some x.digits →
      m[b]? = some y.digits → op m a b = some (m.set a (f x y).digits)) (slot other : String) :
    ∃ c', c.change op slot other = some c' ∧
      Holds c' (s.put slot (Option.map₂ f (s.find? slot) (s.find? other))) ∧
      ChangesOnly slot c c' := by
  rw [SlotCells.change]
  cases ha : c.addresses.find? slot with
  | none =>
    rw [h.unused slot ha]
    exact ⟨c, rfl, h, fun a _ _ => rfl⟩
  | some a =>
    cases hb : c.addresses.find? other with
    | none =>
      rw [h.unused other hb, Option.map₂_none_right]
      exact ⟨c, rfl, h, fun a _ _ => rfl⟩
    | some b =>
      obtain ⟨x, hx, hreadx⟩ := h.held slot a ha
      obtain ⟨y, hy, hready⟩ := h.held other b hb
      rw [hx, hy, Option.map₂_some_some]
      dsimp only
      rw [hop hreadx hready, Option.map_some]
      refine ⟨_, rfl, h.set ha (f x y), fun i _ hi => List.getElem?_set_ne fun hai => hi ?_⟩
      rw [ha, hai]

/-- **One step in a memory** is the step on the slots in it. No carry is left over, and no number
is changed but the one in the receiver. -/
theorem step (h : Holds c s) (st : Slots.Step) :
    ∃ c', c.step st = some c' ∧ Holds c' (s.step st).2 ∧ ChangesOnly st.receiver c c' := by
  have hsame : ∃ c', some c = some c' ∧ Holds c' s ∧ ChangesOnly st.receiver c c' :=
    ⟨c, rfl, h, fun a _ _ => rfl⟩
  have hmake : ∀ slot d, ChangesOnly slot c (c.make slot d) := fun slot d a ha _ =>
    List.getElem?_append_left ha
  rw [Slots.step_snd]
  cases st with
  | new slot value extra fill =>
    rw [SlotCells.step, Slots.result?]
    cases Decimal.ofInt value extra fill with
    | ok d => exact ⟨_, rfl, h.make slot d, hmake slot d.digits⟩
    | error why => exact hsame
  | add slot other =>
    exact h.change (fun ha hb => by
      rw [DigitMemory.addInPlace_eq ha hb, Decimal.add_digits, Option.map_some]) slot other
  | mul slot other =>
    refine h.change (fun {m a b x y} ha hb => ?_) slot other
    rw [DigitMemory.mulInPlace_eq ha hb x.canonical.1 y.canonical.1, Decimal.mul_digits,
      Option.map_some]
  | copy slot other =>
    rw [SlotCells.step, Slots.result?, h.digits?_eq]
    cases s.find? other with
    | none => exact hsame
    | some d => exact ⟨_, rfl, h.make slot d, hmake slot d.digits⟩
  | digits slot positions => exact hsame
  | equals slot other => exact hsame
  | equalsInt slot n => exact hsame
  | integer slot => exact hsame
  | describe slot => exact hsame

/-- A slot that is the receiver of no step holds what it held. -/
theorem digits?_step (h : Holds c s) {st : Slots.Step} {c' : SlotCells}
    (h' : Holds c' (s.step st).2) {slot : String} (hslot : st.receiver ≠ slot) :
    c'.digits? slot = c.digits? slot := by
  rw [h'.digits?_eq, h.digits?_eq, Slots.step_snd, Slots.find?_put_of_ne hslot.symm]

/-- **A run in a memory** is the run on the slots in it, and a slot that is the receiver of no step
holds what it held. -/
theorem after (h : Holds c s) (steps : List Slots.Step) :
    ∃ c', c.after steps = some c' ∧ Holds c' (s.after steps) ∧
      ∀ slot, (∀ st ∈ steps, st.receiver ≠ slot) → c'.digits? slot = c.digits? slot := by
  induction steps generalizing c s with
  | nil => exact ⟨c, rfl, h, fun _ _ => rfl⟩
  | cons st steps ih =>
    obtain ⟨c₁, hstep, h₁, -⟩ := h.step st
    obtain ⟨c', hafter, h', hframe⟩ := ih h₁
    refine ⟨c', ?_, h', fun slot hslot => ?_⟩
    · rw [SlotCells.after, List.foldlM_cons, hstep]
      exact hafter
    · obtain ⟨hst, hsteps⟩ := List.forall_mem_cons.1 hslot
      exact (hframe slot hsteps).trans (h.digits?_step h₁ hst)

end Holds

/-- **A memory stands for amounts**: in it are canonical digit sequences only, and the slots that
have an amount are those that have digits, which read as the amount. -/
structure StandsFor (c : SlotCells) (v : String → Option ℕ) : Prop where
  canonical : ∀ ds ∈ c.memory, Canonical ds
  reads : ∀ slot n, v slot = some n →
    ∃ a : Decimal, c.digits? slot = some a.digits ∧ a.ReadsAs n
  empty : ∀ slot, v slot = none → c.digits? slot = none

theorem Holds.standsFor (h : Holds c s) : c.StandsFor s.amountOf where
  canonical := h.canonical
  reads slot n hn := by
    obtain ⟨a, ha, rfl⟩ := Option.map_eq_some_iff.1 hn
    exact ⟨a, by rw [h.digits?_eq, ha, Option.map_some], a.readsAs_value⟩
  empty slot hnone := by rw [h.digits?_eq, Option.map_eq_none_iff.1 hnone, Option.map_none]

/-- **Whatever is done with decimal naturals in slots, they are canonical and stand for the right
numbers.** A run in a memory is never broken off by a carry. After it the memory stands for the
amounts that the steps make of empty slots, and it holds what the steps on slots give. From then on
a step changes no number but the one in its receiver, and a slot that is the receiver of no further
step holds what it held. -/
theorem exists_after (steps : List Slots.Step) :
    ∃ c, SlotCells.empty.after steps = some c ∧ c.StandsFor (Slots.amounts steps) ∧
      (∀ slot, c.digits? slot = ((Slots.after Table.empty steps).find? slot).map Decimal.digits) ∧
      (∀ st, ∃ c', c.step st = some c' ∧ ChangesOnly st.receiver c c') ∧
      ∀ more, ∃ c', c.after more = some c' ∧
        ∀ slot, (∀ st ∈ more, st.receiver ≠ slot) → c'.digits? slot = c.digits? slot := by
  obtain ⟨c, hafter, h, -⟩ := Holds.empty.after steps
  refine ⟨c, hafter, ?_, h.digits?_eq, fun st => ?_, fun more => ?_⟩
  · have hamounts : Slots.amounts steps = (Slots.after Table.empty steps).amountOf :=
      (Slots.amountOf_after Table.empty steps).symm
    rw [hamounts]
    exact h.standsFor
  · obtain ⟨c', hstep, -, hchanges⟩ := h.step st
    exact ⟨c', hstep, hchanges⟩
  · obtain ⟨c', hmore, -, hframe⟩ := h.after more
    exact ⟨c', hmore, hframe⟩

end SlotCells

end Readout
