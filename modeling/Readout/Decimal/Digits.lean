/-!
# Arithmetic on sequences of decimal digits

A natural number is held here as the sequence of its decimal digits, least
significant first. The sequence is **canonical** if its entries are digits and
the last of them is not zero (`Readout.Digits.Canonical`); zero is the empty
sequence. What a sequence stands for is its positional value
(`Readout.Digits.value`), which makes sense for entries of any size.

Sums and products are first formed entry by entry, in a sequence long enough to
hold the result, and a **carry pass** (`Readout.Digits.carryPass`) then turns the
entries back into digits. The pass knows from which position on the entries are
digits already, and stops there as soon as nothing is carried. It fails if a carry
is left over at the end. The main statements are that this never happens to sums
and products of digit sequences (`Readout.Digits.exists_add`,
`Readout.Digits.exists_mul`), and that the results are canonical and have the
right value.
-/

namespace Readout.Digits

/-- The positional value of a sequence, least significant entry first. -/
def value : List Nat → Nat
  | [] => 0
  | d :: ds => d + 10 * value ds

/-- The weight of a position: what a one stands for there. -/
def weight : Nat → Nat
  | 0 => 1
  | n + 1 => 10 * weight n

/-- All entries are decimal digits. -/
def AreDigits (ds : List Nat) : Prop :=
  ∀ d ∈ ds, d < 10

/-- **Canonical digit sequences**: decimal digits, the most significant one not
zero. -/
def Canonical (ds : List Nat) : Prop :=
  AreDigits ds ∧ ds.getLast? ≠ some 0

/-- A sequence without the zeros at its most significant end. -/
def trim : List Nat → List Nat
  | [] => []
  | d :: ds =>
    match trim ds with
    | [] => if d = 0 then [] else [d]
    | e :: es => d :: e :: es

/-- **The carry pass**, with a number of entries that may still be no digits and
what is carried into the first entry. There is no result if a carry is left over
after the last entry. -/
def carryPass : (window carry : Nat) → List Nat → Option (List Nat)
  | _, 0, [] => some []
  | _, _ + 1, [] => none
  | 0, 0, d :: ds => some (d :: ds)
  | window, carry, d :: ds =>
    (carryPass (window - 1) ((carry + d) / 10) ds).map ((carry + d) % 10 :: ·)

/-- The carry pass on the part of a sequence from `start` on, where the entries
from `stop` on are digits already. -/
def normalise (start stop : Nat) (ds : List Nat) : Option (List Nat) :=
  (carryPass (stop - start) 0 (ds.drop start)).map (ds.take start ++ ·)

/-- Adds a multiple of a sequence entry by entry. -/
def addScaled (k : Nat) : List Nat → List Nat → List Nat
  | ds, [] => ds
  | [], r :: rs => k * r :: addScaled k [] rs
  | d :: ds, r :: rs => (d + k * r) :: addScaled k ds rs

/-- **The sum of two digit sequences**, formed in one place more than the longer of
them has. -/
def add (a b : List Nat) : Option (List Nat) :=
  let room := a ++ List.replicate (max a.length b.length + 1 - a.length) 0
  (carryPass b.length 0 (addScaled 1 room b)).map trim

/-- The product of two digit sequences before it is trimmed. The digits of the first
one are taken from the most significant down; each adds its multiple of the second
sequence to the places from its own on. -/
def mulUntrimmed (b : List Nat) : List Nat → Option (List Nat)
  | [] => some (List.replicate (b.length + 1) 0)
  | d :: ds =>
    match mulUntrimmed b ds with
    | none => none
    | some above =>
      if d = 0 then some (0 :: above) else carryPass b.length 0 (addScaled d (0 :: above) b)

/-- **The product of two digit sequences.** -/
def mul (a b : List Nat) : Option (List Nat) :=
  (mulUntrimmed b a).map trim

/-- The digits of a natural number, least significant first. -/
def ofNat (n : Nat) : List Nat :=
  if n = 0 then [] else n % 10 :: ofNat (n / 10)
decreasing_by omega

/-! ### Weights and values -/

@[simp] theorem weight_zero : weight 0 = 1 := rfl

theorem weight_succ (n : Nat) : weight (n + 1) = 10 * weight n := rfl

theorem weight_add (m n : Nat) : weight (m + n) = weight m * weight n := by
  induction m with
  | zero => rw [Nat.zero_add, weight_zero, Nat.one_mul]
  | succ m ih => rw [Nat.succ_add, weight_succ, ih, weight_succ, Nat.mul_assoc]

theorem weight_le {m n : Nat} (h : m ≤ n) : weight m ≤ weight n := by
  induction h with
  | refl => exact Nat.le_refl _
  | step _ ih =>
    rw [weight_succ]
    omega

@[simp] theorem value_nil : value [] = 0 := rfl

@[simp] theorem value_cons (d : Nat) (ds : List Nat) : value (d :: ds) = d + 10 * value ds := rfl

theorem value_append (as bs : List Nat) :
    value (as ++ bs) = value as + weight as.length * value bs := by
  induction as with
  | nil => simp
  | cons a as ih =>
    rw [List.cons_append, value_cons, ih, value_cons, List.length_cons, weight_succ,
      Nat.mul_add, Nat.mul_assoc, Nat.add_assoc]

@[simp] theorem value_replicate_zero (n : Nat) : value (List.replicate n 0) = 0 := by
  induction n with
  | zero => rfl
  | succ n ih => simp [List.replicate_succ, ih]

/-- A sequence of digits stands for less than the weight of the position after it. -/
theorem value_lt {ds : List Nat} (h : AreDigits ds) : value ds < weight ds.length := by
  induction ds with
  | nil => simp
  | cons d ds ih =>
    have hd : d < 10 := h d (by simp)
    have hds := ih fun e he => h e (by simp [he])
    rw [value_cons, List.length_cons, weight_succ]
    omega

theorem value_ofNat (n : Nat) : value (ofNat n) = n := by
  induction n using Nat.strongRecOn with
  | ind n ih =>
    rw [ofNat]
    by_cases h : n = 0
    · simp [h]
    · rw [if_neg h, value_cons, ih (n / 10) (by omega)]
      omega

theorem areDigits_ofNat (n : Nat) : AreDigits (ofNat n) := by
  induction n using Nat.strongRecOn with
  | ind n ih =>
    rw [ofNat]
    by_cases h : n = 0
    · simp [h, AreDigits]
    · rw [if_neg h]
      intro d hd
      rcases List.mem_cons.1 hd with rfl | hd
      · exact Nat.mod_lt _ (by decide)
      · exact ih (n / 10) (by omega) d hd

theorem areDigits_replicate (n : Nat) {d : Nat} (h : d < 10) : AreDigits (List.replicate n d) := by
  intro e he
  rw [List.eq_of_mem_replicate he]
  exact h

theorem areDigits_append {as bs : List Nat} (ha : AreDigits as) (hb : AreDigits bs) :
    AreDigits (as ++ bs) := by
  intro d hd
  rcases List.mem_append.1 hd with hd | hd
  · exact ha d hd
  · exact hb d hd

/-! ### Trimming -/

@[simp] theorem value_trim (ds : List Nat) : value (trim ds) = value ds := by
  induction ds with
  | nil => rfl
  | cons d ds ih =>
    rw [trim]
    split
    · rename_i h
      rw [h] at ih
      split
      · rename_i h₀
        simp [h₀, ← ih]
      · simp [← ih]
    · rename_i e es h
      rw [value_cons, ← h, ih, value_cons]

theorem mem_of_mem_trim {ds : List Nat} {d : Nat} (h : d ∈ trim ds) : d ∈ ds := by
  induction ds with
  | nil => exact h
  | cons e ds ih =>
    rw [trim] at h
    split at h
    · split at h
      · cases h
      · rw [List.mem_singleton.1 h]
        exact List.mem_cons_self
    · rename_i e' es h'
      rcases List.mem_cons.1 h with rfl | hd
      · exact List.mem_cons_self
      · exact List.mem_cons_of_mem _ (ih (h' ▸ hd))

theorem getLast?_trim_ne (ds : List Nat) : (trim ds).getLast? ≠ some 0 := by
  induction ds with
  | nil => simp [trim]
  | cons d ds ih =>
    rw [trim]
    split
    · split
      · simp
      · rename_i h₀
        simpa using h₀
    · rename_i e es h
      rw [List.getLast?_cons_cons, ← h]
      exact ih

/-- **Trimmed digits are canonical.** -/
theorem canonical_trim {ds : List Nat} (h : AreDigits ds) : Canonical (trim ds) :=
  ⟨fun d hd => h d (mem_of_mem_trim hd), getLast?_trim_ne ds⟩

/-! ### The carry pass -/

/-- **What the carry pass does.** If the entries after the window are digits, then it
succeeds exactly when the value, with what is carried in, fits in the length; the
result has that value, the same length, and digits only. -/
theorem carryPass_spec {ds : List Nat} {window : Nat} (carry : Nat)
    (h : AreDigits (ds.drop window)) :
    if value ds + carry < weight ds.length then
      ∃ rs, carryPass window carry ds = some rs ∧ value rs = value ds + carry ∧
        rs.length = ds.length ∧ AreDigits rs
    else carryPass window carry ds = none := by
  induction ds generalizing window carry with
  | nil =>
    cases carry with
    | zero => exact ⟨[], by simp [carryPass], rfl, rfl, fun d hd => by simp at hd⟩
    | succ c => simp [carryPass]
  | cons d ds ih =>
    by_cases hstop : window = 0 ∧ carry = 0
    · -- nothing is left to do: all entries are digits
      obtain ⟨rfl, rfl⟩ := hstop
      have hlt := value_lt h
      rw [if_pos (by simpa using hlt)]
      exact ⟨d :: ds, by simp [carryPass], rfl, rfl, h⟩
    · have hstep : carryPass window carry (d :: ds) =
          (carryPass (window - 1) ((carry + d) / 10) ds).map ((carry + d) % 10 :: ·) := by
        rw [carryPass]
        exact fun h₁ h₂ => hstop ⟨h₁, h₂⟩
      have hdrop : AreDigits (ds.drop (window - 1)) := by
        cases window with
        | zero => exact fun e he => h e (List.mem_cons_of_mem d (by simpa using he))
        | succ w => simpa using h
      have hih := ih ((carry + d) / 10) hdrop
      rw [hstep, value_cons, List.length_cons, weight_succ]
      generalize weight ds.length = p at hih ⊢
      by_cases hfit : value ds + (carry + d) / 10 < p
      · rw [if_pos hfit] at hih
        obtain ⟨rs, hrs, hval, hlen, hdig⟩ := hih
        rw [if_pos (by omega), hrs]
        refine ⟨(carry + d) % 10 :: rs, rfl, ?_, by rw [List.length_cons, hlen], ?_⟩
        · rw [value_cons, hval]
          omega
        · intro e he
          rcases List.mem_cons.1 he with rfl | he
          · exact Nat.mod_lt _ (by decide)
          · exact hdig e he
      · rw [if_neg hfit] at hih
        rw [if_neg (by omega), hih, Option.map_none]

/-- The carry pass succeeds on what fits. -/
theorem exists_carryPass (ds : List Nat) (window carry : Nat) (h : AreDigits (ds.drop window))
    (hfit : value ds + carry < weight ds.length) :
    ∃ rs, carryPass window carry ds = some rs ∧ value rs = value ds + carry ∧
      rs.length = ds.length ∧ AreDigits rs := by
  have hspec := carryPass_spec carry h
  rwa [if_pos hfit] at hspec

/-! ### Sums and products -/

@[simp] theorem value_addScaled (k : Nat) (ds rs : List Nat) :
    value (addScaled k ds rs) = value ds + k * value rs := by
  induction rs generalizing ds with
  | nil => simp [addScaled]
  | cons r rs ih =>
    cases ds with
    | nil =>
      rw [addScaled, value_cons, ih, value_nil, value_cons, Nat.mul_add k, Nat.mul_left_comm k 10]
      omega
    | cons d ds =>
      rw [addScaled, value_cons, ih, value_cons, value_cons, Nat.mul_add k, Nat.mul_left_comm k 10]
      omega

theorem length_addScaled (k : Nat) {ds rs : List Nat} (h : rs.length ≤ ds.length) :
    (addScaled k ds rs).length = ds.length := by
  induction rs generalizing ds with
  | nil => rw [addScaled]
  | cons r rs ih =>
    cases ds with
    | nil => simp at h
    | cons d ds =>
      rw [addScaled, List.length_cons, List.length_cons, ih (by simpa using h)]

theorem drop_addScaled (k : Nat) {ds rs : List Nat} (h : rs.length ≤ ds.length) :
    (addScaled k ds rs).drop rs.length = ds.drop rs.length := by
  induction rs generalizing ds with
  | nil => rw [addScaled]
  | cons r rs ih =>
    cases ds with
    | nil => simp at h
    | cons d ds =>
      rw [addScaled, List.length_cons, List.drop_succ_cons, List.drop_succ_cons,
        ih (by simpa using h)]

theorem areDigits_drop {ds : List Nat} (n : Nat) (h : AreDigits ds) : AreDigits (ds.drop n) :=
  fun d hd => h d (List.mem_of_mem_drop hd)

/-- **Digit sequences have a sum**, and it is canonical. -/
theorem exists_add {a b : List Nat} (ha : AreDigits a) (hb : AreDigits b) :
    ∃ r, add a b = some r ∧ value r = value a + value b ∧ Canonical r := by
  have hlen : (a ++ List.replicate (max a.length b.length + 1 - a.length) 0).length =
      max a.length b.length + 1 := by
    rw [List.length_append, List.length_replicate]
    omega
  have hfit : value a + value b < weight (max a.length b.length + 1) := by
    have h₁ := Nat.lt_of_lt_of_le (value_lt ha) (weight_le (Nat.le_max_left a.length b.length))
    have h₂ := Nat.lt_of_lt_of_le (value_lt hb) (weight_le (Nat.le_max_right a.length b.length))
    rw [weight_succ]
    omega
  have hroom : AreDigits (a ++ List.replicate (max a.length b.length + 1 - a.length) 0) :=
    areDigits_append ha (areDigits_replicate _ (by decide))
  have hval : value (a ++ List.replicate (max a.length b.length + 1 - a.length) 0) = value a := by
    rw [value_append, value_replicate_zero, Nat.mul_zero, Nat.add_zero]
  unfold add
  dsimp only
  generalize a ++ List.replicate (max a.length b.length + 1 - a.length) 0 = room at *
  have hle : b.length ≤ room.length := by omega
  obtain ⟨rs, hrs, hvrs, -, hdig⟩ :=
    exists_carryPass (addScaled 1 room b) b.length 0
      (by rw [drop_addScaled 1 hle]; exact areDigits_drop _ hroom)
      (by rw [value_addScaled, length_addScaled 1 hle, hlen, hval]; omega)
  refine ⟨trim rs, by rw [hrs, Option.map_some], ?_, canonical_trim hdig⟩
  rw [value_trim, hvrs, value_addScaled, hval, Nat.one_mul, Nat.add_zero]

/-- Digit sequences have a product before it is trimmed. -/
theorem exists_mulUntrimmed {a b : List Nat} (ha : AreDigits a) (hb : AreDigits b) :
    ∃ r, mulUntrimmed b a = some r ∧ value r = value a * value b ∧
      r.length = a.length + b.length + 1 ∧ AreDigits r := by
  induction a with
  | nil =>
    refine ⟨List.replicate (b.length + 1) 0, rfl, by simp, ?_, areDigits_replicate _ (by decide)⟩
    rw [List.length_replicate, List.length_nil]
    omega
  | cons d ds ih =>
    obtain ⟨above, habove, hval, hlen, hdig⟩ := ih fun e he => ha e (List.mem_cons_of_mem d he)
    rw [mulUntrimmed, habove]
    dsimp only
    have hwide : AreDigits (0 :: above) := by
      intro e he
      rcases List.mem_cons.1 he with rfl | he
      · decide
      · exact hdig e he
    have hsum : value (0 :: above) + d * value b = value (d :: ds) * value b := by
      rw [value_cons, hval, value_cons, Nat.add_mul, Nat.mul_assoc]
      omega
    have hwidth : (0 :: above).length = (d :: ds).length + b.length + 1 := by
      rw [List.length_cons, List.length_cons, hlen]
      omega
    by_cases hd : d = 0
    · rw [if_pos hd]
      refine ⟨0 :: above, rfl, ?_, hwidth, hwide⟩
      rw [← hsum, hd, Nat.zero_mul, Nat.add_zero]
    · rw [if_neg hd]
      have hle : b.length ≤ (0 :: above).length := by omega
      have hfit : value (d :: ds) * value b < weight ((d :: ds).length + b.length + 1) := by
        have h₁ := Nat.mul_lt_mul'' (value_lt ha) (value_lt hb)
        rw [← weight_add] at h₁
        exact Nat.lt_of_lt_of_le h₁ (weight_le (by omega))
      obtain ⟨rs, hrs, hvrs, hlrs, hdrs⟩ :=
        exists_carryPass (addScaled d (0 :: above) b) b.length 0
          (by rw [drop_addScaled d hle]; exact areDigits_drop _ hwide)
          (by rw [value_addScaled, length_addScaled d hle, hwidth, hsum]; exact hfit)
      refine ⟨rs, hrs, ?_, ?_, hdrs⟩
      · rw [hvrs, value_addScaled, hsum, Nat.add_zero]
      · rw [hlrs, length_addScaled d hle, hwidth]

/-- **Digit sequences have a product**, and it is canonical. -/
theorem exists_mul {a b : List Nat} (ha : AreDigits a) (hb : AreDigits b) :
    ∃ r, mul a b = some r ∧ value r = value a * value b ∧ Canonical r := by
  obtain ⟨rs, hrs, hval, -, hdig⟩ := exists_mulUntrimmed ha hb
  refine ⟨trim rs, by rw [mul, hrs, Option.map_some], ?_, canonical_trim hdig⟩
  rw [value_trim, hval]

end Readout.Digits
