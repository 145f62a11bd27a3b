import Mathlib.Data.List.Induction
import Mathlib.Data.Nat.BitIndices
import Mathlib.Data.Set.Insert
import Readout.Proofs.Decimal.Powers
import Readout.Table

/-!
# The accounts of a power table

A power table counts the look-ups that it could answer and those that it could not. Which of the
two a look-up is depends on what was asked before, and so does the number of look-ups that one
request leads to. The totals do not: they depend on which powers were asked for and how often, and
not on the order (`Readout.PowerTable.accounts_after`).

* **What is kept.** The power for an exponent is put together from the powers for its parts
  (`Readout.parts`): the powers of two up to the exponent, and the numbers that its highest bits
  make. A look-up adds the parts of its exponent to what is kept and nothing else
  (`Readout.PowerTable.LookedUp`). That it can stop at a power that is kept already is due to an
  invariant: with every exponent its parts are kept (`Readout.PowerTable.Orderly`).
* **What is counted.** A power that is missing is computed from none, one or two smaller ones, as
  its exponent has it (`Readout.smallerPowers`), and never again. So every power that is kept
  accounts for one miss and for that many look-ups, and every request for one more.
-/

namespace Readout

/-! ### The lowest bit -/

theorem lowBit_two_mul (n : ℕ) : lowBit (2 * n) = 2 * lowBit n := by
  rcases Nat.eq_zero_or_pos n with rfl | hpos
  · rw [lowBit, if_pos rfl]
  · rw [lowBit, if_neg (by omega), if_neg (by omega), Nat.mul_div_cancel_left n (by decide)]

theorem lowBit_two_mul_add_one (n : ℕ) : lowBit (2 * n + 1) = 1 := by
  rw [lowBit, if_neg (by omega), if_pos (by omega)]

/-- **The lowest bit is the first one**, and the other bits are those of the rest. -/
theorem exists_bitIndices_eq {n : ℕ} (h : 0 < n) :
    ∃ i, lowBit n = 2 ^ i ∧ n.bitIndices = i :: (n - lowBit n).bitIndices := by
  induction n using Nat.strongRecOn with
  | ind n ih =>
    obtain ⟨m, rfl | rfl⟩ := Nat.even_or_odd' n
    · obtain ⟨i, hlow, hbits⟩ := ih m (by omega) (by omega)
      refine ⟨i + 1, by rw [lowBit_two_mul, hlow, pow_succ'], ?_⟩
      rw [lowBit_two_mul, ← Nat.mul_sub, Nat.bitIndices_two_mul, Nat.bitIndices_two_mul, hbits,
        List.map_cons]
    · refine ⟨0, lowBit_two_mul_add_one m, ?_⟩
      rw [lowBit_two_mul_add_one, Nat.add_sub_cancel, Nat.bitIndices_two_mul_add_one,
        Nat.bitIndices_two_mul]

theorem exists_lowBit_eq {n : ℕ} (h : 0 < n) : ∃ i, lowBit n = 2 ^ i := by
  obtain ⟨i, hlow, -⟩ := exists_bitIndices_eq h
  exact ⟨i, hlow⟩

/-- A power of two is its own lowest bit. -/
theorem lowBit_two_pow (i : ℕ) : lowBit (2 ^ i) = 2 ^ i := by
  induction i with
  | zero => exact lowBit_two_mul_add_one 0
  | succ i ih => rw [pow_succ', lowBit_two_mul, ih]

/-- A number that has other bits too is at least as great without the lowest one as any power of
two that it reaches. -/
theorem two_pow_le_sub_lowBit {n a : ℕ} (hne : lowBit n ≠ n) (h : 2 ^ a ≤ n) :
    2 ^ a ≤ n - lowBit n := by
  induction n using Nat.strongRecOn generalizing a with
  | ind n ih =>
    have hle := lowBit_le n
    rcases a with - | a
    · rw [pow_zero]
      omega
    · rw [pow_succ'] at h ⊢
      obtain ⟨m, rfl | rfl⟩ := Nat.even_or_odd' n
      · rw [lowBit_two_mul] at hne ⊢
        have := ih m (by have := Nat.two_pow_pos a; omega) (by omega) (a := a) (by omega)
        omega
      · rw [lowBit_two_mul_add_one]
        omega

/-! ### The parts of an exponent -/

/-- The number that the highest bits of a number make, so many of them. -/
def leading (n count : ℕ) : ℕ :=
  ((n.bitIndices.reverse.take count).map (2 ^ ·)).sum

/-- **The parts of an exponent**: zero is its own part; for all other exponents, the powers of two
up to it, and what its highest bits make, one of them at least. -/
def parts (n : ℕ) : Set ℕ :=
  if n = 0 then {0}
  else {k | ∃ i, 2 ^ i = k ∧ k ≤ n} ∪ {k | ∃ count, 1 ≤ count ∧ leading n count = k}

/-- The lowest bit is the last one to come. -/
theorem leading_eq {n : ℕ} (h : 0 < n) (count : ℕ) : leading n count =
    if count < n.bitIndices.length then leading (n - lowBit n) count else n := by
  obtain ⟨i, -, hbits⟩ := exists_bitIndices_eq h
  split
  · rename_i hlt
    rw [hbits, List.length_cons] at hlt
    rw [leading, leading, hbits, List.reverse_cons, List.take_append_of_le_length]
    rw [List.length_reverse]
    omega
  · rename_i hge
    rw [leading, List.take_of_length_le (by rw [List.length_reverse]; omega), List.map_reverse,
      List.sum_reverse, Nat.sum_map_two_pow_bitIndices]

theorem leading_le (n count : ℕ) : leading n count ≤ n := by
  induction n using Nat.strongRecOn with
  | ind n ih =>
    rcases Nat.eq_zero_or_pos n with rfl | hpos
    · simp [leading]
    · rw [leading_eq hpos]
      split
      · have := ih (n - lowBit n) (by have := lowBit_pos hpos; omega)
        omega
      · exact le_refl n

theorem mem_parts_iff {n k : ℕ} (h : 0 < n) : k ∈ parts n ↔
    (∃ i, 2 ^ i = k ∧ k ≤ n) ∨ ∃ count, 1 ≤ count ∧ leading n count = k := by
  rw [parts, if_neg (by omega)]
  exact Iff.rfl

theorem le_of_mem_parts {n k : ℕ} (h : k ∈ parts n) : k ≤ n := by
  rcases Nat.eq_zero_or_pos n with rfl | hpos
  · exact le_of_eq h
  · rcases (mem_parts_iff hpos).1 h with ⟨i, -, hle⟩ | ⟨count, -, rfl⟩
    · exact hle
    · exact leading_le n count

/-- The parts of a power of two are the powers of two up to it. -/
theorem mem_parts_two_pow {i k : ℕ} : k ∈ parts (2 ^ i) ↔ ∃ a ≤ i, 2 ^ a = k := by
  have hpos := Nat.two_pow_pos i
  rw [mem_parts_iff hpos]
  constructor
  · rintro (⟨a, rfl, hle⟩ | ⟨count, hcount, rfl⟩)
    · exact ⟨a, (Nat.pow_le_pow_iff_right (by decide)).1 hle, rfl⟩
    · refine ⟨i, le_refl i, ?_⟩
      rw [leading_eq hpos, Nat.bitIndices_two_pow, List.length_singleton, if_neg (by omega)]
  · rintro ⟨a, ha, rfl⟩
    exact Or.inl ⟨a, rfl, Nat.pow_le_pow_right (by decide) ha⟩

theorem parts_of_le_one {n k : ℕ} (h : n ≤ 1) : k ∈ parts n ↔ k = n := by
  rcases Nat.le_one_iff_eq_zero_or_eq_one.1 h with rfl | rfl
  · exact Iff.rfl
  · rw [show (1 : ℕ) = 2 ^ 0 from rfl, mem_parts_two_pow]
    simp [eq_comm]

/-- **A power of two above one** has the parts of its half besides itself. -/
theorem parts_of_lowBit_eq {n k : ℕ} (h : 1 < n) (hlow : lowBit n = n) :
    k ∈ parts n ↔ k = n ∨ k ∈ parts (n / 2) := by
  obtain ⟨i, hi⟩ := exists_lowBit_eq (show 0 < n by omega)
  rw [hlow] at hi
  subst hi
  obtain ⟨i, rfl⟩ : ∃ j, i = j + 1 := Nat.exists_eq_succ_of_ne_zero (by rintro rfl; simp at h)
  rw [pow_succ, Nat.mul_div_cancel _ (by decide), ← pow_succ, mem_parts_two_pow, mem_parts_two_pow]
  constructor
  · rintro ⟨a, ha, rfl⟩
    rcases Nat.of_le_succ ha with ha | rfl
    · exact Or.inr ⟨a, ha, rfl⟩
    · exact Or.inl rfl
  · rintro (rfl | ⟨a, ha, rfl⟩)
    · exact ⟨i + 1, le_refl _, rfl⟩
    · exact ⟨a, Nat.le_succ_of_le ha, rfl⟩

/-- **An exponent with several bits** has the parts of its lowest bit and of the rest besides
itself. -/
theorem parts_of_lowBit_ne {n k : ℕ} (h : 0 < n) (hlow : lowBit n ≠ n) :
    k ∈ parts n ↔ k = n ∨ k ∈ parts (n - lowBit n) ∨ k ∈ parts (lowBit n) := by
  have hle := lowBit_le n
  have hrest : 0 < n - lowBit n := by omega
  obtain ⟨i, hi, hbits⟩ := exists_bitIndices_eq h
  have hlength : n.bitIndices.length = (n - lowBit n).bitIndices.length + 1 := by
    rw [hbits, List.length_cons]
  rw [mem_parts_iff h, mem_parts_iff hrest]
  constructor
  · rintro (⟨a, rfl, ha⟩ | ⟨count, hcount, rfl⟩)
    · exact Or.inr (Or.inl (Or.inl ⟨a, rfl, two_pow_le_sub_lowBit hlow ha⟩))
    · rw [leading_eq h]
      split
      · exact Or.inr (Or.inl (Or.inr ⟨count, hcount, rfl⟩))
      · exact Or.inl rfl
  · rintro (hk | (⟨a, rfl, ha⟩ | ⟨count, hcount, rfl⟩) | hpart)
    · refine Or.inr ⟨n.bitIndices.length, by omega, ?_⟩
      rw [leading_eq h, if_neg (lt_irrefl _), hk]
    · exact Or.inl ⟨a, rfl, ha.trans (Nat.sub_le _ _)⟩
    · -- all bits of the rest are less than all bits
      obtain ⟨j, -, hrestBits⟩ := exists_bitIndices_eq hrest
      refine Or.inr ⟨min count (n - lowBit n).bitIndices.length, ?_, ?_⟩
      · rw [hrestBits, List.length_cons]
        omega
      · rw [leading_eq h, if_pos (by omega), leading, leading, ← List.length_reverse,
          ← List.take_eq_take_min]
    · rw [hi, mem_parts_two_pow] at hpart
      obtain ⟨a, ha, rfl⟩ := hpart
      refine Or.inl ⟨a, rfl, (Nat.pow_le_pow_right (by decide) ha).trans ?_⟩
      rw [← hi]
      exact hle

/-- The number of smaller powers that the power for an exponent is computed from. -/
def smallerPowers (n : ℕ) : ℕ :=
  if n ≤ 1 then 0 else if lowBit n = n then 1 else 2

/-- **The smaller powers by the bits of the exponents**: two for each exponent with several bits,
and one for each power of two above one. -/
theorem sum_smallerPowers (ns : List ℕ) : (ns.map smallerPowers).sum =
    2 * ns.countP (fun n => 2 ≤ n.bitIndices.length) +
      ns.countP (fun n => 1 < n ∧ n.isPowerOfTwo) := by
  induction ns with
  | nil => rfl
  | cons n ns ih =>
    have hone : smallerPowers n = 2 * (if 2 ≤ n.bitIndices.length then 1 else 0) +
        if 1 < n ∧ n.isPowerOfTwo then 1 else 0 := by
      unfold smallerPowers
      rcases Nat.lt_or_ge 1 n with hn | hn
      · obtain ⟨i, hi, hbits⟩ := exists_bitIndices_eq (show 0 < n by omega)
        by_cases hlow : lowBit n = n
        · have hpow : n.isPowerOfTwo := ⟨i, hlow.symm.trans hi⟩
          have hlength : n.bitIndices.length = 1 := by rw [hbits, hlow, Nat.sub_self]; rfl
          rw [if_neg (by omega), if_pos hlow, if_neg (by omega), if_pos ⟨hn, hpow⟩]
        · have hpow : ¬n.isPowerOfTwo := by
            rintro ⟨j, rfl⟩
            exact hlow (lowBit_two_pow j)
          have hrest := lowBit_le n
          obtain ⟨j, -, hrestBits⟩ := exists_bitIndices_eq (show 0 < n - lowBit n by omega)
          have hlength : 2 ≤ n.bitIndices.length := by
            rw [hbits, hrestBits, List.length_cons, List.length_cons]
            omega
          rw [if_neg (by omega), if_neg hlow, if_pos hlength, if_neg fun h => hpow h.2]
      · have hlength : n.bitIndices.length ≤ 1 := by
          rcases Nat.le_one_iff_eq_zero_or_eq_one.1 hn with rfl | rfl <;> simp
        rw [if_pos hn, if_neg (by omega), if_neg (by omega)]
    rw [List.map_cons, List.sum_cons, ih, hone, List.countP_cons, List.countP_cons]
    simp only [decide_eq_true_eq]
    omega

namespace PowerTable

/-! ### What a table keeps -/

/-- The exponents of the powers that are kept of a base. -/
def exponents (t : PowerTable) (base : Base) : List ℕ :=
  (t.powers base).map Prod.fst

/-- The exponents of all powers that are kept, those of two and those of five. -/
def kept (t : PowerTable) : List ℕ :=
  t.exponents .two ++ t.exponents .five

theorem length_kept (t : PowerTable) : t.kept.length = t.size := by
  simp [kept, exponents, size, powers]

theorem find?_eq_none_iff {t : PowerTable} {base : Base} {n : ℕ} :
    t.find? base n = none ↔ n ∉ t.exponents base :=
  lookup_eq_none_iff_not_mem

@[simp] theorem exponents_hit (t : PowerTable) (base : Base) :
    t.hit.exponents base = t.exponents base := by
  cases base <;> rfl

@[simp] theorem kept_hit (t : PowerTable) : t.hit.kept = t.kept := rfl

section Keep

variable (t : PowerTable) (base : Base) (n : ℕ) (p : Decimal)

theorem exponents_keep (base' : Base) : (t.keep base n p).exponents base' =
    if base' = base then n :: t.exponents base' else t.exponents base' := by
  cases base <;> cases base' <;> rfl

@[simp] theorem hits_keep : (t.keep base n p).hits = t.hits := by
  cases base <;> rfl

@[simp] theorem misses_keep : (t.keep base n p).misses = t.misses + 1 := by
  cases base <;> rfl

@[simp] theorem size_keep : (t.keep base n p).size = t.size + 1 := by
  cases base with
  | two => exact Nat.add_right_comm _ _ _
  | five => rfl

theorem sum_kept_keep (f : ℕ → ℕ) :
    ((t.keep base n p).kept.map f).sum = f n + (t.kept.map f).sum := by
  cases base with
  | two => simp [kept, exponents_keep]
  | five => simp [kept, exponents_keep, Nat.add_left_comm]

end Keep

/-- **A table in order.** -/
structure Orderly (t : PowerTable) : Prop where
  /-- No power is kept twice. -/
  nodup : ∀ base, (t.exponents base).Nodup
  /-- With every exponent its parts are kept. -/
  closed : ∀ base, ∀ n ∈ t.exponents base, ∀ m ∈ parts n, m ∈ t.exponents base
  /-- A miss is counted for every power that is kept. -/
  misses_eq : t.misses = t.size

variable {t t' t'' : PowerTable} {base : Base} {n : ℕ}

theorem orderly_empty : empty.Orderly where
  nodup base := by cases base <;> exact List.nodup_nil
  closed base n hn := by cases base <;> cases hn
  misses_eq := rfl

/-- **A power can be kept** if it is not yet, and if its smaller parts are. -/
theorem Orderly.keep (h : t.Orderly) (hn : n ∉ t.exponents base)
    (hparts : ∀ m ∈ parts n, m = n ∨ m ∈ t.exponents base) (p : Decimal) :
    (t.keep base n p).Orderly where
  nodup base' := by
    rw [exponents_keep]
    split
    · rename_i heq
      rw [heq]
      exact List.nodup_cons.2 ⟨hn, h.nodup base⟩
    · exact h.nodup base'
  closed base' k hk m hm := by
    rw [exponents_keep] at hk ⊢
    split
    · rename_i heq
      rw [if_pos heq, heq] at hk
      rw [heq]
      rcases List.mem_cons.1 hk with rfl | hk
      · exact List.mem_cons.2 (hparts m hm)
      · exact List.mem_cons_of_mem _ (h.closed base k hk m hm)
    · rename_i hne
      rw [if_neg hne] at hk
      exact h.closed base' k hk m hm
  misses_eq := by rw [misses_keep, size_keep, h.misses_eq]

/-! ### What a look-up does -/

/-- **What a look-up changes**, and what it does to the counts. -/
structure LookedUp (t : PowerTable) (base : Base) (n : ℕ) (t' : PowerTable) : Prop where
  /-- The table is in order. -/
  orderly : t'.Orderly
  /-- The parts of the exponent are kept, and nothing else is new. -/
  mem_exponents_iff : ∀ base' m,
    m ∈ t'.exponents base' ↔ m ∈ t.exponents base' ∨ base' = base ∧ m ∈ parts n
  /-- There was this look-up, and one for every smaller power that a new one was computed from. -/
  count : t'.hits + t'.misses + (t.kept.map smallerPowers).sum =
    t.hits + t.misses + 1 + (t'.kept.map smallerPowers).sum

/-- **A look-up of a power that is kept.** -/
theorem LookedUp.of_mem (h : t.Orderly) (hn : n ∈ t.exponents base) : t.LookedUp base n t.hit where
  orderly := ⟨fun base => by rw [exponents_hit]; exact h.nodup base,
    fun base => by rw [exponents_hit]; exact h.closed base, h.misses_eq⟩
  mem_exponents_iff base' m := by
    rw [exponents_hit]
    constructor
    · exact Or.inl
    · rintro (hm | ⟨rfl, hm⟩)
      · exact hm
      · exact h.closed base' n hn m hm
  count := by
    change t.hits + 1 + t.misses + _ = _
    rw [kept_hit]
    omega

/-- **A look-up of a power that is missing**, once its smaller parts have been looked up. -/
theorem LookedUp.of_keep (h : t'.Orderly) (hn : n ∉ t.exponents base)
    (hmem : ∀ base' m, m ∈ t'.exponents base' ↔
      m ∈ t.exponents base' ∨ base' = base ∧ m ≠ n ∧ m ∈ parts n)
    (hpart : n ∈ parts n)
    (hcount : t'.hits + t'.misses + (t.kept.map smallerPowers).sum =
      t.hits + t.misses + smallerPowers n + (t'.kept.map smallerPowers).sum) (p : Decimal) :
    t.LookedUp base n (t'.keep base n p) where
  orderly := by
    refine h.keep ?_ (fun m hm => ?_) p
    · rw [hmem]
      rintro (hn' | ⟨-, hne, -⟩)
      · exact hn hn'
      · exact hne rfl
    · rw [hmem]
      rcases eq_or_ne m n with heq | hne
      · exact Or.inl heq
      · exact Or.inr (Or.inr ⟨rfl, hne, hm⟩)
  mem_exponents_iff base' m := by
    rw [exponents_keep]
    split
    · rename_i heq
      subst heq
      rw [List.mem_cons, hmem]
      rcases eq_or_ne m n with rfl | hne
      · simp [hpart]
      · simp [hne]
    · rename_i hne
      rw [hmem]
      simp [hne]
  count := by
    rw [hits_keep, misses_keep, sum_kept_keep]
    omega

/-- **Every look-up adds the parts of its exponent**, whatever of them is kept already. -/
theorem Orderly.lookedUp (h : t.Orderly) (base : Base) (n : ℕ) :
    t.LookedUp base n (lookup base n t).2 := by
  fun_induction PowerTable.lookup base n t with
  | case1 n t p hp =>
    refine .of_mem h ?_
    by_contra hn
    rw [find?_eq_none_iff.2 hn] at hp
    cases hp
  | case2 n t hfind hle p =>
    refine .of_keep h (find?_eq_none_iff.1 hfind) (fun base' m => ?_)
      ((parts_of_le_one hle).2 rfl) ?_ p
    · rw [parts_of_le_one hle]
      simp
    · rw [smallerPowers, if_pos hle, Nat.add_zero]
  | case3 n t hfind hle hlow half p ih =>
    have hhalf : t.LookedUp base (n / 2) half.2 := ih h
    refine .of_keep hhalf.orderly (find?_eq_none_iff.1 hfind) (fun base' m => ?_)
      ((parts_of_lowBit_eq (by omega) hlow).2 (Or.inl rfl)) ?_ p
    · have hne : m ∈ parts (n / 2) → m ≠ n := fun hm => by
        have := le_of_mem_parts hm
        omega
      rw [hhalf.mem_exponents_iff, parts_of_lowBit_eq (by omega) hlow]
      tauto
    · have hcount := hhalf.count
      rw [smallerPowers, if_neg hle, if_pos hlow]
      exact hcount
  | case4 n t hfind hle hlow hle' hpos high low p ih₁ ih₂ =>
    -- the second look-up is made in the table that the first one leaves
    have hhigh : t.LookedUp base (n - lowBit n) high.2 := ih₁ h
    have hlow₂ : high.2.LookedUp base (lowBit n) low.2 := ih₂ hhigh.orderly
    refine .of_keep hlow₂.orderly (find?_eq_none_iff.1 hfind) (fun base' m => ?_)
      ((parts_of_lowBit_ne (by omega) hlow).2 (Or.inl rfl)) ?_ p
    · have hne : m ∈ parts (n - lowBit n) ∨ m ∈ parts (lowBit n) → m ≠ n := fun hm => by
        rcases hm with hm | hm
        · have := le_of_mem_parts hm
          omega
        · have := le_of_mem_parts hm
          omega
      rw [hlow₂.mem_exponents_iff, hhigh.mem_exponents_iff, parts_of_lowBit_ne (by omega) hlow]
      tauto
    · have hcount₁ := hhigh.count
      have hcount₂ := hlow₂.count
      rw [smallerPowers, if_neg hle, if_neg hlow]
      omega

/-! ### What many requests do -/

/-- What a step adds to the powers that have been asked for since everything was last
forgotten. -/
def Step.extend (ds : List (Base × ℕ)) (s : Step) : List (Base × ℕ) :=
  if s = .clear then [] else ds ++ s.demand?.toList

/-- **The powers that steps ask a table for**, in order, since everything was last forgotten. -/
def demands (steps : List Step) : List (Base × ℕ) :=
  steps.foldl Step.extend []

/-- The table after steps, from an empty one on. -/
def after (steps : List Step) : PowerTable :=
  steps.foldl (fun t s => (t.step s).2) empty

/-- **The accounts of a table** that has been asked for powers. -/
structure Accounts (ds : List (Base × ℕ)) (t : PowerTable) : Prop where
  /-- The parts of the exponents that were asked for are kept, and nothing else. -/
  mem_exponents_iff : ∀ base n, n ∈ t.exponents base ↔ ∃ m, (base, m) ∈ ds ∧ n ∈ parts m
  /-- What is kept for an exponent is that power. -/
  find?_eq : ∀ base n, t.find? base n =
    if n ∈ t.exponents base then some (Decimal.ofNat (base.value ^ n)) else none
  /-- No power is kept twice. -/
  nodup : ∀ base, (t.exponents base).Nodup
  /-- Every power that is kept was missing once. -/
  misses_eq_size : t.misses = t.size
  /-- So many powers are kept. -/
  size_eq : t.size = t.kept.length
  /-- All look-ups were requests, or for one of the two powers that the power for an exponent with
  several bits is a product of, or for the power whose square the power for a power of two above
  one is. -/
  hits_add_misses : t.hits + t.misses = ds.length +
    2 * t.kept.countP (fun n => 2 ≤ n.bitIndices.length) +
      t.kept.countP (fun n => 1 < n ∧ n.isPowerOfTwo)

/-- The part of the accounts that look-ups keep. -/
structure Balanced (ds : List (Base × ℕ)) (t : PowerTable) : Prop where
  /-- The table is in order. -/
  orderly : t.Orderly
  /-- The parts of the exponents that were asked for are kept, and nothing else. -/
  mem_exponents_iff : ∀ base n, n ∈ t.exponents base ↔ ∃ m, (base, m) ∈ ds ∧ n ∈ parts m
  /-- Look-ups were requests, or for smaller powers. -/
  count : t.hits + t.misses = ds.length + (t.kept.map smallerPowers).sum

variable {ds ds' : List (Base × ℕ)}

theorem balanced_empty : Balanced [] empty where
  orderly := orderly_empty
  mem_exponents_iff base n := by cases base <;> simp [exponents, powers, empty]
  count := rfl

/-- **One more request.** -/
theorem Balanced.lookup (h : Balanced ds t) (base : Base) (n : ℕ) :
    Balanced (ds ++ [(base, n)]) (lookup base n t).2 where
  orderly := (h.orderly.lookedUp base n).orderly
  mem_exponents_iff base' m := by
    rw [(h.orderly.lookedUp base n).mem_exponents_iff, h.mem_exponents_iff]
    simp only [List.mem_append, List.mem_singleton, Prod.mk.injEq, or_and_right, exists_or,
      and_assoc, exists_and_left, exists_eq_left]
  count := by
    have hcount := (h.orderly.lookedUp base n).count
    have hbefore := h.count
    rw [List.length_append, List.length_singleton]
    omega

theorem Balanced.step (h : Balanced ds t) (s : Step) : Balanced (s.extend ds) (t.step s).2 := by
  rw [step_snd, Step.extend]
  split
  · exact balanced_empty
  · cases s.demand? with
    | none => rwa [Option.toList_none, List.append_nil]
    | some d => exact h.lookup d.1 d.2

theorem balanced_after (steps : List Step) : Balanced (demands steps) (after steps) := by
  induction steps using List.reverseRecOn with
  | nil => exact balanced_empty
  | append_singleton steps s ih =>
    rw [demands, after, List.foldl_append, List.foldl_append]
    exact ih.step s

theorem reachable_after (steps : List Step) : (after steps).Reachable := by
  induction steps using List.reverseRecOn with
  | nil => exact .empty
  | append_singleton steps s ih =>
    rw [after, List.foldl_append]
    exact ih.step s

/-- **A sound table in balance has its accounts right.** -/
theorem Balanced.accounts (h : Balanced ds t) (hsound : t.Sound) : Accounts ds t where
  mem_exponents_iff := h.mem_exponents_iff
  find?_eq base n := by
    split
    · rename_i hn
      cases hfind : t.find? base n with
      | none => exact absurd hn (find?_eq_none_iff.1 hfind)
      | some p =>
        refine congrArg some (Decimal.value_injective ?_)
        rw [hsound base n p hfind, Decimal.value_ofNat]
    · rename_i hn
      exact find?_eq_none_iff.2 hn
  nodup := h.orderly.nodup
  misses_eq_size := h.orderly.misses_eq
  size_eq := t.length_kept.symm
  hits_add_misses := by rw [h.count, sum_smallerPowers, Nat.add_assoc]

/-- **Accounts of the same requests in another order are the same**: the tables keep the same
powers and have counted the same. -/
theorem Accounts.eq_of_perm (h : Accounts ds t) (h' : Accounts ds' t') (hperm : ds.Perm ds') :
    (∀ base n, t.find? base n = t'.find? base n) ∧ t.size = t'.size ∧ t.hits = t'.hits ∧
      t.misses = t'.misses := by
  have hmem : ∀ base n, n ∈ t.exponents base ↔ n ∈ t'.exponents base := fun base n => by
    rw [h.mem_exponents_iff, h'.mem_exponents_iff]
    exact exists_congr fun m => and_congr_left fun _ => hperm.mem_iff
  have hexponents : ∀ base, (t.exponents base).Perm (t'.exponents base) := fun base =>
    (List.perm_ext_iff_of_nodup (h.nodup base) (h'.nodup base)).2 (hmem base)
  have hkept : t.kept.Perm t'.kept := (hexponents .two).append (hexponents .five)
  have hsize : t.size = t'.size := by rw [h.size_eq, h'.size_eq, hkept.length_eq]
  have hcount := h.hits_add_misses
  have hcount' := h'.hits_add_misses
  have hmisses := h.misses_eq_size
  have hmisses' := h'.misses_eq_size
  rw [hperm.length_eq, hkept.countP_eq, hkept.countP_eq] at hcount
  refine ⟨fun base n => ?_, hsize, by omega, by omega⟩
  rw [h.find?_eq, h'.find?_eq]
  exact if_congr (hmem base n) rfl rfl

/-- Requests within reach ask for what they say. -/
theorem demands_map_power {ds : List (Base × ℕ)} (h : ∀ d ∈ ds, isWithinReach d.2 = true) :
    demands (ds.map fun d => .power d.1.value d.2) = ds := by
  induction ds using List.reverseRecOn with
  | nil => rfl
  | append_singleton ds d ih =>
    have hdemand : (Step.power d.1.value d.2).demand? = some d := by
      have hbase : Base.ofInt? d.1.value = some d.1 := by cases d.1 <;> rfl
      rw [Step.demand?, powerDemand?, if_pos ⟨Int.natCast_nonneg _, h d (by simp)⟩, hbase,
        Option.map_some, Int.toNat_natCast]
    have hbefore := ih fun d hd => h d (List.mem_append_left _ hd)
    rw [demands] at hbefore ⊢
    rw [List.map_append, List.foldl_append, hbefore, List.map_singleton, List.foldl_cons,
      List.foldl_nil, Step.extend, if_neg (by simp), hdemand, Option.toList_some]

/-- **The accounts are exact, and the order of requests does not matter.** Whatever has been asked
of a table, its accounts are those of the powers that were asked for since everything was last
forgotten, and any powers within reach can be asked for. The same powers asked for in another order
leave the same powers and the same counts. -/
theorem accounts_after (steps : List Step) : Accounts (demands steps) (after steps) ∧
    (∀ ds : List (Base × ℕ), (∀ d ∈ ds, isWithinReach d.2 = true) →
      demands (ds.map fun d => .power d.1.value d.2) = ds) ∧
    ∀ steps', (demands steps).Perm (demands steps') →
      (∀ base n, (after steps).find? base n = (after steps').find? base n) ∧
      (after steps).size = (after steps').size ∧ (after steps).hits = (after steps').hits ∧
      (after steps).misses = (after steps').misses := by
  have haccounts : ∀ steps, Accounts (demands steps) (after steps) := fun steps =>
    (balanced_after steps).accounts (reachable_after steps).sound
  exact ⟨haccounts steps, fun _ => demands_map_power,
    fun steps' => (haccounts steps).eq_of_perm (haccounts steps')⟩

/-- The sixth power of two, the third one of five, and two itself, in two orders. What was asked
for before everything was forgotten does not count, nor does a request that is refused. -/
theorem accounts_after_two_orders :
    let ds : List (Base × ℕ) := [(.two, 6), (.five, 3), (.two, 1)]
    let steps : List Step := [.power 2 9, .clear, .power 2 6, .render 1 (-3) 5, .power 2 1]
    let steps' : List Step := [.power 2 1, .power 3 1, .power 5 3, .power 2 6]
    demands (ds.map fun d => .power d.1.value d.2) = ds ∧ demands steps = ds ∧
      (demands steps).Perm (demands steps') ∧
      (after steps').hits = 3 ∧ (after steps').misses = 7 ∧
      (after steps).hits = (after steps').hits ∧ (after steps).misses = (after steps').misses := by
  intro ds steps steps'
  have hreach : ∀ d ∈ ds, isWithinReach d.2 = true := by decide +kernel
  have hdemands : demands steps = ds := by decide +kernel
  have hperm : (demands steps).Perm (demands steps') := by decide +kernel
  obtain ⟨-, hasked, horder⟩ := accounts_after steps
  obtain ⟨-, -, hhits, hmisses⟩ := horder steps' hperm
  exact ⟨hasked ds hreach, hdemands, hperm, by decide +kernel, by decide +kernel, hhits, hmisses⟩

end PowerTable

end Readout
