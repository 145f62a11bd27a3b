import Mathlib.Data.Nat.Digits.Lemmas
import Readout.Proofs.Numeral.Literal

/-!
# The spellings of integers

An integer can be spelled in many ways (`Readout.Numeral.Spells`): in decimal without superfluous
zeros, or in one of three other bases behind a mark, with underscores between digits, with a sign,
with blanks around it, and with digits of any script.

The reader of values knows all of them and no others, but it converts no decimal digits if there are
too many of them (`Readout.Numeral.readInteger?_eq_some_iff`). It looks at the ASCII forms of the
characters only, so the leaves of the grammar are what has a certain ASCII form: the digits
(`Readout.Numeral.digitIn?_asciiForm_eq_some_iff`), and the marks and signs, which have no other
form (`Readout.Numeral.eq_of_asciiForm`).
-/

namespace Readout.Numeral

open Text

/-! ### The grammar -/

/-- **A digit of a base**, with its value: an ASCII digit or letter, or a decimal digit of any
script. -/
structure DigitOf (base : ℕ) (c : Char) (d : ℕ) : Prop where
  /-- The value. -/
  value : digitValue? c = some d ∨ decimalDigit? c = some d
  /-- It is below the base. -/
  lt : d < base

/-- **Digits in a row**, with their values: there is one at least, and a single underscore may stand
between two of them. -/
inductive DigitRow (base : ℕ) : List ℕ → List Char → Prop
  /-- The last digit. -/
  | last {c : Char} {d : ℕ} (hc : DigitOf base c d) : DigitRow base [d] [c]
  /-- A digit in front of others. -/
  | next {c : Char} {d : ℕ} {cs : List Char} {ds : List ℕ} (hc : DigitOf base c d)
    (hcs : DigitRow base ds cs) : DigitRow base (d :: ds) (c :: cs)
  /-- A digit in front of others, with an underscore between them. -/
  | apart {c : Char} {d : ℕ} {cs : List Char} {ds : List ℕ} (hc : DigitOf base c d)
    (hcs : DigitRow base ds cs) : DigitRow base (d :: ds) (c :: '_' :: cs)

/-- **Numerals without a sign**, with their bases and digits. -/
inductive Unsigned : ℕ → List ℕ → List Char → Prop
  /-- Decimal digits, without superfluous zeros before them. -/
  | decimal {ds : List ℕ} {cs : List Char} (hcs : DigitRow 10 ds cs)
    (hzeros : ds.head? = some 0 → valueIn 10 ds = 0) : Unsigned 10 ds cs
  /-- The mark of a base, and digits behind it. -/
  | marked {zero mark : Char} {base : ℕ} {ds : List ℕ} {cs : List Char} (hzero : DigitOf 10 zero 0)
    (hmark : (mark, base) ∈ baseMarks) (hcs : DigitRow base ds cs) :
    Unsigned base ds (zero :: mark :: cs)
  /-- The mark of a base, and digits behind it, with an underscore between them. -/
  | apart {zero mark : Char} {base : ℕ} {ds : List ℕ} {cs : List Char} (hzero : DigitOf 10 zero 0)
    (hmark : (mark, base) ∈ baseMarks) (hcs : DigitRow base ds cs) :
    Unsigned base ds (zero :: mark :: '_' :: cs)

/-- The signs, with what they make of one. -/
def signs : List (List Char × ℤ) :=
  [([], 1), (['+'], 1), (['-'], -1)]

/-- **The spellings of an integer**: a sign and a numeral, with blanks around them. -/
inductive Spells (base : ℕ) (ds : List ℕ) (text : String) : ℤ → Prop
  /-- Its absolute value is that of the digits. -/
  | intro {before sign cs after : List Char} {factor : ℤ}
    (htext : text.toList = before ++ (sign ++ cs) ++ after)
    (hbefore : ∀ c ∈ before, isBlank c = true) (hafter : ∀ c ∈ after, isBlank c = true)
    (hsign : (sign, factor) ∈ signs) (hcs : Unsigned base ds cs) :
    Spells base ds text (factor * valueIn base ds)

/-! ### Digits of all scripts -/

/-- **What has the ASCII form of a digit is that digit.** -/
theorem digitIn?_asciiForm_eq_some_iff {base d : ℕ} {c : Char} :
    digitIn? base (asciiForm c) = some d ↔ DigitOf base c d := by
  rw [digitIn?_eq_some_iff]
  by_cases hc : c.toNat < 0x7F
  · rw [asciiForm_of_lt hc]
    constructor
    · rintro ⟨hvalue, hlt⟩
      exact ⟨Or.inl hvalue, hlt⟩
    · rintro ⟨hvalue | hdecimal, hlt⟩
      · exact ⟨hvalue, hlt⟩
      · exact ⟨digitValue?_of_decimalDigit? hc hdecimal, hlt⟩
  · have hvalue : digitValue? c ≠ some d := fun h => hc (toNat_of_digitValue? h).2
    cases hdecimal : decimalDigit? c with
    | some e =>
      have he : e < 16 := Nat.lt_of_lt_of_le (decimalDigit?_lt hdecimal) (by decide)
      rw [asciiForm_of_decimalDigit? hc hdecimal, digitValue?_digitChar he]
      constructor
      · rintro ⟨h, hlt⟩
        exact ⟨Or.inr (hdecimal.trans h), hlt⟩
      · rintro ⟨h, hlt⟩
        exact ⟨hdecimal.symm.trans (h.resolve_left hvalue), hlt⟩
    | none =>
      refine iff_of_false ?_ fun h => ?_
      · rintro ⟨h, -⟩
        rcases asciiForm_of_none hc hdecimal with ⟨hform, -⟩ | hform
        · rw [hform] at h
          cases h
        · rw [hform] at h
          cases h
      · exact absurd (hdecimal.symm.trans (h.value.resolve_left hvalue)) (by rintro ⟨⟩)

/-! ### Digits in a row -/

section Row

variable {base : ℕ} {ds : List ℕ} {cs : List Char}

/-- An underscore is no digit. -/
theorem not_digitOf_underscore {d : ℕ} : ¬DigitOf base '_' d := by
  intro h
  have hform : digitIn? base '_' = some d := digitIn?_asciiForm_eq_some_iff.2 h
  cases (digitIn?_eq_some_iff.1 hform).1

/-- Digits in a row are at least one. -/
theorem DigitRow.exists_cons (h : DigitRow base ds cs) :
    ∃ c cs' d ds', cs = c :: cs' ∧ ds = d :: ds' ∧ DigitOf base c d := by
  cases h with
  | last hc => exact ⟨_, _, _, _, rfl, rfl, hc⟩
  | next hc => exact ⟨_, _, _, _, rfl, rfl, hc⟩
  | apart hc => exact ⟨_, _, _, _, rfl, rfl, hc⟩

/-- **Digits in a row are what is read as digits.** -/
theorem readDigits?_map_eq_some_iff :
    readDigits? base (cs.map asciiForm) = some ds ↔ DigitRow base ds cs := by
  constructor
  · intro h
    generalize hforms : cs.map asciiForm = forms at h
    fun_induction readDigits? base forms generalizing cs ds with
    | case1 => cases h
    | case2 c' =>
      obtain ⟨c, rfl, rfl⟩ := List.map_eq_singleton_iff.1 hforms
      obtain ⟨d, hd, rfl⟩ := Option.map_eq_some_iff.1 h
      exact .last (digitIn?_asciiForm_eq_some_iff.1 hd)
    | case3 c' forms ih =>
      obtain ⟨c, cs', rfl, rfl, htail⟩ := List.map_eq_cons_iff.1 hforms
      obtain ⟨u, cs, rfl, hu, hcs⟩ := List.map_eq_cons_iff.1 htail
      obtain ⟨d, ds', hd, hds, rfl⟩ := bind_digitIn?_eq_some_iff.1 h
      obtain rfl := eq_of_asciiForm hu (by decide) (by decide) (by decide)
      exact .apart (digitIn?_asciiForm_eq_some_iff.1 hd) (ih hcs hds)
    | case4 c' forms _ _ ih =>
      obtain ⟨c, cs, rfl, rfl, htail⟩ := List.map_eq_cons_iff.1 hforms
      obtain ⟨d, ds', hd, hds, rfl⟩ := bind_digitIn?_eq_some_iff.1 h
      exact .next (digitIn?_asciiForm_eq_some_iff.1 hd) (ih htail hds)
  · intro h
    induction h with
    | last hc =>
      rw [List.map_singleton, readDigits?, digitIn?_asciiForm_eq_some_iff.2 hc]
      rfl
    | next hc hcs ih =>
      obtain ⟨e, cs', d, ds', rfl, rfl, he⟩ := hcs.exists_cons
      rw [List.map_cons, readDigits?]
      · exact bind_digitIn?_eq_some_iff.2 ⟨_, _, digitIn?_asciiForm_eq_some_iff.2 hc, ih, rfl⟩
      · exact List.cons_ne_nil _ _
      · intro rest hunderscore
        obtain ⟨hform, -⟩ := List.cons.inj hunderscore
        obtain rfl := eq_of_asciiForm hform (by decide) (by decide) (by decide)
        exact not_digitOf_underscore he
    | apart hc hcs ih =>
      rw [List.map_cons, List.map_cons, show asciiForm '_' = '_' from rfl, readDigits?]
      exact bind_digitIn?_eq_some_iff.2 ⟨_, _, digitIn?_asciiForm_eq_some_iff.2 hc, ih, rfl⟩

/-- The values of digits in a row are below the base. -/
theorem DigitRow.lt (h : DigitRow base ds cs) : ∀ d ∈ ds, d < base := by
  induction h with
  | last hc => exact List.forall_mem_singleton.2 hc.lt
  | next hc _ ih => exact List.forall_mem_cons.2 ⟨hc.lt, ih⟩
  | apart hc _ ih => exact List.forall_mem_cons.2 ⟨hc.lt, ih⟩

end Row

/-! ### Numerals without a sign -/

/-- The letter of a base mark has one form only and is no blank, and its base is not that of decimal
digits. -/
theorem of_mem_baseMarks {c : Char} {base : ℕ} (h : (c, base) ∈ baseMarks) :
    (∀ x, asciiForm x = c ↔ x = c) ∧ isBlank c = false ∧ base ≠ 10 := by
  have hmarks : ∀ p ∈ baseMarks, asciiForm p.1 = p.1 ∧ isDigitIn 10 p.1 = false ∧ p.1 ≠ ' ' ∧
      p.1 ≠ '?' ∧ isBlank p.1 = false ∧ p.2 ≠ 10 := by decide
  obtain ⟨hform, hdigit, hspace, hother, hblank, hbase⟩ := hmarks _ h
  refine ⟨fun x => ⟨fun hx => eq_of_asciiForm hx hdigit hspace hother, ?_⟩, hblank, hbase⟩
  rintro rfl
  exact hform

/-- The zero in front of a base mark may be of any script. -/
theorem asciiForm_eq_zero_iff {c : Char} : asciiForm c = '0' ↔ DigitOf 10 c 0 := by
  rw [← digitIn?_asciiForm_eq_some_iff, digitIn?_eq_some_zero_iff]

section Unsigned

variable {base n : ℕ} {ds : List ℕ} {cs : List Char}

/-- Digits in a row behind a base mark, perhaps with an underscore in front of them. -/
theorem readMarked?_map_eq_some_iff : readMarked? base (cs.map asciiForm) = some n ↔
    ∃ ds cs', (cs = cs' ∨ cs = '_' :: cs') ∧ DigitRow base ds cs' ∧ n = valueIn base ds := by
  have hrow : ∀ {cs : List Char}, (readDigits? base (cs.map asciiForm)).map (valueIn base) =
      some n ↔ ∃ ds, DigitRow base ds cs ∧ n = valueIn base ds := by
    intro cs
    simp only [Option.map_eq_some_iff, readDigits?_map_eq_some_iff, eq_comm (a := n)]
  rw [readMarked?.eq_def]
  split
  · rename_i forms hforms
    obtain ⟨u, cs, rfl, hu, rfl⟩ := List.map_eq_cons_iff.1 hforms
    obtain rfl := eq_of_asciiForm hu (by decide) (by decide) (by decide)
    rw [hrow]
    constructor
    · rintro ⟨ds, hds, rfl⟩
      exact ⟨ds, cs, Or.inr rfl, hds, rfl⟩
    · rintro ⟨ds, cs', rfl | hcs', hds, rfl⟩
      · obtain ⟨c, cs', d, ds', hcs', -, hc⟩ := hds.exists_cons
        obtain ⟨rfl, -⟩ := List.cons.inj hcs'
        exact absurd hc not_digitOf_underscore
      · obtain rfl := (List.cons.inj hcs').2
        exact ⟨ds, hds, rfl⟩
  · rename_i hunderscore
    rw [hrow]
    constructor
    · rintro ⟨ds, hds, rfl⟩
      exact ⟨ds, cs, Or.inl rfl, hds, rfl⟩
    · rintro ⟨ds, cs', rfl | rfl, hds, rfl⟩
      · exact ⟨ds, hds, rfl⟩
      · exact absurd rfl (hunderscore _)

/-- Decimal digits without superfluous zeros, if there are not too many. -/
theorem DigitRow.readNatural?_eq (h : DigitRow 10 ds cs)
    (hzeros : ds.head? = some 0 → valueIn 10 ds = 0) : readNatural? (cs.map asciiForm) =
      if ds.length ≤ maxDecimalDigits then some (valueIn 10 ds) else none := by
  have hread := readDigits?_map_eq_some_iff.2 h
  rw [readNatural?_of_forall (isDigitIn_of_readDigits? hread).2, readDecimal?_of_readDigits? hread]
  exact if_congr (and_iff_left hzeros) rfl rfl

/-- **A numeral is read**, unless it is one of too many decimal digits. -/
theorem Unsigned.readNatural?_eq (h : Unsigned base ds cs) : readNatural? (cs.map asciiForm) =
    if base = 10 ∧ maxDecimalDigits < ds.length then none else some (valueIn base ds) := by
  have hmarked : ∀ {zero mark : Char} {base : ℕ} {cs : List Char}, DigitOf 10 zero 0 →
      (mark, base) ∈ baseMarks → readNatural? ((zero :: mark :: cs).map asciiForm) =
        readMarked? base (cs.map asciiForm) := by
    intro zero mark base cs hzero hmark
    rw [List.map_cons, List.map_cons, asciiForm_eq_zero_iff.2 hzero,
      ((of_mem_baseMarks hmark).1 mark).2 rfl, readNatural?, markedBase?_eq_some_iff.2 hmark]
  cases h with
  | decimal hcs hzeros =>
    rw [hcs.readNatural?_eq hzeros]
    by_cases hlong : maxDecimalDigits < ds.length
    · rw [if_neg (Nat.not_le.2 hlong), if_pos ⟨rfl, hlong⟩]
    · rw [if_pos (Nat.not_lt.1 hlong), if_neg fun h => hlong h.2]
  | marked hzero hmark hcs =>
    rw [hmarked hzero hmark, if_neg fun hlong => (of_mem_baseMarks hmark).2.2 hlong.1]
    exact readMarked?_map_eq_some_iff.2 ⟨ds, _, Or.inl rfl, hcs, rfl⟩
  | apart hzero hmark hcs =>
    rw [hmarked hzero hmark, if_neg fun hlong => (of_mem_baseMarks hmark).2.2 hlong.1]
    exact readMarked?_map_eq_some_iff.2 ⟨ds, _, Or.inr rfl, hcs, rfl⟩

/-- **What is read is a numeral.** -/
theorem exists_unsigned (h : readNatural? (cs.map asciiForm) = some n) :
    ∃ base ds, Unsigned base ds cs ∧ n = valueIn base ds := by
  have hdecimal : readDecimal? (cs.map asciiForm) = some n →
      ∃ base ds, Unsigned base ds cs ∧ n = valueIn base ds := by
    intro hread
    obtain ⟨ds, hds, hzeros, hn⟩ := exists_of_readDecimal? hread
    exact ⟨10, ds, .decimal (readDigits?_map_eq_some_iff.1 hds) hzeros, hn⟩
  rw [readNatural?.eq_def] at h
  split at h
  · rename_i mark rest hforms
    split at h
    · rename_i base hbase
      obtain ⟨zero, cs', rfl, hzero, htail⟩ := List.map_eq_cons_iff.1 hforms
      obtain ⟨c, cs, rfl, hc, rfl⟩ := List.map_eq_cons_iff.1 htail
      have hmark := markedBase?_eq_some_iff.1 hbase
      obtain rfl := ((of_mem_baseMarks hmark).1 c).1 hc
      obtain ⟨ds, cs', rfl | rfl, hds, hn⟩ := readMarked?_map_eq_some_iff.1 h
      · exact ⟨base, ds, .marked (asciiForm_eq_zero_iff.1 hzero) hmark hds, hn⟩
      · exact ⟨base, ds, .apart (asciiForm_eq_zero_iff.1 hzero) hmark hds, hn⟩
    · exact hdecimal h
  · exact hdecimal h

end Unsigned

/-! ### Signs and blanks -/

/-- A digit of any script is no blank, -/
theorem DigitOf.isBlank_eq_false {base d : ℕ} {c : Char} (h : DigitOf base c d) :
    isBlank c = false := by
  rcases h.value with hvalue | hdecimal
  · have hc := toNat_of_digitValue? hvalue
    unfold isBlank
    simp only [Bool.or_eq_false_iff, Bool.and_eq_false_iff, decide_eq_false_iff_not,
      beq_eq_false_iff_ne]
    omega
  · exact isBlank_of_decimalDigit? hdecimal

/-- and there are none among digits in a row. -/
theorem DigitRow.isBlank_eq_false {base : ℕ} {ds : List ℕ} {cs : List Char}
    (h : DigitRow base ds cs) : ∀ c ∈ cs, isBlank c = false := by
  induction h with
  | last hc => exact List.forall_mem_singleton.2 hc.isBlank_eq_false
  | next hc _ ih => exact List.forall_mem_cons.2 ⟨hc.isBlank_eq_false, ih⟩
  | apart hc _ ih =>
    exact List.forall_mem_cons.2 ⟨hc.isBlank_eq_false, List.forall_mem_cons.2 ⟨rfl, ih⟩⟩

section Spells

variable {base : ℕ} {ds : List ℕ} {cs : List Char} {text : String} {n : ℤ}

/-- Numerals start with a digit, -/
theorem Unsigned.exists_cons (h : Unsigned base ds cs) :
    ∃ c cs', cs = c :: cs' ∧ isDigitIn 10 (asciiForm c) = true := by
  have hdigit : ∀ {c : Char} {d : ℕ}, DigitOf 10 c d → isDigitIn 10 (asciiForm c) = true :=
    fun hc => isDigitIn_of_digitIn? (digitIn?_asciiForm_eq_some_iff.2 hc)
  cases h with
  | decimal hcs =>
    obtain ⟨c, cs', d, ds', rfl, -, hc⟩ := hcs.exists_cons
    exact ⟨c, cs', rfl, hdigit hc⟩
  | marked hzero => exact ⟨_, _, rfl, hdigit hzero⟩
  | apart hzero => exact ⟨_, _, rfl, hdigit hzero⟩

/-- and have no blanks in them. -/
theorem Unsigned.isBlank_eq_false (h : Unsigned base ds cs) : ∀ c ∈ cs, isBlank c = false := by
  cases h with
  | decimal hcs => exact hcs.isBlank_eq_false
  | marked hzero hmark hcs =>
    exact List.forall_mem_cons.2 ⟨hzero.isBlank_eq_false,
      List.forall_mem_cons.2 ⟨(of_mem_baseMarks hmark).2.1, hcs.isBlank_eq_false⟩⟩
  | apart hzero hmark hcs =>
    exact List.forall_mem_cons.2 ⟨hzero.isBlank_eq_false,
      List.forall_mem_cons.2 ⟨(of_mem_baseMarks hmark).2.1,
        List.forall_mem_cons.2 ⟨rfl, hcs.isBlank_eq_false⟩⟩⟩

/-- A numeral behind a sign. -/
theorem Unsigned.readSigned?_eq (h : Unsigned base ds cs) {sign : List Char} {factor : ℤ}
    (hsign : (sign, factor) ∈ signs) : readSigned? ((sign ++ cs).map asciiForm) =
      (readNatural? (cs.map asciiForm)).map fun k : ℕ => factor * (k : ℤ) := by
  simp only [signs, List.mem_cons, Prod.mk.injEq, List.not_mem_nil, or_false] at hsign
  rcases hsign with ⟨rfl, rfl⟩ | ⟨rfl, rfl⟩ | ⟨rfl, rfl⟩
  · obtain ⟨c, cs, rfl, hc⟩ := h.exists_cons
    rw [List.nil_append, List.map_cons, readSigned?_of_isDigitIn hc]
    simp only [one_mul]
    rfl
  · change (readNatural? (cs.map asciiForm)).map Int.ofNat = _
    simp only [one_mul]
    rfl
  · change (readNatural? (cs.map asciiForm)).map (- Int.ofNat ·) = _
    simp only [neg_one_mul, Int.ofNat_eq_natCast]

/-- **A spelling is read**, unless it is one of too many decimal digits. -/
theorem Spells.readInteger?_eq (h : Spells base ds text n) : readInteger? (trim text) =
    if base = 10 ∧ maxDecimalDigits < ds.length then none else some n := by
  obtain ⟨htext, hbefore, hafter, hsign, hcs⟩ := h
  rename_i before sign cs after factor
  have hsigns : ∀ p ∈ signs, p.1.any isBlank = false := by decide
  have hblank : ∀ c ∈ sign ++ cs, isBlank c = false :=
    List.forall_mem_append.2 ⟨fun c hc => Bool.eq_false_iff.2
      (List.any_eq_false.1 (hsigns _ hsign) c hc), hcs.isBlank_eq_false⟩
  rw [readInteger?_trim htext hbefore hblank hafter, hcs.readSigned?_eq hsign, hcs.readNatural?_eq]
  split <;> rfl

/-- **What is read is a spelling.** -/
theorem exists_spells (h : readInteger? (trim text) = some n) :
    ∃ base ds, Spells base ds text n := by
  obtain ⟨before, body, after, htext, hbefore, hafter, hread⟩ := exists_of_readInteger?_trim h
  have hspells : ∀ {sign cs : List Char} {factor : ℤ} {k : ℕ}, (sign, factor) ∈ signs →
      body = sign ++ cs → readNatural? (cs.map asciiForm) = some k →
      ∃ base ds, Spells base ds text (factor * k) := by
    intro sign cs factor k hsign hbody hread
    obtain ⟨base, ds, hcs, rfl⟩ := exists_unsigned hread
    rw [hbody] at htext
    exact ⟨base, ds, .intro htext hbefore hafter hsign hcs⟩
  have hsigned : ∀ {x : Char} {word : List Char}, isDigitIn 10 x = false → x ≠ ' ' → x ≠ '?' →
      body.map asciiForm = x :: word → ∃ cs, body = [x] ++ cs ∧ cs.map asciiForm = word := by
    intro x word hdigit hspace hother hbody
    obtain ⟨c, cs, hcs, hc, hword⟩ := List.map_eq_cons_iff.1 hbody
    obtain rfl := eq_of_asciiForm hc hdigit hspace hother
    exact ⟨cs, hcs, hword⟩
  obtain ⟨word, k, hk, ⟨hbody, rfl⟩ | ⟨hbody, rfl⟩ | ⟨hbody, rfl⟩⟩ := exists_of_readSigned? hread
  · rw [← one_mul (k : ℤ)]
    exact hspells (show ([], 1) ∈ signs by decide) rfl (hbody.symm ▸ hk)
  · obtain ⟨cs, hcs, rfl⟩ := hsigned (by decide) (by decide) (by decide) hbody
    rw [← one_mul (k : ℤ)]
    exact hspells (by decide) hcs hk
  · obtain ⟨cs, hcs, rfl⟩ := hsigned (by decide) (by decide) (by decide) hbody
    rw [← neg_one_mul (k : ℤ)]
    exact hspells (by decide) hcs hk

/-- **The reader of values knows the spellings of integers and nothing else**, apart from those in
too many decimal digits. -/
theorem readInteger?_eq_some_iff : readInteger? (trim text) = some n ↔
    ∃ base ds, Spells base ds text n ∧ ¬(base = 10 ∧ maxDecimalDigits < ds.length) := by
  constructor
  · intro h
    obtain ⟨base, ds, hspells⟩ := exists_spells h
    refine ⟨base, ds, hspells, fun hlong => ?_⟩
    rw [hspells.readInteger?_eq, if_pos hlong] at h
    cases h
  · rintro ⟨base, ds, hspells, hshort⟩
    rw [hspells.readInteger?_eq, if_neg hshort]

end Spells

/-! ### How many digits there are -/

section Length

variable {ds : List ℕ}

/-- The value of digits, as that of digits which start with the least significant one. -/
theorem valueIn_eq_ofDigits (base : ℕ) (ds : List ℕ) :
    valueIn base ds = Nat.ofDigits base ds.reverse := by
  induction ds using List.reverseRecOn with
  | nil => rfl
  | append_singleton ds d ih =>
    rw [valueIn_append_singleton, ih, List.reverse_append, List.reverse_singleton,
      List.singleton_append, Nat.ofDigits_cons, Nat.add_comm]

/-- **The number of decimal digits**, of which the first is not zero, is that of the value. -/
theorem valueIn_lt_pow_iff (hne : ds ≠ []) (hhead : ds.head? ≠ some 0) (hds : ∀ d ∈ ds, d < 10)
    (k : ℕ) : valueIn 10 ds < 10 ^ k ↔ ds.length ≤ k := by
  have hreverse : ds.reverse ≠ [] := List.reverse_ne_nil_iff.2 hne
  have hlast : ds.reverse.getLast hreverse ≠ 0 := by
    rw [List.getLast_reverse]
    intro hzero
    exact hhead (by rw [List.head?_eq_some_head hne, hzero])
  have hlower : 10 ^ ds.reverse.length ≤ 10 * Nat.ofDigits 10 ds.reverse :=
    Nat.pow_length_le_mul_ofDigits hreverse hlast
  have hupper : Nat.ofDigits 10 ds.reverse < 10 ^ ds.reverse.length :=
    Nat.ofDigits_lt_base_pow_length (by decide) fun d hd => hds d (List.mem_reverse.1 hd)
  rw [List.length_reverse, ← valueIn_eq_ofDigits] at hlower hupper
  constructor
  · intro hlt
    by_contra hlong
    have hpow : 10 ^ (k + 1) ≤ 10 ^ ds.length := Nat.pow_le_pow_right (by decide) (by omega)
    rw [pow_succ] at hpow
    omega
  · intro hle
    exact hupper.trans_le (Nat.pow_le_pow_right (by decide) hle)

/-- The absolute value of an integer is that of its digits. -/
theorem Spells.natAbs_eq {base : ℕ} {text : String} {n : ℤ} (h : Spells base ds text n) :
    n.natAbs = valueIn base ds := by
  obtain ⟨-, -, -, hsign, -⟩ := h
  simp only [signs, List.mem_cons, Prod.mk.injEq, List.not_mem_nil, or_false] at hsign
  rcases hsign with ⟨-, rfl⟩ | ⟨-, rfl⟩ | ⟨-, rfl⟩ <;> simp

/-- **Too many decimal digits** are those of a number that is too large to be written, unless they
are zeros. -/
theorem Spells.natAbs_lt_iff {text : String} {n : ℤ} (h : Spells 10 ds text n) (hn : n ≠ 0)
    (k : ℕ) : n.natAbs < 10 ^ k ↔ ds.length ≤ k := by
  have hvalue : valueIn 10 ds ≠ 0 := by
    rw [← h.natAbs_eq]
    exact Int.natAbs_ne_zero.2 hn
  have hrow : ∃ cs, DigitRow 10 ds cs ∧ (ds.head? = some 0 → valueIn 10 ds = 0) := by
    obtain ⟨-, -, -, -, hcs⟩ := h
    cases hcs with
    | decimal hcs hzeros => exact ⟨_, hcs, hzeros⟩
    | marked _ hmark => exact absurd rfl (of_mem_baseMarks hmark).2.2
    | apart _ hmark => exact absurd rfl (of_mem_baseMarks hmark).2.2
  obtain ⟨cs, hcs, hzeros⟩ := hrow
  obtain ⟨c, cs', d, ds', -, hds, -⟩ := hcs.exists_cons
  rw [h.natAbs_eq]
  exact valueIn_lt_pow_iff (by rw [hds]; exact List.cons_ne_nil d ds')
    (fun hhead => hvalue (hzeros hhead)) hcs.lt k

end Length

end Readout.Numeral
