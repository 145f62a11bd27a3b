import Readout.Proofs.Numeral.AsciiForm

/-!
# Two kinds of integer literals

Expressions know few literals (`Readout.Literal`): a hexadecimal mark with digits after it, and
decimal digits. The reader of values knows more of them – signs, octal and binary marks,
underscores, the digits of all scripts – and on one point it is stricter, since it admits no
superfluous zeros (`Readout.HasSuperfluousZeros`). This file says what becomes of a literal of
expressions when it is read as a value: it has the same value
(`Readout.Literal.readNatural?_eq`), unless the zeros forbid it
(`Readout.HasSuperfluousZeros.readNatural?_eq_none`).

For the other direction only the outer shape of values matters. A text within ASCII that is read as
a value is, up to blanks around it, a sign perhaps and a word that starts with a digit
(`Readout.Numeral.exists_of_readInteger?`, `Readout.Numeral.isNumberWord_of_readNatural?`).
-/

namespace Readout

open Numeral

/-! ### The literals of expressions -/

/-- **The literals of expressions**, with their values. -/
inductive Literal : List Char → ℕ → Prop
  /-- A hexadecimal mark, and digits after it. -/
  | hex {mark : Char} {digits : List Char} (hmark : isHexLetter mark = true) (hne : digits ≠ [])
    (hdigits : ∀ c ∈ digits, isDigitIn 16 c = true) :
    Literal ('0' :: mark :: digits) (valueOf 16 digits)
  /-- Decimal digits, not too many of them. -/
  | decimal {digits : List Char} (hne : digits ≠ []) (hdigits : ∀ c ∈ digits, isDigitIn 10 c = true)
    (hlength : digits.length ≤ maxDecimalDigits) : Literal digits (valueOf 10 digits)

/-- **Superfluous zeros**: a decimal literal that is not zero starts with one. -/
def HasSuperfluousZeros (literal : List Char) : Prop :=
  literal.all (isDigitIn 10) = true ∧ literal.head? = some '0' ∧ valueOf 10 literal ≠ 0

instance (literal : List Char) : Decidable (HasSuperfluousZeros literal) :=
  inferInstanceAs (Decidable (_ ∧ _ ∧ _))

/-- A word that starts with a digit. -/
def IsNumberWord (cs : List Char) : Prop :=
  (∃ c cs', cs = c :: cs' ∧ isDigitIn 10 c = true) ∧ ∀ c ∈ cs, isIdentifierRest c = true

/-- The mark of a hexadecimal literal. -/
theorem isHexLetter_iff {c : Char} : isHexLetter c = true ↔ c = 'x' ∨ c = 'X' := by
  rw [isHexLetter, Bool.or_eq_true, beq_iff_eq, beq_iff_eq]

/-- A literal is a word that starts with a digit. -/
theorem Literal.isNumberWord {cs : List Char} {v : ℕ} (h : Literal cs v) : IsNumberWord cs := by
  cases h with
  | @hex mark digits hmark hne hdigits =>
    refine ⟨⟨'0', _, rfl, by decide⟩, ?_⟩
    rw [List.forall_mem_cons, List.forall_mem_cons]
    refine ⟨by decide, ?_, fun c hc => isIdentifierRest_of_isDigitIn (hdigits c hc)⟩
    rcases isHexLetter_iff.1 hmark with rfl | rfl <;> decide
  | decimal hne hdigits hlength =>
    obtain ⟨c, cs', rfl⟩ := List.exists_cons_of_ne_nil hne
    exact ⟨⟨c, cs', rfl, hdigits c List.mem_cons_self⟩, fun d hd =>
      isIdentifierRest_of_isDigitIn (hdigits d hd)⟩

namespace Numeral

/-! ### Reading digits -/

/-- What comes of one digit and those after it. -/
theorem bind_digitIn?_eq_some_iff {base : ℕ} {c : Char} {rest : Option (List ℕ)} {ds : List ℕ} :
    (do return (← digitIn? base c) :: (← rest)) = some ds ↔
      ∃ d ds', digitIn? base c = some d ∧ rest = some ds' ∧ ds = d :: ds' := by
  simp [Option.bind_eq_some_iff, eq_comm (a := ds)]

theorem isDigitIn_of_digitIn? {base d : ℕ} {c : Char} (h : digitIn? base c = some d) :
    isDigitIn base c = true := by
  rw [isDigitIn, h, Option.isSome_some]

/-- What is read as digits starts with one, and apart from underscores there is nothing else. -/
theorem isDigitIn_of_readDigits? {base : ℕ} {cs : List Char} {ds : List ℕ}
    (h : readDigits? base cs = some ds) : (∃ c cs', cs = c :: cs' ∧ isDigitIn base c = true) ∧
      ∀ c ∈ cs, isDigitIn base c = true ∨ c = '_' := by
  fun_induction readDigits? base cs generalizing ds with
  | case1 => cases h
  | case2 c =>
    obtain ⟨d, hd, -⟩ := Option.map_eq_some_iff.1 h
    have hc := isDigitIn_of_digitIn? hd
    exact ⟨⟨c, [], rfl, hc⟩, List.forall_mem_singleton.2 (.inl hc)⟩
  | case3 c cs ih =>
    obtain ⟨d, ds', hd, hds, -⟩ := bind_digitIn?_eq_some_iff.1 h
    have hc := isDigitIn_of_digitIn? hd
    exact ⟨⟨c, _, rfl, hc⟩,
      List.forall_mem_cons.2 ⟨.inl hc, List.forall_mem_cons.2 ⟨.inr rfl, (ih hds).2⟩⟩⟩
  | case4 c cs _ _ ih =>
    obtain ⟨d, ds', hd, hds, -⟩ := bind_digitIn?_eq_some_iff.1 h
    have hc := isDigitIn_of_digitIn? hd
    exact ⟨⟨c, cs, rfl, hc⟩, List.forall_mem_cons.2 ⟨.inl hc, (ih hds).2⟩⟩

/-- **Digits without underscores** are read one by one. -/
theorem readDigits?_of_forall {base : ℕ} {cs : List Char} (hne : cs ≠ [])
    (h : ∀ c ∈ cs, isDigitIn base c = true) :
    readDigits? base cs = some (cs.filterMap (digitIn? base)) := by
  have hdigit : ∀ c, isDigitIn base c = true → ∃ d, digitIn? base c = some d := fun c hc =>
    Option.isSome_iff_exists.1 hc
  fun_induction readDigits? base cs with
  | case1 => exact absurd rfl hne
  | case2 c =>
    obtain ⟨d, hd⟩ := hdigit c (h c List.mem_cons_self)
    rw [hd, List.filterMap_cons_some hd]
    rfl
  | case3 c cs ih =>
    -- an underscore is a digit in no base
    have hunderscore := h '_' (List.mem_cons_of_mem c List.mem_cons_self)
    rw [isDigitIn_iff] at hunderscore
    simp at hunderscore
  | case4 c cs hcs _ ih =>
    obtain ⟨d, hd⟩ := hdigit c (h c List.mem_cons_self)
    rw [ih hcs fun e he => h e (List.mem_cons_of_mem c he), List.filterMap_cons_some hd]
    exact bind_digitIn?_eq_some_iff.2 ⟨d, _, hd, rfl, rfl⟩

/-- **What becomes of decimal digits**: they are read, if there are not too many of them and no
zeros before them. -/
theorem readDecimal?_of_readDigits? {cs : List Char} {ds : List ℕ}
    (h : readDigits? 10 cs = some ds) : readDecimal? cs =
      if ds.length ≤ maxDecimalDigits ∧ (ds.head? = some 0 → valueIn 10 ds = 0) then
        some (valueIn 10 ds)
      else none := by
  have hcondition : (decide (ds.length ≤ maxDecimalDigits) &&
      (ds.head? != some 0 || valueIn 10 ds == 0)) = true ↔
      ds.length ≤ maxDecimalDigits ∧ (ds.head? = some 0 → valueIn 10 ds = 0) := by
    rw [Bool.and_eq_true, Bool.or_eq_true, decide_eq_true_eq, bne_iff_ne, beq_iff_eq,
      imp_iff_not_or]
  rw [readDecimal?, h]
  exact if_congr hcondition rfl rfl

/-- What is read as decimal digits. -/
theorem exists_of_readDecimal? {cs : List Char} {n : ℕ} (h : readDecimal? cs = some n) :
    ∃ ds, readDigits? 10 cs = some ds ∧ (ds.head? = some 0 → valueIn 10 ds = 0) ∧
      n = valueIn 10 ds := by
  have hdigits := h
  rw [readDecimal?] at hdigits
  obtain ⟨ds, hds, -⟩ := Option.bind_eq_some_iff.1 hdigits
  rw [readDecimal?_of_readDigits? hds] at h
  obtain ⟨hgood, hn⟩ := Option.ite_none_right_eq_some.1 h
  exact ⟨ds, hds, hgood.2, (Option.some.inj hn).symm⟩

/-! ### Base marks -/

/-- The letters of the base marks, with their bases. -/
def baseMarks : List (Char × ℕ) :=
  [('x', 16), ('X', 16), ('o', 8), ('O', 8), ('b', 2), ('B', 2)]

theorem markedBase?_eq_some_iff {c : Char} {base : ℕ} :
    markedBase? c = some base ↔ (c, base) ∈ baseMarks := by
  constructor
  · intro h
    unfold markedBase? at h
    simp only [Bool.or_eq_true, beq_iff_eq] at h
    split_ifs at h with hx ho hb
    · obtain rfl := Option.some.inj h
      rcases hx with rfl | rfl <;> decide
    · obtain rfl := Option.some.inj h
      rcases ho with rfl | rfl <;> decide
    · obtain rfl := Option.some.inj h
      rcases hb with rfl | rfl <;> decide
  · intro h
    have hmarks : ∀ p ∈ baseMarks, markedBase? p.1 = some p.2 := by decide
    exact hmarks _ h

/-- A base mark is a character of words, but no decimal digit. -/
theorem mark_of_markedBase? {c : Char} {base : ℕ} (h : markedBase? c = some base) :
    isIdentifierRest c = true ∧ isDigitIn 10 c = false := by
  have hmarks : ∀ p ∈ baseMarks, isIdentifierRest p.1 = true ∧ isDigitIn 10 p.1 = false := by decide
  exact hmarks _ (markedBase?_eq_some_iff.1 h)

/-! ### Words that are read -/

/-- What is read as digits consists of characters of words. -/
theorem isIdentifierRest_of_readDigits? {base : ℕ} {cs : List Char} {ds : List ℕ}
    (h : readDigits? base cs = some ds) : ∀ c ∈ cs, isIdentifierRest c = true := by
  intro c hc
  rcases (isDigitIn_of_readDigits? h).2 c hc with hdigit | rfl
  · exact isIdentifierRest_of_isDigitIn hdigit
  · decide

/-- So does what is read after a base mark. -/
theorem isIdentifierRest_of_readMarked? {base n : ℕ} {cs : List Char}
    (h : readMarked? base cs = some n) : ∀ c ∈ cs, isIdentifierRest c = true := by
  rw [readMarked?.eq_def] at h
  split at h
  · obtain ⟨ds, hds, -⟩ := Option.map_eq_some_iff.1 h
    exact List.forall_mem_cons.2 ⟨by decide, isIdentifierRest_of_readDigits? hds⟩
  · obtain ⟨ds, hds, -⟩ := Option.map_eq_some_iff.1 h
    exact isIdentifierRest_of_readDigits? hds

theorem isNumberWord_of_readDecimal? {cs : List Char} {n : ℕ} (h : readDecimal? cs = some n) :
    IsNumberWord cs := by
  obtain ⟨ds, hds, -⟩ := exists_of_readDecimal? h
  exact ⟨(isDigitIn_of_readDigits? hds).1, isIdentifierRest_of_readDigits? hds⟩

/-- **What is read as a number is a word that starts with a digit.** -/
theorem isNumberWord_of_readNatural? {cs : List Char} {n : ℕ} (h : readNatural? cs = some n) :
    IsNumberWord cs := by
  rw [readNatural?.eq_def] at h
  split at h
  · rename_i mark rest
    split at h
    · rename_i base hbase
      refine ⟨⟨'0', _, rfl, by decide⟩, ?_⟩
      rw [List.forall_mem_cons, List.forall_mem_cons]
      exact ⟨by decide, (mark_of_markedBase? hbase).1, isIdentifierRest_of_readMarked? h⟩
    · exact isNumberWord_of_readDecimal? h
  · exact isNumberWord_of_readDecimal? h

end Numeral

/-! ### Literals of expressions as values -/

/-- Decimal digits and underscores have no base mark among them. -/
theorem readNatural?_of_forall {cs : List Char} (h : ∀ c ∈ cs, isDigitIn 10 c = true ∨ c = '_') :
    readNatural? cs = readDecimal? cs := by
  rw [readNatural?.eq_def]
  split
  · rename_i mark rest
    have hmark : markedBase? mark = none := by
      rw [Option.eq_none_iff_forall_ne_some]
      intro base hbase
      rcases h mark (List.mem_cons_of_mem _ List.mem_cons_self) with hdigit | rfl
      · rw [(mark_of_markedBase? hbase).2] at hdigit
        cases hdigit
      · cases hbase
    rw [hmark]
  · rfl

/-- The digit zero is written in one way. -/
theorem digitIn?_eq_some_zero_iff {c : Char} : digitIn? 10 c = some 0 ↔ c = '0' := by
  constructor
  · intro h
    unfold digitIn? digitValue? at h
    obtain ⟨h, -⟩ := Option.filter_eq_some_iff.1 h
    dsimp only at h
    split_ifs at h with hdigit hupper hlower
    · rw [Bool.and_eq_true, decide_eq_true_eq, decide_eq_true_eq] at hdigit
      rw [Option.some.injEq] at h
      exact Char.toNat_inj.1 (show c.toNat = '0'.toNat by rw [show '0'.toNat = 48 from rfl]; omega)
    · exact absurd (Option.some.inj h) (Nat.succ_ne_zero _)
    · exact absurd (Option.some.inj h) (Nat.succ_ne_zero _)
  · rintro rfl
    rfl

/-- The value of decimal digits, if there are not too many of them and no superfluous zeros. -/
theorem readDecimal?_of_forall {cs : List Char} (hne : cs ≠ [])
    (h : ∀ c ∈ cs, isDigitIn 10 c = true) : readDecimal? cs =
      if (cs.filterMap (digitIn? 10)).length ≤ maxDecimalDigits ∧ ¬HasSuperfluousZeros cs then
        some (valueOf 10 cs)
      else none := by
  have hhead : (cs.filterMap (digitIn? 10)).head? = some 0 ↔ cs.head? = some '0' := by
    obtain ⟨c, cs', rfl⟩ := List.exists_cons_of_ne_nil hne
    obtain ⟨d, hd⟩ := Option.isSome_iff_exists.1 (h c List.mem_cons_self)
    rw [List.filterMap_cons_some hd, List.head?_cons, List.head?_cons, ← hd, Option.some.injEq,
      digitIn?_eq_some_zero_iff]
  have hzeros : ¬HasSuperfluousZeros cs ↔
      ((cs.filterMap (digitIn? 10)).head? = some 0 →
        valueIn 10 (cs.filterMap (digitIn? 10)) = 0) := by
    rw [HasSuperfluousZeros, hhead, List.all_eq_true, and_iff_right h, not_and_not_right]
    rfl
  rw [readDecimal?_of_readDigits? (readDigits?_of_forall hne h)]
  exact if_congr (and_congr_right fun _ => hzeros.symm) rfl rfl

/-- **Superfluous zeros make a literal no value.** -/
theorem HasSuperfluousZeros.readNatural?_eq_none {cs : List Char} (h : HasSuperfluousZeros cs) :
    readNatural? cs = none := by
  have hne : cs ≠ [] := by
    rintro rfl
    exact absurd h.2.1 (by decide)
  have hdigits := List.all_eq_true.1 h.1
  rw [readNatural?_of_forall fun c hc => Or.inl (hdigits c hc), readDecimal?_of_forall hne hdigits,
    if_neg fun hgood => hgood.2 h]

/-- **All other literals have the same value.** -/
theorem Literal.readNatural?_eq {cs : List Char} {v : ℕ} (h : Literal cs v)
    (hzeros : ¬HasSuperfluousZeros cs) : readNatural? cs = some v := by
  cases h with
  | @hex mark digits hmark hne hdigits =>
    have hbase : markedBase? mark = some 16 := if_pos hmark
    have hread : readMarked? 16 digits = (readDigits? 16 digits).map (valueIn 16) := by
      rw [readMarked?.eq_def]
      split
      · exact absurd (hdigits '_' List.mem_cons_self) (by decide)
      · rfl
    rw [readNatural?, hbase]
    dsimp only
    rw [hread, readDigits?_of_forall hne hdigits]
    rfl
  | decimal hne hdigits hlength =>
    rw [readNatural?_of_forall fun c hc => Or.inl (hdigits c hc),
      readDecimal?_of_forall hne hdigits,
      if_pos ⟨(List.length_filterMap_le _ _).trans hlength, hzeros⟩]

/-- So a literal that is a value has the same value. -/
theorem Literal.eq_of_readNatural? {cs : List Char} {v n : ℕ} (h : Literal cs v)
    (hread : readNatural? cs = some n) : n = v := by
  by_cases hzeros : HasSuperfluousZeros cs
  · rw [hzeros.readNatural?_eq_none] at hread
    cases hread
  · rw [h.readNatural?_eq hzeros, Option.some.injEq] at hread
    exact hread.symm

/-! ### Signs and blanks -/

namespace Numeral

open Text

/-- What is read with a sign. -/
theorem exists_of_readSigned? {cs : List Char} {n : ℤ} (h : readSigned? cs = some n) :
    ∃ (word : List Char) (k : ℕ), readNatural? word = some k ∧
      (cs = word ∧ n = k ∨ cs = '+' :: word ∧ n = k ∨ cs = '-' :: word ∧ n = -k) := by
  rw [readSigned?.eq_def] at h
  split at h
  all_goals obtain ⟨k, hk, rfl⟩ := Option.map_eq_some_iff.1 h
  · exact ⟨_, k, hk, .inr (.inr ⟨rfl, rfl⟩)⟩
  · exact ⟨_, k, hk, .inr (.inl ⟨rfl, rfl⟩)⟩
  · exact ⟨_, k, hk, .inl ⟨rfl, rfl⟩⟩

/-- What starts with a digit has no sign. -/
theorem readSigned?_of_isDigitIn {c : Char} {cs : List Char} (hc : isDigitIn 10 c = true) :
    readSigned? (c :: cs) = (readNatural? (c :: cs)).map Int.ofNat := by
  rw [readSigned?.eq_def]
  split
  · rename_i heq
    cases heq
    exact absurd hc (by decide)
  · rename_i heq
    cases heq
    exact absurd hc (by decide)
  · rfl

/-- A word that starts with a digit has no sign. -/
theorem readSigned?_of_isNumberWord {cs : List Char} (h : IsNumberWord cs) :
    readSigned? cs = (readNatural? cs).map Int.ofNat := by
  obtain ⟨⟨c, cs', rfl, hc⟩, -⟩ := h
  exact readSigned?_of_isDigitIn hc

/-- **A text within ASCII that is read as a value** is a number with a sign or without one, up to
blanks around it. -/
theorem exists_of_readInteger? {s : String} {n : ℤ} (hs : ∀ c ∈ s.toList, c.toNat < 0x7F)
    (h : readInteger? (trim s) = some n) : ∃ before body after,
      s.toList = before ++ body ++ after ∧ (∀ c ∈ before, isBlank c = true) ∧
        (∀ c ∈ after, isBlank c = true) ∧ readSigned? body = some n := by
  obtain ⟨before, body, after, hsplit, hbefore, hafter, hread⟩ := exists_of_readInteger?_trim h
  have hascii : ∀ c ∈ body, c.toNat < 0x7F := by
    intro c hc
    refine hs c ?_
    rw [hsplit]
    exact List.mem_append_left _ (List.mem_append_right _ hc)
  rw [map_asciiForm hascii] at hread
  exact ⟨before, body, after, hsplit, hbefore, hafter, hread⟩

/-- **A word that starts with a digit is read** whatever blanks are around it. -/
theorem readInteger?_of_isNumberWord {s : String} {before cs after : List Char}
    (hs : s.toList = before ++ cs ++ after) (hbefore : ∀ c ∈ before, isBlank c = true)
    (h : IsNumberWord cs) (hafter : ∀ c ∈ after, isBlank c = true) :
    readInteger? (trim s) = (readNatural? cs).map Int.ofNat := by
  have hblank : ∀ c ∈ cs, isBlank c = false := fun c hc => isBlank_of_isIdentifierRest (h.2 c hc)
  have hascii : ∀ c ∈ cs, c.toNat < 0x7F := fun c hc => by
    have := toNat_of_isIdentifierRest (h.2 c hc)
    omega
  rw [readInteger?_trim hs hbefore hblank hafter, map_asciiForm hascii,
    readSigned?_of_isNumberWord h]

end Numeral

end Readout
