import Readout.Numeral.Literal
import Readout.Proofs.Token.Lexing
import Readout.Text

/-!
# Trimmed texts and ASCII forms

The reader of values takes blanks from the ends of a text and looks at the ASCII forms of what is
left. Both steps lose little: what is dropped is blank (`Readout.Text.exists_trimBoth`), and a form
that is no digit, space or question mark is that of one character only
(`Readout.Numeral.eq_of_asciiForm`). So what is read is the form of what stands between blanks
(`Readout.Numeral.exists_of_readInteger?_trim`).
-/

namespace Readout

/-! ### What is left when the ends are trimmed

Trimming drops characters of a class from the two ends of a text, so what is left stands between
two runs of that class (`Readout.Text.exists_trimBoth`). Conversely, what has no character of the
class in it is left when it stands between two such runs (`Readout.Text.trimBoth_append`).

Words have no blanks in them (`Readout.Text.isBlank_of_isIdentifierRest`).
-/

/-- The characters of names lie between the dollar sign and the last small letter. -/
theorem toNat_of_isIdentifierRest {c : Char} (h : isIdentifierRest c = true) :
    36 ≤ c.toNat ∧ c.toNat ≤ 122 := by
  rcases isIdentifierRest_iff.1 h with hstart | hdigit
  · rcases isIdentifierStart_iff.1 hstart with h | h | rfl | rfl
    · omega
    · omega
    · decide
    · decide
  · omega

namespace Text

theorem isBlank_of_isIdentifierRest {c : Char} (h : isIdentifierRest c = true) :
    isBlank c = false := by
  have hcode := toNat_of_isIdentifierRest h
  unfold isBlank
  simp only [Bool.or_eq_false_iff, Bool.and_eq_false_iff, decide_eq_false_iff_not,
    beq_eq_false_iff_ne]
  omega

/-- A gap between tokens is a blank. -/
theorem isBlank_of_isGap {c : Char} (h : isGap c = true) : isBlank c = true := by
  rcases isGap_iff.1 h with rfl | rfl | rfl <;> decide

section Trim

variable {drop : Char → Bool} {cs : List Char}

/-- Nothing is dropped from the start if there is nothing to be dropped at all. -/
theorem dropWhile_of_forall (h : ∀ c ∈ cs, drop c = false) : cs.dropWhile drop = cs := by
  cases cs with
  | nil => rfl
  | cons c cs => rw [List.dropWhile_cons_of_neg (by rw [h c List.mem_cons_self]; decide)]

/-- **What stands between two runs of dropped characters** is left, if it has no such character in
it. -/
theorem trimBoth_append {before after : List Char} (hbefore : ∀ c ∈ before, drop c = true)
    (h : ∀ c ∈ cs, drop c = false) (hafter : ∀ c ∈ after, drop c = true) :
    trimBoth drop (before ++ cs ++ after) = cs := by
  have hreverse : ∀ c ∈ after.reverse, drop c = true := fun c hc =>
    hafter c (List.mem_reverse.1 hc)
  have hstart : (before ++ cs ++ after).dropWhile drop = (cs ++ after).dropWhile drop := by
    rw [List.append_assoc, List.dropWhile_append_of_pos hbefore]
  rw [trimBoth, hstart]
  cases cs with
  | nil => rw [List.nil_append, List.dropWhile_eq_nil_iff.2 hafter]; rfl
  | cons c cs =>
    rw [List.cons_append, List.dropWhile_cons_of_neg (by rw [h c List.mem_cons_self]; decide),
      ← List.cons_append, List.reverse_append, List.dropWhile_append_of_pos hreverse,
      dropWhile_of_forall fun d hd => h d (List.mem_reverse.1 hd), List.reverse_reverse]

/-- There is nothing to be dropped from the ends if there is nothing to be dropped at all. -/
theorem trimBoth_of_forall (h : ∀ c ∈ cs, drop c = false) : trimBoth drop cs = cs := by
  have hkept := trimBoth_append (List.forall_mem_nil _) h (List.forall_mem_nil _)
  rwa [List.nil_append, List.append_nil] at hkept

/-- **What is dropped** stands before and after what is left. -/
theorem exists_trimBoth (drop : Char → Bool) (cs : List Char) : ∃ before after,
    cs = before ++ trimBoth drop cs ++ after ∧ (∀ c ∈ before, drop c = true) ∧
      ∀ c ∈ after, drop c = true := by
  refine ⟨cs.takeWhile drop, (((cs.dropWhile drop).reverse).takeWhile drop).reverse, ?_,
    List.all_eq_true.1 List.all_takeWhile, fun c hc => ?_⟩
  · rw [trimBoth, List.append_assoc, ← List.reverse_append, List.takeWhile_append_dropWhile,
      List.reverse_reverse, List.takeWhile_append_dropWhile]
  · exact List.all_eq_true.1 List.all_takeWhile c (List.mem_reverse.1 hc)

end Trim

end Text

end Readout

namespace Readout.Numeral

open Text

/-! ### What the reader of values looks at

The reader of values sees the ASCII forms of characters, and not the characters. Within ASCII every
character is its own form. The characters beyond it have few forms: digits of any script have those
of ASCII digits, blanks have that of the space, and all others that of the question mark. So a form
that is no digit, space or question mark is that of one character only
(`Readout.Numeral.eq_of_asciiForm`).

Blanks are dropped twice: from the ends of a text, and then, a narrower class of them, from the ends
of its form. Both times nothing but blanks is dropped. So what is read is the form of what stands
between blanks (`Readout.Numeral.exists_of_readInteger?_trim`), all of it if there is no blank in it
(`Readout.Numeral.readInteger?_trim`).
-/

/-- A character with a value as an ASCII digit or letter is within ASCII. -/
theorem toNat_of_digitValue? {c : Char} {d : ℕ} (h : digitValue? c = some d) :
    0x30 ≤ c.toNat ∧ c.toNat < 0x7F := by
  unfold digitValue? at h
  dsimp only at h
  split_ifs at h with hdigit hupper hlower
  all_goals simp only [Bool.and_eq_true, decide_eq_true_eq] at *
  all_goals omega

/-- Within ASCII the decimal digits are the ASCII digits. -/
theorem digitValue?_of_decimalDigit? {c : Char} {d : ℕ} (hc : c.toNat < 0x7F)
    (h : decimalDigit? c = some d) : digitValue? c = some d := by
  have hruns : ∀ z ∈ digitZeros, z = 0x30 ∨ 0x7F ≤ z := by decide
  obtain ⟨z, hz, rfl⟩ := Option.map_eq_some_iff.1 h
  have hrun := List.find?_some hz
  simp only [Bool.and_eq_true, decide_eq_true_eq] at hrun
  obtain rfl : z = 0x30 := (hruns z (List.mem_of_find?_eq_some hz)).resolve_right (by omega)
  exact if_pos (by simp only [Bool.and_eq_true, decide_eq_true_eq]; omega)

/-- The runs of digits of all scripts have no blanks in them. -/
theorem isBlank_of_decimalDigit? {c : Char} {d : ℕ} (h : decimalDigit? c = some d) :
    isBlank c = false := by
  have hruns : ∀ z ∈ digitZeros, 0x20 < z ∧ (z + 9 < 0x85 ∨ 0xA0 < z) ∧
      (z + 9 < 0x1680 ∨ 0x1680 < z) ∧ (z + 9 < 0x2000 ∨ 0x205F < z) ∧
      (z + 9 < 0x3000 ∨ 0x3000 < z) := by decide
  obtain ⟨z, hz, rfl⟩ := Option.map_eq_some_iff.1 h
  have hrun := hruns z (List.mem_of_find?_eq_some hz)
  have hc := List.find?_some hz
  simp only [Bool.and_eq_true, decide_eq_true_eq] at hc
  unfold isBlank
  simp only [Bool.or_eq_false_iff, Bool.and_eq_false_iff, decide_eq_false_iff_not,
    beq_eq_false_iff_ne]
  omega

theorem isBlank_of_isPadding {c : Char} (h : isPadding c = true) : isBlank c = true := by
  unfold isPadding at h
  simp only [Bool.or_eq_true, beq_iff_eq, Bool.and_eq_true, decide_eq_true_eq] at h
  unfold isBlank
  simp only [Bool.or_eq_true, beq_iff_eq, Bool.and_eq_true, decide_eq_true_eq]
  omega

/-! ### Forms -/

/-- Within ASCII every character is its own form, -/
theorem asciiForm_of_lt {c : Char} (h : c.toNat < 0x7F) : asciiForm c = c :=
  if_pos h

/-- beyond it digits have the form of ASCII digits, -/
theorem asciiForm_of_decimalDigit? {c : Char} {d : ℕ} (hc : ¬c.toNat < 0x7F)
    (h : decimalDigit? c = some d) : asciiForm c = Nat.digitChar d := by
  rw [asciiForm, if_neg hc, if_neg (by rw [isBlank_of_decimalDigit? h]; decide), h]

/-- and all other characters have forms that mean nothing inside a numeral. -/
theorem asciiForm_of_none {c : Char} (hc : ¬c.toNat < 0x7F) (h : decimalDigit? c = none) :
    asciiForm c = ' ' ∧ isBlank c = true ∨ asciiForm c = '?' := by
  rw [asciiForm, if_neg hc, h]
  split
  · exact Or.inl ⟨rfl, ‹_›⟩
  · exact Or.inr rfl

/-- Within ASCII all characters count as themselves. -/
theorem map_asciiForm {cs : List Char} (h : ∀ c ∈ cs, c.toNat < 0x7F) : cs.map asciiForm = cs := by
  rw [List.map_congr_left fun c hc => asciiForm_of_lt (h c hc), List.map_id']

/-- **Other characters have one form only**, apart from the two that stand for anything else. -/
theorem eq_of_asciiForm {c x : Char} (h : asciiForm c = x) (hdigit : isDigitIn 10 x = false)
    (hspace : x ≠ ' ') (hother : x ≠ '?') : c = x := by
  by_cases hc : c.toNat < 0x7F
  · rwa [asciiForm_of_lt hc] at h
  · cases hdecimal : decimalDigit? c with
    | some e =>
      rw [← h, asciiForm_of_decimalDigit? hc hdecimal,
        isDigitIn_digitChar (decimalDigit?_lt hdecimal) (by decide)] at hdigit
      cases hdigit
    | none =>
      rcases asciiForm_of_none hc hdecimal with ⟨hform, -⟩ | hform
      · exact absurd (h.symm.trans hform) hspace
      · exact absurd (h.symm.trans hform) hother

/-! ### Blanks around a literal -/

/-- What has the form of padding is blank. -/
theorem isBlank_of_isPadding_asciiForm {c : Char} (h : isPadding (asciiForm c) = true) :
    isBlank c = true := by
  by_cases hc : c.toNat < 0x7F
  · rw [asciiForm_of_lt hc] at h
    exact isBlank_of_isPadding h
  · cases hdecimal : decimalDigit? c with
    | some d =>
      have hpadding : ∀ d < 10, isPadding (Nat.digitChar d) = false := by decide
      rw [asciiForm_of_decimalDigit? hc hdecimal, hpadding d (decimalDigit?_lt hdecimal)] at h
      cases h
    | none =>
      rcases asciiForm_of_none hc hdecimal with ⟨-, hblank⟩ | hform
      · exact hblank
      · rw [hform] at h
        cases h

section Trim

variable {text : String}

/-- **What has no blank in it is read** whatever blanks are around it. -/
theorem readInteger?_trim {before cs after : List Char}
    (htext : text.toList = before ++ cs ++ after)
    (hbefore : ∀ c ∈ before, isBlank c = true) (hcs : ∀ c ∈ cs, isBlank c = false)
    (hafter : ∀ c ∈ after, isBlank c = true) :
    readInteger? (trim text) = readSigned? (cs.map asciiForm) := by
  have hpadding : ∀ c ∈ cs.map asciiForm, isPadding c = false := by
    intro x hx
    obtain ⟨c, hc, rfl⟩ := List.mem_map.1 hx
    rw [Bool.eq_false_iff]
    intro hpad
    exact Bool.eq_false_iff.1 (hcs c hc) (isBlank_of_isPadding_asciiForm hpad)
  rw [readInteger?, trim, htext, trimBoth_append hbefore hcs hafter, String.toList_ofList,
    trimBoth_of_forall hpadding]

/-- **What is read** is the form of what stands between blanks. -/
theorem exists_of_readInteger?_trim {n : ℤ} (h : readInteger? (trim text) = some n) :
    ∃ before cs after, text.toList = before ++ cs ++ after ∧ (∀ c ∈ before, isBlank c = true) ∧
      (∀ c ∈ after, isBlank c = true) ∧ readSigned? (cs.map asciiForm) = some n := by
  obtain ⟨before, after, htext, hbefore, hafter⟩ := exists_trimBoth isBlank text.toList
  rw [readInteger?, trim, String.toList_ofList] at h
  generalize trimBoth isBlank text.toList = mid at htext h
  obtain ⟨padding, padding', hforms, hpadding, hpadding'⟩ :=
    exists_trimBoth isPadding (mid.map asciiForm)
  generalize trimBoth isPadding (mid.map asciiForm) = forms at hforms h
  obtain ⟨start, after', rfl, hstart, rfl⟩ := List.map_eq_append_iff.1 hforms
  obtain ⟨before', cs, rfl, rfl, rfl⟩ := List.map_eq_append_iff.1 hstart
  -- the padding that is dropped after the blanks is blank too
  have hblank : ∀ {cs : List Char}, (∀ x ∈ cs.map asciiForm, isPadding x = true) →
      ∀ c ∈ cs, isBlank c = true :=
    fun hcs c hc => isBlank_of_isPadding_asciiForm (hcs _ (List.mem_map_of_mem hc))
  refine ⟨before ++ before', cs, after' ++ after, ?_,
    List.forall_mem_append.2 ⟨hbefore, hblank hpadding⟩,
    List.forall_mem_append.2 ⟨hblank hpadding', hafter⟩, h⟩
  rw [htext]
  simp only [List.append_assoc]

end Trim

end Readout.Numeral
