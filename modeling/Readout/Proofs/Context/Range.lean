import Readout.Proofs.Context.Validation
import Readout.Proofs.Decimal.Places
import Readout.Proofs.Numeral.Spelling

/-!
# Integers that are no words

A table or an assignment that gives a name an integer beyond the words is refused, and what is said
about it names the integer (`Readout.outOfRangeText`), however it is given: as an integer, or as a
text that spells it in any way.

That needs the decimal numeral of the integer, and numerals have a greatest length. Up to there all
is as it should be. An integer with more decimal digits is refused too, but neither of the two
conversions on the way is possible: if it comes as decimal digits, then they are not read and the
text is taken for no literal at all; and otherwise the integer cannot be written into the message,
so something is said about the conversion (`Readout.refused_of_outOfRange`). So the message does
not always name the integer (`Readout.not_forall_outOfRangeText`).
-/

namespace Readout

open Numeral Text

/-! ### What is said about a value -/

/-- The field of a context for a scope. -/
def Scope.field : Scope → String
  | .register => "registers"
  | .symbol => "symbols"

/-- **A value is refused in tables**, with a message: if it is given to an identifier in the table
of a scope, and the entries before it are good, then that message is all that is said about the
table, whatever stands behind the entry and in the other field. -/
def Value.RefusedInTables (v : Value) (message : String) : Prop :=
  ∀ (scope : Scope) (fields : Scope → Option Value) (good more : List (String × Value))
    (name : String), fields scope = some (.table ⟨good ++ (name, v) :: more⟩) →
    (∀ e ∈ good, ∃ w, Admits e w) → isIdentifier name = true →
    ∃ rejections, Bindings.ofValues (fields .register) (fields .symbol) = .error rejections ∧
      (rejections.map Rejection.said).filter (fun r => r.1 = scope.field) =
        [(scope.field, "Value error, " ++ message)]

/-- **A text is refused in assignments**, with a message, whatever identifier it is assigned to. -/
def RefusedInAssignments (spelling message : String) : Prop :=
  ∀ before : String, '=' ∉ before.toList → isIdentifier (trim before) = true →
    ∃ fault, Assignment.parse (before ++ "=" ++ spelling) = .error fault ∧
      fault.message = "Bad value for " ++ trim before ++ ": " ++ message

/-- Good entries in front of others do not change what is said about them. -/
theorem FirstFault.append {good es : List (String × Value)} {message? : Option String}
    (hgood : ∀ e ∈ good, ∃ w, Admits e w) (h : FirstFault es message?) :
    FirstFault (good ++ es) message? := by
  induction good with
  | nil => exact h
  | cons e good ih =>
    obtain ⟨⟨w, hw⟩, htail⟩ := List.forall_mem_cons.1 hgood
    exact .later hw (ih htail)

/-- Of two reports, one on each field, that on the field of a scope is the one that is about it. -/
theorem filter_reports (scope : Scope) (said? : Scope → Option String) :
    (reportOn "registers" (said? .register) ++ reportOn "symbols" (said? .symbol)).filter
      (fun r => r.1 = scope.field) = reportOn scope.field (said? scope) := by
  rw [List.filter_append]
  cases scope <;> cases said? .register <;> cases said? .symbol <;> simp [reportOn, Scope.field]

section Refused

variable {v : Value} {message : String}

/-- **What is said about a bad value is said in tables**, -/
theorem Value.Refused.inTables (h : v.Refused message) : v.RefusedInTables message := by
  intro scope fields good more name hfield hgood hname
  have hsaid : EntryFault.said? (readField (fields scope)) = some message := by
    rw [hfield, said?_readField_table]
    exact firstFault_iff.1 (.append hgood (.here (.value hname h)))
  refine ⟨_, Bindings.ofValues_eq_error_iff.2 ⟨?_, rfl⟩, ?_⟩
  · cases scope with
    | register => exact Or.inl (by rw [hsaid]; exact Option.some_ne_none _)
    | symbol => exact Or.inr (by rw [hsaid]; exact Option.some_ne_none _)
  · rw [List.map_append, map_said_rejectionOf, map_said_rejectionOf,
      filter_reports scope fun scope => EntryFault.said? (readField (fields scope)), hsaid]
    rfl

/-- **and in assignments.** -/
theorem Value.Refused.inAssignments {spelling : String}
    (h : (Value.text spelling).Refused message) :
    RefusedInAssignments spelling message := by
  intro before hequals hname
  rw [Assignment.parse_of_trim hequals hname]
  rw [← said?_toWord_eq_some_iff] at h
  cases hword : (Value.text spelling).toWord with
  | ok w =>
    rw [hword] at h
    cases h
  | error fault =>
    rw [hword] at h
    obtain rfl := Option.some.inj h
    exact ⟨_, rfl, rfl⟩

end Refused

/-- One message at most is the one that a text is refused with. -/
theorem RefusedInAssignments.unique {spelling message message' : String}
    (h : RefusedInAssignments spelling message) (h' : RefusedInAssignments spelling message') :
    message = message' := by
  obtain ⟨fault, hfault, hmessage⟩ := h "x" (by decide) (by decide)
  obtain ⟨fault', hfault', hmessage'⟩ := h' "x" (by decide) (by decide)
  obtain rfl : fault = fault' := Except.error.inj (hfault.symm.trans hfault')
  exact String.append_right_inj _ |>.1 (hmessage.symm.trans hmessage')

/-! ### Integers beyond the words -/

/-- What should be said about an integer that is no word. -/
def outOfRangeText (n : ℤ) : String :=
  "value " ++ decimalText n ++ " does not fit in 64 bits"

section Range

variable {n : ℤ} {v : Value} {base : ℕ} {ds : List ℕ} {text : String}

/-- An integer with more decimal digits than are written is no word. -/
theorem not_word_of_le_natAbs (h : 10 ^ maxDecimalDigits ≤ n.natAbs) : ¬(0 ≤ n ∧ n < 2 ^ 64) := by
  have hpow : 10 ^ 20 ≤ 10 ^ maxDecimalDigits := Nat.pow_le_pow_right (by decide) (by decide)
  have hlarge := hpow.trans h
  omega

/-- What is said about a value that is taken for an integer beyond the words. -/
theorem Value.TakenFor.refused (h : v.TakenFor n) (hn : ¬(0 ≤ n ∧ n < 2 ^ 64)) :
    v.Refused (if n.natAbs < 10 ^ maxDecimalDigits then outOfRangeText n else unprintableText) := by
  have hrefused := Refused.range h hn
  unfold withDecimal at hrefused
  rwa [if_congr (isWritable_iff n) rfl rfl] at hrefused

/-- A text that spells an integer is taken for it, unless its decimal digits are too many. -/
theorem Numeral.Spells.takenFor (h : Spells base ds text n)
    (hshort : ¬(base = 10 ∧ maxDecimalDigits < ds.length)) : (Value.text text).TakenFor n :=
  .text (by rw [h.readInteger?_eq, if_neg hshort])

/-- **What is said about a spelling** of an integer beyond the words. -/
theorem Numeral.Spells.refused (h : Spells base ds text n) (hn : ¬(0 ≤ n ∧ n < 2 ^ 64)) :
    (Value.text text).Refused (if n.natAbs < 10 ^ maxDecimalDigits then outOfRangeText n
      else if base = 10 then "not an integer literal: " ++ quoted text else unprintableText) := by
  have hzero : n ≠ 0 := by
    rintro rfl
    exact hn (by decide)
  by_cases hlong : base = 10 ∧ maxDecimalDigits < ds.length
  · -- its digits are too many, so the integer is too large
    obtain ⟨rfl, hlength⟩ := hlong
    rw [if_neg (mt (h.natAbs_lt_iff hzero _).1 (Nat.not_le.2 hlength)), if_pos rfl]
    exact .text (by rw [h.readInteger?_eq, if_pos ⟨rfl, hlength⟩])
  · have hrefused := (h.takenFor hlong).refused hn
    split
    · rename_i hsmall
      rwa [if_pos hsmall] at hrefused
    · rename_i hlarge
      have hbase : base ≠ 10 := by
        rintro rfl
        exact hlong ⟨rfl, Nat.lt_of_not_le (mt (h.natAbs_lt_iff hzero _).2 hlarge)⟩
      rw [if_neg hbase]
      rwa [if_neg hlarge] at hrefused

/-- **Integers that are no words are refused.** Take any of them.

* If it has no more decimal digits than numerals may have, then it is refused in tables with the
  message that names it, and so is every text that spells it, in tables and in assignments.
* Otherwise it is refused in tables, and so is every text that spells it, in tables and in
  assignments, but with another message: texts in decimal digits are called no literals, and in all
  other cases the message is about the conversion of the integer to a numeral. -/
theorem refused_of_outOfRange (hn : ¬(0 ≤ n ∧ n < 2 ^ 64)) :
    (n.natAbs < 10 ^ maxDecimalDigits →
      (Value.integer n).RefusedInTables (outOfRangeText n) ∧
      ∀ base ds text, Spells base ds text n →
        (Value.text text).RefusedInTables (outOfRangeText n) ∧
          RefusedInAssignments text (outOfRangeText n)) ∧
    (10 ^ maxDecimalDigits ≤ n.natAbs →
      (Value.integer n).RefusedInTables unprintableText ∧
      ∀ base ds text, Spells base ds text n →
        let message :=
          if base = 10 then "not an integer literal: " ++ quoted text else unprintableText
        (Value.text text).RefusedInTables message ∧ RefusedInAssignments text message) := by
  have hinteger := Value.TakenFor.integer.refused hn
  refine ⟨fun hsmall => ?_, fun hlarge => ?_⟩
  · rw [if_pos hsmall] at hinteger
    refine ⟨hinteger.inTables, fun base ds text h => ?_⟩
    have hrefused := h.refused hn
    rw [if_pos hsmall] at hrefused
    exact ⟨hrefused.inTables, hrefused.inAssignments⟩
  · rw [if_neg (Nat.not_lt.2 hlarge)] at hinteger
    refine ⟨hinteger.inTables, fun base ds text h => ?_⟩
    have hrefused := h.refused hn
    rw [if_neg (Nat.not_lt.2 hlarge)] at hrefused
    exact ⟨hrefused.inTables, hrefused.inAssignments⟩

end Range

/-- Minus one behind the mark of a base, in an assignment with blanks around both sides and in a
table behind a good entry; and an integer with more decimal digits than are written. -/
theorem refused_of_outOfRange_minus_one :
    ¬(0 ≤ (-1 : ℤ) ∧ (-1 : ℤ) < 2 ^ 64) ∧ Spells 16 [1] "\t-0X_1 " (-1) ∧
      (∃ fault, Assignment.parse "x =\t-0X_1 " = .error fault ∧
        fault.message = "Bad value for x: value -1 does not fit in 64 bits") ∧
      (∃ rejections, Bindings.ofValues
          (some (.table ⟨[("pc", .integer 5), ("sp", .integer (-1))]⟩)) none = .error rejections ∧
        (rejections.map Rejection.said).filter (fun r => r.1 = "registers") =
          [("registers", "Value error, value -1 does not fit in 64 bits")]) ∧
      (Value.integer (10 ^ maxDecimalDigits : ℕ)).RefusedInTables unprintableText := by
  have hminus : ¬(0 ≤ (-1 : ℤ) ∧ (-1 : ℤ) < 2 ^ 64) := by decide
  have hspells : Spells 16 [1] "\t-0X_1 " (-1) :=
    @Spells.intro 16 [1] _ ['\t'] ['-'] ['0', 'X', '_', '1'] [' '] (-1) (by decide)
      (List.forall_mem_singleton.2 rfl) (List.forall_mem_singleton.2 rfl) (by decide)
      (.apart ⟨.inl rfl, by decide⟩ (by decide) (.last ⟨.inl rfl, by decide⟩))
  have hsmall : (-1 : ℤ).natAbs < 10 ^ maxDecimalDigits := Nat.one_lt_pow (by decide) (by decide)
  obtain ⟨hinteger, htext⟩ := (refused_of_outOfRange hminus).1 hsmall
  have hlarge : 10 ^ maxDecimalDigits ≤ ((10 ^ maxDecimalDigits : ℕ) : ℤ).natAbs := by
    rw [Int.natAbs_natCast]
  refine ⟨hminus, hspells, ?_, ?_, ?_⟩
  · exact (htext _ _ _ hspells).2 "x " (by decide) (by decide)
  · exact hinteger .register
      (fun | .register => some (.table ⟨[("pc", .integer 5), ("sp", .integer (-1))]⟩)
           | .symbol => none) [("pc", .integer 5)] [] "sp" rfl
      (List.forall_mem_singleton.2 ⟨5, by decide, .integer⟩) (by decide)
  · exact ((refused_of_outOfRange (not_word_of_le_natAbs hlarge)).2 hlarge).1

section Ones

variable {k : ℕ}

/-- Ones in a row. -/
theorem digitRow_ones (k : ℕ) :
    DigitRow 10 (List.replicate (k + 1) 1) (List.replicate (k + 1) '1') := by
  have hone : DigitOf 10 '1' 1 := ⟨Or.inl rfl, by decide⟩
  induction k with
  | zero => exact .last hone
  | succ k ih => exact .next hone ih

theorem head?_ones (k : ℕ) : (List.replicate (k + 1) 1).head? ≠ some 0 := by
  rw [List.replicate_succ, List.head?_cons]
  decide

/-- They spell an integer -/
theorem spells_ones (k : ℕ) : Spells 10 (List.replicate (k + 1) 1)
    (String.ofList (List.replicate (k + 1) '1')) (valueIn 10 (List.replicate (k + 1) 1)) := by
  rw [← one_mul ((valueIn 10 _ : ℕ) : ℤ)]
  exact @Spells.intro _ _ _ [] [] (List.replicate (k + 1) '1') [] 1
    (by rw [String.toList_ofList, List.append_nil, List.nil_append, List.nil_append])
    (List.forall_mem_nil _) (List.forall_mem_nil _) (by decide)
    (.decimal (digitRow_ones k) fun hhead => absurd hhead (head?_ones k))

/-- with as many digits, which may be too many to be written. -/
theorem le_natAbs_ones (hk : maxDecimalDigits ≤ k) :
    10 ^ maxDecimalDigits ≤ (valueIn 10 (List.replicate (k + 1) 1) : ℤ).natAbs := by
  have hne : List.replicate (k + 1) 1 ≠ [] := List.cons_ne_nil _ _
  rw [Int.natAbs_natCast, ← Nat.not_lt,
    valueIn_lt_pow_iff hne (head?_ones k) (digitRow_ones k).lt, List.length_replicate]
  exact Nat.not_le.2 (Nat.lt_succ_of_le hk)

/-- Then what is said about them is not that their integer is no word. -/
theorem not_refusedInAssignments_ones (hk : maxDecimalDigits ≤ k) :
    ¬RefusedInAssignments (String.ofList (List.replicate (k + 1) '1'))
      (outOfRangeText (valueIn 10 (List.replicate (k + 1) 1))) := by
  intro h
  have hlarge := le_natAbs_ones hk
  have hrefused := (spells_ones k).refused (not_word_of_le_natAbs hlarge)
  rw [if_neg (Nat.not_lt.2 hlarge), if_pos rfl] at hrefused
  have hmessage := h.unique hrefused.inAssignments
  -- the two messages differ in their first characters
  have hfirst := congrArg (fun message => message.toList.head?) hmessage
  simp [outOfRangeText] at hfirst

end Ones

/-- What is said about an integer that is no word does not always name it: a run of ones, one longer
than is converted, is called no literal. -/
theorem not_forall_outOfRangeText :
    ¬∀ (n : ℤ) (base : ℕ) (ds : List ℕ) (text : String), ¬(0 ≤ n ∧ n < 2 ^ 64) →
      Spells base ds text n → RefusedInAssignments text (outOfRangeText n) := by
  intro h
  have hrange := not_word_of_le_natAbs (le_natAbs_ones (le_refl maxDecimalDigits))
  exact not_refusedInAssignments_ones le_rfl (h _ _ _ _ hrange (spells_ones maxDecimalDigits))

end Readout
