import Mathlib.Data.List.TakeWhile
import Mathlib.Tactic.SplitIfs
import Mathlib.Tactic.Tauto
import Readout.Proofs.Numeral.Positional
import Readout.Proofs.Expr.Grammar
import Readout.Token.Lexer

/-!
# What the lexer cuts

The lexer is a loop over the characters of a text. This file describes one turn of it
(`Readout.Cursor.feed_cons`) and draws three conclusions, two of them by the induction on how
the lexer takes a text apart (`Readout.Cursor.feed_induction`).

* **Texts are cut piece by piece.** `Readout.CutInto` says that a text is cut into given
  tokens in front of a given rest, whatever the position is. Such texts can be put one
  after the other (`Readout.CutInto.append`). A word must be followed by something that
  does not go on with it (`Readout.Ends`), and nothing else depends on the rest.
* **The brackets of a text are those of its tokens** (`Readout.Cursor.brackets_feed`): no
  literal, name or gap contains one. So it makes no difference whether the depth of a
  source is measured on its characters or on its tokens.
* **Too long a literal is a run of digits** in the text (`Readout.IsOverlong`,
  `Readout.Cursor.exists_overlong_of_feed`).
-/

namespace Readout

/-! ### Classes of characters by code point -/

theorem isIdentifierStart_iff {c : Char} : isIdentifierStart c = true ↔
    65 ≤ c.toNat ∧ c.toNat ≤ 90 ∨ 97 ≤ c.toNat ∧ c.toNat ≤ 122 ∨ c = '_' ∨ c = '$' := by
  delta isIdentifierStart Char.isAlpha Char.isUpper Char.isLower
  simp only [UInt32.le_iff_toNat_le, Bool.or_eq_true, Bool.and_eq_true, decide_eq_true_eq,
    beq_iff_eq, ge_iff_le]
  change ((65 ≤ c.toNat ∧ c.toNat ≤ 90 ∨ 97 ≤ c.toNat ∧ c.toNat ≤ 122) ∨ c = '_') ∨ c = '$' ↔ _
  rw [or_assoc, or_assoc]

theorem isIdentifierRest_iff {c : Char} : isIdentifierRest c = true ↔
    isIdentifierStart c = true ∨ 48 ≤ c.toNat ∧ c.toNat ≤ 57 := by
  have hdigit : c.isDigit = true ↔ 48 ≤ c.toNat ∧ c.toNat ≤ 57 := Char.isDigit_iff_toNat
  change (c.isAlpha || c.isDigit || c == '_' || c == '$') = true ↔
    (c.isAlpha || c == '_' || c == '$') = true ∨ _
  simp only [Bool.or_eq_true, hdigit]
  tauto

theorem isGap_iff {c : Char} : isGap c = true ↔ c = ' ' ∨ c = '\t' ∨ c = '\n' := by
  simp [isGap, or_assoc]

/-- The digits are the ASCII digits and letters whose value is below the base. -/
theorem isDigitIn_iff {base : ℕ} {c : Char} : Numeral.isDigitIn base c = true ↔
    (48 ≤ c.toNat ∧ c.toNat ≤ 57 ∧ c.toNat - 48 < base) ∨
    (65 ≤ c.toNat ∧ c.toNat ≤ 90 ∧ c.toNat - 55 < base) ∨
    97 ≤ c.toNat ∧ c.toNat ≤ 122 ∧ c.toNat - 87 < base := by
  unfold Numeral.isDigitIn Numeral.digitIn? Numeral.digitValue?
  dsimp only
  split_ifs <;> simp_all <;> omega

/-- A digit of any base can be part of a name. -/
theorem isIdentifierRest_of_isDigitIn {base : ℕ} {c : Char}
    (h : Numeral.isDigitIn base c = true) : isIdentifierRest c = true := by
  rw [isIdentifierRest_iff, isIdentifierStart_iff]
  rcases isDigitIn_iff.1 h with ⟨hlo, hhi, -⟩ | ⟨hlo, hhi, -⟩ | ⟨hlo, hhi, -⟩
  · exact .inr ⟨hlo, hhi⟩
  · exact .inl (.inl ⟨hlo, hhi⟩)
  · exact .inl (.inr (.inl ⟨hlo, hhi⟩))

/-- A name goes on with what it can start with, and with decimal digits. -/
theorem isIdentifierStart_or_isDigitIn {c : Char} (h : isIdentifierRest c = true) :
    isIdentifierStart c = true ∨ Numeral.isDigitIn 10 c = true := by
  rcases isIdentifierRest_iff.1 h with hstart | ⟨hlo, hhi⟩
  · exact .inl hstart
  · exact .inr (isDigitIn_iff.2 (.inl ⟨hlo, hhi, by omega⟩))

/-- No name starts with a decimal digit. -/
theorem not_isDigitIn_of_isIdentifierStart {c : Char} (h : isIdentifierStart c = true) :
    ¬Numeral.isDigitIn 10 c = true := by
  rw [isDigitIn_iff]
  rcases isIdentifierStart_iff.1 h with h | h | rfl | rfl
  · omega
  · omega
  · decide
  · decide

/-- A character of a name is no gap. -/
theorem isGap_eq_false {c : Char} (h : isIdentifierRest c = true) : isGap c = false := by
  rw [Bool.eq_false_iff]
  intro hgap
  rcases isGap_iff.1 hgap with rfl | rfl | rfl <;> exact absurd h (by decide)

/-- The characters of an identifier. -/
theorem isIdentifierRest_of_isIdentifier {name : String} (h : isIdentifier name = true) :
    ∀ c ∈ name.toList, isIdentifierRest c = true := by
  unfold isIdentifier at h
  split at h
  · cases h
  · rename_i c cs hname
    rw [Bool.and_eq_true, List.all_eq_true] at h
    rw [hname]
    exact List.forall_mem_cons.2 ⟨isIdentifierRest_iff.2 (.inl h.1), h.2⟩

/-! ### What is cut off -/

namespace Piece

theorem literal_eq_token_iff {spelling : List Char} {value : ℕ} {t : Token} :
    literal spelling value = token t ↔ value < Word.count ∧ t = .int (UInt64.ofNat value) := by
  rw [literal]
  split
  · rename_i hlt
    rw [token.injEq, and_iff_right hlt, eq_comm]
  · rename_i hge
    exact iff_of_false Piece.noConfusion fun h => hge h.1

theorem hex_eq_token {mark digits : List Char} {t : Token} (h : hex mark digits = token t) :
    ∃ v, t = .int v := by
  rw [hex] at h
  split at h
  · cases h
  · exact ⟨_, (literal_eq_token_iff.1 h).2⟩

theorem decimal_eq_token {digits : List Char} {t : Token} (h : decimal digits = token t) :
    ∃ v, t = .int v := by
  rw [decimal] at h
  split at h
  · exact ⟨_, (literal_eq_token_iff.1 h).2⟩
  · cases h

theorem literal_ne_oversized (spelling : List Char) (value n : ℕ) :
    literal spelling value ≠ oversized n := by
  unfold literal
  split <;> exact Piece.noConfusion

theorem hex_ne_oversized (mark digits : List Char) (n : ℕ) : hex mark digits ≠ oversized n := by
  unfold hex
  split
  · exact Piece.noConfusion
  · exact literal_ne_oversized _ _ _

theorem decimal_eq_oversized_iff {digits : List Char} {n : ℕ} :
    decimal digits = oversized n ↔
      Numeral.maxDecimalDigits < digits.length ∧ digits.length = n := by
  unfold decimal
  split
  · rename_i hle
    exact ⟨fun h => absurd h (literal_ne_oversized _ _ _), fun h => absurd hle (Nat.not_le.2 h.1)⟩
  · rename_i hlt
    rw [oversized.injEq, and_iff_right (Nat.not_le.1 hlt)]

end Piece

/-- The characters that a test accepts at the start of a text are those of the same number. -/
theorem mem_of_mem_take_takeWhile {p : Char → Bool} {cs : List Char} {d : Char}
    (h : d ∈ cs.take (cs.takeWhile p).length) : p d = true := by
  rw [← List.prefix_iff_eq_take.1 (List.takeWhile_prefix p)] at h
  exact List.all_eq_true.1 List.all_takeWhile d h

/-- The longest run of a class at the start of a text ends where the next character is beyond the
class. -/
theorem takeWhile_append_of_head? {p : Char → Bool} {cs rest : List Char}
    (hcs : ∀ c ∈ cs, p c = true) (hrest : ∀ c, rest.head? = some c → p c = false) :
    (cs ++ rest).takeWhile p = cs := by
  rw [List.takeWhile_append_of_pos hcs, List.append_right_eq_self]
  cases rest with
  | nil => rfl
  | cons c rest => exact List.takeWhile_cons_of_neg (by rw [hrest c rfl]; decide)

/-- **The tokens that are cut off** are literals and names, which have no character beyond
those of names in them, and marks. -/
theorem cut_token_cases {c : Char} {cs : List Char} {t : Token} {n : ℕ}
    (h : cut c cs = (.token t, n)) :
    (((∃ v, t = .int v) ∨ ∃ name, t = .ident name) ∧
      ∀ d ∈ c :: cs.take n, isIdentifierRest d = true) ∨ cutMark c cs = (.token t, n) := by
  rw [cut] at h
  split at h
  · rename_i hc
    refine .inl ?_
    unfold cutLiteral at h
    split at h
    · rename_i x rest
      split at h
      · -- a hexadecimal literal, whose mark is made of a digit and a letter
        rename_i hx
        obtain ⟨hpiece, rfl⟩ := Prod.mk.inj h
        refine ⟨.inl (Piece.hex_eq_token hpiece), ?_⟩
        intro d hd
        rw [List.take_succ_cons, List.mem_cons, List.mem_cons] at hd
        rcases hd with rfl | rfl | hd
        · exact isIdentifierRest_of_isDigitIn hc
        · simp only [Bool.and_eq_true, isHexLetter, Bool.or_eq_true, beq_iff_eq] at hx
          rcases hx.2 with rfl | rfl <;> decide
        · exact isIdentifierRest_of_isDigitIn (mem_of_mem_take_takeWhile hd)
      · obtain ⟨hpiece, rfl⟩ := Prod.mk.inj h
        refine ⟨.inl (Piece.decimal_eq_token hpiece), ?_⟩
        intro d hd
        rcases List.mem_cons.1 hd with rfl | hd
        · exact isIdentifierRest_of_isDigitIn hc
        · exact isIdentifierRest_of_isDigitIn (mem_of_mem_take_takeWhile hd)
    · obtain ⟨hpiece, rfl⟩ := Prod.mk.inj h
      refine ⟨.inl (Piece.decimal_eq_token hpiece), ?_⟩
      intro d hd
      rw [List.take_nil, List.mem_singleton] at hd
      rw [hd]
      exact isIdentifierRest_of_isDigitIn hc
  · split at h
    · rename_i hstart
      obtain ⟨hpiece, rfl⟩ := Prod.mk.inj h
      cases hpiece
      refine .inl ⟨.inr ⟨_, rfl⟩, ?_⟩
      intro d hd
      rcases List.mem_cons.1 hd with rfl | hd
      · exact isIdentifierRest_iff.2 (.inl hstart)
      · exact mem_of_mem_take_takeWhile hd
    · exact .inr h

theorem doubledToken?_eq_some {c d : Char} {t : Token} (h : doubledToken? c d = some t) :
    c = '<' ∧ d = '<' ∧ t = .lshift ∨ c = '>' ∧ d = '>' ∧ t = .rshift ∨
      c = ':' ∧ d = ':' ∧ t = .scope := by
  unfold doubledToken? at h
  split_ifs at h with hlt hgt hcolon
  · exact .inl ⟨hlt.1, hlt.2, (Option.some.inj h).symm⟩
  · exact .inr (.inl ⟨hgt.1, hgt.2, (Option.some.inj h).symm⟩)
  · exact .inr (.inr ⟨hcolon.1, hcolon.2, (Option.some.inj h).symm⟩)

/-- What does not belong to words is a mark. -/
theorem cut_eq_cutMark {c : Char} (h : isIdentifierRest c = false) (cs : List Char) :
    cut c cs = cutMark c cs := by
  have hdigit : ¬Numeral.isDigitIn 10 c = true := fun hc =>
    absurd (isIdentifierRest_of_isDigitIn hc) (by rw [h]; decide)
  have hstart : ¬isIdentifierStart c = true := fun hc =>
    absurd (isIdentifierRest_iff.2 (.inl hc)) (by rw [h]; decide)
  rw [cut, if_neg hdigit, if_neg hstart]

/-- A mark is two characters or one. -/
theorem cutMark_cases {c : Char} {cs : List Char} {t : Token} {n : ℕ}
    (h : cutMark c cs = (.token t, n)) :
    (∃ d, cs.head? = some d ∧ doubledToken? c d = some t) ∧ n = 1 ∨ singleToken c = t ∧ n = 0 := by
  unfold cutMark at h
  split at h
  · rename_i t' hdoubled
    obtain ⟨d, hd, hdt⟩ := Option.bind_eq_some_iff.1 hdoubled
    cases h
    exact .inl ⟨⟨d, hd, hdt⟩, rfl⟩
  · cases h
    exact .inr ⟨rfl, rfl⟩

/-- **The brackets of what is cut off**: none, or the character and the token are both the
same one. -/
theorem cut_brackets {c : Char} {cs : List Char} {t : Token} {n : ℕ}
    (h : cut c cs = (.token t, n)) :
    c = '(' ∧ t = .lparen ∧ n = 0 ∨ c = ')' ∧ t = .rparen ∧ n = 0 ∨
      t ≠ .lparen ∧ t ≠ .rparen ∧ '(' ∉ c :: cs.take n ∧ ')' ∉ c :: cs.take n := by
  rcases cut_token_cases h with ⟨hword, hall⟩ | hmark
  · have ht : t ≠ .lparen ∧ t ≠ .rparen := by
      rcases hword with ⟨v, rfl⟩ | ⟨name, rfl⟩ <;> simp
    exact .inr (.inr ⟨ht.1, ht.2, fun hd => absurd (hall _ hd) (by decide),
      fun hd => absurd (hall _ hd) (by decide)⟩)
  · rcases cutMark_cases hmark with ⟨⟨d, hd, hdt⟩, rfl⟩ | ⟨ht, rfl⟩
    · -- two characters, none of which is a bracket
      obtain ⟨cs', rfl⟩ := List.head?_eq_some_iff.1 hd
      rcases doubledToken?_eq_some hdt with ⟨rfl, rfl, rfl⟩ | ⟨rfl, rfl, rfl⟩ | ⟨rfl, rfl, rfl⟩
      all_goals exact .inr (.inr ⟨by decide, by decide, by simp, by simp⟩)
    · rcases eq_or_ne c '(' with rfl | ho
      · exact .inl ⟨rfl, ht.symm, rfl⟩
      · rcases eq_or_ne c ')' with rfl | hc
        · exact .inr (.inl ⟨rfl, ht.symm, rfl⟩)
        · refine .inr (.inr ⟨?_, ?_, by simpa using ho.symm, by simpa using hc.symm⟩)
          all_goals rw [← ht, singleToken]
          all_goals split_ifs <;> simp

/-- What is cut off is never the end. -/
theorem ne_eof_of_cut {c : Char} {cs : List Char} {t : Token} {n : ℕ}
    (h : cut c cs = (.token t, n)) : t ≠ .eof := by
  rcases cut_token_cases h with ⟨⟨v, rfl⟩ | ⟨name, rfl⟩, -⟩ | hmark
  · simp
  · simp
  · rcases cutMark_cases hmark with ⟨⟨d, -, hdt⟩, -⟩ | ⟨ht, -⟩
    · rcases doubledToken?_eq_some hdt with ⟨-, -, rfl⟩ | ⟨-, -, rfl⟩ | ⟨-, -, rfl⟩ <;> simp
    · rw [← ht, singleToken]
      split_ifs <;> simp

/-- A literal is no name. -/
theorem cutLiteral_eq_token {c : Char} {cs : List Char} {t : Token} {n : ℕ}
    (h : cutLiteral c cs = (.token t, n)) : ∃ v, t = .int v := by
  unfold cutLiteral at h
  split at h
  · split at h
    · exact Piece.hex_eq_token (Prod.mk.inj h).1
    · exact Piece.decimal_eq_token (Prod.mk.inj h).1
  · exact Piece.decimal_eq_token (Prod.mk.inj h).1

/-- **A name that is cut off is an identifier.** -/
theorem isIdentifier_of_cut {c : Char} {cs : List Char} {name : String} {n : ℕ}
    (h : cut c cs = (.token (.ident name), n)) : isIdentifier name = true := by
  rw [cut] at h
  split at h
  · obtain ⟨v, hv⟩ := cutLiteral_eq_token h
    cases hv
  · split at h
    · rename_i hstart
      cases h
      rw [isIdentifier, String.toList_ofList]
      exact Bool.and_eq_true_iff.2 ⟨hstart, List.all_takeWhile⟩
    · rcases cutMark_cases h with ⟨⟨d, -, hdt⟩, -⟩ | ⟨ht, -⟩
      · rcases doubledToken?_eq_some hdt with ⟨-, -, ht⟩ | ⟨-, -, ht⟩ | ⟨-, -, ht⟩ <;> cases ht
      · unfold singleToken at ht
        split_ifs at ht

/-! ### Literals that are too long -/

/-- **A run of decimal digits that is too long to be converted.** -/
structure IsOverlong (digits : List Char) : Prop where
  /-- There are only digits. -/
  digit : ∀ c ∈ digits, Numeral.isDigitIn 10 c = true
  /-- There are too many of them. -/
  long : Numeral.maxDecimalDigits < digits.length

/-- What is cut off as too long is a run of digits. -/
theorem cut_eq_oversized {c : Char} {cs : List Char} {n m : ℕ}
    (h : cut c cs = (.oversized n, m)) :
    ∃ digits, digits <+: c :: cs ∧ IsOverlong digits ∧ digits.length = n := by
  rw [cut] at h
  split at h
  · rename_i hc
    -- the digits are the first character and those that follow it
    have hrun : ∀ more, more <+: cs → (∀ d ∈ more, Numeral.isDigitIn 10 d = true) →
        Piece.decimal (c :: more) = .oversized n →
        ∃ digits, digits <+: c :: cs ∧ IsOverlong digits ∧ digits.length = n := by
      intro more hmore hdigit hpiece
      obtain ⟨hlong, hlength⟩ := Piece.decimal_eq_oversized_iff.1 hpiece
      exact ⟨c :: more, List.cons_prefix_cons.2 ⟨rfl, hmore⟩,
        ⟨List.forall_mem_cons.2 ⟨hc, hdigit⟩, hlong⟩, hlength⟩
    unfold cutLiteral at h
    split at h
    · split at h
      · exact absurd (Prod.mk.inj h).1 (Piece.hex_ne_oversized _ _ _)
      · exact hrun _ (List.takeWhile_prefix _) (List.all_eq_true.1 List.all_takeWhile)
          (Prod.mk.inj h).1
    · exact hrun [] (List.nil_prefix) (List.forall_mem_nil _) (Prod.mk.inj h).1
  · split at h
    · cases h
    · unfold cutMark at h
      split at h <;> cases h

/-- Digits are no letters. -/
theorem isHexLetter_eq_false_of_isDigitIn {c : Char} (h : Numeral.isDigitIn 10 c = true) :
    isHexLetter c = false := by
  rw [Bool.eq_false_iff]
  intro hx
  simp only [isHexLetter, Bool.or_eq_true, beq_iff_eq] at hx
  rcases hx with rfl | rfl <;> exact absurd h (by decide)

/-! ### One turn of the lexer -/

/-- A feed with some lexemes put before it. -/
def Feed.after (before : List Lexeme) (f : Feed) : Feed :=
  ⟨before ++ f.lexemes, f.ending⟩

namespace Cursor

theorem feed_eq (c : Cursor) : c.feed =
    match c.next with
    | (.ok l, c') => if l.token = .eof then ⟨[], .ok l.pos⟩ else c'.feed.after [l]
    | (.error e, _) => ⟨[], .error e⟩ := by
  rw [feed]
  split
  · rename_i l c' hnext
    simp only [hnext]
    split <;> rfl
  · rename_i e c' hnext
    simp only [hnext]

theorem feed_nil (pos : ℕ) : feed ⟨pos, []⟩ = ⟨[], .ok pos⟩ := by
  rw [feed_eq]
  rfl

theorem skipGap_cons_of_gap {c : Char} (h : isGap c = true) (pos : ℕ) (cs : List Char) :
    skipGap ⟨pos, c :: cs⟩ = skipGap ⟨pos + 1, cs⟩ := by
  simp only [skipGap, skip, List.takeWhile_cons_of_pos h, List.length_cons, List.drop_succ_cons]
  congr 1
  omega

theorem skipGap_cons_of_not_gap {c : Char} (h : isGap c = false) (pos : ℕ) (cs : List Char) :
    skipGap ⟨pos, c :: cs⟩ = ⟨pos, c :: cs⟩ := by
  simp [skipGap, skip, h]

/-- **One turn of the lexer**: it cuts one piece off. -/
theorem feed_cons {c : Char} (h : isGap c = false) (pos : ℕ) (cs : List Char) :
    feed ⟨pos, c :: cs⟩ =
      match cut c cs with
      | (.token t, n) => (feed ⟨pos + n + 1, cs.drop n⟩).after [⟨t, pos⟩]
      | (.malformedHex, _) => ⟨[], .error (.fault .malformedHex pos)⟩
      | (.outOfRange literal, _) => ⟨[], .error (.fault (.outOfRange literal) pos)⟩
      | (.oversized digits, _) => ⟨[], .error (.oversized digits)⟩ := by
  rw [feed_eq, next, skipGap_cons_of_not_gap h]
  dsimp only
  cases hcut : cut c cs with | mk piece n =>
  cases piece with
  | token t => exact if_neg (ne_eof_of_cut hcut)
  | malformedHex => rfl
  | outOfRange literal => rfl
  | oversized digits => rfl

/-- Gaps are skipped. -/
theorem feed_gap {c : Char} (h : isGap c = true) (pos : ℕ) (cs : List Char) :
    feed ⟨pos, c :: cs⟩ = feed ⟨pos + 1, cs⟩ := by
  rw [feed_eq, feed_eq ⟨pos + 1, cs⟩, next, next, skipGap_cons_of_gap h]
  obtain ⟨here, rest⟩ := skipGap ⟨pos + 1, cs⟩
  cases rest with
  | nil => rfl
  | cons first others =>
    dsimp only
    cases (cut first others).1 with
    | token t => rfl
    | malformedHex => rfl
    | outOfRange literal => rfl
    | oversized digits => rfl

/-- **The induction on a text as the lexer takes it apart**: a gap or a token at a time, up to
the end or to a bad literal. -/
@[elab_as_elim] theorem feed_induction {P : ℕ → List Char → Prop} (nil : ∀ pos, P pos [])
    (gap : ∀ pos c cs, isGap c = true → P (pos + 1) cs → P pos (c :: cs))
    (token : ∀ pos c cs t n, isGap c = false → cut c cs = (.token t, n) →
      P (pos + n + 1) (cs.drop n) → P pos (c :: cs))
    (bad : ∀ pos c cs, isGap c = false → (∀ t, (cut c cs).1 ≠ .token t) → P pos (c :: cs))
    (pos : ℕ) (cs : List Char) : P pos cs := by
  -- on the length of the text, since one turn may cut off several characters
  induction hn : cs.length using Nat.strongRecOn generalizing pos cs with
  | ind n ih =>
    cases cs with
    | nil => exact nil pos
    | cons c cs =>
      rw [List.length_cons] at hn
      cases hgap : isGap c with
      | true => exact gap pos c cs hgap (ih cs.length (by omega) _ _ rfl)
      | false =>
        cases hcut : cut c cs with
        | mk piece m =>
          by_cases htoken : ∃ t, piece = .token t
          · obtain ⟨t, rfl⟩ := htoken
            have hshorter : (cs.drop m).length < n := by
              rw [List.length_drop]
              omega
            exact token pos c cs t m hgap hcut (ih _ hshorter _ _ rfl)
          · refine bad pos c cs hgap fun t ht => htoken ⟨t, ?_⟩
            rwa [hcut] at ht

/-- A bad literal ends the text. If it is a fault, then where it stands. -/
theorem exists_feed_bad {c : Char} {cs : List Char} (hgap : isGap c = false)
    (h : ∀ t, (cut c cs).1 ≠ .token t) (pos : ℕ) :
    ∃ err, feed ⟨pos, c :: cs⟩ = ⟨[], .error err⟩ ∧
      ∀ what pos', err = .fault what pos' → pos' = pos := by
  rw [feed_cons hgap]
  cases hcut : cut c cs with
  | mk piece n =>
    cases piece with
    | token t => exact absurd (by rw [hcut]) (h t)
    | malformedHex => exact ⟨_, rfl, fun _ _ hfault => (ReadError.fault.inj hfault).2.symm⟩
    | outOfRange literal => exact ⟨_, rfl, fun _ _ hfault => (ReadError.fault.inj hfault).2.symm⟩
    | oversized digits => exact ⟨_, rfl, fun _ _ hfault => ReadError.noConfusion hfault⟩

/-- **The brackets of a text are those of its tokens.** -/
theorem brackets_feed {pos last : ℕ} {cs : List Char} (h : (feed ⟨pos, cs⟩).ending = .ok last) :
    brackets .lparen .rparen ((feed ⟨pos, cs⟩).lexemes.map Lexeme.token) = brackets '(' ')' cs := by
  induction pos, cs using feed_induction with
  | nil pos => rw [feed_nil]; rfl
  | gap pos c cs hgap ih =>
    rw [feed_gap hgap] at h ⊢
    rw [ih h, brackets_cons_of_ne]
    · rintro rfl
      exact absurd hgap (by decide)
    · rintro rfl
      exact absurd hgap (by decide)
  | token pos c cs t n hgap hcut ih =>
    rw [feed_cons hgap, hcut] at h ⊢
    have hrest := ih h
    simp only [Feed.after, List.singleton_append, List.map_cons]
    rcases cut_brackets hcut with ⟨rfl, rfl, rfl⟩ | ⟨rfl, rfl, rfl⟩ | ⟨ho, hc, ho', hc'⟩
    · rw [brackets_cons_opening, brackets_cons_opening, hrest, List.drop_zero]
    · rw [brackets_cons_closing (by decide), brackets_cons_closing (by decide), hrest,
        List.drop_zero]
    · -- what has no bracket in it can be put before the rest again
      rw [brackets_cons_of_ne ho hc, hrest, ← brackets_append_of_not_mem ho' hc',
        List.cons_append, List.take_append_drop]
  | bad pos c cs hgap hbad =>
    obtain ⟨err, herr, -⟩ := exists_feed_bad hgap hbad pos
    rw [herr] at h
    cases h

/-- The names of a text are identifiers. -/
theorem isIdentifier_of_mem_feed {pos : ℕ} {cs : List Char} {name : String}
    (h : .ident name ∈ (feed ⟨pos, cs⟩).lexemes.map Lexeme.token) : isIdentifier name = true := by
  induction pos, cs using feed_induction with
  | nil pos =>
    rw [feed_nil] at h
    cases h
  | gap pos c cs hgap ih =>
    rw [feed_gap hgap] at h
    exact ih h
  | token pos c cs t n hgap hcut ih =>
    rw [feed_cons hgap, hcut] at h
    simp only [Feed.after, List.singleton_append, List.map_cons, List.mem_cons] at h
    rcases h with rfl | h
    · exact isIdentifier_of_cut hcut
    · exact ih h
  | bad pos c cs hgap hbad =>
    obtain ⟨err, herr, -⟩ := exists_feed_bad hgap hbad pos
    rw [herr] at h
    cases h

/-- A text nests as deep as its tokens. -/
theorem nesting_feed {pos last : ℕ} {cs : List Char} (h : (feed ⟨pos, cs⟩).ending = .ok last) :
    nesting .lparen .rparen ((feed ⟨pos, cs⟩).lexemes.map Lexeme.token) = nesting '(' ')' cs := by
  rw [← nesting_brackets (by decide), brackets_feed h, nesting_brackets (by decide)]

/-- A text has as many parentheses as its tokens. -/
theorem count_feed {pos last : ℕ} {cs : List Char} (h : (feed ⟨pos, cs⟩).ending = .ok last) :
    ((feed ⟨pos, cs⟩).lexemes.map Lexeme.token).count .lparen = cs.count '(' := by
  rw [← count_brackets (show Token.lparen ≠ .rparen by decide), brackets_feed h,
    count_brackets (by decide)]

/-- **A text ends as too long only where it has a run of that many digits.** -/
theorem exists_overlong_of_feed {pos n : ℕ} {cs : List Char}
    (h : (feed ⟨pos, cs⟩).ending = .error (.oversized n)) :
    ∃ digits, digits <:+: cs ∧ IsOverlong digits ∧ digits.length = n := by
  induction pos, cs using feed_induction with
  | nil pos =>
    rw [feed_nil] at h
    cases h
  | gap pos c cs hgap ih =>
    rw [feed_gap hgap] at h
    obtain ⟨digits, hdigits, hrun⟩ := ih h
    exact ⟨digits, hdigits.trans (List.suffix_cons c cs).isInfix, hrun⟩
  | token pos c cs t m hgap hcut ih =>
    rw [feed_cons hgap, hcut] at h
    obtain ⟨digits, hdigits, hrun⟩ := ih h
    have hsuffix : cs.drop m <:+ c :: cs := (List.drop_suffix m cs).trans (List.suffix_cons c cs)
    exact ⟨digits, hdigits.trans hsuffix.isInfix, hrun⟩
  | bad pos c cs hgap hbad =>
    rw [feed_cons hgap] at h
    cases hcut : cut c cs with
    | mk piece m =>
      rw [hcut] at h
      cases piece with
      | token t => exact absurd (by rw [hcut]) (hbad t)
      | malformedHex => cases h
      | outOfRange literal => cases h
      | oversized k =>
        cases h
        obtain ⟨digits, hdigits, hrun⟩ := cut_eq_oversized hcut
        exact ⟨digits, hdigits.isInfix, hrun⟩

end Cursor

/-- **A text of too many digits** is a single literal, which is too long. -/
theorem IsOverlong.feed_eq {digits : List Char} (h : IsOverlong digits) (pos : ℕ) :
    Cursor.feed ⟨pos, digits⟩ = ⟨[], .error (.oversized digits.length)⟩ := by
  obtain ⟨hdigit, hlong⟩ := h
  rcases digits with - | ⟨c, cs⟩
  · exact absurd hlong (Nat.not_lt_zero _)
  obtain ⟨hc, hcs⟩ := List.forall_mem_cons.1 hdigit
  have hgap : isGap c = false := isGap_eq_false (isIdentifierRest_of_isDigitIn hc)
  have hpiece : Piece.decimal (c :: cs) = .oversized (c :: cs).length :=
    Piece.decimal_eq_oversized_iff.2 ⟨hlong, rfl⟩
  have hcut : (cut c cs).1 = .oversized (c :: cs).length := by
    rw [cut, if_pos hc]
    cases cs with
    | nil => exact hpiece
    | cons d cs =>
      have hall : (d :: cs).takeWhile (Numeral.isDigitIn 10) = d :: cs :=
        List.takeWhile_eq_self_iff.2 hcs
      rw [cutLiteral, isHexLetter_eq_false_of_isDigitIn (hcs d List.mem_cons_self), Bool.and_false,
        if_neg Bool.false_ne_true, hall]
      exact hpiece
  rw [Cursor.feed_cons hgap]
  generalize cut c cs = cutting at hcut ⊢
  obtain ⟨piece, n⟩ := cutting
  cases hcut
  rfl

/-! ### Texts cut piece by piece -/

/-- **A text is cut into tokens** in front of a rest, wherever it stands. -/
def CutInto (cs : List Char) (ts : List Token) (rest : List Char) : Prop :=
  ∀ pos, ∃ ls, ls.map Lexeme.token = ts ∧
    Cursor.feed ⟨pos, cs ++ rest⟩ = (Cursor.feed ⟨pos + cs.length, rest⟩).after ls

/-- A rest that does not go on with a word. -/
def Ends (rest : List Char) : Prop :=
  ∀ c, rest.head? = some c → isIdentifierRest c = false

namespace CutInto

variable {rest : List Char}

/-- Texts can be put one after the other. -/
theorem append {as bs : List Char} {ts us : List Token} (has : CutInto as ts (bs ++ rest))
    (hbs : CutInto bs us rest) : CutInto (as ++ bs) (ts ++ us) rest := by
  intro pos
  obtain ⟨ls, hls, hfeed⟩ := has pos
  obtain ⟨ms, hms, hfeed'⟩ := hbs (pos + as.length)
  refine ⟨ls ++ ms, by rw [List.map_append, hls, hms], ?_⟩
  rw [List.append_assoc, hfeed, hfeed', List.length_append, ← Nat.add_assoc]
  simp only [Feed.after, List.append_assoc]

/-- The tokens of a text that is cut up to its end. -/
theorem tokens {cs : List Char} {ts : List Token} (h : CutInto cs ts []) (pos : ℕ) :
    (Cursor.feed ⟨pos, cs⟩).lexemes.map Lexeme.token = ts := by
  obtain ⟨ls, rfl, hfeed⟩ := h pos
  rw [List.append_nil, Cursor.feed_nil] at hfeed
  rw [hfeed, Feed.after, List.append_nil]

/-- Nothing gives nothing. -/
theorem nil : CutInto [] [] rest :=
  fun _ => ⟨[], rfl, rfl⟩

/-- A gap gives nothing. -/
theorem gap {c : Char} (h : isGap c = true) : CutInto [c] [] rest := by
  intro pos
  exact ⟨[], rfl, Cursor.feed_gap h pos rest⟩

theorem gaps {cs : List Char} (h : ∀ c ∈ cs, isGap c = true) : CutInto cs [] rest := by
  induction cs with
  | nil => exact nil
  | cons c cs ih =>
    obtain ⟨hc, hcs⟩ := List.forall_mem_cons.1 h
    exact (gap hc).append (ih hcs)

/-- A single piece. -/
theorem of_cut {c : Char} {cs : List Char} {t : Token} (hgap : isGap c = false)
    (h : cut c (cs ++ rest) = (.token t, cs.length)) : CutInto (c :: cs) [t] rest := by
  intro pos
  refine ⟨[⟨t, pos⟩], rfl, ?_⟩
  rw [List.cons_append, Cursor.feed_cons hgap, h, List.length_cons, ← Nat.add_assoc]
  simp only [List.drop_left]

/-- A mark that no other character can go on with. -/
theorem single {c : Char} (hgap : isGap c = false) (hword : isIdentifierRest c = false)
    (h : c ≠ '<' ∧ c ≠ '>' ∧ c ≠ ':') : CutInto [c] [singleToken c] rest := by
  refine of_cut hgap ?_
  have hbind : (([] ++ rest).head?.bind (doubledToken? c)) = none :=
    Option.bind_eq_none_iff.2 fun d _ => by simp [doubledToken?, h]
  rw [cut_eq_cutMark hword, cutMark, hbind]
  rfl

/-- A mark of two characters. -/
theorem doubled {c d : Char} {t : Token} (hgap : isGap c = false)
    (hword : isIdentifierRest c = false) (h : doubledToken? c d = some t) :
    CutInto [c, d] [t] rest := by
  refine of_cut hgap ?_
  have hbind : (([d] ++ rest).head?.bind (doubledToken? c)) = some t := h
  rw [cut_eq_cutMark hword, cutMark, hbind]
  rfl

/-- The longest word at the start of a text is the word that its rest does not go on with. -/
theorem takeWhile_append {p : Char → Bool} (hp : ∀ c, p c = true → isIdentifierRest c = true)
    {cs : List Char} (hcs : ∀ c ∈ cs, p c = true) (hrest : Ends rest) :
    (cs ++ rest).takeWhile p = cs := by
  refine takeWhile_append_of_head? hcs fun c hc => ?_
  rw [Bool.eq_false_iff]
  intro h
  exact absurd (hp c h) (by rw [hrest c hc]; decide)

/-- **A name** is one token. -/
theorem ident {name : String} (h : isIdentifier name = true) (hrest : Ends rest) :
    CutInto name.toList [.ident name] rest := by
  unfold isIdentifier at h
  split at h
  · cases h
  · rename_i c cs hname
    rw [Bool.and_eq_true, List.all_eq_true] at h
    obtain ⟨hstart, hcs⟩ := h
    have hgap : isGap c = false := isGap_eq_false (isIdentifierRest_iff.2 (.inl hstart))
    rw [hname]
    refine of_cut hgap ?_
    rw [cut, if_neg (not_isDigitIn_of_isIdentifierStart hstart), if_pos hstart,
      takeWhile_append (fun _ => id) hcs hrest]
    dsimp only
    rw [← hname, String.ofList_toList]

/-- The letter of a hexadecimal mark could be part of a name. -/
theorem isHexLetter_eq_false {c : Char} {cs : List Char} (h : Ends (c :: cs)) :
    isHexLetter c = false := by
  rw [Bool.eq_false_iff]
  intro hc
  have hword := h c rfl
  simp only [isHexLetter, Bool.or_eq_true, beq_iff_eq] at hc
  rcases hc with rfl | rfl <;> exact absurd hword (by decide)

/-- **A decimal literal** is its value, since it does not go on as a hexadecimal mark. -/
theorem decimal {n : ℕ} (hn : n < Word.count) (hrest : Ends rest) :
    CutInto (Nat.toDigits 10 n) [.int (UInt64.ofNat n)] rest := by
  obtain ⟨c, cs, hcs⟩ := List.exists_cons_of_ne_nil (Nat.toDigits_ne_nil (n := n) (b := 10))
  have hdigits : ∀ d ∈ c :: cs, Numeral.isDigitIn 10 d = true := fun d hd =>
    Numeral.isDigitIn_of_mem_toDigits (by decide) (by decide) (hcs ▸ hd)
  obtain ⟨hc, htail⟩ := List.forall_mem_cons.1 hdigits
  have hgap : isGap c = false := isGap_eq_false (isIdentifierRest_of_isDigitIn hc)
  have hdecimal : Piece.decimal (c :: cs) = .token (.int (UInt64.ofNat n)) := by
    -- a word has twenty digits at most
    have hlength : (Nat.toDigits 10 n).length ≤ 20 :=
      (Nat.length_toDigits_le_iff (by decide) (by decide)).2 (hn.trans (by decide))
    rw [← hcs, Piece.decimal, if_pos (hlength.trans (by decide)), Piece.literal,
      Numeral.valueOf_toDigits (by decide) (by decide), if_pos hn]
  rw [hcs]
  refine of_cut hgap ?_
  rw [cut, if_pos hc]
  cases hmore : cs ++ rest with
  | nil =>
    obtain ⟨rfl, rfl⟩ := List.append_eq_nil_iff.1 hmore
    rw [cutLiteral, hdecimal]
    rfl
  | cons x more =>
    have hx : isHexLetter x = false := by
      cases cs with
      | nil =>
        rw [List.nil_append] at hmore
        exact isHexLetter_eq_false (hmore ▸ hrest)
      | cons d cs =>
        obtain rfl : d = x := (List.cons.inj hmore).1
        exact isHexLetter_eq_false_of_isDigitIn (htail d List.mem_cons_self)
    rw [cutLiteral, hx, Bool.and_false, if_neg Bool.false_ne_true, ← hmore,
      takeWhile_append (fun _ => isIdentifierRest_of_isDigitIn) htail hrest]
    dsimp only
    rw [hdecimal]

/-- **A hexadecimal literal** is its value. -/
theorem hex {n : ℕ} (hn : n < Word.count) (hrest : Ends rest) :
    CutInto ('0' :: 'x' :: Nat.toDigits 16 n) [.int (UInt64.ofNat n)] rest := by
  have hdigits : ∀ c ∈ Nat.toDigits 16 n, Numeral.isDigitIn 16 c = true := fun c hc =>
    Numeral.isDigitIn_of_mem_toDigits (by decide) (by decide) hc
  refine of_cut (by decide) ?_
  rw [cut, if_pos (by decide), List.cons_append, cutLiteral, if_pos (by decide),
    takeWhile_append (fun _ => isIdentifierRest_of_isDigitIn) hdigits hrest]
  dsimp only
  have hne : (Nat.toDigits 16 n).isEmpty = false :=
    List.isEmpty_eq_false_iff.2 Nat.toDigits_ne_nil
  rw [Piece.hex, hne, if_neg Bool.false_ne_true, Piece.literal,
    Numeral.valueOf_toDigits (by decide) (by decide), if_pos hn]
  rfl

end CutInto

end Readout
