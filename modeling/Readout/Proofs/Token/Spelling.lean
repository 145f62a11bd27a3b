import Readout.Proofs.Numeral.Literal
import Readout.Proofs.Token.Lexing

/-!
# How pieces of a text are spelled

What the lexer cuts off at some place is settled by shapes: that of literals
(`Readout.IsNumeral`), that of names (`Readout.IsIdent`), and the spellings of the marks. It takes
the longest spelling of a shape (`Readout.Longest`), and of a mark the longer one.

`Readout.Piece.Spelled` says so piece by piece, the bad literals included, without a word about how
a piece is looked for. It describes the lexer completely: wherever no gap stands, something is
spelled (`Readout.exists_spelled`), and what is spelled is what is cut off
(`Readout.Piece.Spelled.cut_eq`). So nothing else can be spelled there.
-/

namespace Readout

open Numeral

/-! ### Shapes -/

/-- **The shape of literals**: a hexadecimal mark and digits, of which there may be none, or decimal
digits. -/
inductive IsNumeral : List Char → Prop
  /-- A hexadecimal mark, and digits behind it or nothing. -/
  | hex {mark : Char} {digits : List Char} (hmark : isHexLetter mark = true)
    (hdigits : ∀ c ∈ digits, isDigitIn 16 c = true) : IsNumeral ('0' :: mark :: digits)
  /-- Decimal digits. -/
  | decimal {digits : List Char} (hne : digits ≠ [])
    (hdigits : ∀ c ∈ digits, isDigitIn 10 c = true) : IsNumeral digits

/-- **The shape of names.** -/
def IsIdent (cs : List Char) : Prop :=
  isIdentifier (String.ofList cs) = true

/-- **The longest spelling of a shape** in front of a rest: it has the shape, and with the character
behind it it would not. -/
structure Longest (shape : List Char → Prop) (spelling rest : List Char) : Prop where
  /-- It has the shape. -/
  fits : shape spelling
  /-- It does not go on. -/
  stops : ∀ c, rest.head? = some c → ¬shape (spelling ++ [c])

/-- A hexadecimal literal goes on with any digit. -/
theorem isNumeral_hex_append_iff {mark c : Char} {digits : List Char}
    (hmark : isHexLetter mark = true) (hdigits : ∀ d ∈ digits, isDigitIn 16 d = true) :
    IsNumeral ('0' :: mark :: digits ++ [c]) ↔ isDigitIn 16 c = true := by
  constructor
  · intro h
    generalize hcs : '0' :: mark :: digits ++ [c] = cs at h
    cases h with
    | hex _ hall =>
      simp only [List.cons_append, List.cons.injEq, true_and] at hcs
      exact hall c (by simp [← hcs.2])
    | decimal _ hall =>
      have hdigit := hall mark (by simp [← hcs])
      rw [isHexLetter_eq_false_of_isDigitIn hdigit] at hmark
      cases hmark
  · intro h
    exact .hex hmark (List.forall_mem_append.2 ⟨hdigits, List.forall_mem_singleton.2 h⟩)

/-- A decimal literal goes on with a decimal digit, and a zero with the letter of a hexadecimal
mark. -/
theorem isNumeral_decimal_append_iff {c : Char} {digits : List Char} (hne : digits ≠ [])
    (hdigits : ∀ d ∈ digits, isDigitIn 10 d = true) : IsNumeral (digits ++ [c]) ↔
      isDigitIn 10 c = true ∨ digits = ['0'] ∧ isHexLetter c = true := by
  constructor
  · intro h
    generalize hcs : digits ++ [c] = cs at h
    cases h with
    | hex hmark _ =>
      rcases digits with - | ⟨d, - | ⟨e, digits⟩⟩
      · exact absurd rfl hne
      · simp only [List.cons_append, List.nil_append, List.cons.injEq] at hcs
        obtain ⟨rfl, rfl, -⟩ := hcs
        exact .inr ⟨rfl, hmark⟩
      · -- the second digit would be the letter of the mark
        simp only [List.cons_append, List.cons.injEq] at hcs
        obtain ⟨-, rfl, -⟩ := hcs
        rw [isHexLetter_eq_false_of_isDigitIn (hdigits e (by simp))] at hmark
        cases hmark
    | decimal _ hall => exact .inl (hall c (by simp [← hcs]))
  · rintro (h | ⟨rfl, h⟩)
    · exact .decimal (by simp) (List.forall_mem_append.2 ⟨hdigits, List.forall_mem_singleton.2 h⟩)
    · exact .hex h (List.forall_mem_nil _)

/-- A literal goes on with a decimal digit. -/
theorem IsNumeral.append_digit {c : Char} {cs : List Char} (h : IsNumeral cs)
    (hc : isDigitIn 10 c = true) : IsNumeral (cs ++ [c]) := by
  cases h with
  | hex hmark hdigits =>
    have hc' : isDigitIn 16 c = true := by
      rw [isDigitIn_iff] at hc ⊢
      omega
    exact (isNumeral_hex_append_iff hmark hdigits).2 hc'
  | decimal hne hdigits => exact (isNumeral_decimal_append_iff hne hdigits).2 (.inl hc)

theorem isIdent_cons_iff {c : Char} {cs : List Char} : IsIdent (c :: cs) ↔
    isIdentifierStart c = true ∧ ∀ d ∈ cs, isIdentifierRest d = true := by
  rw [IsIdent, isIdentifier, String.toList_ofList, Bool.and_eq_true, List.all_eq_true]

/-! ### Spellings -/

/-- The marks, each of which has one spelling. -/
def Token.marks : List Token :=
  [.plus, .minus, .star, .lshift, .rshift, .scope, .lparen, .rparen]

/-- **A character that nothing else is spelled with**: it is no gap, and neither a literal nor a
name starts with it, and it is no mark. -/
structure IsUseless (c : Char) : Prop where
  /-- It is no gap. -/
  gap : isGap c = false
  /-- It is no literal. -/
  numeral : ¬IsNumeral [c]
  /-- It is no name. -/
  ident : ¬IsIdent [c]
  /-- It is no mark. -/
  mark : ∀ t ∈ Token.marks, t.text.toList ≠ [c]

/-- **How a piece is spelled** in front of a rest. -/
inductive Piece.Spelled : Piece → List Char → List Char → Prop
  /-- A literal that is a word. -/
  | int {spelling rest : List Char} {v : ℕ} (hliteral : Literal spelling v) (hlt : v < Word.count)
    (hlongest : Longest IsNumeral spelling rest) :
    Spelled (.token (.int (UInt64.ofNat v))) spelling rest
  /-- A literal above the greatest word. -/
  | outOfRange {spelling rest : List Char} {v : ℕ} (hliteral : Literal spelling v)
    (hge : Word.count ≤ v) (hlongest : Longest IsNumeral spelling rest) :
    Spelled (.outOfRange (String.ofList spelling)) spelling rest
  /-- A decimal literal with too many digits. -/
  | oversized {spelling rest : List Char} (hlong : IsOverlong spelling)
    (hlongest : Longest IsNumeral spelling rest) :
    Spelled (.oversized spelling.length) spelling rest
  /-- A hexadecimal mark without digits. -/
  | malformedHex {mark : Char} {rest : List Char} (hmark : isHexLetter mark = true)
    (hlongest : Longest IsNumeral ['0', mark] rest) : Spelled .malformedHex ['0', mark] rest
  /-- A name. -/
  | ident {name : String} {rest : List Char} (hlongest : Longest IsIdent name.toList rest) :
    Spelled (.token (.ident name)) name.toList rest
  /-- A mark. -/
  | mark {t : Token} {rest : List Char} (ht : t ∈ Token.marks) :
    Spelled (.token t) t.text.toList rest
  /-- A character without a use. If it is half of a mark, then the other half does not follow. -/
  | useless {c : Char} {rest : List Char} (huseless : IsUseless c)
    (hhalf : c = '<' ∨ c = '>' ∨ c = ':' → rest.head? ≠ some c) :
    Spelled (.token (.invalid c)) [c] rest

/-! ### What is spelled is cut off -/

section Cut

variable {p : Piece} {c mark : Char} {digits more spelling rest rest' : List Char}

/-- A literal without a hexadecimal mark is a run of decimal digits. -/
theorem cutLiteral_of_not_mark {cs : List Char}
    (h : ∀ x, cs.head? = some x → (c == '0' && isHexLetter x) = false) :
    cutLiteral c cs = (.decimal (c :: cs.takeWhile (Numeral.isDigitIn 10)),
      (cs.takeWhile (Numeral.isDigitIn 10)).length) := by
  cases cs with
  | nil => rfl
  | cons x cs => rw [cutLiteral, h x rfl, if_neg Bool.false_ne_true]

/-- A hexadecimal literal. -/
theorem cutLiteral_of_mark {x : Char} {cs : List Char} (h : (c == '0' && isHexLetter x) = true) :
    cutLiteral c (x :: cs) = (.hex [c, x] (cs.takeWhile (Numeral.isDigitIn 16)),
      (cs.takeWhile (Numeral.isDigitIn 16)).length + 1) := by
  rw [cutLiteral, if_pos h]

/-- The longest hexadecimal literal is cut off, -/
theorem cut_hex (hmark : isHexLetter mark = true) (hdigits : ∀ d ∈ digits, isDigitIn 16 d = true)
    (hlongest : Longest IsNumeral ('0' :: mark :: digits) rest) :
    cut '0' (mark :: digits ++ rest) = (.hex ['0', mark] digits, (mark :: digits).length) := by
  have hstops : ∀ d, rest.head? = some d → isDigitIn 16 d = false := fun d hd =>
    Bool.eq_false_iff.2 fun h =>
      hlongest.stops d hd ((isNumeral_hex_append_iff hmark hdigits).2 h)
  rw [cut, if_pos (by decide), List.cons_append,
    cutLiteral_of_mark (by rw [hmark]; rfl), takeWhile_append_of_head? hdigits hstops]
  rfl

/-- and so is the longest decimal one. -/
theorem cut_decimal (hdigits : ∀ d ∈ c :: digits, isDigitIn 10 d = true)
    (hlongest : Longest IsNumeral (c :: digits) rest) :
    cut c (digits ++ rest) = (.decimal (c :: digits), digits.length) := by
  have hgoes := fun d => isNumeral_decimal_append_iff (c := d) (List.cons_ne_nil c digits) hdigits
  obtain ⟨hc, htail⟩ := List.forall_mem_cons.1 hdigits
  have hstops : ∀ d, rest.head? = some d → isDigitIn 10 d = false := fun d hd =>
    Bool.eq_false_iff.2 fun h => hlongest.stops d hd ((hgoes d).2 (.inl h))
  have hmark : ∀ x, (digits ++ rest).head? = some x → (c == '0' && isHexLetter x) = false := by
    intro x hx
    rcases digits with - | ⟨d, digits⟩
    · rw [Bool.eq_false_iff, ne_eq, Bool.and_eq_true, beq_iff_eq]
      rintro ⟨rfl, hletter⟩
      exact hlongest.stops x hx ((hgoes x).2 (.inr ⟨rfl, hletter⟩))
    · obtain rfl : d = x := Option.some.inj hx
      rw [isHexLetter_eq_false_of_isDigitIn (htail d List.mem_cons_self), Bool.and_false]
  rw [cut, if_pos hc, cutLiteral_of_not_mark hmark, takeWhile_append_of_head? htail hstops]

/-- A literal is cut off as what its value makes of it. -/
theorem cut_literal {v : ℕ} (hliteral : Literal (c :: more) v)
    (hlongest : Longest IsNumeral (c :: more) rest) :
    cut c (more ++ rest) = (.literal (c :: more) v, more.length) := by
  generalize hcs : c :: more = cs at hliteral
  cases hliteral with
  | @hex mark digits hmark hne hdigits =>
    obtain ⟨rfl, rfl⟩ := List.cons.inj hcs
    rw [cut_hex hmark hdigits hlongest, Piece.hex, List.isEmpty_eq_false_iff.2 hne,
      if_neg Bool.false_ne_true]
    rfl
  | decimal hne hdigits hlength =>
    subst hcs
    rw [cut_decimal hdigits hlongest, Piece.decimal, if_pos hlength]

/-- The longest name is cut off. -/
theorem cut_ident (hlongest : Longest IsIdent (c :: more) rest) :
    cut c (more ++ rest) = (.token (.ident (String.ofList (c :: more))), more.length) := by
  obtain ⟨hstart, hmore⟩ := isIdent_cons_iff.1 hlongest.fits
  have hstops : ∀ d, rest.head? = some d → isIdentifierRest d = false := fun d hd =>
    Bool.eq_false_iff.2 fun h => hlongest.stops d hd (isIdent_cons_iff.2
      ⟨hstart, List.forall_mem_append.2 ⟨hmore, List.forall_mem_singleton.2 h⟩⟩)
  rw [cut, if_neg (not_isDigitIn_of_isIdentifierStart hstart), if_pos hstart,
    takeWhile_append_of_head? hmore hstops]

/-- A character that is no part of a word is cut off alone, unless it is half of a mark and the
other half follows. -/
theorem cut_single (hword : isIdentifierRest c = false)
    (hhalf : c = '<' ∨ c = '>' ∨ c = ':' → rest.head? ≠ some c) :
    cut c rest = (.token (singleToken c), 0) := by
  have hbind : rest.head?.bind (doubledToken? c) = none := by
    refine Option.bind_eq_none_iff.2 fun d hd => ?_
    by_contra hdoubled
    obtain ⟨t, ht⟩ := Option.ne_none_iff_exists'.1 hdoubled
    rcases doubledToken?_eq_some ht with ⟨rfl, rfl, -⟩ | ⟨rfl, rfl, -⟩ | ⟨rfl, rfl, -⟩
    · exact hhalf (.inl rfl) hd
    · exact hhalf (.inr (.inl rfl)) hd
    · exact hhalf (.inr (.inr rfl)) hd
  rw [cut_eq_cutMark hword, cutMark, hbind]

/-- Two characters that make a mark are cut off together. -/
theorem cut_doubled {d : Char} {t : Token} (h : doubledToken? c d = some t) :
    cut c (d :: rest) = (.token t, 1) := by
  have hword : isIdentifierRest c = false := by
    rcases doubledToken?_eq_some h with ⟨rfl, -⟩ | ⟨rfl, -⟩ | ⟨rfl, -⟩ <;> decide
  rw [cut_eq_cutMark hword, cutMark, List.head?_cons, Option.bind_some, h]

/-- A mark is one character, which is no half of another mark, or two, and there is no gap in it. -/
theorem Token.text_of_mem_marks {t : Token} (ht : t ∈ marks) :
    (∃ d, t.text.toList = [d, d] ∧ doubledToken? d d = some t ∧ isGap d = false) ∨
      ∃ d, t.text.toList = [d] ∧ singleToken d = t ∧ isGap d = false ∧
        Readout.isIdentifierRest d = false ∧ ¬(d = '<' ∨ d = '>' ∨ d = ':') := by
  simp only [marks, List.mem_cons, List.not_mem_nil, or_false] at ht
  rcases ht with rfl | rfl | rfl | rfl | rfl | rfl | rfl | rfl
  · exact .inr ⟨'+', by decide⟩
  · exact .inr ⟨'-', by decide⟩
  · exact .inr ⟨'*', by decide⟩
  · exact .inl ⟨'<', by decide⟩
  · exact .inl ⟨'>', by decide⟩
  · exact .inl ⟨':', by decide⟩
  · exact .inr ⟨'(', by decide⟩
  · exact .inr ⟨')', by decide⟩

/-- A mark is cut off. -/
theorem cut_mark {t : Token} (ht : t ∈ Token.marks) (h : c :: more = t.text.toList) :
    cut c (more ++ rest) = (.token t, more.length) := by
  rcases Token.text_of_mem_marks ht with
    ⟨d, htext, hdoubled, -⟩ | ⟨d, htext, rfl, -, hword, hhalf⟩
  · rw [htext] at h
    obtain ⟨rfl, rfl⟩ := List.cons.inj h
    exact cut_doubled hdoubled
  · rw [htext] at h
    obtain ⟨rfl, rfl⟩ := List.cons.inj h
    exact cut_single hword fun hc => absurd hc hhalf

/-- A character without a use is no part of a word, -/
theorem IsUseless.isIdentifierRest (h : IsUseless c) : isIdentifierRest c = false := by
  rw [Bool.eq_false_iff]
  intro hrest
  rcases isIdentifierStart_or_isDigitIn hrest with hstart | hdigit
  · exact h.ident (isIdent_cons_iff.2 ⟨hstart, List.forall_mem_nil _⟩)
  · exact h.numeral (.decimal (by simp) (List.forall_mem_singleton.2 hdigit))

/-- and is cut off as such. -/
theorem IsUseless.singleToken (h : IsUseless c) : singleToken c = .invalid c := by
  unfold Readout.singleToken
  split_ifs with hplus hminus hstar hopening hclosing
  · exact absurd (by rw [hplus]; decide) (h.mark .plus (by decide))
  · exact absurd (by rw [hminus]; decide) (h.mark .minus (by decide))
  · exact absurd (by rw [hstar]; decide) (h.mark .star (by decide))
  · exact absurd (by rw [hopening]; decide) (h.mark .lparen (by decide))
  · exact absurd (by rw [hclosing]; decide) (h.mark .rparen (by decide))
  · rfl

/-- **What is spelled is what is cut off.** -/
theorem Piece.Spelled.cut_eq (h : p.Spelled (c :: more) rest) :
    cut c (more ++ rest) = (p, more.length) := by
  generalize hcs : c :: more = spelling at h
  cases h with
  | int hliteral hlt hlongest =>
    subst hcs
    rw [cut_literal hliteral hlongest, literal, if_pos hlt]
  | outOfRange hliteral hge hlongest =>
    subst hcs
    rw [cut_literal hliteral hlongest, literal, if_neg (Nat.not_lt.2 hge)]
  | oversized hlong hlongest =>
    subst hcs
    rw [cut_decimal hlong.digit hlongest, decimal_eq_oversized_iff.2 ⟨hlong.long, rfl⟩]
  | malformedHex hmark hlongest =>
    obtain ⟨rfl, rfl⟩ := List.cons.inj hcs
    exact cut_hex hmark (List.forall_mem_nil _) hlongest
  | ident hlongest =>
    rw [← hcs] at hlongest
    rw [cut_ident hlongest, hcs, String.ofList_toList]
  | mark ht => exact cut_mark ht hcs
  | useless huseless hhalf =>
    obtain ⟨rfl, rfl⟩ := List.cons.inj hcs
    rw [List.nil_append, cut_single huseless.isIdentifierRest hhalf, huseless.singleToken]
    rfl

/-! ### Something is spelled everywhere -/

/-- What has the shape of a literal and does not go on is a piece. -/
theorem Longest.exists_spelled (h : Longest IsNumeral spelling rest) :
    ∃ p : Piece, p.Spelled spelling rest := by
  have hvalue : ∀ {v}, Literal spelling v → ∃ p : Piece, p.Spelled spelling rest := by
    intro v hliteral
    rcases Nat.lt_or_ge v Word.count with hlt | hge
    · exact ⟨_, .int hliteral hlt h⟩
    · exact ⟨_, .outOfRange hliteral hge h⟩
  cases h.fits with
  | @hex mark digits hmark hdigits =>
    rcases eq_or_ne digits [] with rfl | hne
    · exact ⟨_, .malformedHex hmark h⟩
    · exact hvalue (.hex hmark hne hdigits)
  | decimal hne hdigits =>
    rcases Nat.lt_or_ge maxDecimalDigits spelling.length with hlong | hlength
    · exact ⟨_, .oversized ⟨hdigits, hlong⟩ h⟩
    · exact hvalue (.decimal hne hdigits hlength)

/-- The longest run of a class at the start of a text. -/
theorem exists_longest_run (q : Char → Bool) (cs : List Char) : ∃ run rest, cs = run ++ rest ∧
    (∀ d ∈ run, q d = true) ∧ ∀ d, rest.head? = some d → q d = false := by
  refine ⟨cs.takeWhile q, cs.dropWhile q, List.takeWhile_append_dropWhile.symm,
    List.all_eq_true.1 List.all_takeWhile, fun d hd => ?_⟩
  have hnot := List.head?_dropWhile_not q cs
  rwa [hd] at hnot

/-- At a digit a literal is spelled. -/
theorem exists_longest_numeral (hc : isDigitIn 10 c = true) (cs : List Char) :
    ∃ more rest, cs = more ++ rest ∧ Longest IsNumeral (c :: more) rest := by
  by_cases hmark : c = '0' ∧ ∃ x tail, cs = x :: tail ∧ isHexLetter x = true
  · obtain ⟨rfl, x, tail, rfl, hx⟩ := hmark
    obtain ⟨digits, rest, rfl, hdigits, hstops⟩ := exists_longest_run (isDigitIn 16) tail
    refine ⟨x :: digits, rest, rfl, .hex hx hdigits, fun d hd => ?_⟩
    rw [isNumeral_hex_append_iff hx hdigits, hstops d hd]
    exact Bool.false_ne_true
  · obtain ⟨more, rest, rfl, hmore, hstops⟩ := exists_longest_run (isDigitIn 10) cs
    have hdigits : ∀ d ∈ c :: more, isDigitIn 10 d = true := List.forall_mem_cons.2 ⟨hc, hmore⟩
    refine ⟨more, rest, rfl, .decimal (List.cons_ne_nil c more) hdigits, fun d hd => ?_⟩
    rw [isNumeral_decimal_append_iff (List.cons_ne_nil c more) hdigits, hstops d hd]
    rintro (hdigit | ⟨hzero, hd'⟩)
    · cases hdigit
    · obtain ⟨rfl, rfl⟩ := List.cons.inj hzero
      obtain ⟨tail, rfl⟩ := List.head?_eq_some_iff.1 hd
      exact hmark ⟨rfl, d, tail, rfl, hd'⟩

/-- At the first character of a name, a name. -/
theorem exists_longest_ident (hc : isIdentifierStart c = true) (cs : List Char) :
    ∃ more rest, cs = more ++ rest ∧ Longest IsIdent (c :: more) rest := by
  obtain ⟨more, rest, rfl, hmore, hstops⟩ := exists_longest_run isIdentifierRest cs
  refine ⟨more, rest, rfl, isIdent_cons_iff.2 ⟨hc, hmore⟩, fun d hd hident => ?_⟩
  have hrest := (isIdent_cons_iff.1 hident).2 d (by simp)
  rw [hstops d hd] at hrest
  cases hrest

/-- Anywhere else a mark or a character without a use. -/
theorem exists_spelled_of_not_word (hgap : isGap c = false) (hword : isIdentifierRest c = false)
    (cs : List Char) : ∃ p more rest, cs = more ++ rest ∧ Piece.Spelled p (c :: more) rest := by
  by_cases hdouble : (c = '<' ∨ c = '>' ∨ c = ':') ∧ cs.head? = some c
  · obtain ⟨hc, hhead⟩ := hdouble
    obtain ⟨tail, rfl⟩ := List.head?_eq_some_iff.1 hhead
    rcases hc with rfl | rfl | rfl
    · exact ⟨_, ['<'], tail, rfl, Piece.Spelled.mark (t := .lshift) (by decide)⟩
    · exact ⟨_, ['>'], tail, rfl, Piece.Spelled.mark (t := .rshift) (by decide)⟩
    · exact ⟨_, [':'], tail, rfl, Piece.Spelled.mark (t := .scope) (by decide)⟩
  · by_cases hmark : ∃ t ∈ Token.marks, t.text.toList = [c]
    · obtain ⟨t, ht, hc⟩ := hmark
      have hspelled : (Piece.token t).Spelled t.text.toList cs := .mark ht
      rw [hc] at hspelled
      exact ⟨_, [], cs, rfl, hspelled⟩
    · have hnumeral : ¬IsNumeral [c] := by
        intro h
        generalize hcs : [c] = spelling at h
        cases h with
        | hex => cases hcs
        | decimal _ hdigits =>
          have hdigit := isIdentifierRest_of_isDigitIn (hdigits c (by simp [← hcs]))
          rw [hword] at hdigit
          cases hdigit
      have hident : ¬IsIdent [c] := by
        intro h
        have hrest := isIdentifierRest_iff.2 (.inl (isIdent_cons_iff.1 h).1)
        rw [hword] at hrest
        cases hrest
      exact ⟨_, [], cs, rfl, .useless ⟨hgap, hnumeral, hident, fun t ht h => hmark ⟨t, ht, h⟩⟩
        fun hc hhead => hdouble ⟨hc, hhead⟩⟩

/-- **Wherever no gap stands, something is spelled.** -/
theorem exists_spelled (hgap : isGap c = false) (cs : List Char) :
    ∃ p more rest, cs = more ++ rest ∧ Piece.Spelled p (c :: more) rest := by
  cases hdigit : isDigitIn 10 c with
  | true =>
    obtain ⟨more, rest, hcs, hlongest⟩ := exists_longest_numeral hdigit cs
    obtain ⟨p, hp⟩ := hlongest.exists_spelled
    exact ⟨p, more, rest, hcs, hp⟩
  | false =>
    cases hstart : isIdentifierStart c with
    | true =>
      obtain ⟨more, rest, hcs, hlongest⟩ := exists_longest_ident hstart cs
      have hident : (Piece.token (.ident (String.ofList (c :: more)))).Spelled
          (String.ofList (c :: more)).toList rest := .ident (by rwa [String.toList_ofList])
      rw [String.toList_ofList] at hident
      exact ⟨_, more, rest, hcs, hident⟩
    | false =>
      refine exists_spelled_of_not_word hgap ?_ cs
      rw [Bool.eq_false_iff]
      intro hrest
      rcases isIdentifierStart_or_isDigitIn hrest with h | h
      · rw [hstart] at h
        cases h
      · rw [hdigit] at h
        cases h

/-- **What is cut off is spelled there.** -/
theorem exists_spelled_of_cut {cs : List Char} {n : ℕ} (hgap : isGap c = false)
    (h : cut c cs = (p, n)) :
    ∃ more rest, cs = more ++ rest ∧ n = more.length ∧ p.Spelled (c :: more) rest := by
  obtain ⟨p', more, rest, rfl, hspelled⟩ := exists_spelled hgap cs
  obtain ⟨rfl, rfl⟩ := Prod.mk.inj (h.symm.trans hspelled.cut_eq)
  exact ⟨more, rest, rfl, rfl, hspelled⟩

/-! ### What a spelling has to do with its rest -/

/-- **A rest that begins like another one**, or with a gap, or not at all. -/
def BeginsLike (rest' rest : List Char) : Prop :=
  ∀ c, rest'.head? = some c → rest.head? = some c ∨ isGap c = true

/-- A literal is made of characters of words, -/
theorem IsNumeral.isIdentifierRest {cs : List Char} (h : IsNumeral cs) :
    ∀ d ∈ cs, isIdentifierRest d = true := by
  cases h with
  | hex hmark hdigits =>
    refine List.forall_mem_cons.2 ⟨by decide, List.forall_mem_cons.2 ⟨?_, fun d hd =>
      isIdentifierRest_of_isDigitIn (hdigits d hd)⟩⟩
    rcases isHexLetter_iff.1 hmark with rfl | rfl <;> decide
  | decimal hne hdigits => exact fun d hd => isIdentifierRest_of_isDigitIn (hdigits d hd)

/-- and so is a name. -/
theorem IsIdent.isIdentifierRest {cs : List Char} (h : IsIdent cs) :
    ∀ d ∈ cs, isIdentifierRest d = true := by
  have hrest := isIdentifierRest_of_isIdentifier h
  rwa [String.toList_ofList] at hrest

theorem Longest.of_beginsLike {shape : List Char → Prop}
    (hshape : ∀ cs, shape cs → ∀ d ∈ cs, isIdentifierRest d = true)
    (h : Longest shape spelling rest) (hrest : BeginsLike rest' rest) :
    Longest shape spelling rest' := by
  refine ⟨h.fits, fun d hd hgoes => ?_⟩
  rcases hrest d hd with hhead | hgap
  · exact h.stops d hhead hgoes
  · -- a gap goes on with nothing
    rw [isGap_eq_false (hshape _ hgoes d (by simp))] at hgap
    cases hgap

namespace Piece.Spelled

/-- **A piece is spelled the same in front of a gap**, and in front of anything that begins like
what was there. -/
theorem of_beginsLike (h : p.Spelled spelling rest) (hrest : BeginsLike rest' rest) :
    p.Spelled spelling rest' := by
  have hnumeral : ∀ {cs}, Longest IsNumeral cs rest → Longest IsNumeral cs rest' := fun h =>
    h.of_beginsLike (fun _ => IsNumeral.isIdentifierRest) hrest
  cases h with
  | int hliteral hlt hlongest => exact .int hliteral hlt (hnumeral hlongest)
  | outOfRange hliteral hge hlongest => exact .outOfRange hliteral hge (hnumeral hlongest)
  | oversized hlong hlongest => exact .oversized hlong (hnumeral hlongest)
  | malformedHex hmark hlongest => exact .malformedHex hmark (hnumeral hlongest)
  | ident hlongest =>
    exact .ident (hlongest.of_beginsLike (fun _ => IsIdent.isIdentifierRest) hrest)
  | mark ht => exact .mark ht
  | @useless c _ huseless hhalf =>
    refine .useless huseless fun hc hhead => ?_
    rcases hrest c hhead with hhead | hgap
    · exact hhalf hc hhead
    · rw [huseless.gap] at hgap
      cases hgap

/-- A spelling is not empty, and starts with no gap. -/
theorem exists_cons (h : p.Spelled spelling rest) :
    ∃ c more, spelling = c :: more ∧ isGap c = false := by
  have hword : ∀ {cs : List Char}, cs ≠ [] → (∀ d ∈ cs, isIdentifierRest d = true) →
      ∃ c more, cs = c :: more ∧ isGap c = false := by
    intro cs hne hrest
    obtain ⟨c, more, rfl⟩ := List.exists_cons_of_ne_nil hne
    exact ⟨c, more, rfl, isGap_eq_false (hrest c List.mem_cons_self)⟩
  have hnumeral : ∀ {cs : List Char}, IsNumeral cs →
      ∃ c more, cs = c :: more ∧ isGap c = false := by
    intro cs h
    refine hword ?_ h.isIdentifierRest
    cases h with
    | hex => exact List.cons_ne_nil _ _
    | decimal hne => exact hne
  cases h with
  | int hliteral hlt hlongest => exact hnumeral hlongest.fits
  | outOfRange hliteral hge hlongest => exact hnumeral hlongest.fits
  | oversized hlong hlongest => exact hnumeral hlongest.fits
  | malformedHex hmark hlongest => exact hnumeral hlongest.fits
  | ident hlongest =>
    refine hword ?_ hlongest.fits.isIdentifierRest
    intro hnil
    have hfits := hlongest.fits
    rw [hnil, IsIdent, isIdentifier, String.toList_ofList] at hfits
    cases hfits
  | mark ht =>
    rcases Token.text_of_mem_marks ht with ⟨d, htext, -, hgap⟩ | ⟨d, htext, -, hgap, -⟩
    · exact ⟨d, [d], htext, hgap⟩
    · exact ⟨d, [], htext, hgap⟩
  | useless huseless hhalf => exact ⟨_, [], rfl, huseless.gap⟩

/-- The end is no piece. -/
theorem ne_eof {t : Token} (h : (token t).Spelled spelling rest) : t ≠ .eof := by
  rintro rfl
  generalize hp : token .eof = p at h
  cases h with
  | mark ht =>
    cases hp
    exact absurd ht (by decide)
  | _ => cases hp

end Piece.Spelled

end Cut

end Readout
