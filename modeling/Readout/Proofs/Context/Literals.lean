import Readout.Proofs.Context.Names
import Readout.Proofs.Token.Literals

/-!
# No text is two numbers

Expressions and the values of contexts and assignments have literals of their own, and the two
grammars overlap only in part. They never disagree about a number, though
(`Readout.literals_agree`).

* A text that is both a value and an expression is, up to gaps, a sign perhaps and a word that
  starts with a digit, since that is the shape of values. The lexer cuts the word into a literal and
  nothing else, since a name cannot follow a literal in an expression, and as a literal it has the
  same value in both (`Readout.eval_of_toWord`). A minus sign makes the one a negative number and
  the other a word, so values admit it before zero alone.
* Conversely, a text that is a single literal to the lexer is a value, and the same one, unless it
  has superfluous zeros (`Readout.toWord_of_tokenize`).
-/

namespace Readout

open Numeral Text

/-! ### Words from numbers -/

theorem Word.wrap_natCast {v : ℕ} (h : v < count) : wrap v = UInt64.ofNat v := by
  have hmod : ((v : ℤ) % (count : ℕ)).toNat = v := by
    rw [← Int.natCast_mod, Int.toNat_natCast, Nat.mod_eq_of_lt h]
  rw [wrap, hmod]

theorem Word.fits_iff {n : ℤ} : fits n = true ↔ 0 ≤ n ∧ n < count := by
  rw [fits, Bool.and_eq_true, decide_eq_true_eq, decide_eq_true_eq]

/-- **The word of a text** is that of the integer it spells. -/
theorem Value.toWord_text_eq_ok_iff {text : String} {w : Word} :
    (Value.text text).toWord = .ok w ↔
      ∃ n, readInteger? (trim text) = some n ∧ Word.fits n = true ∧ w = Word.wrap n := by
  rw [toWord, toInt]
  cases readInteger? (trim text) with
  | none => exact iff_of_false (by rintro ⟨⟩) (by simp)
  | some n =>
    change (if Word.fits n then Except.ok (Word.wrap n) else _) = _ ↔ _
    split
    · rename_i hfits
      rw [Except.ok.injEq]
      exact ⟨fun h => ⟨n, rfl, hfits, h.symm⟩, fun ⟨_, hn, _, h⟩ => by cases hn; exact h.symm⟩
    · rename_i hfits
      exact iff_of_false (by rintro ⟨⟩) fun ⟨_, hn, h, _⟩ => by cases hn; exact hfits h

/-! ### Values that are expressions -/

/-- **Signs and a number that can be a value**, with gaps around them, are an expression only if the
number is a literal with the same value. -/
theorem phrase_of_parse {text : String} {before sign word after : List Char} {signs : List Token}
    {k : ℕ} {e : Expr} (hsplit : text.toList = before ++ (sign ++ word) ++ after)
    (hbefore : ∀ c ∈ before, isGap c = true) (hafter : ∀ c ∈ after, isGap c = true)
    (hsign : ∀ {rest}, CutInto sign signs rest) (hword : readNatural? word = some k)
    (hparse : parse text = .ok e) :
    k < Word.count ∧ Phrase 0 (signs ++ [.int (UInt64.ofNat k)]) e := by
  have hspells := Feed.parse_eq_ok_iff.1 hparse
  obtain ⟨last, hending⟩ := hspells.proper rfl
  have hphrase := hspells.phrase
  have hstart : ∀ {rest}, CutInto (before ++ sign) signs rest := (CutInto.gaps hbefore).append hsign
  have hends : Ends after := by
    intro c hc
    rw [Bool.eq_false_iff]
    intro hrest
    have hgap := hafter c (List.mem_of_mem_head? hc)
    rw [isGap_eq_false hrest] at hgap
    cases hgap
  rw [Cursor.start, hsplit, ← List.append_assoc, List.append_assoc] at hending hphrase
  obtain ⟨ls, rfl, hfeed⟩ := (hstart : CutInto (before ++ sign) signs (word ++ after)) 0
  rw [hfeed] at hending hphrase
  rw [Feed.after, List.map_append] at hphrase
  rcases Cursor.feed_of_isNumberWord (isNumberWord_of_readNatural? hword) hends hending with
    ⟨v, hliteral, hlt, hcut⟩ | ⟨w, name, ts, htokens⟩
  · have hall : CutInto (word ++ after) ([.int (UInt64.ofNat v)] ++ []) [] :=
      CutInto.append (by rwa [List.append_nil]) (CutInto.gaps hafter)
    rw [hall.tokens, List.append_nil] at hphrase
    obtain rfl := hliteral.eq_of_readNatural? hword
    exact ⟨hlt, hphrase⟩
  · rw [htokens] at hphrase
    exact absurd rfl
      ((List.isChain_cons_cons.1 hphrase.isChain.right_of_append).1 w name rfl)

/-- **A text that is a value and an expression is the same number**, whatever names stand for. -/
theorem eval_of_toWord {text : String} {w : Word} {e : Expr}
    (hvalue : (Value.text text).toWord = .ok w) (hparse : parse text = .ok e) (env : Env) :
    (e.eval env).outcome = .ok w := by
  obtain ⟨n, hread, hfits, rfl⟩ := Value.toWord_text_eq_ok_iff.1 hvalue
  -- as an expression the text is within ASCII, and its blanks are gaps
  have hspells := Feed.parse_eq_ok_iff.1 hparse
  obtain ⟨last, hending⟩ := hspells.proper rfl
  have hchars : ∀ c ∈ text.toList, c.toNat < 0x7F ∧ (isBlank c = true → isGap c = true) :=
    Cursor.forall_of_feed hending hspells.phrase.invalid_not_mem
  obtain ⟨before, body, after, hsplit, hbefore, hafter, hbody⟩ :=
    exists_of_readInteger? (fun c hc => (hchars c hc).1) hread
  have hbefore' : ∀ c ∈ before, isGap c = true := fun c hc =>
    (hchars c (by rw [hsplit]; simp [hc])).2 (hbefore c hc)
  have hafter' : ∀ c ∈ after, isGap c = true := fun c hc =>
    (hchars c (by rw [hsplit]; simp [hc])).2 (hafter c hc)
  have hconst : ∀ v, Phrase 3 [.int v] (.atom (.const v)) := fun v =>
    (Phrase.atom (.const v)).loosen (by decide) (by decide)
  obtain ⟨word, k, hword, ⟨rfl, rfl⟩ | ⟨rfl, rfl⟩ | ⟨rfl, rfl⟩⟩ := exists_of_readSigned? hbody
  · obtain ⟨hlt, hphrase⟩ := phrase_of_parse
      (show text.toList = before ++ ([] ++ body) ++ after from hsplit) hbefore' hafter'
      CutInto.nil hword hparse
    obtain rfl := hphrase.unique ((hconst _).loosen (by decide) (by decide))
    rw [Expr.eval_atom, Word.wrap_natCast hlt]
    rfl
  · obtain ⟨hlt, hphrase⟩ := phrase_of_parse
      (show text.toList = before ++ (['+'] ++ word) ++ after from hsplit) hbefore' hafter'
      (CutInto.single (by decide) (by decide) (by decide)) hword hparse
    obtain rfl := hphrase.unique ((Phrase.plus (hconst _)).loosen (by decide) (by decide))
    rw [Expr.eval_atom, Word.wrap_natCast hlt]
    rfl
  · obtain ⟨hlt, hphrase⟩ := phrase_of_parse
      (show text.toList = before ++ (['-'] ++ word) ++ after from hsplit) hbefore' hafter'
      (CutInto.single (by decide) (by decide) (by decide)) hword hparse
    obtain rfl := hphrase.unique ((Phrase.minus (hconst _)).loosen (by decide) (by decide))
    -- only zero is negated to a word
    obtain rfl : k = 0 := by
      have hpos := (Word.fits_iff.1 hfits).1
      omega
    rw [Expr.eval, Expr.evalWithin_eq_meaning env (show _ < maxOperandDepth by decide)]
    rfl

/-! ### Literals that are values -/

/-- **A single literal as a value.** Values take it for the same number, unless it has superfluous
zeros. -/
theorem toWord_of_tokenize {text : String} {w : Word} {start stop : ℕ}
    (h : tokenize text = .ok [⟨.int w, start⟩, ⟨.eof, stop⟩]) : (Value.text text).toWord =
      if HasSuperfluousZeros (trimBoth isGap text.toList) then .error (.notALiteral text)
      else .ok w := by
  have hfeed : (Cursor.start text).feed = ⟨[⟨.int w, start⟩], .ok stop⟩ := tokenize_eq_ok_iff.1 h
  obtain ⟨before, literal, after, v, hsplit, hbefore, hafter, hliteral, hlt, rfl⟩ :=
    Cursor.exists_literal_of_feed hfeed
  have hword := hliteral.isNumberWord
  have htrim : trimBoth isGap text.toList = literal := by
    rw [hsplit]
    exact trimBoth_append hbefore (fun c hc => isGap_eq_false (hword.2 c hc)) hafter
  have hread := readInteger?_of_isNumberWord hsplit (fun c hc => isBlank_of_isGap (hbefore c hc))
    hword fun c hc => isBlank_of_isGap (hafter c hc)
  rw [htrim]
  split
  · rename_i hzeros
    rw [hzeros.readNatural?_eq_none, Option.map_none] at hread
    rw [Value.toWord, Value.toInt, hread]
    rfl
  · rename_i hzeros
    rw [hliteral.readNatural?_eq hzeros, Option.map_some] at hread
    exact Value.toWord_text_eq_ok_iff.2 ⟨_, hread,
      Word.fits_iff.2 ⟨Int.natCast_nonneg v, Int.ofNat_lt.2 hlt⟩, (Word.wrap_natCast hlt).symm⟩

/-- What comes of a context with one register. -/
theorem ofValues_singleton {name : String} (hname : isIdentifier name = true) (v : Value) :
    Bindings.ofValues (some (.table ⟨[(name, v)]⟩)) none =
      match v.toWord with
      | .ok w => .ok ⟨⟨[(name, w)]⟩, .empty⟩
      | .error fault => .error [⟨"registers", .entry fault⟩] := by
  have hentries : readEntries [(name, v)] = v.toWord.map fun w => [(name, w)] := by
    rw [readEntries, readEntry, if_pos hname, readEntries]
    cases v.toWord <;> rfl
  simp only [Bindings.ofValues, readField, Value.toWords, hentries]
  cases v.toWord <;> rfl

/-- **Expressions and values never read a text as different numbers.** Take any text.

* If it is the value of an assignment and also an expression, then the expression has that value,
  whatever names stand for, and also if no name stands for anything.
* If it is a single literal to the lexer, then assignments and tables take it for the same number.
  Only if the literal has superfluous zeros, both of them refuse it. -/
theorem literals_agree {name : String} (hname : isIdentifier name = true) (text : String) :
    (∀ a e, Assignment.parse (name ++ "=" ++ text) = .ok a → parse text = .ok e →
      ∀ env, (e.eval env).outcome = .ok a.value) ∧
    ∀ w start stop, tokenize text = .ok [⟨.int w, start⟩, ⟨.eof, stop⟩] →
      (¬HasSuperfluousZeros (trimBoth isGap text.toList) →
        Assignment.parse (name ++ "=" ++ text) = .ok ⟨name, w⟩ ∧
        Bindings.ofValues (some (.table ⟨[(name, .text text)]⟩)) none =
          .ok ⟨⟨[(name, w)]⟩, .empty⟩) ∧
      (HasSuperfluousZeros (trimBoth isGap text.toList) →
        Assignment.parse (name ++ "=" ++ text) = .error (.badValue name (.notALiteral text)) ∧
        Bindings.ofValues (some (.table ⟨[(name, .text text)]⟩)) none =
          .error [⟨"registers", .entry (.notALiteral text)⟩]) := by
  rw [Assignment.parse_of_isIdentifier hname, ofValues_singleton hname]
  refine ⟨fun a e hassign hparse env => ?_, fun w start stop h => ?_⟩
  · cases hvalue : (Value.text text).toWord with
    | error fault =>
      rw [hvalue] at hassign
      cases hassign
    | ok w =>
      rw [hvalue] at hassign
      cases hassign
      exact eval_of_toWord hvalue hparse env
  · rw [toWord_of_tokenize h]
    refine ⟨fun hzeros => ?_, fun hzeros => ?_⟩
    · rw [if_neg hzeros]
      exact ⟨rfl, rfl⟩
    · rw [if_pos hzeros]
      exact ⟨rfl, rfl⟩

/-- Zero with a minus sign is a word, a hexadecimal mark may have either letter, and seven is not
written with zeros before it. -/
theorem literals_agree_of_spellings :
    isIdentifier "x" = true ∧
      (∃ e, parse "-0" = .ok e ∧ ∀ env, (e.eval env).outcome = .ok 0) ∧
      Assignment.parse "x= 0X1f\n" = .ok ⟨"x", 31⟩ ∧
      Assignment.parse "x=007" = .error (.badValue "x" (.notALiteral "007")) ∧
      Bindings.ofValues (some (.table ⟨[("x", .text "007")]⟩)) none =
        .error [⟨"registers", .entry (.notALiteral "007")⟩] := by
  have hname : isIdentifier "x" = true := by decide
  have hassign : Assignment.parse "x=-0" = .ok ⟨"x", 0⟩ := by decide +kernel
  have hparse : parse "-0" = .ok (.neg (.atom (.const 0))) := by decide +kernel
  have hhex : tokenize " 0X1f\n" = .ok [⟨.int 31, 1⟩, ⟨.eof, 6⟩] := by decide +kernel
  have hseven : tokenize "007" = .ok [⟨.int 7, 0⟩, ⟨.eof, 3⟩] := by decide +kernel
  have hgood := ((literals_agree hname " 0X1f\n").2 _ _ _ hhex).1 (by decide +kernel)
  have hbad := ((literals_agree hname "007").2 _ _ _ hseven).2 (by decide +kernel)
  exact ⟨hname, ⟨_, hparse, (literals_agree hname "-0").1 _ _ hassign hparse⟩, hgood.1, hbad⟩

end Readout
