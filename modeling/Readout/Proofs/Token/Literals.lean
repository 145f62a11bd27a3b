import Readout.Proofs.Token.Spelling

/-!
# Literals among tokens

Where the lexer finds a digit it cuts off as long a literal as it can
(`Readout.exists_literal_of_cut`), and looks no further. A word that starts with a digit is
therefore cut in one of two ways (`Readout.Cursor.feed_of_isNumberWord`): it is a literal from its
first character to its last, or the literal is followed by a name at once. No phrase of the grammar
has a name right after a literal (`Readout.Phrase.isChain`), so of the words that start with a
digit only literals can be part of an expression.

Expressions are written in few characters (`Readout.Cursor.forall_of_feed`). A text that is a single
literal to the lexer has nothing but gaps around it (`Readout.Cursor.exists_literal_of_feed`).
-/

namespace Readout

open Numeral

/-! ### The longest literal -/

/-- **A literal that is cut off** goes on with no digit. -/
theorem exists_literal_of_cut {c : Char} {cs : List Char} {w : Word} {n : ℕ}
    (hgap : isGap c = false) (h : cut c cs = (.token (.int w), n)) : ∃ more rest v,
      cs = more ++ rest ∧ n = more.length ∧ Literal (c :: more) v ∧ v < Word.count ∧
        w = UInt64.ofNat v ∧ ∀ d, rest.head? = some d → isDigitIn 10 d = false := by
  obtain ⟨more, rest, hcs, hn, hspelled⟩ := exists_spelled_of_cut hgap h
  generalize hspelling : c :: more = spelling at hspelled
  cases hspelled with
  | @int _ _ v hliteral hlt hlongest =>
    subst hspelling
    exact ⟨more, rest, v, hcs, hn, hliteral, hlt, rfl, fun d hd => Bool.eq_false_iff.2 fun hdigit =>
      hlongest.stops d hd (hlongest.fits.append_digit hdigit)⟩
  | mark ht => simp [Token.marks] at ht

/-- At any other character of words a name is cut off. -/
theorem exists_ident_of_cut {c : Char} (h : isIdentifierRest c = true)
    (hdigit : isDigitIn 10 c = false) (cs : List Char) :
    ∃ name n, cut c cs = (.token (.ident name), n) := by
  have hstart : isIdentifierStart c = true :=
    (isIdentifierStart_or_isDigitIn h).resolve_right (by rw [hdigit]; decide)
  rw [cut, hdigit, if_neg Bool.false_ne_true, if_pos hstart]
  exact ⟨_, _, rfl⟩

/-! ### Texts that are a single literal -/

/-- The first lexeme of a text, and the others. -/
theorem Feed.after_singleton_eq_iff {l l' : Lexeme} {ls : List Lexeme} {f : Feed}
    {ending : Except ReadError ℕ} :
    f.after [l] = ⟨l' :: ls, ending⟩ ↔ l = l' ∧ f = ⟨ls, ending⟩ := by
  obtain ⟨ls', ending'⟩ := f
  simp [Feed.after, and_assoc]

namespace Cursor

/-- A text without tokens is a gap. -/
theorem isGap_of_feed {pos last : ℕ} {cs : List Char} (h : feed ⟨pos, cs⟩ = ⟨[], .ok last⟩) :
    ∀ c ∈ cs, isGap c = true := by
  induction pos, cs using feed_induction with
  | nil pos => exact List.forall_mem_nil _
  | gap pos c cs hgap ih =>
    rw [feed_gap hgap] at h
    exact List.forall_mem_cons.2 ⟨hgap, ih h⟩
  | token pos c cs t n hgap hcut ih =>
    rw [feed_cons hgap, hcut] at h
    cases congrArg Feed.lexemes h
  | bad pos c cs hgap hbad =>
    obtain ⟨err, herr, -⟩ := exists_feed_bad hgap hbad pos
    rw [herr] at h
    cases h

/-- **A text that is a single literal to the lexer** has nothing but gaps around that. -/
theorem exists_literal_of_feed {pos start last : ℕ} {cs : List Char} {w : Word}
    (h : feed ⟨pos, cs⟩ = ⟨[⟨.int w, start⟩], .ok last⟩) : ∃ before literal after v,
      cs = before ++ literal ++ after ∧ (∀ c ∈ before, isGap c = true) ∧
        (∀ c ∈ after, isGap c = true) ∧ Literal literal v ∧ v < Word.count ∧
          w = UInt64.ofNat v := by
  induction pos, cs using feed_induction with
  | nil pos =>
    rw [feed_nil] at h
    cases h
  | gap pos c cs hgap ih =>
    rw [feed_gap hgap] at h
    obtain ⟨before, literal, after, v, rfl, hbefore, hrest⟩ := ih h
    exact ⟨c :: before, literal, after, v, rfl, List.forall_mem_cons.2 ⟨hgap, hbefore⟩, hrest⟩
  | token pos c cs t n hgap hcut ih =>
    rw [feed_cons hgap, hcut] at h
    obtain ⟨hlexeme, hrest⟩ := Feed.after_singleton_eq_iff.1 h
    obtain rfl : t = .int w := congrArg Lexeme.token hlexeme
    obtain ⟨more, rest, v, rfl, rfl, hliteral, hlt, hw, -⟩ := exists_literal_of_cut hgap hcut
    rw [List.drop_left] at hrest
    exact ⟨[], c :: more, rest, v, rfl, List.forall_mem_nil _, isGap_of_feed hrest, hliteral, hlt,
      hw⟩
  | bad pos c cs hgap hbad =>
    obtain ⟨err, herr, -⟩ := exists_feed_bad hgap hbad pos
    rw [herr] at h
    cases h

/-! ### Words that start with a digit -/

/-- **A word that starts with a digit** is one literal, or a name follows the literal that it starts
with. -/
theorem feed_of_isNumberWord {cs rest : List Char} (h : IsNumberWord cs) (hrest : Ends rest)
    {pos last : ℕ} (hending : (feed ⟨pos, cs ++ rest⟩).ending = .ok last) :
    (∃ v, Literal cs v ∧ v < Word.count ∧ CutInto cs [.int (UInt64.ofNat v)] rest) ∨
      ∃ w name ts, (feed ⟨pos, cs ++ rest⟩).lexemes.map Lexeme.token =
        .int w :: .ident name :: ts := by
  obtain ⟨⟨c, cs, rfl, hc⟩, hword⟩ := h
  have hgap : isGap c = false := isGap_eq_false (isIdentifierRest_of_isDigitIn hc)
  by_cases hbad : ∀ t, (cut c (cs ++ rest)).1 ≠ .token t
  · obtain ⟨err, herr, -⟩ := exists_feed_bad hgap hbad pos
    rw [List.cons_append, herr] at hending
    cases hending
  obtain ⟨t, ht⟩ := not_forall_not.1 hbad
  obtain ⟨n, hcut⟩ : ∃ n, cut c (cs ++ rest) = (.token t, n) := ⟨_, by rw [← ht]⟩
  obtain ⟨w, rfl⟩ : ∃ w, t = .int w := cutLiteral_eq_token (by rwa [cut, if_pos hc] at hcut)
  obtain ⟨more, others, v, hsplit, rfl, hliteral, hlt, rfl, hdigit⟩ :=
    exists_literal_of_cut hgap hcut
  -- the literal does not go on after the word
  obtain ⟨tail, rfl, rfl⟩ : ∃ tail, cs = more ++ tail ∧ others = tail ++ rest := by
    obtain ⟨beyond, rfl, rfl⟩ | htail := List.append_eq_append_iff.1 hsplit
    · rcases beyond with - | ⟨d, beyond⟩
      · exact ⟨[], by simp, by simp⟩
      · have hd := hliteral.isNumberWord.2 d
          (List.mem_cons_of_mem c (List.mem_append_right cs List.mem_cons_self))
        rw [hrest d rfl] at hd
        cases hd
    · exact htail
  rcases tail with - | ⟨d, tail⟩
  · rw [List.append_nil] at hcut ⊢
    exact .inl ⟨v, hliteral, hlt, .of_cut hgap hcut⟩
  · have hd : isIdentifierRest d = true :=
      hword d (List.mem_cons_of_mem c (List.mem_append_right _ List.mem_cons_self))
    obtain ⟨name, k, hname⟩ := exists_ident_of_cut hd (hdigit d rfl) (tail ++ rest)
    have htokens : ∃ ts, (feed ⟨pos, c :: (more ++ d :: tail) ++ rest⟩).lexemes.map Lexeme.token =
        .int (UInt64.ofNat v) :: .ident name :: ts := by
      rw [List.cons_append, feed_cons hgap, hcut]
      dsimp only
      rw [List.append_assoc, List.drop_left, List.cons_append, feed_cons (isGap_eq_false hd), hname]
      exact ⟨_, rfl⟩
    exact .inr ⟨_, name, htokens⟩

end Cursor

/-! ### The characters of expressions -/

/-- The characters that are cut off are no blanks, unless they are of no use. -/
theorem forall_of_cut {c : Char} {cs : List Char} {t : Token} {n : ℕ}
    (h : cut c cs = (.token t, n)) (ht : ∀ d, t ≠ .invalid d) :
    ∀ d ∈ c :: cs.take n, d.toNat < 0x7F ∧ (Text.isBlank d = true → isGap d = true) := by
  rcases cut_token_cases h with ⟨-, hword⟩ | hmark
  · intro d hd
    have hcode := toNat_of_isIdentifierRest (hword d hd)
    refine ⟨by omega, fun hblank => ?_⟩
    rw [Text.isBlank_of_isIdentifierRest (hword d hd)] at hblank
    cases hblank
  · rcases cutMark_cases hmark with ⟨⟨d, hd, hdt⟩, rfl⟩ | ⟨hsingle, rfl⟩
    · obtain ⟨cs', rfl⟩ := List.head?_eq_some_iff.1 hd
      rcases doubledToken?_eq_some hdt with ⟨rfl, rfl, -⟩ | ⟨rfl, rfl, -⟩ | ⟨rfl, rfl, -⟩
      all_goals exact List.forall_mem_cons.2 ⟨by decide, List.forall_mem_singleton.2 (by decide)⟩
    · rw [List.take_zero, List.forall_mem_singleton]
      unfold singleToken at hsingle
      split_ifs at hsingle with hplus hminus hstar hopening hclosing
      · exact hplus ▸ by decide
      · exact hminus ▸ by decide
      · exact hstar ▸ by decide
      · exact hopening ▸ by decide
      · exact hclosing ▸ by decide
      · exact absurd hsingle.symm (ht c)

namespace Cursor

/-- **Expressions are written in few characters**: all of them are ASCII, and those that are blank
are gaps. Other characters are tokens of their own. -/
theorem forall_of_feed {pos last : ℕ} {cs : List Char} (h : (feed ⟨pos, cs⟩).ending = .ok last)
    (hvalid : ∀ c, .invalid c ∉ (feed ⟨pos, cs⟩).lexemes.map Lexeme.token) :
    ∀ c ∈ cs, c.toNat < 0x7F ∧ (Text.isBlank c = true → isGap c = true) := by
  induction pos, cs using feed_induction with
  | nil pos => exact List.forall_mem_nil _
  | gap pos c cs hgap ih =>
    rw [feed_gap hgap] at h hvalid
    refine List.forall_mem_cons.2 ⟨⟨?_, fun _ => hgap⟩, ih h hvalid⟩
    rcases isGap_iff.1 hgap with rfl | rfl | rfl <;> decide
  | token pos c cs t n hgap hcut ih =>
    rw [feed_cons hgap, hcut] at h hvalid
    simp only [Feed.after, List.singleton_append, List.map_cons, List.mem_cons, not_or] at hvalid
    have hrest := ih h fun d => (hvalid d).2
    have hpiece := forall_of_cut hcut fun d => Ne.symm (hvalid d).1
    rw [← List.take_append_drop n cs, ← List.cons_append]
    exact List.forall_mem_append.2 ⟨hpiece, hrest⟩
  | bad pos c cs hgap hbad =>
    obtain ⟨err, herr, -⟩ := exists_feed_bad hgap hbad pos
    rw [herr] at h
    cases h

end Cursor

end Readout
