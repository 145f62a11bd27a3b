import Readout.Expr.Walk
import Readout.Proofs.Expr.RoundTrip
import Readout.Proofs.Expr.Soundness

/-!
# What the parentheses of a text are good for

The same tree can be spelt with more parentheses or with fewer. The source text of a tree
has the **fewest**: a pair that it writes stands around a part whose operator binds too
loosely for its place, and at that place every text that is read as the tree has a pair too.
The pairs of the source text are nested no deeper for the same reason
(`Readout.Phrase.noMoreParens`). So whatever was read can be written and read again, also if
the text had as many open parentheses as are allowed (`Readout.parse_source_of_parse`).

Parentheses also bound the depth of a tree. Between two of them a way down the tree takes at
most one step into a right operand at each of the three levels of operators
(`Readout.Phrase.operandDepth_le`), so a tree that was read is never too deep to be written.
-/

namespace Readout

/-! ### No more parentheses than others have -/

/-- **Tokens with no more parentheses than others have**, and none of them nested deeper. -/
structure NoMoreParens (us ts : List Token) : Prop where
  /-- There are no more of them. -/
  count : us.count .lparen ≤ ts.count .lparen
  /-- They are nested no deeper. -/
  depth : nesting .lparen .rparen us ≤ nesting .lparen .rparen ts

namespace NoMoreParens

variable {us ts us' ts' : List Token}

theorem refl (ts : List Token) : NoMoreParens ts ts :=
  ⟨le_refl _, le_refl _⟩

/-- Signs are no parentheses. -/
theorem plus (h : NoMoreParens us ts) : NoMoreParens us (.plus :: ts) := by
  refine ⟨?_, ?_⟩
  · rw [List.count_cons_of_ne (by decide)]
    exact h.count
  · rw [nesting_cons_of_ne (by decide) (by decide)]
    exact h.depth

theorem minus (h : NoMoreParens us ts) : NoMoreParens (.minus :: us) (.minus :: ts) := by
  refine ⟨?_, ?_⟩
  · rw [List.count_cons_of_ne (by decide), List.count_cons_of_ne (by decide)]
    exact h.count
  · rw [nesting_cons_of_ne (by decide) (by decide), nesting_cons_of_ne (by decide) (by decide)]
    exact h.depth

/-- Chains can be compared part by part. -/
theorem join (op : Op) {m n : ℕ} {e f : Expr} (hus : Phrase m us e) (hts : Phrase n ts f)
    (hleft : NoMoreParens us ts) (hright : NoMoreParens us' ts') :
    NoMoreParens (us ++ op.token :: us') (ts ++ op.token :: ts') := by
  refine ⟨?_, ?_⟩
  · rw [List.count_append, List.count_append, List.count_cons_of_ne op.token_ne_lparen,
      List.count_cons_of_ne op.token_ne_lparen]
    exact Nat.add_le_add hleft.count hright.count
  · rw [hus.nesting_join, hts.nesting_join]
    exact max_le_max hleft.depth hright.depth

/-- A pair that may be left out is no more than a pair that is there. -/
theorem group {e f : Expr} (hus : Phrase 0 us e) (hts : Phrase 0 ts f) (h : NoMoreParens us ts)
    (needed : Bool) : NoMoreParens (bracketed needed us) (.lparen :: (ts ++ [.rparen])) := by
  have hcount : ∀ ts : List Token,
      (.lparen :: (ts ++ [.rparen])).count .lparen = ts.count .lparen + 1 := fun ts => by
    rw [List.count_cons_self, List.count_append, List.count_singleton,
      if_neg (by decide), Nat.add_zero]
  cases needed with
  | false =>
    refine ⟨?_, ?_⟩
    · rw [hcount]
      exact Nat.le_succ_of_le h.count
    · rw [hts.nesting_group]
      exact Nat.le_succ_of_le h.depth
  | true =>
    refine ⟨?_, ?_⟩
    · rw [bracketed, if_pos rfl, hcount, hcount]
      exact Nat.succ_le_succ h.count
    · rw [bracketed, if_pos rfl, hus.nesting_group, hts.nesting_group]
      exact Nat.succ_le_succ h.depth

end NoMoreParens

namespace Phrase

variable {n : ℕ} {ts : List Token} {e : Expr}

/-- **The tokens of a tree have the fewest parentheses** among all that spell it. A tree that
binds too loosely for the level counts with the pair that it needs there. -/
theorem noMoreParens (h : Phrase n ts e) {needed : Bool} (hneeded : n ≤ e.level → needed = false) :
    NoMoreParens (Readout.bracketed needed e.tokens) ts := by
  induction h generalizing needed with
  | atom a =>
    cases hneeded (le_refl 4)
    exact .refl _
  | @group ts e h ih =>
    exact .group (e.phrase_tokens.loosen (Nat.zero_le _) e.level_le_four) h (ih fun _ => rfl) needed
  | plus h ih => exact (ih hneeded).plus
  | minus h ih =>
    -- only the operand may need a pair, and it stands at the level of operands in both
    cases hneeded (le_refl 3)
    exact (ih Expr.isBinary_eq_false_iff.2).minus
  | @join op ts us e f hl hr ihl ihr =>
    cases hneeded (le_refl op.strength)
    have hop := op.strength_lt_three
    have hleft : Phrase op.strength (Readout.bracketed (e.guardedLeft op) e.tokens) e :=
      e.phrase_tokens.bracketed e.level_le_four (by omega) Expr.guardedLeft_eq_false_iff.1
    exact .join op hleft hl (ihl Expr.guardedLeft_eq_false_iff.2)
      (ihr Expr.guardedRight_eq_false_iff.2)
  | tighter hn h ih => exact ih fun hle => hneeded (Nat.le_of_succ_le hle)

/-- The leaves of a tree are spelt out in its tokens. -/
theorem tokens_subset (h : Phrase n ts e) {a : Atom} (ha : a ∈ e.leaves) : a.tokens ⊆ ts := by
  induction h with
  | atom b =>
    rw [Expr.leaves, List.mem_singleton] at ha
    rw [ha]
    exact List.Subset.refl _
  | group h ih =>
    exact List.subset_cons_of_subset _ (List.subset_append_of_subset_left _ (ih ha))
  | plus h ih => exact List.subset_cons_of_subset _ (ih ha)
  | minus h ih => exact List.subset_cons_of_subset _ (ih ha)
  | join op hl hr ihl ihr =>
    rcases List.mem_append.1 ha with ha | ha
    · exact List.subset_append_of_subset_left _ (ihl ha)
    · exact List.subset_append_of_subset_right _ (List.subset_cons_of_subset _ (ihr ha))
  | tighter hn h ih => exact ih ha

/-- **The depth of a tree is bounded by its parentheses**: three steps into right operands for
each pair that is open, and three outside of all of them. -/
theorem operandDepth_le (h : Phrase n ts e) :
    e.operandDepth ≤ 3 * nesting .lparen .rparen ts + (3 - n) := by
  induction h with
  | atom a => exact Nat.zero_le _
  | group h ih =>
    rw [h.nesting_group]
    omega
  | plus h ih =>
    rw [nesting_cons_of_ne (by decide) (by decide)]
    exact ih
  | minus h ih =>
    rw [nesting_cons_of_ne (by decide) (by decide)]
    exact ih
  | join op hl hr ihl ihr =>
    -- the step to the right is made up for by the right part binding tighter
    have hop := op.strength_lt_three
    rw [hl.nesting_join, Expr.operandDepth]
    omega
  | tighter hn h ih => omega

end Phrase

/-! ### What was read can be written and read again -/

section

variable {s : String} {e : Expr}

/-- A text that is read as a tree consists of tokens that spell the tree, with the same
parentheses as the text. -/
theorem exists_phrase_of_parse (h : parse s = .ok e) : ∃ ts, Phrase 0 ts e ∧
    (∀ name, .ident name ∈ ts → isIdentifier name = true) ∧
    ts.count .lparen = s.toList.count '(' ∧
    nesting .lparen .rparen ts = nesting '(' ')' s.toList ∧
    nesting .lparen .rparen ts ≤ maxOpenParens := by
  have hspells := Feed.parse_eq_ok_iff.1 h
  obtain ⟨pos, hending⟩ := hspells.proper rfl
  exact ⟨_, hspells.phrase, fun name => Cursor.isIdentifier_of_mem_feed,
    Cursor.count_feed hending, Cursor.nesting_feed hending, hspells.fits⟩

/-- The names of a tree that was read are identifiers. -/
theorem wellNamed_of_parse (h : parse s = .ok e) : e.WellNamed := by
  obtain ⟨ts, hphrase, hnames, -⟩ := exists_phrase_of_parse h
  intro a ha
  have hsubset := hphrase.tokens_subset ha
  cases a with
  | const v => rfl
  | bare name => exact hnames name (hsubset (by simp [Atom.tokens]))
  | qualified scope name => exact hnames name (hsubset (by simp [Atom.tokens]))

/-- **A tree that was read is not deep.** -/
theorem operandDepth_of_parse (h : parse s = .ok e) : e.operandDepth ≤ 3 * (maxOpenParens + 1) := by
  obtain ⟨ts, hphrase, -, -, -, hfits⟩ := exists_phrase_of_parse h
  have hdepth := hphrase.operandDepth_le
  omega

/-- The source text of a tree has no more parentheses than any text that is read as it, and
nests them no deeper. -/
theorem parens_source_le (h : parse s = .ok e) :
    e.source.toList.count '(' ≤ s.toList.count '(' ∧
      nesting '(' ')' e.source.toList ≤ nesting '(' ')' s.toList := by
  obtain ⟨ts, hphrase, -, hcount, hdepth, -⟩ := exists_phrase_of_parse h
  have hnamed := wellNamed_of_parse h
  have hfewest : NoMoreParens e.tokens ts := hphrase.noMoreParens fun _ => (rfl : false = false)
  rw [Expr.count_source hnamed, Expr.nesting_source hnamed, ← hcount, ← hdepth]
  exact ⟨hfewest.count, hfewest.depth⟩

end

/-- **Source text has the fewest parentheses**, so what was read can always be written and
read again. If a text is read as a tree, then the tree is not too deep to be written, its
source text is read as the same tree, and among all texts that are read as this tree the
source text has the fewest parentheses and the smallest nesting. -/
theorem parse_source_of_parse {s : String} {e : Expr} (h : parse s = .ok e) :
    e.source? = .ok e.source ∧ parse e.source = .ok e ∧
    ∀ s', parse s' = .ok e →
      e.source.toList.count '(' ≤ s'.toList.count '(' ∧
      nesting '(' ')' e.source.toList ≤ nesting '(' ')' s'.toList := by
  refine ⟨if_pos ((operandDepth_of_parse h).trans (by decide)), ?_, fun s' => parens_source_le⟩
  -- the source text nests no deeper than the text that was accepted
  obtain ⟨ts, -, -, -, hdepth, hfits⟩ := exists_phrase_of_parse h
  have hnamed := wellNamed_of_parse h
  have hroom : nesting .lparen .rparen e.tokens ≤ maxOpenParens := by
    rw [← Expr.nesting_source hnamed]
    exact (parens_source_le h).2.trans (hdepth ▸ hfits)
  obtain ⟨pos, hending, hlexemes⟩ := Expr.feed_source hnamed
  rw [← hlexemes] at hroom
  refine Feed.parse_of_phrase hending ?_ hroom
  rw [hlexemes]
  exact e.phrase_tokens.loosen (Nat.zero_le _) e.level_le_four

/-- Of five pairs two are needed: around the sum that is multiplied, and around the difference
that is subtracted. -/
theorem parse_source_of_many_parens :
    ∃ e, parse "((1 + (x)) * 2) - (reg::y - -(3))" = .ok e ∧
      parse "(1 + x) * 2 - (reg::y - -3)" = .ok e ∧
      ∀ s', parse s' = .ok e → 2 ≤ s'.toList.count '(' ∧ 1 ≤ nesting '(' ')' s'.toList := by
  have hsome : (parse "((1 + (x)) * 2) - (reg::y - -(3))").toOption = some (.bin .sub
      (.bin .mul (.bin .add (.atom (.const 1)) (.atom (.bare "x"))) (.atom (.const 2)))
      (.bin .sub (.atom (.qualified .register "y")) (.neg (.atom (.const 3))))) := by
    decide +kernel
  cases hparse : parse "((1 + (x)) * 2) - (reg::y - -(3))" with
  | error err =>
    rw [hparse] at hsome
    cases hsome
  | ok e =>
    rw [hparse] at hsome
    cases hsome
    obtain ⟨-, hagain, hfewest⟩ := parse_source_of_parse hparse
    exact ⟨_, rfl, hagain, hfewest⟩

end Readout
