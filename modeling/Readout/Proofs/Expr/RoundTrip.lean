import Readout.Expr.Basic
import Readout.Proofs.Expr.Completeness
import Readout.Proofs.Expr.Evaluation
import Readout.Proofs.Token.Lexing

/-!
# Source text is read back

The source text of a tree is read as that tree again, whatever the shape of the tree, if
its names are identifiers and its parentheses do not nest too deep
(`Readout.Expr.parse_source`). The way leads over the tokens of the text
(`Readout.Expr.tokens`), which are written down with the same parentheses.

* **The parentheses suffice.** The tokens of a tree form a phrase of the level of its
  topmost operator (`Readout.Expr.phrase_tokens`), and where that level would be too loose
  there are parentheses.
* **The text is cut into these tokens** (`Readout.Expr.cutInto_source`). Every leaf is
  followed by a space, a parenthesis or the end, so no two words run together, and no two
  marks stand beside each other that could be read as one.
-/

namespace Readout

/-! ### The tokens of a tree -/

/-- Puts tokens in parentheses where asked to. -/
def bracketed (needed : Bool) (ts : List Token) : List Token :=
  if needed then .lparen :: (ts ++ [.rparen]) else ts

/-- Parentheses make an expression of any level a primary. -/
theorem Phrase.bracketed {m n : ℕ} {needed : Bool} {ts : List Token} {e : Expr}
    (h : Phrase n ts e) (hn : n ≤ 4) (hm : m ≤ 4) (hneeded : needed = false → m ≤ n) :
    Phrase m (bracketed needed ts) e := by
  cases needed with
  | false => exact h.loosen (hneeded rfl) hn
  | true => exact (Phrase.group (h.loosen (Nat.zero_le n) hn)).loosen hm (Nat.le_refl 4)

namespace Expr

/-- The tokens of the source text of an expression. -/
def tokens : Expr → List Token
  | atom a => a.tokens
  | neg e => .minus :: bracketed e.isBinary e.tokens
  | bin op left right =>
    bracketed (left.guardedLeft op) left.tokens ++
      op.token :: bracketed (right.guardedRight op) right.tokens

/-- The tightest level at which an expression can stand without parentheses. -/
def level : Expr → ℕ
  | atom _ => 4
  | neg _ => 3
  | bin op _ _ => op.strength

theorem level_le_four (e : Expr) : e.level ≤ 4 := by
  cases e with
  | atom a => exact Nat.le_refl 4
  | neg e => exact Nat.le_succ 3
  | bin op left right => exact Nat.le_of_lt (Nat.lt_succ_of_lt op.strength_lt_three)

/-- Below a negation, only operators need parentheses. -/
theorem isBinary_eq_false_iff {e : Expr} : e.isBinary = false ↔ 3 ≤ e.level := by
  cases e with
  | atom a => exact iff_of_true rfl (Nat.le_succ 3)
  | neg e => exact iff_of_true rfl (Nat.le_refl 3)
  | bin op left right =>
    exact iff_of_false Bool.false_ne_true.symm (Nat.not_le_of_lt op.strength_lt_three)

/-- To the left of an operator, only looser operators need parentheses. -/
theorem guardedLeft_eq_false_iff {op : Op} {e : Expr} :
    e.guardedLeft op = false ↔ op.strength ≤ e.level := by
  have hop := op.strength_lt_three
  cases e with
  | atom a => exact iff_of_true rfl (Nat.le_of_lt (Nat.lt_succ_of_lt hop))
  | neg e => exact iff_of_true rfl (Nat.le_of_lt hop)
  | bin inner left right => exact decide_eq_false_iff_not.trans Nat.not_lt

/-- To its right, those of its own level do too. -/
theorem guardedRight_eq_false_iff {op : Op} {e : Expr} :
    e.guardedRight op = false ↔ op.strength < e.level := by
  have hop := op.strength_lt_three
  cases e with
  | atom a => exact iff_of_true rfl (Nat.lt_succ_of_lt hop)
  | neg e => exact iff_of_true rfl hop
  | bin inner left right => exact decide_eq_false_iff_not.trans Nat.not_le

/-- **The parentheses suffice**: the tokens of an expression spell it. -/
theorem phrase_tokens (e : Expr) : Phrase e.level e.tokens e := by
  induction e with
  | atom a => exact .atom a
  | neg e ih => exact .minus (ih.bracketed e.level_le_four (by decide) isBinary_eq_false_iff.1)
  | bin op left right ihl ihr =>
    have hop := op.strength_lt_three
    exact .join op
      (ihl.bracketed left.level_le_four (by omega) guardedLeft_eq_false_iff.1)
      (ihr.bracketed right.level_le_four (by omega) guardedRight_eq_false_iff.1)

end Expr

/-! ### The text is cut into these tokens -/

theorem Ends.nil : Ends [] := by
  rintro c ⟨⟩

theorem Ends.cons {c : Char} (h : isIdentifierRest c = false) (rest : List Char) :
    Ends (c :: rest) := by
  rintro _ ⟨⟩
  exact h

namespace CutInto

variable {rest : List Char}

/-- An opening parenthesis is a token whatever follows it, and so is a closing one. -/
theorem parenthesised (needed : Bool) {text : String} {ts : List Token} (hrest : Ends rest)
    (h : ∀ {rest : List Char}, Ends rest → CutInto text.toList ts rest) :
    CutInto (parenthesised needed text).toList (bracketed needed ts) rest := by
  cases needed with
  | false => exact h hrest
  | true =>
    have hclose : CutInto [')'] [.rparen] rest :=
      single (by decide) (by decide) (by decide)
    have hopen : CutInto ['('] [.lparen] (text.toList ++ [')'] ++ rest) :=
      single (by decide) (by decide) (by decide)
    have hall := hopen.append ((h (Ends.cons (by decide) rest)).append hclose)
    simpa [Readout.parenthesised, bracketed] using hall

/-- An operator stands between two spaces. -/
theorem operator (op : Op) : CutInto (' ' :: (op.sign.toList ++ [' '])) [op.token] rest := by
  have hsign : CutInto op.sign.toList [op.token] (' ' :: rest) := by
    cases op with
    | add => exact single (by decide) (by decide) (by decide)
    | sub => exact single (by decide) (by decide) (by decide)
    | mul => exact single (by decide) (by decide) (by decide)
    | shl => exact doubled (by decide) (by decide) rfl
    | shr => exact doubled (by decide) (by decide) rfl
  have hspace : CutInto [' '] [] rest := gap rfl
  exact (gap rfl).append (hsign.append hspace)

/-- A word is read from its decimal text, -/
theorem decimalText (v : Word) (hrest : Ends rest) :
    CutInto (Numeral.decimalText v.toNat).toList [.int v] rest := by
  have hcut := decimal v.toNat_lt hrest
  rwa [UInt64.ofNat_toNat, ← Numeral.toList_decimalText] at hcut

/-- and from its hexadecimal text. -/
theorem hexText (v : Word) (hrest : Ends rest) :
    CutInto (Numeral.hexText v.toNat).toList [.int v] rest := by
  have hcut := hex v.toNat_lt hrest
  rwa [UInt64.ofNat_toNat, ← Numeral.toList_hexText] at hcut

/-- A constant is written in one of the two ways. -/
theorem const (v : Word) (hrest : Ends rest) :
    CutInto (Atom.const v).source.toList [.int v] rest := by
  rw [Atom.source]
  split
  · exact decimalText v hrest
  · exact hexText v hrest

/-- **Leaves are cut into their tokens**, if their names are identifiers. -/
theorem atom {a : Atom} (ha : a.name?.all isIdentifier = true) (hrest : Ends rest) :
    CutInto a.source.toList a.tokens rest := by
  cases a with
  | const v => exact const v hrest
  | bare name => exact ident ha hrest
  | qualified scope name =>
    have hkeyword : CutInto scope.keyword.toList [.ident scope.keyword]
        ([':', ':'] ++ name.toList ++ rest) :=
      ident (by cases scope <;> decide) (Ends.cons (by decide) _)
    have hcolons : CutInto [':', ':'] [.scope] (name.toList ++ rest) :=
      doubled (by decide) (by decide) rfl
    have hall := hkeyword.append (hcolons.append (ident ha hrest))
    rw [Atom.source, String.toList_append, String.toList_append, List.append_assoc]
    exact hall

/-- **A text that is cut into the tokens of an expression is read as it**, if there is room for
the parentheses. -/
theorem parse {source : String} {ts : List Token} {e : Expr} (h : CutInto source.toList ts [])
    (hphrase : Phrase 0 ts e) (hroom : nesting .lparen .rparen ts ≤ maxOpenParens) :
    Readout.parse source = .ok e := by
  obtain ⟨ls, rfl, hfeed⟩ := h 0
  rw [List.append_nil, Cursor.feed_nil] at hfeed
  have hlexemes : (Cursor.start source).feed.lexemes = ls := by
    rw [Cursor.start, hfeed, Feed.after, List.append_nil]
  have hending : (Cursor.start source).feed.ending = .ok (0 + source.toList.length) := by
    rw [Cursor.start, hfeed, Feed.after]
  rw [← hlexemes] at hphrase hroom
  exact Feed.parse_of_phrase hending hphrase hroom

/-- A leaf has no parentheses. -/
theorem parse_atom {source : String} {a : Atom} (h : CutInto source.toList a.tokens []) :
    Readout.parse source = .ok (.atom a) := by
  refine h.parse ((Phrase.atom a).loosen (Nat.zero_le 4) (Nat.le_refl 4)) ?_
  rw [← List.append_nil a.tokens, Phrase.nesting_atom_append]
  exact Nat.zero_le _

end CutInto

namespace Expr

/-- All names of an expression are identifiers. -/
def WellNamed (e : Expr) : Prop :=
  ∀ a ∈ e.leaves, a.name?.all isIdentifier = true

instance : DecidablePred WellNamed := fun e =>
  inferInstanceAs (Decidable (∀ a ∈ e.leaves, a.name?.all isIdentifier = true))

/-- **The source text of an expression is cut into its tokens.** -/
theorem cutInto_source {e : Expr} (h : e.WellNamed) {rest : List Char} (hrest : Ends rest) :
    CutInto e.source.toList e.tokens rest := by
  induction e generalizing rest with
  | atom a => exact .atom (h a (by simp [leaves])) hrest
  | neg e ih =>
    have hminus : CutInto ['-'] [.minus]
        ((parenthesised e.isBinary e.source).toList ++ rest) :=
      .single (by decide) (by decide) (by decide)
    have hall := hminus.append (.parenthesised e.isBinary hrest (ih h))
    rw [source, String.toList_append]
    exact hall
  | bin op left right ihl ihr =>
    have hleft : left.WellNamed := fun a ha => h a (List.mem_append_left _ ha)
    have hright : right.WellNamed := fun a ha => h a (List.mem_append_right _ ha)
    -- the left operand is followed by a space
    have hspace : Ends (' ' :: (op.sign.toList ++ [' ']) ++
        (parenthesised (right.guardedRight op) right.source).toList ++ rest) :=
      Ends.cons (by decide) _
    have hlater := (CutInto.operator op).append
      (.parenthesised (right.guardedRight op) hrest (ihr hright))
    have hall := (CutInto.parenthesised (left.guardedLeft op) hspace (ihl hleft)).append
      hlater
    have htext : (bin op left right).source.toList =
        (parenthesised (left.guardedLeft op) left.source).toList ++
          (' ' :: (op.sign.toList ++ [' ']) ++
            (parenthesised (right.guardedRight op) right.source).toList) := by
      simp [source]
    rw [htext]
    exact hall

/-- So that is what the parser reads. -/
theorem feed_source {e : Expr} (h : e.WellNamed) :
    ∃ pos, (Cursor.start e.source).feed.ending = .ok pos ∧
      (Cursor.start e.source).feed.lexemes.map Lexeme.token = e.tokens := by
  obtain ⟨ls, hls, hfeed⟩ := cutInto_source h Ends.nil 0
  rw [List.append_nil, Cursor.feed_nil] at hfeed
  refine ⟨0 + e.source.toList.length, ?_, ?_⟩
  · rw [Cursor.start, hfeed, Feed.after]
  · rw [Cursor.start, hfeed, Feed.after, List.append_nil, hls]

/-- The parentheses of the text nest as those of the tokens do. -/
theorem nesting_source {e : Expr} (h : e.WellNamed) :
    nesting '(' ')' e.source.toList = nesting .lparen .rparen e.tokens := by
  obtain ⟨pos, hending, hlexemes⟩ := feed_source h
  rw [← hlexemes]
  exact (Cursor.nesting_feed hending).symm

/-- The text has as many of them. -/
theorem count_source {e : Expr} (h : e.WellNamed) :
    e.source.toList.count '(' = e.tokens.count .lparen := by
  obtain ⟨pos, hending, hlexemes⟩ := feed_source h
  rw [← hlexemes]
  exact (Cursor.count_feed hending).symm

/-- **Source text is read back**: the source text of an expression whose names are
identifiers is read as that expression, unless its parentheses nest too deep, and then the
parser says so. -/
theorem parse_source {e : Expr} (h : e.WellNamed) :
    (nesting '(' ')' e.source.toList ≤ maxOpenParens → parse e.source = .ok e) ∧
    (maxOpenParens < nesting '(' ')' e.source.toList →
      ∃ what pos, parse e.source = .error (.fault what pos) ∧
        what.message = "expression too deeply nested") := by
  obtain ⟨pos, hending, hlexemes⟩ := feed_source h
  have hphrase : Phrase 0 ((Cursor.start e.source).feed.lexemes.map Lexeme.token) e := by
    rw [hlexemes]
    exact e.phrase_tokens.loosen (Nat.zero_le _) e.level_le_four
  have hnesting : nesting .lparen .rparen ((Cursor.start e.source).feed.lexemes.map Lexeme.token) =
      nesting '(' ')' e.source.toList := by
    rw [hlexemes, nesting_source h]
  constructor
  · intro hroom
    rw [← hnesting] at hroom
    exact Feed.parse_of_phrase hending hphrase hroom
  · intro hroom
    rw [← hnesting] at hroom
    obtain ⟨pos, hpos⟩ := Feed.parse_of_deep_phrase hending hphrase hroom
    exact ⟨.tooDeep, pos, hpos, rfl⟩

/-- A product of negations is read back. A sum that is negated, and the negation part of a
sum that is negated, a hundred and one times in all, is too deep. -/
theorem parse_source_of_negations :
    parse "-(a + 1) * --reg::b" = .ok (bin .mul
      (neg (bin .add (atom (.bare "a")) (atom (.const 1))))
      (neg (neg (atom (.qualified .register "b"))))) ∧
    ∃ what pos, parse ((List.range 101).foldl
        (fun e _ => neg (bin .add e (atom (.const 1)))) (atom (.bare "a"))).source =
          .error (.fault what pos) ∧ what.message = "expression too deeply nested" := by
  constructor
  · exact (parse_source (e := bin .mul (neg (bin .add (atom (.bare "a")) (atom (.const 1))))
      (neg (neg (atom (.qualified .register "b"))))) (by decide)).1 (by decide +kernel)
  · refine (parse_source (by decide +kernel)).2 ?_
    rw [nesting_source (by decide +kernel)]
    decide +kernel

end Expr

end Readout
