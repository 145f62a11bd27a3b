import Mathlib.Data.List.Chain
import Mathlib.Data.Nat.Notation
import Mathlib.Logic.Basic
import Readout.Expr.Basic
import Readout.Token.Basic

/-!
# The grammar of expressions

Which sequences of tokens are expressions (`Readout.Phrase`), and how many parentheses are open in
them at once (`Readout.nesting`).
-/

namespace Readout

/-! ### How deep brackets nest

Reading a sequence from left to right, some brackets are open at every place: those
opened before it, less those closed before it. `Readout.nesting` is the greatest number
open at once. It is defined from the right end of the sequence, where each bracket adds or
takes away one; what the number says is `Readout.nesting_le_iff`.

The brackets may be characters or tokens. What is counted depends on them alone
(`Readout.brackets`), so that a text and its tokens can be compared by their brackets.
-/

section

variable {α : Type} [DecidableEq α] {opening closing : α}

/-- **The greatest number of brackets open at once** in a sequence. -/
def nesting (opening closing : α) : List α → ℕ
  | [] => 0
  | a :: as =>
    if a = opening then nesting opening closing as + 1
    else if a = closing then nesting opening closing as - 1
    else nesting opening closing as

@[simp] theorem nesting_nil : nesting opening closing [] = 0 := rfl

@[simp] theorem nesting_cons_opening (as : List α) :
    nesting opening closing (opening :: as) = nesting opening closing as + 1 := by
  rw [nesting, if_pos rfl]

theorem nesting_cons_closing (h : opening ≠ closing) (as : List α) :
    nesting opening closing (closing :: as) = nesting opening closing as - 1 := by
  rw [nesting, if_neg h.symm, if_pos rfl]

theorem nesting_cons_of_ne {a : α} (ho : a ≠ opening) (hc : a ≠ closing) (as : List α) :
    nesting opening closing (a :: as) = nesting opening closing as := by
  rw [nesting, if_neg ho, if_neg hc]

/-- What is no bracket makes no difference. -/
theorem nesting_append_of_not_mem {as : List α} (ho : opening ∉ as) (hc : closing ∉ as)
    (bs : List α) : nesting opening closing (as ++ bs) = nesting opening closing bs := by
  induction as with
  | nil => rfl
  | cons a as ih =>
    rw [List.mem_cons, not_or] at ho hc
    rw [List.cons_append, nesting_cons_of_ne (Ne.symm ho.1) (Ne.symm hc.1), ih ho.2 hc.2]

/-- **What the number says**: it bounds, at every place, the brackets opened before that
place less those closed before it. -/
theorem nesting_le_iff (h : opening ≠ closing) {as : List α} {k : ℕ} :
    nesting opening closing as ≤ k ↔
      ∀ bs, bs <+: as → bs.count opening ≤ bs.count closing + k := by
  induction as generalizing k with
  | nil =>
    constructor
    · intro _ bs hbs
      rw [List.prefix_nil.1 hbs]
      exact Nat.zero_le _
    · intro _
      exact Nat.zero_le k
  | cons a as ih =>
    -- the prefixes are the empty one and those that start with `a`
    have hcons : (∀ bs, bs <+: a :: as → bs.count opening ≤ bs.count closing + k) ↔
        ∀ bs, bs <+: as → (a :: bs).count opening ≤ (a :: bs).count closing + k := by
      constructor
      · intro hall bs hbs
        exact hall (a :: bs) (List.prefix_cons_inj a |>.2 hbs)
      · intro hall bs hbs
        rcases List.prefix_cons_iff.1 hbs with rfl | ⟨cs, rfl, hcs⟩
        · exact Nat.zero_le _
        · exact hall cs hcs
    rw [hcons]
    rcases eq_or_ne a opening with rfl | ho
    · rw [nesting_cons_opening]
      simp only [List.count_cons_self, List.count_cons_of_ne h]
      rcases k with - | k
      · constructor
        · intro hle
          exact absurd hle (Nat.not_succ_le_zero _)
        · intro hall
          exact absurd (hall [] List.nil_prefix) (Nat.not_succ_le_zero _)
      · rw [Nat.succ_le_succ_iff, ih]
        exact forall₂_congr fun bs _ => by omega
    · rcases eq_or_ne a closing with rfl | hc
      · rw [nesting_cons_closing h, Nat.sub_le_iff_le_add, ih]
        simp only [List.count_cons_self, List.count_cons_of_ne h.symm]
        exact forall₂_congr fun bs _ => by omega
      · rw [nesting_cons_of_ne ho hc, ih]
        simp only [List.count_cons_of_ne ho, List.count_cons_of_ne hc]

/-! ### The brackets alone -/

/-- **The brackets of a sequence**, in their order: `true` for an opening one. -/
def brackets (opening closing : α) (as : List α) : List Bool :=
  as.filterMap fun a =>
    if a = opening then some true else if a = closing then some false else none

@[simp] theorem brackets_cons_opening (as : List α) :
    brackets opening closing (opening :: as) = true :: brackets opening closing as :=
  List.filterMap_cons_some (if_pos rfl)

theorem brackets_cons_closing (h : opening ≠ closing) (as : List α) :
    brackets opening closing (closing :: as) = false :: brackets opening closing as :=
  List.filterMap_cons_some ((if_neg h.symm).trans (if_pos rfl))

theorem brackets_cons_of_ne {a : α} (ho : a ≠ opening) (hc : a ≠ closing) (as : List α) :
    brackets opening closing (a :: as) = brackets opening closing as :=
  List.filterMap_cons_none ((if_neg ho).trans (if_neg hc))

/-- What is no bracket is left out. -/
theorem brackets_append_of_not_mem {as : List α} (ho : opening ∉ as) (hc : closing ∉ as)
    (bs : List α) : brackets opening closing (as ++ bs) = brackets opening closing bs := by
  induction as with
  | nil => rfl
  | cons a as ih =>
    rw [List.mem_cons, not_or] at ho hc
    rw [List.cons_append, brackets_cons_of_ne (Ne.symm ho.1) (Ne.symm hc.1), ih ho.2 hc.2]

/-- The opening brackets can be counted among the brackets. -/
theorem count_brackets (h : opening ≠ closing) (as : List α) :
    (brackets opening closing as).count true = as.count opening := by
  induction as with
  | nil => rfl
  | cons a as ih =>
    rcases eq_or_ne a opening with rfl | ho
    · rw [brackets_cons_opening, List.count_cons_self, List.count_cons_self, ih]
    · rcases eq_or_ne a closing with rfl | hc
      · rw [brackets_cons_closing h, List.count_cons_of_ne Bool.false_ne_true,
          List.count_cons_of_ne ho, ih]
      · rw [brackets_cons_of_ne ho hc, List.count_cons_of_ne ho, ih]

/-- The depth can be read off the brackets. -/
theorem nesting_brackets (h : opening ≠ closing) (as : List α) :
    nesting true false (brackets opening closing as) = nesting opening closing as := by
  induction as with
  | nil => rfl
  | cons a as ih =>
    rcases eq_or_ne a opening with rfl | ho
    · rw [brackets_cons_opening, nesting_cons_opening, nesting_cons_opening, ih]
    · rcases eq_or_ne a closing with rfl | hc
      · rw [brackets_cons_closing h, nesting_cons_closing (by decide), nesting_cons_closing h, ih]
      · rw [brackets_cons_of_ne ho hc, nesting_cons_of_ne ho hc, ih]

end

/-! ### The grammar of expressions

`Readout.Phrase` is the grammar: a relation between lists of tokens and the trees that
they spell, with one constructor for each way of forming a phrase. It knows nothing of the
parser.

Phrases have levels, from 0 for whole expressions up to 4 for primaries. The levels 0, 1
and 2 are those of the binary operators, by their strength (`Readout.Op.strength`). A chain
of operators of one level is taken apart at its last operator: what stands to the left of
it is a chain again, what stands to the right must bind tighter. So all operators group to
the left.

Brackets are balanced in every phrase, which makes the depth of a phrase the greatest depth
of its parts (`Readout.Phrase.nesting_append`).
-/

/-- The token of an operator. -/
def Op.token : Op → Token
  | add => .plus
  | sub => .minus
  | mul => .star
  | shl => .lshift
  | shr => .rshift

/-- The tokens of a leaf. -/
def Atom.tokens : Atom → List Token
  | const v => [.int v]
  | bare name => [.ident name]
  | qualified scope name => [.ident scope.keyword, .scope, .ident name]

/-- **The grammar**: the tokens that spell a tree, at each level.

* Level 0 is `sum (("<<" | ">>") sum)*`, level 1 is `product (("+" | "-") product)*` and
  level 2 is `operand ("*" operand)*`.
* Level 3 is `("+" | "-")* primary`.
* Level 4 is a literal, a name, a name in a scope, or an expression in parentheses. -/
inductive Phrase : ℕ → List Token → Expr → Prop
  /-- A leaf. -/
  | atom (a : Atom) : Phrase 4 a.tokens (.atom a)
  /-- An expression in parentheses. -/
  | group {ts : List Token} {e : Expr} (h : Phrase 0 ts e) :
    Phrase 4 (.lparen :: (ts ++ [.rparen])) e
  /-- A plus sign before an operand adds nothing. -/
  | plus {ts : List Token} {e : Expr} (h : Phrase 3 ts e) : Phrase 3 (.plus :: ts) e
  /-- A minus sign before an operand negates. -/
  | minus {ts : List Token} {e : Expr} (h : Phrase 3 ts e) : Phrase 3 (.minus :: ts) (.neg e)
  /-- An operator joins a chain of its level and a phrase that binds tighter. -/
  | join (op : Op) {ts us : List Token} {e f : Expr} (hl : Phrase op.strength ts e)
    (hr : Phrase (op.strength + 1) us f) :
    Phrase op.strength (ts ++ op.token :: us) (.bin op e f)
  /-- A phrase that binds tighter is a chain without operators, an operand without signs. -/
  | tighter {n : ℕ} {ts : List Token} {e : Expr} (hn : n < 4) (h : Phrase (n + 1) ts e) :
    Phrase n ts e

namespace Op

theorem strength_lt_three (op : Op) : op.strength < 3 := by
  cases op <;> decide

theorem token_ne_lparen (op : Op) : op.token ≠ .lparen := by
  cases op <;> decide

theorem token_ne_rparen (op : Op) : op.token ≠ .rparen := by
  cases op <;> decide

end Op

namespace Phrase

/-- A phrase is one of every looser level. -/
theorem loosen {m n : ℕ} {ts : List Token} {e : Expr} (h : Phrase n ts e) (hmn : m ≤ n)
    (hn : n ≤ 4) : Phrase m ts e := by
  induction hk : n - m generalizing m with
  | zero =>
    obtain rfl : m = n := by omega
    exact h
  | succ k ih => exact .tighter (by omega) (ih (m := m + 1) (by omega) (by omega))

/-- The depth of a leaf. -/
theorem nesting_atom_append (a : Atom) (us : List Token) :
    nesting .lparen .rparen (a.tokens ++ us) = nesting .lparen .rparen us := by
  refine nesting_append_of_not_mem ?_ ?_ us
  · cases a <;> simp [Atom.tokens]
  · cases a <;> simp [Atom.tokens]

/-- **The brackets of a phrase are balanced**: nothing after it is deeper for it. -/
theorem nesting_append {n : ℕ} {ts : List Token} {e : Expr} (h : Phrase n ts e)
    (us : List Token) : nesting .lparen .rparen (ts ++ us) =
      max (nesting .lparen .rparen ts) (nesting .lparen .rparen us) := by
  induction h generalizing us with
  | atom a =>
    have hnone : nesting .lparen .rparen a.tokens = 0 := by
      rw [← List.append_nil a.tokens, nesting_atom_append, nesting_nil]
    rw [nesting_atom_append, hnone, Nat.zero_max]
  | group h ih =>
    rw [List.cons_append, List.append_assoc, nesting_cons_opening, nesting_cons_opening, ih, ih,
      List.singleton_append, nesting_cons_closing (by decide), nesting_cons_closing (by decide),
      nesting_nil]
    omega
  | plus h ih =>
    rw [List.cons_append, nesting_cons_of_ne (by decide) (by decide),
      nesting_cons_of_ne (by decide) (by decide), ih]
  | minus h ih =>
    rw [List.cons_append, nesting_cons_of_ne (by decide) (by decide),
      nesting_cons_of_ne (by decide) (by decide), ih]
  | join op hl hr ihl ihr =>
    rw [List.append_assoc, ihl, List.cons_append,
      nesting_cons_of_ne op.token_ne_lparen op.token_ne_rparen, ihr, ihl,
      nesting_cons_of_ne op.token_ne_lparen op.token_ne_rparen, Nat.max_assoc]
  | tighter hn h ih => exact ih us

/-- Parentheses around a phrase make it deeper by one. -/
theorem nesting_group {ts : List Token} {e : Expr} (h : Phrase 0 ts e) :
    nesting .lparen .rparen (.lparen :: (ts ++ [.rparen])) = nesting .lparen .rparen ts + 1 := by
  rw [nesting_cons_opening, h.nesting_append, nesting_cons_closing (by decide), nesting_nil,
    Nat.zero_sub, Nat.max_zero]

/-- A chain is as deep as the deeper one of its two parts. -/
theorem nesting_join (op : Op) {n : ℕ} {ts : List Token} {e : Expr} (h : Phrase n ts e)
    (us : List Token) : nesting .lparen .rparen (ts ++ op.token :: us) =
      max (nesting .lparen .rparen ts) (nesting .lparen .rparen us) := by
  rw [h.nesting_append, nesting_cons_of_ne op.token_ne_lparen op.token_ne_rparen]

/-- Characters without a use are in no phrase. -/
theorem invalid_not_mem {n : ℕ} {ts : List Token} {e : Expr} (h : Phrase n ts e) (c : Char) :
    .invalid c ∉ ts := by
  induction h with
  | atom a => cases a <;> simp [Atom.tokens]
  | group h ih => simpa using ih
  | plus h ih => simpa using ih
  | minus h ih => simpa using ih
  | join op hl hr ihl ihr => cases op <;> simpa [Op.token] using ⟨ihl, ihr⟩
  | tighter hn h ih => exact ih

/-- **In a phrase no name follows a literal at once**: between two operands there is an operator. -/
theorem isChain {n : ℕ} {ts : List Token} {e : Expr} (h : Phrase n ts e) :
    ts.IsChain fun s t => ∀ v name, s = .int v → t ≠ .ident name := by
  induction h with
  | atom a => cases a <;> simp [Atom.tokens]
  | group h ih =>
    refine List.isChain_cons.2 ⟨by simp, ih.append (List.isChain_singleton _) ?_⟩
    rintro s - t ht v name -
    cases ht
    exact Token.noConfusion
  | plus h ih => exact List.isChain_cons.2 ⟨by simp, ih⟩
  | minus h ih => exact List.isChain_cons.2 ⟨by simp, ih⟩
  | join op hl hr ihl ihr =>
    refine ihl.append (List.isChain_cons.2 ⟨?_, ihr⟩) ?_
    · rintro t - v name hop
      cases op <;> cases hop
    · rintro s - t ht v name -
      cases ht
      cases op <;> exact Token.noConfusion
  | tighter hn h ih => exact ih

end Phrase

end Readout
