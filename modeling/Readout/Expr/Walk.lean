import Readout.Expr.Basic
import Readout.Numeral.Literal

/-!
# Walks over expressions and their depth

What is done with an expression may be done along its left spine, and then only right operands cost
depth (`Readout.Walk`). What is done level by level costs depth at every right operand or at every
level, and there is a limit to it.
-/

namespace Readout

/-! ### Ways down

A way down a tree takes a turn at every node (`Readout.Turn`, `Readout.Expr.descend?`).
-/

/-- **A turn** on the way down a tree. -/
inductive Turn
  /-- To what is negated. -/
  | operand
  /-- To the left operand of an operator. -/
  | left
  /-- To the right operand of an operator. -/
  | right
  deriving DecidableEq, Repr, Inhabited

/-- **Where a way down a tree ends**, if the tree has such a way. -/
def Expr.descend? : Expr → List Turn → Option Expr
  | e, [] => some e
  | .neg e, .operand :: turns => e.descend? turns
  | .bin _ left _, .left :: turns => left.descend? turns
  | .bin _ _ right, .right :: turns => right.descend? turns
  | _, _ :: _ => none

/-! ### Walks

A walk makes something of a tree from the bottom of its left spine to the top
(`Readout.Walk.within`). It goes up in a loop, so chains and runs of signs cost nothing; what it
meets to the right of an operator is a tree of its own, and the walk up that one is nested in the
first. How deep walks are nested is limited by an argument, and a walk that would be nested deeper
gives nothing. Without the loop and without a limit, the same is made of a tree operand by operand
(`Readout.Walk.whole`).

Source text and listings are what two walks make of a tree.
-/

/-- **A walk**: what is made of each kind of node, from its operands and what was made of
them. -/
structure Walk (α : Type) where
  /-- What is made of a leaf. -/
  leaf : Atom → α
  /-- What is made of a negation. -/
  negation : Expr → α → α
  /-- What is made of a binary operation. -/
  operation : Op → Expr × α → Expr × α → α

namespace Walk

variable {α : Type} (w : Walk α)

/-- What is made of a tree, operand by operand. -/
def whole : Expr → α
  | .atom a => w.leaf a
  | .neg e => w.negation e (whole e)
  | .bin op left right => w.operation op (left, whole left) (right, whole right)

/-- What is made of the tree above a link, from the tree below it and what was made of that, with a
way to go about right operands. -/
def above (operand : Expr → Option α) (below : Expr × α) : Link → Option (Expr × α)
  | .neg => some (.neg below.1, w.negation below.1 below.2)
  | .apply op right => (operand right).map fun r =>
    (.bin op below.1 right, w.operation op below (right, r))

/-- **The walk up the left spine**, with walks nested no deeper than a bound: the first walk counts,
and so does every one up a right operand inside another. -/
def within : (depth : Nat) → Expr → Option α
  | 0, _ => none
  | depth + 1, e =>
    (e.spine.links.foldlM (w.above (within depth)) (.atom e.spine.leaf, w.leaf e.spine.leaf)).map
      Prod.snd

end Walk

namespace Expr

/-- The walk that writes source text. -/
def sourceWalk : Walk String where
  leaf := Atom.source
  negation below text := "-" ++ parenthesised below.isBinary text
  operation op left right :=
    parenthesised (left.1.guardedLeft op) left.2 ++ " " ++ op.sign ++ " " ++
      parenthesised (right.1.guardedRight op) right.2

/-- The walk that writes listings. -/
def dumpWalk : Walk String where
  leaf := Atom.dump
  negation _ text := "(- " ++ text ++ ")"
  operation op left right := "(" ++ op.sign ++ " " ++ left.2 ++ " " ++ right.2 ++ ")"

/-! ### Trees that are too deep

A tree that was read from a text nests its right operands no deeper than its parentheses
allow, but a left spine can have any length, and a tree put together by hand any shape.
What recurses into trees gives up at a depth.

Writing a tree goes up left spines in a loop, so only right operands count
(`Readout.Expr.source?`, `Readout.Expr.dump?`). Comparing two trees goes down both of them
level by level, along left operands too (`Readout.Expr.same?`). It stops at the first
difference, and what lies behind that is not looked at: two trees of any depth are told
apart if they differ early. An answer, where there is one, is right:
`Readout.Expr.eq_decide_of_sameWithin`.
-/

/-- The depth of right operands up to which source text is written. -/
def maxSourceDepth : Nat := 329

/-- The depth of right operands up to which listings are written. -/
def maxDumpDepth : Nat := 980

/-- The source text of a tree that is not too deep for it. -/
def source? (e : Expr) : Except Excess String :=
  if e.operandDepth ≤ maxSourceDepth then .ok e.source else .error .depth

/-- The listing form of a tree that is not too deep for it. -/
def dump? (e : Expr) : Except Excess String :=
  if e.operandDepth ≤ maxDumpDepth then .ok e.dump else .error .depth

/-! ### Comparing -/

/-- The number of levels that a comparison goes down. -/
def maxComparedLevels : Nat := 330

/-- **Whether two trees are one**, asked from their roots down through at most so many
levels. An operator is compared before its operands, and the left operand before the right
one. -/
def sameWithin : (levels : Nat) → Expr → Expr → Except Excess Bool
  | 0, _, _ => .error .depth
  | _ + 1, atom a, atom a' => .ok (a = a')
  | levels + 1, neg e, neg e' => sameWithin levels e e'
  | levels + 1, bin op left right, bin op' left' right' =>
    if op = op' then
      match sameWithin levels left left' with
      | .ok true => sameWithin levels right right'
      | other => other
    else .ok false
  | _ + 1, _, _ => .ok false

/-- Whether two trees are one, unless they agree to a depth that is too great. -/
def same? (a b : Expr) : Except Excess Bool :=
  sameWithin maxComparedLevels a b

/-- A comparison that gives an answer gives the right one. -/
theorem eq_decide_of_sameWithin {levels : Nat} {a b : Expr} {v : Bool}
    (h : sameWithin levels a b = .ok v) : v = decide (a = b) := by
  fun_induction sameWithin levels a b generalizing v with
  | case1 => cases h
  | case2 => cases h; simp
  | case3 levels e e' ih => simp [ih h]
  | case4 levels left right op' left' right' hl ihl ihr =>
    have := ihl hl
    simp_all
  | case5 levels left right op' left' right' hl ihl =>
    cases v with
    | true => exact absurd h hl
    | false => simp_all
  | case6 => cases h; simp_all
  | case7 levels a b ha hn hb =>
    cases h
    cases a <;> cases b <;> simp_all
    exact absurd rfl (hb _ _ _ _ _ _ rfl rfl rfl rfl rfl)

end Expr

end Readout
