import Readout.Numeral.Literal

/-!
# Expressions

The trees of expressions (`Readout.Expr`), and three ways to look at them: along the left spine
(`Readout.Expr.spine`), as source text with the fewest parentheses (`Readout.Expr.source`), and as
nested lists (`Readout.Expr.dump`).
-/

namespace Readout

/-! ### Expressions over registers and symbols

An expression combines 64-bit words – constants, and the values of registers and
symbols – by wrapping arithmetic and by shifts. Here are the trees
(`Readout.Expr`), their operators (`Readout.Op`) with the meaning of each on
words, and the two namespaces in which a name can be looked up
(`Readout.Scope`).

Names in trees are arbitrary texts here: what a name may look like is a matter
of the lexer and of the tables, not of the trees.
-/

/-- The values of the language: arithmetic on them wraps modulo 2 ^ 64. -/
abbrev Word := UInt64

namespace Word

/-- The number of values. -/
def count : Nat := UInt64.size

/-- An integer reduced to a word. -/
def wrap (n : Int) : Word := UInt64.ofNat (n % count).toNat

/-- Whether an integer is a word as it stands. -/
def fits (n : Int) : Bool := 0 ≤ n && n < count

end Word

/-- The namespaces of identifiers. -/
inductive Scope
  /-- The registers. -/
  | register
  /-- The symbols. -/
  | symbol
  deriving DecidableEq, Repr, Inhabited

namespace Scope

/-- The word before the double colon that selects a scope. -/
def keyword : Scope → String
  | register => "reg"
  | symbol => "sym"

/-- The scope that a word selects. -/
def ofKeyword? (word : String) : Option Scope :=
  if word = "reg" then some register
  else if word = "sym" then some symbol
  else none

theorem ofKeyword?_keyword (s : Scope) : ofKeyword? s.keyword = some s := by
  cases s <;> rfl

theorem keyword_of_ofKeyword? {word : String} {s : Scope} (h : ofKeyword? word = some s) :
    s.keyword = word := by
  unfold ofKeyword? at h
  split at h
  · cases h; exact Eq.symm ‹_›
  · split at h
    · cases h; exact Eq.symm ‹_›
    · cases h

end Scope

/-- The binary operators. -/
inductive Op
  /-- Wrapping addition. -/
  | add
  /-- Wrapping subtraction. -/
  | sub
  /-- Wrapping multiplication. -/
  | mul
  /-- Shift to the left. -/
  | shl
  /-- Shift to the right, filling with zeros. -/
  | shr
  deriving DecidableEq, Repr, Inhabited

namespace Op

/-- How an operator is written. -/
def sign : Op → String
  | add => "+"
  | sub => "-"
  | mul => "*"
  | shl => "<<"
  | shr => ">>"

/-- The operator with a given sign. -/
def ofSign? (text : String) : Option Op :=
  [add, sub, mul, shl, shr].find? (·.sign = text)

/-- Binding strength: shifts bind loosest and products tightest. -/
def strength : Op → Nat
  | shl | shr => 0
  | add | sub => 1
  | mul => 2

/-- **The meaning of an operator on words.** A shift by the width of a word or
more leaves nothing. -/
def apply : Op → Word → Word → Word
  | add, a, b => a + b
  | sub, a, b => a - b
  | mul, a, b => a * b
  | shl, a, b => if 64 ≤ b then 0 else a <<< b
  | shr, a, b => if 64 ≤ b then 0 else a >>> b

end Op

/-- The leaves of expressions. -/
inductive Atom
  /-- An integer literal. -/
  | const (value : Word)
  /-- A bare identifier: a register if there is one of that name, a symbol
  otherwise. -/
  | bare (name : String)
  /-- An identifier of one scope. -/
  | qualified (scope : Scope) (name : String)
  deriving DecidableEq, Repr, Inhabited

/-- **Expressions.** -/
inductive Expr
  /-- A leaf. -/
  | atom (a : Atom)
  /-- Two's-complement negation. -/
  | neg (operand : Expr)
  /-- A binary operation. -/
  | bin (op : Op) (left right : Expr)
  deriving DecidableEq, Repr, Inhabited

/-! ### The left spine of an expression

Chains of operators such as `1 + 2 - 3` and runs of signs such as `---x` grow a
tree along its left operands and its negated operands. The spine is that path:
the leaf at its bottom, and above it the links that are met on the way up
(`Readout.Expr.spine`). What is done with an expression along its spine recurses
only into right operands, and those nest no deeper than the parentheses of the
text allow.

Nothing is lost by the split: `Readout.Spine.toExpr_spine` puts the tree together
again.
-/

/-- One step up the spine. -/
inductive Link
  /-- What lies below is negated. -/
  | neg
  /-- What lies below is the left operand of an operator. -/
  | apply (op : Op) (right : Expr)
  deriving DecidableEq, Repr, Inhabited

namespace Link

/-- The tree above a link, from the tree below it. -/
def above : Expr → Link → Expr
  | below, neg => .neg below
  | below, apply op right => .bin op below right

/-- The name of a link in listings: the sign of its operator, or a word for
negation. -/
def name : Link → String
  | neg => "neg"
  | apply op _ => op.sign

end Link

/-- **A left spine**: the leaf, and the links above it, innermost first. -/
structure Spine where
  /-- The leaf at the bottom. -/
  leaf : Atom
  /-- The links above the leaf, innermost first. -/
  links : List Link
  deriving DecidableEq, Repr, Inhabited

/-- Walks down the spine of an expression, with the links above it already
collected. -/
def Expr.spineUnder : Expr → List Link → Spine
  | .atom a, links => ⟨a, links⟩
  | .neg e, links => e.spineUnder (.neg :: links)
  | .bin op left right, links => left.spineUnder (.apply op right :: links)

/-- The left spine of an expression. -/
def Expr.spine (e : Expr) : Spine :=
  e.spineUnder []

/-- The greatest number of right-operand steps on a way down the tree. -/
def Expr.operandDepth : Expr → Nat
  | .atom _ => 0
  | .neg e => e.operandDepth
  | .bin _ left right => max left.operandDepth (right.operandDepth + 1)

/-- The expression that has a given left spine. -/
def Spine.toExpr (s : Spine) : Expr :=
  s.links.foldl Link.above (.atom s.leaf)

theorem Spine.toExpr_spineUnder (e : Expr) (links : List Link) :
    (e.spineUnder links).toExpr = links.foldl Link.above e := by
  induction e generalizing links with
  | atom a => rfl
  | neg e ih => exact ih _
  | bin op left right ihl _ => exact ihl _

/-- The spine determines the expression. -/
theorem Spine.toExpr_spine (e : Expr) : e.spine.toExpr = e :=
  Spine.toExpr_spineUnder e []

/-! ### Expressions as source text

`Readout.Expr.source` writes an expression in the infix form that the parser
reads, with only the parentheses that the grammar needs. Operators group to the
left, so a left operand is parenthesised if its operator binds looser, and a
right operand already if it binds no tighter; below a negation every binary
operation is.

Constants below ten are written in decimal and all others in hexadecimal.
-/

/-- Puts a text in parentheses where asked to. -/
def parenthesised (needed : Bool) (text : String) : String :=
  if needed then "(" ++ text ++ ")" else text

/-- The source text of a leaf. -/
def Atom.source : Atom → String
  | const v =>
    let n := Int.ofNat v.toNat
    if n < 10 then Numeral.decimalText n else Numeral.hexText n
  | bare name => name
  | qualified scope name => scope.keyword ++ "::" ++ name

namespace Expr

/-- Whether an expression is a binary operation. -/
def isBinary : Expr → Bool
  | bin .. => true
  | _ => false

/-- Whether an expression needs parentheses as the left operand of an
operator. -/
def guardedLeft (op : Op) : Expr → Bool
  | bin inner _ _ => inner.strength < op.strength
  | _ => false

/-- Whether an expression needs parentheses as the right operand of an
operator. -/
def guardedRight (op : Op) : Expr → Bool
  | bin inner _ _ => inner.strength ≤ op.strength
  | _ => false

/-- **The source text of an expression.** -/
def source : Expr → String
  | atom a => a.source
  | neg e => "-" ++ parenthesised e.isBinary e.source
  | bin op left right =>
    parenthesised (left.guardedLeft op) left.source ++ " " ++ op.sign ++ " " ++
      parenthesised (right.guardedRight op) right.source

end Expr

/-! ### Expressions as nested lists

The listing form of an expression shows its tree without any convention on
precedence: an operator before its operands, every node in parentheses, and the
kind of every leaf spelled out, as in `(+ (const 1) (register-id x))`.
-/

/-- The word that marks an identifier of a scope in a listing. -/
def Scope.listingName : Scope → String
  | register => "register-id"
  | symbol => "symbol-id"

/-- The listing form of a leaf. -/
def Atom.dump : Atom → String
  | const v => "(const " ++ Numeral.decimalText v.toNat ++ ")"
  | bare name => "(unscoped-id " ++ name ++ ")"
  | qualified scope name => "(" ++ scope.listingName ++ " " ++ name ++ ")"

/-- **The listing form of an expression.** -/
def Expr.dump : Expr → String
  | atom a => a.dump
  | neg e => "(- " ++ e.dump ++ ")"
  | bin op left right => "(" ++ op.sign ++ " " ++ left.dump ++ " " ++ right.dump ++ ")"

end Readout
