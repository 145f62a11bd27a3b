import Readout.Expr.Basic
import Readout.Table
import Readout.Text

/-!
# Evaluation and bindings

An expression has a value in an environment (`Readout.Expr.eval`). The environments of the program
are tables in which names of two scopes are bound to words (`Readout.Bindings`).
-/

namespace Readout

/-! ### Evaluation

An expression has a value in an environment that resolves names
(`Readout.Env`). Evaluation asks the environment one question after the other,
from left to right, and stops at the first name that it does not know; the
questions are part of the result (`Readout.Run`), so that their order can be
observed. What an environment answers is an arbitrary integer, which is wrapped
to a word.

`Readout.Expr.evalWithin` goes up the left spine in a loop and recurses into
right operands only, down to a given depth; `Readout.maxOperandDepth` is the
depth that `Readout.Expr.eval` allows. Beside it stands the plain recursive
reading, without a bound: `Readout.Expr.meaning`.
-/

/-- **A question to an environment**: a name, and the scope to look in. -/
structure Query where
  /-- The scope to look in. -/
  scope : Scope
  /-- The name. -/
  name : String
  deriving DecidableEq, Repr, Inhabited

/-- A question as listings show it. -/
def Query.describe (q : Query) : String :=
  q.scope.keyword ++ "::" ++ q.name

/-- **An environment**: what is known about names. -/
abbrev Env := Query → Option Int

/-- The environment that knows the names of a list, by their last entry in it. -/
def Env.ofList (known : List (Query × Int)) : Env := fun q =>
  known.reverse.lookup q

/-- **Why an expression has no value.** -/
inductive EvalError
  /-- A bare name is neither a register nor a symbol. -/
  | unknownBare (name : String)
  /-- A name is not in its scope. -/
  | unknownQualified (name : String)
  /-- Right operands nest too deep. -/
  | tooDeep
  deriving DecidableEq, Repr, Inhabited

namespace EvalError

/-- What is said about an expression without value. -/
def message : EvalError → String
  | unknownBare name => "unrecognised symbol name '" ++ name ++ "'"
  | unknownQualified name => "unrecognised identifier name '" ++ name ++ "'"
  | tooDeep => "expression too deeply nested"

/-- The name that is to blame. -/
def name? : EvalError → Option String
  | unknownBare name => some name
  | unknownQualified name => some name
  | tooDeep => none

end EvalError

/-- **A run of the evaluator**: the questions asked, in order, and what came of
it. -/
structure Run (α : Type) where
  /-- The questions, the first one first. -/
  asked : List Query
  /-- A value, or why there is none. -/
  outcome : Except EvalError α

namespace Run

variable {α β : Type}

/-- A run that asks nothing. -/
def done (a : α) : Run α := ⟨[], .ok a⟩

/-- A run that fails at once. -/
def fail (e : EvalError) : Run α := ⟨[], .error e⟩

/-- One run after the other, unless the first one fails. -/
def andThen (x : Run α) (f : α → Run β) : Run β :=
  match x.outcome with
  | .ok a => ⟨x.asked ++ (f a).asked, (f a).outcome⟩
  | .error e => ⟨x.asked, .error e⟩

/-- A single question. -/
def ask (env : Env) (q : Query) : Run (Option Int) :=
  ⟨[q], .ok (env q)⟩

/-- Asks about a name, and fails if it is not known. -/
def resolve (env : Env) (q : Query) (otherwise : Run Word) : Run Word :=
  (ask env q).andThen fun
    | some n => done (Word.wrap n)
    | none => otherwise

end Run

/-- The value of a leaf. A bare name is looked for among the registers first. -/
def Atom.eval (env : Env) : Atom → Run Word
  | const v => .done v
  | bare name =>
    .resolve env ⟨.register, name⟩ (.resolve env ⟨.symbol, name⟩ (.fail (.unknownBare name)))
  | qualified scope name => .resolve env ⟨scope, name⟩ (.fail (.unknownQualified name))

/-- The value above a link, from the value below it and a way to evaluate right
operands. -/
def Link.eval (operand : Expr → Run Word) (below : Word) : Link → Run Word
  | neg => .done (-below)
  | apply op right => (operand right).andThen fun v => .done (op.apply below v)

/-- The value above several links. -/
def evalLinks (operand : Expr → Run Word) : List Link → Word → Run Word
  | [], below => .done below
  | l :: links, below => (l.eval operand below).andThen (evalLinks operand links)

/-- **Evaluation along the left spine**, with right operands nested less deep than a
bound. The leaf of a level is evaluated before the level below its right operands
is entered. -/
def Expr.evalWithin (env : Env) : (depth : Nat) → Expr → Run Word
  | 0, _ => .fail .tooDeep
  | depth + 1, e =>
    (e.spine.leaf.eval env).andThen (evalLinks (Expr.evalWithin env depth) e.spine.links)

/-- The depth of right operands that evaluation gives up at. -/
def maxOperandDepth : Nat := 980

/-- **The value of an expression in an environment.** -/
def Expr.eval (env : Env) (e : Expr) : Run Word :=
  e.evalWithin env maxOperandDepth

/-- **The recursive reading of an expression**: operands from left to right, then
the operator. -/
def Expr.meaning (env : Env) : Expr → Run Word
  | .atom a => a.eval env
  | .neg e => (e.meaning env).andThen fun v => .done (-v)
  | .bin op left right =>
    (left.meaning env).andThen fun a => (right.meaning env).andThen fun b => .done (op.apply a b)

/-! ### Results that carry no failure -/

/-- **What came of an attempt to evaluate**: a value or a message. -/
structure Attempt where
  /-- The value, if there is one. -/
  value : Option Word
  /-- What went wrong, if something did. -/
  error : Option String
  deriving DecidableEq, Repr, Inhabited

/-- Whether an attempt gave a value. -/
def Attempt.ok (a : Attempt) : Bool :=
  a.value.isSome

/-- Evaluates an expression and keeps the message if that fails. -/
def Expr.tryEval (env : Env) (e : Expr) : Attempt :=
  match (e.eval env).outcome with
  | .ok v => ⟨some v, none⟩
  | .error err => ⟨none, some err.message⟩

/-! ### Bindings of registers and symbols

Bindings give words to names in the two scopes. A name is bound to an integer and
holds that integer wrapped to a word; binding it again replaces the word
(`Readout.Bindings.lookup_bind`).
-/

/-- **Bindings**: the words of the registers and of the symbols. -/
structure Bindings where
  /-- The registers. -/
  registers : Table Word
  /-- The symbols. -/
  symbols : Table Word
  deriving Inhabited

namespace Bindings

/-- No bindings at all. -/
def empty : Bindings := ⟨.empty, .empty⟩

/-- Bindings from two tables of integers. -/
def ofTables (registers symbols : Table Int) : Bindings :=
  ⟨registers.map Word.wrap, symbols.map Word.wrap⟩

/-- The table of a scope. -/
def table (b : Bindings) : Scope → Table Word
  | .register => b.registers
  | .symbol => b.symbols

/-- Binds a name in a scope. -/
def bind (b : Bindings) (scope : Scope) (name : String) (value : Int) : Bindings :=
  match scope with
  | .register => { b with registers := b.registers.insert name (Word.wrap value) }
  | .symbol => { b with symbols := b.symbols.insert name (Word.wrap value) }

/-- The word of a name in a scope. -/
def lookup (b : Bindings) (q : Query) : Option Word :=
  (b.table q.scope).find? q.name

/-- The environment that answers from bindings. -/
def env (b : Bindings) : Env := fun q =>
  (b.lookup q).map fun v => Int.ofNat v.toNat

/-- A table as listings show it. -/
def describeTable (t : Table Word) : String :=
  let shown := t.entries.map fun p => Text.quoted p.1 ++ ": " ++ Numeral.decimalText p.2.toNat
  "\x7b" ++ ", ".intercalate shown ++ "\x7d"

/-- Bindings as listings show them, in order of entry. -/
def describe (b : Bindings) : String :=
  "MappingContext(registers=" ++ describeTable b.registers ++ ", symbols=" ++
    describeTable b.symbols ++ ")"

/-- **Binding changes one name of one scope.** -/
theorem lookup_bind (b : Bindings) (scope : Scope) (name : String) (value : Int) (q : Query) :
    (b.bind scope name value).lookup q =
      if q = ⟨scope, name⟩ then some (Word.wrap value) else b.lookup q := by
  obtain ⟨s, n⟩ := q
  cases scope <;> cases s <;> simp [bind, lookup, table, Table.find?_insert]

end Bindings

end Readout
