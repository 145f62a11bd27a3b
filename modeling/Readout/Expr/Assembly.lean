import Readout.Expr.Walk
import Readout.Expr.Eval
import Readout.Expr.Reading
import Readout.Validation

/-!
# Trees built by hand

Trees need not come from a source text: they can be put together from parts, in
any shape that the type allows. What comes from outside is then checked part by
part – a constant must be a word, a scope and an operator must be known by their
words – while names are taken as they are.

An assembly (`Readout.Assembly.run`) is a program for a stack: leaves push, an
operator takes its right operand off the stack first. A plain text may lie on the
stack too; it is no expression, and whatever needs one refuses it. So does what would
have to go too deep into a tree (`Readout.Assembly.ItemFault`).
-/

namespace Readout

namespace Assembly

/-- What lies on the stack. -/
inductive Item
  /-- A tree. -/
  | tree (e : Expr)
  /-- A text, which is no tree. -/
  | text (s : String)
  deriving DecidableEq, Repr, Inhabited

/-- **The instructions.** -/
inductive Step
  /-- Pushes a constant. -/
  | const (value : Int)
  /-- Pushes a bare identifier. -/
  | bare (name : String)
  /-- Pushes an identifier of a scope, which is given by its word. -/
  | qualified (scope name : String)
  /-- Negates the top. -/
  | neg
  /-- Joins the two topmost trees by an operator, which is given by its sign. -/
  | bin (op : String)
  /-- Pushes a text. -/
  | text (s : String)
  deriving DecidableEq, Repr, Inhabited

/-- Why an assembly cannot go on. -/
inductive Failure
  /-- A part is not admitted. -/
  | rejected (r : Rejection)
  /-- The stack does not hold the operands. -/
  | missingOperand
  deriving DecidableEq, Repr, Inhabited

/-- A constant, if it is a word. -/
def constant (value : Int) : Except Failure Atom :=
  if value < 0 then .error (.rejected ⟨"value", .below 0⟩)
  else if Word.fits value then .ok (.const (Word.wrap value))
  else .error (.rejected ⟨"value", .above (Word.count - 1)⟩)

/-- **One instruction** on a stack, the top of which comes first. -/
def step (stack : List Item) : Step → Except Failure (List Item)
  | .const value => do
    let a ← constant value
    return .tree (.atom a) :: stack
  | .bare name => .ok (.tree (.atom (.bare name)) :: stack)
  | .qualified scope name =>
    match Scope.ofKeyword? scope with
    | some s => .ok (.tree (.atom (.qualified s name)) :: stack)
    | none => .error (.rejected ⟨"scope", .notScope⟩)
  | .neg =>
    match stack with
    | .tree e :: rest => .ok (.tree (.neg e) :: rest)
    | _ => .error .missingOperand
  | .bin sign =>
    match stack with
    | .tree right :: .tree left :: rest =>
      match Op.ofSign? sign with
      | some op => .ok (.tree (.bin op left right) :: rest)
      | none => .error (.rejected ⟨"op", .notOp⟩)
    | _ => .error .missingOperand
  | .text s => .ok (.text s :: stack)

/-- **The item that a program leaves on top of the stack.** -/
def run (program : List Step) : Except Failure Item := do
  let stack ← program.foldlM step []
  match stack with
  | top :: _ => return top
  | [] => .error .missingOperand

/-- **Why an item does not give what is asked of it.** -/
inductive ItemFault
  /-- A text stands in the place of an expression. -/
  | notATree
  /-- The tree is too deep. -/
  | excess (what : Excess)
  deriving DecidableEq, Repr, Inhabited

/-- What is said then. -/
def ItemFault.message : ItemFault → String
  | notATree => "Unknown expression type: str"
  | excess what => what.message

namespace Item

/-- The tree of an item, if it is one. -/
def tree? : Item → Except ItemFault Expr
  | tree e => .ok e
  | text _ => .error .notATree

/-- The listing form of an item. -/
def dump? : Item → Except ItemFault String
  | tree e => e.dump?.mapError .excess
  | text _ => .error .notATree

/-- The source text of an item; a text is its own. -/
def source? : Item → Except ItemFault String
  | tree e => e.source?.mapError .excess
  | text s => .ok s

end Item

end Assembly

end Readout
