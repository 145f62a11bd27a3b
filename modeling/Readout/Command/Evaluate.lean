import Readout.Context
import Readout.Expr.Basic
import Readout.Expr.Reading

/-!
# Evaluating on request

A request holds the text of an expression and says where its names get their words
from: a context file, and assignments that come after it. What can go wrong is looked
at in a fixed order (`Readout.Request.answer`): the expression has to be readable
before anything else; a request for the tree is then answered without a context; the
file comes before the assignments, those to registers before those to symbols; and
only with all of them is the expression evaluated.
-/

namespace Readout

/-- **A request** to evaluate an expression or to show its tree. -/
structure Request where
  /-- The text of the expression. -/
  expression : String
  /-- The path of the context file. -/
  contextFile : Option String
  /-- Assignments to registers. -/
  registers : List String
  /-- Assignments to symbols. -/
  symbols : List String
  /-- Whether the tree is wanted and not the value. -/
  showTree : Bool
  /-- Whether the value is wanted in decimal. -/
  decimal : Bool
  deriving DecidableEq, Repr, Inhabited

/-- **Why a request has no answer.** -/
inductive Complaint
  /-- The expression cannot be read. -/
  | unreadable (what : Fault) (place : Place)
  /-- There is no context in the file. -/
  | noContext (path : String) (fault : ContextFile.Fault)
  /-- The system refuses to read the file. -/
  | refused (path : String) (why : Refusal)
  /-- An assignment is bad. -/
  | badAssignment (fault : Assignment.Fault)
  /-- The expression has no value. -/
  | valueless (error : EvalError)
  /-- The expression or the file goes beyond a limit. -/
  | excess (what : Excess)
  deriving DecidableEq, Repr, Inhabited

/-- What is said about a request without answer. -/
def Complaint.message : Complaint → String
  | unreadable what place => "Parse error: " ++ what.message ++ "\n" ++ place.excerpt
  | noContext path fault => "Error: " ++ fault.message path
  | refused path why => why.message path
  | badAssignment fault => "Error: " ++ fault.message
  | valueless error => "Evaluation error: " ++ error.message
  | excess what => what.message

namespace Request

/-- The tree of the expression. -/
def tree (r : Request) : Except Complaint Expr :=
  match parse r.expression with
  | .ok e => .ok e
  | .error (.fault what pos) => .error (.unreadable what ⟨r.expression, pos⟩)
  | .error (.oversized digits) => .error (.excess (.digits digits))

/-- The bindings that a request starts from: those of its file, or none. -/
def fileBindings (files : Files) (r : Request) : Except Complaint Bindings :=
  match r.contextFile with
  | none => .ok .empty
  | some path =>
    match (ContextFile.load (files path)).outcome with
    | .ok b => .ok b
    | .error (.excess what) => .error (.excess what)
    | .error (.refused why) => .error (.refused path why)
    | .error fault => .error (.noContext path fault)

/-- Carries out assignments in a scope. -/
def override (scope : Scope) (texts : List String) (b : Bindings) : Except Complaint Bindings :=
  match b.assign scope texts with
  | .ok b' => .ok b'
  | .error fault => .error (.badAssignment fault)

/-- The bindings that the expression is evaluated under. -/
def bindings (files : Files) (r : Request) : Except Complaint Bindings := do
  let b ← r.fileBindings files
  let b ← override .register r.registers b
  override .symbol r.symbols b

/-- The value of a tree under the bindings of a request. -/
def value (files : Files) (r : Request) (e : Expr) : Except Complaint Word := do
  let b ← r.bindings files
  match (e.eval b.env).outcome with
  | .ok v => return v
  | .error error => .error (.valueless error)

/-- The text of a value: hexadecimal unless decimal is wanted. -/
def written (r : Request) (v : Word) : String :=
  if r.decimal then Numeral.decimalText v.toNat else Numeral.hexText v.toNat

/-- **The line that answers a request.** -/
def answer (files : Files) (r : Request) : Except Complaint String := do
  let e ← r.tree
  if r.showTree then return e.dump
  let v ← r.value files e
  return r.written v

/-- The path of the context file, if the file is looked at. -/
def consultedFile (r : Request) : Option String :=
  match r.tree, r.showTree with
  | .ok _, false => r.contextFile
  | _, _ => none

/-- What is said about the context file besides, if it is looked at. -/
def warnings (files : Files) (r : Request) : List String :=
  match r.consultedFile with
  | some path => (ContextFile.warningAbout path (ContextFile.load (files path)).ignored).toList
  | none => []

end Request

end Readout
