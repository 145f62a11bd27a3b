import Readout.Expr.Eval
import Readout.Expr.Basic
import Readout.Expr.Reading

/-!
# Sessions over changing bindings

A session works on bindings step by step: it binds and looks up names, evaluates
source texts, and holds trees that were read earlier in order to evaluate them
again after the bindings have changed. A step that fails leaves the session as it
was (`Readout.Session.step`).
-/

namespace Readout

/-- **A session**: the bindings, and the trees that are held by name. -/
structure Session where
  /-- The current bindings. -/
  bindings : Bindings
  /-- The trees that are held. -/
  held : Table Expr
  deriving Inhabited

/-- **What can be asked of a session.** Scopes are given by their words. -/
inductive Session.Step
  /-- Binds a name. -/
  | bind (scope name : String) (value : Int)
  /-- Looks a name up. -/
  | lookup (scope name : String)
  /-- Evaluates a source text. -/
  | eval (source : String)
  /-- Evaluates a source text and keeps the message of a failure. -/
  | attempt (source : String)
  /-- Reads a source text and holds the tree. -/
  | hold (slot source : String)
  /-- Evaluates a tree that is held. -/
  | run (slot : String)
  deriving DecidableEq, Repr, Inhabited

/-- What a step answers. -/
inductive Session.Answer
  /-- Nothing but the change itself. -/
  | done
  /-- What is bound to a name. -/
  | bound (value : Option Word)
  /-- The value of an expression. -/
  | value (v : Word)
  /-- What came of an attempt. -/
  | attempted (a : Attempt)
  /-- The tree that is held from now on. -/
  | tree (e : Expr)
  deriving DecidableEq, Repr, Inhabited

/-- Why a step fails. -/
inductive Session.Failure
  /-- The word selects no scope. -/
  | badScope (word : String)
  /-- The source text cannot be read. -/
  | unreadable (source : String) (error : ReadError)
  /-- The expression has no value. -/
  | valueless (error : EvalError)
  /-- No tree is held under that name. -/
  | notHeld (slot : String)
  deriving DecidableEq, Repr, Inhabited

/-- What is said about a word that selects no scope. -/
def badScopeMessage (word : String) : String :=
  Text.quoted word ++ " is not a valid Scope"

namespace Session

/-- The scope that a word selects. -/
def scopeOf (word : String) : Except Failure Scope :=
  match Scope.ofKeyword? word with
  | some s => .ok s
  | none => .error (.badScope word)

/-- The tree of a source text. -/
def read (source : String) : Except Failure Expr :=
  match parse source with
  | .ok e => .ok e
  | .error e => .error (.unreadable source e)

/-- The value of a tree under the current bindings. -/
def value (s : Session) (e : Expr) : Except Failure Word :=
  match (e.eval s.bindings.env).outcome with
  | .ok v => .ok v
  | .error err => .error (.valueless err)

/-- What a step answers, and the session after it, if it succeeds. -/
def step? (s : Session) : Step → Except Failure (Answer × Session)
  | .bind scope name v => do
    let sc ← scopeOf scope
    return (.done, { s with bindings := s.bindings.bind sc name v })
  | .lookup scope name => do
    let sc ← scopeOf scope
    return (.bound (s.bindings.lookup ⟨sc, name⟩), s)
  | .eval source => do
    let e ← read source
    let v ← s.value e
    return (.value v, s)
  | .attempt source => do
    let e ← read source
    return (.attempted (e.tryEval s.bindings.env), s)
  | .hold slot source => do
    let e ← read source
    return (.tree e, { s with held := s.held.insert slot e })
  | .run slot =>
    match s.held.find? slot with
    | none => .error (.notHeld slot)
    | some e => do
      let v ← s.value e
      return (.value v, s)

/-- **One step**: its answer or its failure, and the session after it. -/
def step (s : Session) (st : Step) : Except Failure Answer × Session :=
  match s.step? st with
  | .ok (a, s') => (.ok a, s')
  | .error e => (.error e, s)

/-- **A run of steps**: what each of them gave, with the session after it. -/
def run : Session → List Step → List (Except Failure Answer × Session)
  | _, [] => []
  | s, st :: steps =>
    let here := s.step st
    here :: run here.2 steps

end Session

end Readout
