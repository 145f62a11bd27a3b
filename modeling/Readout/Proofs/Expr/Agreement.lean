import Readout.Proofs.Expr.Evaluation

/-!
# What an expression depends on

Evaluation asks an environment about the names of an expression and wraps the answers to
words. So it cannot tell environments apart that answer the same modulo 2 ^ 64 where it looks:
identifiers of a scope are looked for in that scope, bare names among the registers, and among
the symbols only if there is no register (`Readout.Expr.Agrees`).

Environments that agree on an expression give the same run, questions included, however deep
the expression nests (`Readout.Expr.eval_congr`). This goes along the spine, as evaluation does:
the leaves of an expression are the one at the bottom of its spine and those of the right
operands (`Readout.Expr.leaves_spine`).
-/

namespace Readout

/-! ### Agreement -/

/-- **Answers that are the same**: there is none, or they are the same word. -/
def SameAnswer (x y : Option ℤ) : Prop :=
  x.map (· % 2 ^ 64) = y.map (· % 2 ^ 64)

/-- **Environments agree on a leaf** if what it looks for there is answered the same. There is
no need to agree on a symbol that a register of its name hides. -/
def Atom.Agrees (env env' : Env) : Atom → Prop
  | const _ => True
  | bare name => SameAnswer (env ⟨.register, name⟩) (env' ⟨.register, name⟩) ∧
      (env ⟨.register, name⟩ = none → SameAnswer (env ⟨.symbol, name⟩) (env' ⟨.symbol, name⟩))
  | qualified scope name => SameAnswer (env ⟨scope, name⟩) (env' ⟨scope, name⟩)

/-- **Environments agree on an expression** if they agree on its leaves. -/
def Expr.Agrees (env env' : Env) (e : Expr) : Prop :=
  ∀ a ∈ e.leaves, a.Agrees env env'

instance (x y : Option ℤ) : Decidable (SameAnswer x y) :=
  inferInstanceAs (Decidable (x.map (· % 2 ^ 64) = y.map (· % 2 ^ 64)))

instance (env env' : Env) : DecidablePred (Atom.Agrees env env')
  | .const _ => inferInstanceAs (Decidable True)
  | .bare name =>
    inferInstanceAs (Decidable (SameAnswer (env ⟨.register, name⟩) (env' ⟨.register, name⟩) ∧
      (env ⟨.register, name⟩ = none → SameAnswer (env ⟨.symbol, name⟩) (env' ⟨.symbol, name⟩))))
  | .qualified scope name =>
    inferInstanceAs (Decidable (SameAnswer (env ⟨scope, name⟩) (env' ⟨scope, name⟩)))

instance (env env' : Env) : DecidablePred (Expr.Agrees env env') := fun e =>
  inferInstanceAs (Decidable (∀ a ∈ e.leaves, a.Agrees env env'))

variable {env env' : Env}

theorem Word.wrap_eq_wrap_iff {n m : ℤ} : wrap n = wrap m ↔ n % 2 ^ 64 = m % 2 ^ 64 := by
  rw [← UInt64.toNat_inj, ← Int.natCast_inj, toNat_wrap, toNat_wrap]

namespace SameAnswer

/-- Reducing the answers makes no difference. -/
theorem map_emod (x : Option ℤ) : SameAnswer (x.map (· % 2 ^ 64)) x := by
  cases x with
  | none => rfl
  | some n => exact congrArg some (Int.emod_emod_of_dvd n (dvd_refl _))

variable {x y : Option ℤ}

/-- Either both are missing, or both are the same word. -/
theorem none_or_some (h : SameAnswer x y) : (x = none ∧ y = none) ∨
    ∃ n m, x = some n ∧ y = some m ∧ Word.wrap n = Word.wrap m := by
  cases x with
  | none =>
    cases y with
    | none => exact .inl ⟨rfl, rfl⟩
    | some m => cases h
  | some n =>
    cases y with
    | none => cases h
    | some m => exact .inr ⟨n, m, rfl, rfl, Word.wrap_eq_wrap_iff.2 (Option.some.inj h)⟩

end SameAnswer

/-! ### Leaves -/

/-- A question with the same answer leads to the same run, if runs without an answer do. -/
theorem Run.resolve_congr {q : Query} {x x' : Run Word} (h : SameAnswer (env q) (env' q))
    (hx : env q = none → x = x') : Run.resolve env q x = Run.resolve env' q x' := by
  unfold resolve ask andThen
  rcases h.none_or_some with ⟨hnone, hnone'⟩ | ⟨n, m, hsome, hsome', hwrap⟩
  · simp only [hnone, hnone', hx hnone]
  · simp only [hsome, hsome', hwrap]

theorem Atom.eval_congr {a : Atom} (h : a.Agrees env env') : a.eval env = a.eval env' := by
  cases a with
  | const v => rfl
  | bare name =>
    exact Run.resolve_congr h.1 fun hnone => Run.resolve_congr (h.2 hnone) fun _ => rfl
  | qualified scope name => exact Run.resolve_congr h fun _ => rfl

/-! ### Expressions -/

/-- The leaves that a link adds to those below it. -/
def Link.leaves : Link → List Atom
  | neg => []
  | apply _ right => right.leaves

theorem Link.leaves_foldl_above (links : List Link) (e : Expr) :
    (links.foldl above e).leaves = e.leaves ++ links.flatMap leaves := by
  induction links generalizing e with
  | nil => exact (List.append_nil _).symm
  | cons l links ih =>
    have habove : (l.above e).leaves = e.leaves ++ l.leaves := by
      cases l with
      | neg => exact (List.append_nil _).symm
      | apply op right => rfl
    rw [List.foldl_cons, ih, habove, List.flatMap_cons, List.append_assoc]

namespace Expr

/-- **The leaves of an expression** are the one at the bottom of its spine, and those of the
links above. -/
theorem leaves_spine (e : Expr) :
    e.leaves = e.spine.leaf :: e.spine.links.flatMap Link.leaves := by
  have hwhole := Link.leaves_foldl_above e.spine.links (.atom e.spine.leaf)
  rwa [← Spine.toExpr, Spine.toExpr_spine] at hwhole

theorem evalWithin_congr {e : Expr} (h : e.Agrees env env') (depth : ℕ) :
    e.evalWithin env depth = e.evalWithin env' depth := by
  induction depth generalizing e with
  | zero => rfl
  | succ depth ih =>
    rw [Agrees, leaves_spine, List.forall_mem_cons] at h
    obtain ⟨hleaf, hlinks⟩ := h
    have hright : evalLinks (Expr.evalWithin env depth) e.spine.links =
        evalLinks (Expr.evalWithin env' depth) e.spine.links :=
      evalLinks_congr fun op right hm => ih fun a ha => hlinks a (List.mem_flatMap.2 ⟨_, hm, ha⟩)
    rw [evalWithin, evalWithin, Atom.eval_congr hleaf, hright]

/-- **Evaluation depends only on what environments agree on.** -/
theorem eval_congr {e : Expr} (h : e.Agrees env env') : e.eval env = e.eval env' :=
  evalWithin_congr h maxOperandDepth

theorem tryEval_congr {e : Expr} (h : e.Agrees env env') : e.tryEval env = e.tryEval env' := by
  rw [tryEval, tryEval, eval_congr h]

/-- Environments with the same answers everywhere agree on every expression. -/
theorem agrees_of_forall (h : ∀ q, SameAnswer (env q) (env' q)) (e : Expr) :
    e.Agrees env env' := by
  intro a _
  cases a with
  | const v => trivial
  | bare name => exact ⟨h _, fun _ => h _⟩
  | qualified scope name => exact h _

/-- **A hidden symbol does not matter**: environments that differ in a symbol only, one that a
register of the same name hides, agree on every expression that does not ask for that very
symbol. -/
theorem agrees_of_hidden (name : String) (hhidden : env ⟨.register, name⟩ ≠ none)
    (h : ∀ q, q ≠ ⟨.symbol, name⟩ → env q = env' q) {e : Expr}
    (he : .qualified .symbol name ∉ e.leaves) : e.Agrees env env' := by
  intro a ha
  cases a with
  | const v => trivial
  | bare other =>
    refine ⟨congrArg _ (h _ (by simp)), fun hnone => congrArg _ (h _ ?_)⟩
    rintro heq
    cases heq
    exact hhidden hnone
  | qualified scope other =>
    refine congrArg _ (h _ ?_)
    rintro heq
    cases heq
    exact he ha

end Expr

end Readout
