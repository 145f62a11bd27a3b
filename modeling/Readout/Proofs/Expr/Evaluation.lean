import Mathlib.Tactic.Ring
import Readout.Expr.Eval

/-!
# Evaluation along the spine is the recursive meaning

The evaluator never enters a left operand: it takes an expression apart into its left
spine, evaluates the leaf, and folds the links over the value, entering right operands
only. This file says that nobody can tell.

* **The loop is the recursion.** A run over the links above an expression continues the
  run of that expression to a run of the whole (`Readout.Run.meaning_foldl_above`), so the
  loop asks the same questions in the same order and comes to the same result, as long as
  right operands nest less deep than the bound (`Readout.Expr.evalWithin_eq_meaning`).
* **The recursion is arithmetic.** A run asks about the identifiers from left to right. If
  all are known, the result is the number that integer arithmetic modulo 2 ^ 64 gives; if
  not, the first unknown one ends the run and is named
  (`Readout.Expr.meaning_of_known`, `Readout.Expr.meaning_of_unknown`).

The words of the evaluator appear on the way only through the integers that they stand
for (`Readout.Op.toNat_apply`).
-/

namespace Readout

/-! ### Arithmetic on words is arithmetic modulo 2 ^ 64 -/

/-- **The operators on integers**: sums, differences and products are taken modulo
2 ^ 64, a shift to the left is a product with a power of two, and a shift to the right is
a quotient by one, rounded down. No amount is too large for a shift. -/
def Op.arith : Op → ℤ → ℤ → ℤ
  | add, a, b => (a + b) % 2 ^ 64
  | sub, a, b => (a - b) % 2 ^ 64
  | mul, a, b => a * b % 2 ^ 64
  | shl, a, b => a * 2 ^ b.toNat % 2 ^ 64
  | shr, a, b => a / 2 ^ b.toNat

namespace Word

theorem toNat_wrap (n : ℤ) : ((wrap n).toNat : ℤ) = n % 2 ^ 64 := by
  have hsize : (count : ℤ) = 2 ^ 64 := by decide
  rw [wrap, UInt64.toNat_ofNat', hsize]
  omega

theorem toNat_neg (a : Word) : ((-a).toNat : ℤ) = -(a.toNat : ℤ) % 2 ^ 64 := by
  have hlt := a.toNat_lt
  rw [UInt64.toNat_neg, show UInt64.size = 2 ^ 64 from rfl]
  omega

/-- A shift to the left by any amount multiplies by a power of two. -/
theorem toNat_shl (a b : Word) : (Op.shl.apply a b).toNat = a.toNat * 2 ^ b.toNat % 2 ^ 64 := by
  rw [Op.apply]
  split
  · -- a multiple of 2 ^ 64
    rename_i hge
    obtain ⟨k, hk⟩ := Nat.exists_eq_add_of_le (UInt64.le_iff_toNat_le.1 hge)
    rw [hk, show (64 : Word).toNat = 64 from rfl, pow_add, mul_left_comm, Nat.mul_mod_right]
    rfl
  · rename_i hlt
    have hsmall : b.toNat < 64 := Nat.lt_of_not_le fun h => hlt (UInt64.le_iff_toNat_le.2 h)
    rw [UInt64.toNat_shiftLeft, Nat.mod_eq_of_lt hsmall, Nat.shiftLeft_eq]

/-- A shift to the right by any amount divides by a power of two. -/
theorem toNat_shr (a b : Word) : (Op.shr.apply a b).toNat = a.toNat / 2 ^ b.toNat := by
  rw [Op.apply]
  split
  · rename_i hge
    have hlt : a.toNat < 2 ^ b.toNat :=
      a.toNat_lt.trans_le (Nat.pow_le_pow_right (by decide) (UInt64.le_iff_toNat_le.1 hge))
    rw [Nat.div_eq_of_lt hlt]
    rfl
  · rename_i hlt
    have hsmall : b.toNat < 64 := Nat.lt_of_not_le fun h => hlt (UInt64.le_iff_toNat_le.2 h)
    rw [UInt64.toNat_shiftRight, Nat.mod_eq_of_lt hsmall, Nat.shiftRight_eq_div_pow]

end Word

/-- **The operators on words are the operators on integers.** -/
theorem Op.toNat_apply (op : Op) (a b : Word) :
    ((op.apply a b).toNat : ℤ) = op.arith a.toNat b.toNat := by
  have ha := a.toNat_lt
  have hb := b.toNat_lt
  cases op with
  | add =>
    rw [apply, arith, UInt64.toNat_add]
    push_cast
    rfl
  | sub =>
    rw [apply, arith, UInt64.toNat_sub]
    omega
  | mul =>
    rw [apply, arith, UInt64.toNat_mul]
    push_cast
    rfl
  | shl =>
    rw [Word.toNat_shl, arith, Int.toNat_natCast]
    push_cast
    rfl
  | shr =>
    rw [Word.toNat_shr, arith, Int.toNat_natCast]
    push_cast
    rfl

/-! ### The loop is the recursion -/

namespace Run

variable {α β γ : Type}

@[simp] theorem andThen_done (x : Run α) : x.andThen done = x := by
  obtain ⟨asked, outcome⟩ := x
  cases outcome with
  | ok a => simp [andThen, done]
  | error e => rfl

theorem andThen_assoc (x : Run α) (f : α → Run β) (g : β → Run γ) :
    (x.andThen f).andThen g = x.andThen fun a => (f a).andThen g := by
  obtain ⟨asked, outcome⟩ := x
  cases outcome with
  | error e => rfl
  | ok a =>
    unfold andThen
    dsimp only
    cases (f a).outcome with
    | ok b => simp
    | error e => rfl

variable (env : Env)

/-- One link continues the run of what is below it to the run of what is above it. -/
theorem meaning_above (e : Expr) (l : Link) :
    (l.above e).meaning env = (e.meaning env).andThen (l.eval (Expr.meaning env)) := by
  cases l <;> rfl

/-- **The loop over the links is the recursion**: it continues the run of what is below
all of them to the run of the whole. -/
theorem meaning_foldl_above (links : List Link) (e : Expr) :
    (links.foldl Link.above e).meaning env =
      (e.meaning env).andThen (evalLinks (Expr.meaning env) links) := by
  induction links generalizing e with
  | nil => exact (andThen_done _).symm
  | cons l links ih =>
    rw [List.foldl_cons, ih, meaning_above, andThen_assoc]
    rfl

end Run

/-- The loop uses a way to evaluate right operands only on those in its links. -/
theorem evalLinks_congr {f g : Expr → Run Word} {links : List Link}
    (h : ∀ op right, Link.apply op right ∈ links → f right = g right) :
    evalLinks f links = evalLinks g links := by
  induction links with
  | nil => rfl
  | cons l links ih =>
    have htail := ih fun op right hm => h op right (List.mem_cons_of_mem l hm)
    funext below
    cases l with
    | neg => rw [evalLinks, evalLinks, htail]; rfl
    | apply op right =>
      rw [evalLinks, evalLinks, htail, Link.eval, Link.eval, h op right List.mem_cons_self]

namespace Expr

/-- Right operands on the spine nest less deep than the whole. -/
theorem operandDepth_lt_of_mem_spineUnder {e : Expr} {links : List Link} {op : Op} {right : Expr}
    (h : Link.apply op right ∈ (e.spineUnder links).links) :
    Link.apply op right ∈ links ∨ right.operandDepth < e.operandDepth := by
  induction e generalizing links with
  | atom a => exact Or.inl h
  | neg e ih =>
    rcases ih h with hm | hlt
    · rcases List.mem_cons.1 hm with heq | hm
      · cases heq
      · exact Or.inl hm
    · exact Or.inr hlt
  | bin op' left right' ihl _ =>
    rcases ihl h with hm | hlt
    · rcases List.mem_cons.1 hm with heq | hm
      · cases heq
        exact Or.inr (lt_of_lt_of_le (Nat.lt_succ_self _) (le_max_right _ _))
      · exact Or.inl hm
    · exact Or.inr (lt_of_lt_of_le hlt (le_max_left _ _))

/-- **Evaluation along the spine is the recursive reading**, for every bound that the
nesting of right operands stays below. -/
theorem evalWithin_eq_meaning (env : Env) {depth : ℕ} {e : Expr} (h : e.operandDepth < depth) :
    e.evalWithin env depth = e.meaning env := by
  induction depth generalizing e with
  | zero => exact absurd h (Nat.not_lt_zero _)
  | succ depth ih =>
    -- right operands have the smaller bound, which is enough for them
    have hright : evalLinks (Expr.evalWithin env depth) e.spine.links =
        evalLinks (Expr.meaning env) e.spine.links := by
      refine evalLinks_congr fun op right hm => ih ?_
      rcases operandDepth_lt_of_mem_spineUnder hm with hm | hlt
      · cases hm
      · omega
    have hwhole := Run.meaning_foldl_above env e.spine.links (.atom e.spine.leaf)
    rw [evalWithin, hright]
    exact hwhole.symm.trans (congrArg (Expr.meaning env) (Spine.toExpr_spine e))

end Expr

/-- An error is known by its name and its message. -/
theorem EvalError.eq_of_message {x y : EvalError} (hname : x.name? = y.name?)
    (hmessage : x.message = y.message) : x = y := by
  have hne : ∀ n m : String,
      "unrecognised symbol name '" ++ n ++ "'" ≠ "unrecognised identifier name '" ++ m ++ "'" := by
    intro n m heq
    -- they differ in the fourteenth character
    have hchar := congrArg (fun s => s.toList[13]?) heq
    simp at hchar
  cases x with
  | unknownBare n =>
    cases y with
    | unknownBare m => exact congrArg unknownBare (Option.some.inj hname)
    | unknownQualified m => exact absurd hmessage (hne n m)
    | tooDeep => cases hname
  | unknownQualified n =>
    cases y with
    | unknownBare m => exact absurd hmessage.symm (hne m n)
    | unknownQualified m => exact congrArg unknownQualified (Option.some.inj hname)
    | tooDeep => cases hname
  | tooDeep =>
    cases y with
    | tooDeep => rfl
    | unknownBare m => cases hname
    | unknownQualified m => cases hname

/-! ### The recursion is arithmetic -/

namespace Atom

variable (env : Env)

/-- **What an environment answers about a leaf**: an integer of any size. A bare name is
a register if there is one, and a symbol otherwise; a constant needs no answer. -/
def answer : Atom → Option ℤ
  | const v => some v.toNat
  | bare name => (env ⟨.register, name⟩).or (env ⟨.symbol, name⟩)
  | qualified scope name => env ⟨scope, name⟩

/-- **The questions about a leaf.** Symbols are asked only if there is no register. -/
def queries : Atom → List Query
  | const _ => []
  | bare name =>
    if env ⟨.register, name⟩ = none then [⟨.register, name⟩, ⟨.symbol, name⟩]
    else [⟨.register, name⟩]
  | qualified scope name => [⟨scope, name⟩]

/-- The number that a leaf stands for: a constant is itself, and an identifier what is
answered about it modulo 2 ^ 64. -/
def number : Atom → Option ℤ
  | const v => some v.toNat
  | bare name => (answer env (bare name)).map (· % 2 ^ 64)
  | qualified scope name => (answer env (qualified scope name)).map (· % 2 ^ 64)

/-- The name of an identifier. -/
def name? : Atom → Option String
  | const _ => none
  | bare name => some name
  | qualified _ name => some name

/-- What is said about an identifier that is not known. Which scope was asked is not. -/
def complaint? : Atom → Option String
  | const _ => none
  | bare name => some ("unrecognised symbol name '" ++ name ++ "'")
  | qualified _ name => some ("unrecognised identifier name '" ++ name ++ "'")

variable {env}

theorem wrap_toNat (v : Word) : Word.wrap v.toNat = v := by
  have h := Word.toNat_wrap v.toNat
  have hlt := v.toNat_lt
  exact UInt64.toNat_inj.1 (by omega)

theorem number_of_answer {a : Atom} {n : ℤ} (h : a.answer env = some n) :
    a.number env = some (n % 2 ^ 64) := by
  cases a with
  | const v =>
    cases h
    have hlt := v.toNat_lt
    exact congrArg some (by omega)
  | bare name => rw [number, h, Option.map_some]
  | qualified scope name => rw [number, h, Option.map_some]

theorem number_of_no_answer {a : Atom} (h : a.answer env = none) : a.number env = none := by
  cases a with
  | const v => cases h
  | bare name => rw [number, h, Option.map_none]
  | qualified scope name => rw [number, h, Option.map_none]

/-- A leaf that is known has the answer as its value. -/
theorem eval_of_answer {a : Atom} {n : ℤ} (h : a.answer env = some n) :
    a.eval env = ⟨a.queries env, .ok (Word.wrap n)⟩ := by
  cases a with
  | const v =>
    cases h
    rw [eval, wrap_toNat]
    rfl
  | bare name =>
    cases hr : env ⟨.register, name⟩ with
    | some m =>
      simp only [answer, hr, Option.some_or, Option.some.injEq] at h
      subst h
      simp [eval, Run.resolve, Run.ask, Run.andThen, Run.done, queries, hr]
    | none =>
      simp only [answer, hr, Option.none_or] at h
      simp [eval, Run.resolve, Run.ask, Run.andThen, Run.done, queries, hr, h]
  | qualified scope name =>
    simp only [answer] at h
    simp [eval, Run.resolve, Run.ask, Run.andThen, Run.done, queries, h]

/-- A leaf that is not known is an identifier, and ends the run. -/
theorem eval_of_no_answer {a : Atom} (h : a.answer env = none) :
    ∃ err, a.eval env = ⟨a.queries env, .error err⟩ ∧ err.name? = a.name? ∧
      some err.message = a.complaint? := by
  cases a with
  | const v => cases h
  | bare name =>
    rw [answer, Option.or_eq_none_iff] at h
    refine ⟨.unknownBare name, ?_, rfl, rfl⟩
    simp [eval, Run.resolve, Run.ask, Run.andThen, Run.fail, queries, h.1, h.2]
  | qualified scope name =>
    rw [answer] at h
    refine ⟨.unknownQualified name, ?_, rfl, rfl⟩
    simp [eval, Run.resolve, Run.ask, Run.andThen, Run.fail, queries, h]

end Atom

namespace Expr

/-- The leaves of an expression, from left to right. -/
def leaves : Expr → List Atom
  | atom a => [a]
  | neg e => e.leaves
  | bin _ left right => left.leaves ++ right.leaves

/-- **The number that an expression stands for**: that of its leaf, or what the operators
on integers make of the numbers of its operands, if all of them have one. -/
def number (env : Env) : Expr → Option ℤ
  | atom a => a.number env
  | neg e => (e.number env).map (-· % 2 ^ 64)
  | bin op left right =>
    match left.number env, right.number env with
    | some a, some b => some (op.arith a b)
    | _, _ => none

variable {env : Env}

/-- **If every identifier is known**, the run asks about all of them and gives the
number. -/
theorem meaning_of_known {e : Expr} (h : ∀ a ∈ e.leaves, a.answer env ≠ none) :
    ∃ v : Word, e.meaning env = ⟨e.leaves.flatMap (Atom.queries env), .ok v⟩ ∧
      e.number env = some (v.toNat : ℤ) := by
  induction e with
  | atom a =>
    obtain ⟨n, hn⟩ := Option.ne_none_iff_exists'.1 (h a (List.mem_singleton_self a))
    refine ⟨Word.wrap n, ?_, ?_⟩
    · rw [leaves, List.flatMap_singleton]
      exact Atom.eval_of_answer hn
    · rw [number, Atom.number_of_answer hn, Word.toNat_wrap]
  | neg e ih =>
    obtain ⟨v, hrun, hnum⟩ := ih h
    refine ⟨-v, ?_, ?_⟩
    · rw [meaning, hrun, leaves]
      simp [Run.andThen, Run.done]
    · rw [number, hnum, Option.map_some, Word.toNat_neg]
  | bin op left right ihl ihr =>
    obtain ⟨v, hrunl, hnuml⟩ := ihl fun a ha => h a (List.mem_append_left _ ha)
    obtain ⟨w, hrunr, hnumr⟩ := ihr fun a ha => h a (List.mem_append_right _ ha)
    refine ⟨op.apply v w, ?_, ?_⟩
    · rw [meaning, hrunl, hrunr, leaves, List.flatMap_append]
      simp [Run.andThen, Run.done]
    · rw [number, hnuml, hnumr, Op.toNat_apply]

/-- **The first identifier that is not known ends the run**, and nothing to the right of
it is asked about. -/
theorem meaning_of_unknown {e : Expr} {before after : List Atom} {a : Atom}
    (hsplit : e.leaves = before ++ a :: after) (hknown : ∀ b ∈ before, b.answer env ≠ none)
    (h : a.answer env = none) :
    ∃ err, e.meaning env = ⟨(before ++ [a]).flatMap (Atom.queries env), .error err⟩ ∧
      e.number env = none ∧ err.name? = a.name? ∧ some err.message = a.complaint? := by
  induction e generalizing before after with
  | atom b =>
    -- a leaf has no others before it
    obtain ⟨rfl, rfl⟩ : before = [] ∧ b = a := by
      rcases before with _ | ⟨c, before⟩
      · exact ⟨rfl, (List.cons.inj hsplit).1⟩
      · exact absurd (List.cons.inj hsplit).2.symm (List.append_ne_nil_of_right_ne_nil _ (by simp))
    obtain ⟨err, hrun, hname, hmessage⟩ := Atom.eval_of_no_answer h
    refine ⟨err, ?_, ?_, hname, hmessage⟩
    · rw [List.nil_append, List.flatMap_singleton]
      exact hrun
    · exact Atom.number_of_no_answer h
  | neg e ih =>
    obtain ⟨err, hrun, hnum, hsaid⟩ := ih hsplit hknown
    refine ⟨err, ?_, ?_, hsaid⟩
    · rw [meaning, hrun]
      rfl
    · rw [number, hnum, Option.map_none]
  | bin op left right ihl ihr =>
    rw [leaves] at hsplit
    rcases List.append_eq_append_iff.1 hsplit with ⟨mid, hbefore, hright⟩ | ⟨mid, hleft, hafter⟩
    · -- all of the left operand is known
      have hl : ∀ b ∈ left.leaves, b.answer env ≠ none := fun b hb =>
        hknown b (hbefore ▸ List.mem_append_left _ hb)
      obtain ⟨v, hrunl, hnuml⟩ := meaning_of_known hl
      obtain ⟨err, hrun, hnum, hsaid⟩ := ihr hright fun b hb =>
        hknown b (hbefore ▸ List.mem_append_right _ hb)
      refine ⟨err, ?_, ?_, hsaid⟩
      · rw [meaning, hrunl, hrun, hbefore]
        simp [Run.andThen]
      · rw [number, hnuml, hnum]
    · rcases mid with _ | ⟨c, mid⟩
      · -- the left operand ends just before the unknown one
        rw [List.append_nil] at hleft
        obtain ⟨v, hrunl, hnuml⟩ := meaning_of_known (hleft ▸ hknown)
        have hright : right.leaves = [] ++ a :: after := hafter.symm
        obtain ⟨err, hrun, hnum, hsaid⟩ := ihr hright (List.forall_mem_nil _)
        refine ⟨err, ?_, ?_, hsaid⟩
        · rw [meaning, hrunl, hrun, hleft]
          simp [Run.andThen]
        · rw [number, hnuml, hnum]
      · -- the unknown one is in the left operand, and the right one is not entered
        obtain ⟨rfl, -⟩ := List.cons.inj hafter
        obtain ⟨err, hrun, hnum, hsaid⟩ := ihl hleft hknown
        refine ⟨err, ?_, ?_, hsaid⟩
        · rw [meaning, hrun]
          rfl
        · rw [number, hnum]

/-- A leaf that is not known is preceded by a first one. -/
theorem exists_first_unknown {as : List Atom} (h : ∃ a ∈ as, a.answer env = none) :
    ∃ before a after, as = before ++ a :: after ∧ (∀ b ∈ before, b.answer env ≠ none) ∧
      a.answer env = none := by
  induction as with
  | nil => obtain ⟨a, hmem, -⟩ := h; cases hmem
  | cons c as ih =>
    by_cases hc : c.answer env = none
    · exact ⟨[], c, as, rfl, by simp, hc⟩
    · have htail : ∃ a ∈ as, a.answer env = none := by
        obtain ⟨a, hmem, ha⟩ := h
        rcases List.mem_cons.1 hmem with rfl | hmem
        · exact absurd ha hc
        · exact ⟨a, hmem, ha⟩
      obtain ⟨before, a, after, rfl, hknown, ha⟩ := ih htail
      refine ⟨c :: before, a, after, rfl, fun b hb => ?_, ha⟩
      rcases List.mem_cons.1 hb with rfl | hb
      · exact hc
      · exact hknown b hb

/-- **An expression has a number or an unknown name**, and what it means is as it should be. -/
theorem known_or_unknown (env : Env) (e : Expr) :
    (∃ v, (e.meaning env).outcome = .ok v ∧ e.number env = some (v.toNat : ℤ)) ∨
    ∃ before a after error, e.leaves = before ++ a :: after ∧
      (∀ b ∈ before, b.answer env ≠ none) ∧ a.answer env = none ∧
      (e.meaning env).outcome = .error error ∧ e.number env = none ∧ error.name? = a.name? ∧
      some error.message = a.complaint? := by
  by_cases hknown : ∀ a ∈ e.leaves, a.answer env ≠ none
  · obtain ⟨v, hrun, hnumber⟩ := meaning_of_known hknown
    exact .inl ⟨v, by rw [hrun], hnumber⟩
  · have hsome : ∃ a ∈ e.leaves, a.answer env = none := by
      simpa only [ne_eq, not_forall, not_not, exists_prop] using hknown
    obtain ⟨before, a, after, hsplit, hbefore, ha⟩ := exists_first_unknown hsome
    obtain ⟨error, hrun, hnumber, hsaid⟩ := meaning_of_unknown hsplit hbefore ha
    exact .inr ⟨before, a, after, error, hsplit, hbefore, ha, by rw [hrun], hnumber, hsaid⟩

/-! ### Evaluation -/

/-- **Evaluation is arithmetic from left to right.** Unless right operands nest too deep,
evaluation is the recursive reading, for every environment. If every identifier is known,
it asks about all of them in order and gives the number that the expression stands for.
Otherwise it stops at the first one that is not known, having asked about those before it
and about itself, and the error carries its name and the message of its kind. An attempt
reports the same, and it is successful also if the value is zero. -/
theorem eval_eq_number (env : Env) {e : Expr} (hdepth : e.operandDepth < maxOperandDepth) :
    e.eval env = e.meaning env ∧
    ((∀ a ∈ e.leaves, a.answer env ≠ none) → ∃ v : Word, v.toNat < 2 ^ 64 ∧
      e.number env = some (v.toNat : ℤ) ∧
      e.eval env = ⟨e.leaves.flatMap (Atom.queries env), .ok v⟩ ∧
      e.tryEval env = ⟨some v, none⟩ ∧ (e.tryEval env).ok = true) ∧
    (∀ before a after, e.leaves = before ++ a :: after → (∀ b ∈ before, b.answer env ≠ none) →
      a.answer env = none → ∃ err, e.number env = none ∧
        e.eval env = ⟨(before ++ [a]).flatMap (Atom.queries env), .error err⟩ ∧
        err.name? = a.name? ∧ some err.message = a.complaint? ∧
        e.tryEval env = ⟨none, some err.message⟩ ∧ (e.tryEval env).ok = false) ∧
    ((∃ err, (e.eval env).outcome = .error err) ↔ ∃ a ∈ e.leaves, a.answer env = none) := by
  have hmeaning : e.eval env = e.meaning env := evalWithin_eq_meaning env hdepth
  refine ⟨hmeaning, fun hknown => ?_, fun before a after hsplit hknown ha => ?_, ?_, ?_⟩
  · obtain ⟨v, hrun, hnum⟩ := meaning_of_known hknown
    have htry : e.tryEval env = ⟨some v, none⟩ := by
      rw [tryEval, hmeaning, hrun]
    exact ⟨v, v.toNat_lt, hnum, hmeaning.trans hrun, htry, by rw [htry]; rfl⟩
  · obtain ⟨err, hrun, hnum, hname, hmessage⟩ := meaning_of_unknown hsplit hknown ha
    have htry : e.tryEval env = ⟨none, some err.message⟩ := by
      rw [tryEval, hmeaning, hrun]
    exact ⟨err, hnum, hmeaning.trans hrun, hname, hmessage, htry, by rw [htry]; rfl⟩
  · rintro ⟨err, herr⟩
    by_contra hall
    have hknown : ∀ a ∈ e.leaves, a.answer env ≠ none := fun a ha hn => hall ⟨a, ha, hn⟩
    obtain ⟨v, hrun, -⟩ := meaning_of_known hknown
    rw [hmeaning, hrun] at herr
    cases herr
  · intro hsome
    obtain ⟨before, a, after, hsplit, hknown, ha⟩ := exists_first_unknown hsome
    obtain ⟨err, hrun, -⟩ := meaning_of_unknown hsplit hknown ha
    exact ⟨err, by rw [hmeaning, hrun]⟩

/-- In `(x >> 60) - (reg::y - z)`, with a negative symbol `x`, a register `y` above every
word, and a `z` in both scopes. -/
theorem eval_eq_number_of_shift :
    let env : Env := Env.ofList [(⟨.symbol, "x"⟩, -1), (⟨.register, "y"⟩, 2 ^ 70 + 5),
      (⟨.register, "z"⟩, 4), (⟨.symbol, "z"⟩, 7)]
    let e : Expr := .bin .sub (.bin .shr (.atom (.bare "x")) (.atom (.const 60)))
      (.bin .sub (.atom (.qualified .register "y")) (.atom (.bare "z")))
    e.operandDepth < maxOperandDepth ∧ (∀ a ∈ e.leaves, a.answer env ≠ none) ∧
      e.number env = some 14 ∧
      (e.eval env).asked =
        [⟨.register, "x"⟩, ⟨.symbol, "x"⟩, ⟨.register, "y"⟩, ⟨.register, "z"⟩] := by
  intro env e
  have hdepth : e.operandDepth < maxOperandDepth := by decide
  have hknown : ∀ a ∈ e.leaves, a.answer env ≠ none := by decide
  obtain ⟨v, -, -, hrun, -⟩ := (eval_eq_number env hdepth).2.1 hknown
  have hasked : e.leaves.flatMap (Atom.queries env) =
      [⟨.register, "x"⟩, ⟨.symbol, "x"⟩, ⟨.register, "y"⟩, ⟨.register, "z"⟩] := by decide
  exact ⟨hdepth, hknown, by decide, by rw [hrun]; exact hasked⟩

end Expr

end Readout
