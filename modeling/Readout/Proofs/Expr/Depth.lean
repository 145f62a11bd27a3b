import Readout.Expr.Walk
import Readout.Proofs.Expr.Parentheses

/-!
# How deep a tree is that was read

Whatever goes through a tree in a loop along its left spines nests as deep as there are right
operands on a way down the tree (`Readout.Expr.count_right_le`), and gives up if that is too deep.
When it gives up is known exactly (`Readout.Walk.within_eq`).

A text can be as long as one likes, and its chains and runs of signs too, but no more than
`Readout.maxOpenParens` parentheses are open in it at once. This is what bounds the depth of the
tree, and the bound is far below what evaluation gives up at: **a tree that was read can always be
evaluated, listed and written** (`Readout.Expr.shallow_of_parse`).
-/

namespace Readout

namespace Expr

/-- **No way down takes more right turns than the tree is deep.** -/
theorem count_right_le {e f : Expr} {turns : List Turn} (h : e.descend? turns = some f) :
    turns.count .right + f.operandDepth ≤ e.operandDepth := by
  induction turns generalizing e with
  | nil =>
    rw [descend?] at h
    cases h
    exact Nat.le_of_eq (Nat.zero_add _)
  | cons turn turns ih =>
    cases e with
    | atom a => cases turn <;> cases h
    | neg e =>
      cases turn with
      | operand => exact ih (e := e) h
      | left => cases h
      | right => cases h
    | bin op left right =>
      cases turn with
      | operand => cases h
      | left => exact (ih (e := left) h).trans (le_max_left _ _)
      | right =>
        have hright := ih (e := right) h
        rw [List.count_cons_self, operandDepth]
        omega

/-- What is above some links is at least as deep as what is below them. -/
theorem operandDepth_le_foldl_above (links : List Link) (e : Expr) :
    e.operandDepth ≤ (links.foldl Link.above e).operandDepth := by
  induction links generalizing e with
  | nil => exact le_refl _
  | cons l links ih =>
    refine le_trans ?_ (ih (l.above e))
    cases l with
    | neg => exact le_refl _
    | apply op right => exact le_max_left _ _

end Expr

/-! ### When a walk gives up -/

namespace Walk

variable {α : Type} (w : Walk α)

/-- **The walk along the links above a tree** ends at the tree above them, unless one of the right
operands that are met is too deep. -/
theorem foldlM_above {operand : Expr → Option α} {depth : ℕ}
    (hoperand : ∀ r : Expr, operand r = if r.operandDepth < depth then some (w.whole r) else none)
    (links : List Link) {e : Expr} (he : e.operandDepth < depth + 1) :
    links.foldlM (w.above operand) (e, w.whole e) =
      if (links.foldl Link.above e).operandDepth < depth + 1 then
        some (links.foldl Link.above e, w.whole (links.foldl Link.above e))
      else none := by
  induction links generalizing e with
  | nil => rw [List.foldl_nil, if_pos he]; rfl
  | cons l links ih =>
    rw [List.foldlM_cons, List.foldl_cons]
    cases l with
    | neg => exact ih he
    | apply op right =>
      have hstep : w.above operand (e, w.whole e) (.apply op right) =
          (operand right).map fun r =>
            (.bin op e right, w.operation op (e, w.whole e) (right, r)) :=
        rfl
      rw [hstep, hoperand right]
      by_cases hright : right.operandDepth < depth
      · rw [if_pos hright]
        refine ih (e := .bin op e right) ?_
        rw [Expr.operandDepth]
        omega
      · -- the tree above all links is at least as deep as the one above this one
        have hdeep : right.operandDepth + 1 ≤
            (links.foldl Link.above (.bin op e right)).operandDepth :=
          (le_max_right _ _).trans (Expr.operandDepth_le_foldl_above links (.bin op e right))
        rw [if_neg hright, Link.above, if_neg (by omega)]
        rfl

/-- **A walk gives up exactly on the trees that are too deep for it**, and on all others it makes
what is made of them operand by operand. -/
theorem within_eq (depth : ℕ) (e : Expr) :
    w.within depth e = if e.operandDepth < depth then some (w.whole e) else none := by
  induction depth generalizing e with
  | zero => rfl
  | succ depth ih =>
    have hlinks := w.foldlM_above ih e.spine.links (e := .atom e.spine.leaf) (Nat.succ_pos depth)
    have hspine : e.spine.links.foldl Link.above (.atom e.spine.leaf) = e :=
      Spine.toExpr_spine e
    rw [hspine] at hlinks
    have hwithin : w.within (depth + 1) e = (e.spine.links.foldlM (w.above (w.within depth))
        (.atom e.spine.leaf, w.whole (.atom e.spine.leaf))).map Prod.snd := rfl
    rw [hwithin, hlinks]
    split <;> rfl

end Walk

namespace Expr

theorem whole_sourceWalk (e : Expr) : sourceWalk.whole e = e.source := by
  induction e with
  | atom a => rfl
  | neg e ih => rw [Walk.whole, ih]; rfl
  | bin op left right ihl ihr => rw [Walk.whole, ihl, ihr]; rfl

theorem whole_dumpWalk (e : Expr) : dumpWalk.whole e = e.dump := by
  induction e with
  | atom a => rfl
  | neg e ih => rw [Walk.whole, ih]; rfl
  | bin op left right ihl ihr => rw [Walk.whole, ihl, ihr]; rfl

/-- Source text is written by a walk up to a depth, -/
theorem toOption_source? (e : Expr) :
    e.source?.toOption = sourceWalk.within (maxSourceDepth + 1) e := by
  rw [Walk.within_eq, whole_sourceWalk, source?]
  simp only [Nat.lt_succ_iff]
  split <;> rfl

/-- and so are listings. -/
theorem toOption_dump? (e : Expr) : e.dump?.toOption = dumpWalk.within (maxDumpDepth + 1) e := by
  rw [Walk.within_eq, whole_dumpWalk, dump?]
  simp only [Nat.lt_succ_iff]
  split <;> rfl

end Expr

/-! ### What was read is not deep -/

/-- What is said about an unknown name is not that a tree is too deep. -/
theorem Atom.complaint?_ne (a : Atom) : a.complaint? ≠ some "expression too deeply nested" := by
  intro h
  -- the two differ in the first character
  have hchar := congrArg (Option.bind · fun s => s.toList.head?) h
  cases a <;> simp [complaint?] at hchar

namespace Expr

/-- **A tree that was read is never too deep for anything.** No way down it takes more than 303
right turns, which is three for each parenthesis that may be open and three more. So walks are
nested at most that deep below the first one, and the source text and the listing are written in
full; and evaluation would need no greater depth either, in no environment, so it never fails for
that reason. -/
theorem shallow_of_parse {source : String} {e : Expr} (h : parse source = .ok e) :
    (∀ turns a, e.descend? turns = some (.atom a) → turns.count .right ≤ 303) ∧
      sourceWalk.within 304 e = some e.source ∧ e.source? = .ok e.source ∧
      dumpWalk.within 304 e = some e.dump ∧ e.dump? = .ok e.dump ∧
      ∀ env : Env, e.evalWithin env 304 = e.eval env ∧
        ∀ err, (e.eval env).outcome = .error err →
          err.message ≠ "expression too deeply nested" := by
  have hdepth : e.operandDepth ≤ 303 := operandDepth_of_parse h
  refine ⟨fun turns a hend => ?_, ?_, if_pos (hdepth.trans (by decide)), ?_,
    if_pos (hdepth.trans (by decide)), fun env => ?_⟩
  · have hcount := count_right_le hend
    omega
  · rw [Walk.within_eq, if_pos (Nat.lt_succ_of_le hdepth), whole_sourceWalk]
  · rw [Walk.within_eq, if_pos (Nat.lt_succ_of_le hdepth), whole_dumpWalk]
  · have hmeaning : e.eval env = e.meaning env :=
      evalWithin_eq_meaning env (hdepth.trans_lt (by decide))
    refine ⟨(evalWithin_eq_meaning env (Nat.lt_succ_of_le hdepth)).trans hmeaning.symm,
      fun err herr => ?_⟩
    rw [hmeaning] at herr
    rcases known_or_unknown env e with
      ⟨v, hv, -⟩ | ⟨before, a, after, error, -, -, -, hrun, -, -, hmessage⟩
    · cases hv.symm.trans herr
    · cases hrun.symm.trans herr
      exact fun heq => a.complaint?_ne (hmessage.symm.trans (congrArg some heq))

/-- The bound is reached: a shift by a sum with a product whose right factor is in parentheses, and
so on inside them, a hundred times. A listing needs all of the depth. -/
theorem shallow_of_parse_tower :
    ∃ e : Expr, parse e.source = .ok e ∧
      e.descend? (List.replicate 303 .right) = some (.atom (.bare "x")) ∧
      dumpWalk.within 304 e = some e.dump ∧ dumpWalk.within 303 e = none := by
  have hparse : ∀ e : Expr, e = (List.range 101).foldl (fun e _ =>
      .bin .shl (.atom (.const 1)) (.bin .add (.atom (.const 1)) (.bin .mul (.atom (.const 1)) e)))
        (.atom (.bare "x")) → parse e.source = .ok e := by
    rintro _ rfl
    refine (parse_source (by decide +kernel)).1 ?_
    rw [nesting_source (by decide +kernel)]
    decide +kernel
  obtain ⟨-, -, -, hdump, -⟩ := shallow_of_parse (hparse _ rfl)
  refine ⟨_, hparse _ rfl, by decide +kernel, hdump, ?_⟩
  rw [Walk.within_eq, if_neg (by decide +kernel)]

end Expr

end Readout
