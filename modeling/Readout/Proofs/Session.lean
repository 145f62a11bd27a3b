import Mathlib.Data.List.Induction
import Readout.Proofs.Expr.Agreement
import Readout.Session

/-!
# Sessions remember the last bindings only

The bindings of a session are the initial tables overwritten by the bindings that have been
made since, each reduced to a word (`Readout.Session.env_after`). No other step touches them. So
what a tree evaluates to at any point of a session depends on nothing but the last integers given
to its names, or rather to those among them that evaluation looks at
(`Readout.Session.evaluation_after`).
-/

namespace Readout

namespace Session

/-- The session after steps. -/
def after (s : Session) (steps : List Step) : Session :=
  steps.foldl (fun s st => (s.step st).2) s

/-- The integer that a step gives to a name, if it is a binding of that name in its scope. -/
def Step.given? (q : Query) : Step → Option ℤ
  | .bind word name value =>
    if Scope.ofKeyword? word = some q.scope ∧ name = q.name then some value else none
  | _ => none

/-- The integers that two tables give to names. -/
def tablesEnv (registers symbols : Table ℤ) : Env
  | ⟨.register, name⟩ => registers.find? name
  | ⟨.symbol, name⟩ => symbols.find? name

/-- **The last integers given to names**, by steps, or in the first place by the tables. They
are not reduced. -/
def lastGiven (registers symbols : Table ℤ) (steps : List Step) : Env := fun q =>
  (steps.reverse.findSome? (Step.given? q)).or (tablesEnv registers symbols q)

/-- What a session answers when an evaluation has come to its end. -/
def answered : Except EvalError Word → Except Failure Answer
  | .ok v => .ok (.value v)
  | .error err => .error (.valueless err)

variable (s : Session)

theorem after_append_singleton (steps : List Step) (st : Step) :
    s.after (steps ++ [st]) = ((s.after steps).step st).2 := by
  rw [after, List.foldl_append]
  rfl

/-- **A run goes step by step** through the sessions after the steps so far. -/
theorem run_append (before later : List Step) :
    s.run (before ++ later) = s.run before ++ (s.after before).run later := by
  induction before generalizing s with
  | nil => rfl
  | cons st before ih => exact congrArg _ (ih _)

/-! ### One step -/

/-- **What a binding does**: if there is such a scope, it binds its name there. -/
theorem step_bind {word : String} {scope : Scope} (h : Scope.ofKeyword? word = some scope)
    (name : String) (value : ℤ) : s.step (.bind word name value) =
      (.ok .done, { s with bindings := s.bindings.bind scope name value }) := by
  simp only [step, step?, scopeOf, h]
  rfl

/-- **What a step does that fails**: nothing. -/
theorem step_of_error {st : Step} {failure : Failure} (h : (s.step st).1 = .error failure) :
    (s.step st).2 = s := by
  unfold step at h ⊢
  cases hstep : s.step? st with
  | error f => rfl
  | ok r =>
    rw [hstep] at h
    cases h

/-- A word that selects no scope binds nothing. -/
theorem step_bind_of_none {word : String} (h : Scope.ofKeyword? word = none) (name : String)
    (value : ℤ) : s.step (.bind word name value) = (.error (.badScope word), s) := by
  simp only [step, step?, scopeOf, h]
  rfl

/-- **What an evaluation of a held tree does**: it answers what evaluation gives. -/
theorem step_run {slot : String} {e : Expr} (h : s.held.find? slot = some e) :
    s.step (.run slot) = (answered (e.eval s.bindings.env).outcome, s) := by
  simp only [step, step?, value, h]
  cases (e.eval s.bindings.env).outcome with
  | ok v => rfl
  | error err => rfl

/-- **What a step can change**: nothing, if it gives nothing; or it binds a name, or it holds a
tree that it has read. -/
theorem step_cases (st : Step) :
    ((s.step st).2 = s ∧ ∀ q, st.given? q = none) ∨
    (∃ word name value scope, st = .bind word name value ∧ Scope.ofKeyword? word = some scope ∧
      s.step st = (.ok .done, { s with bindings := s.bindings.bind scope name value })) ∨
    ∃ slot source e, st = .hold slot source ∧ parse source = .ok e ∧
      s.step st = (.ok (.tree e), { s with held := s.held.insert slot e }) := by
  cases st with
  | bind word name value =>
    cases hscope : Scope.ofKeyword? word with
    | none =>
      refine .inl ⟨congrArg Prod.snd (s.step_bind_of_none hscope name value), fun q => ?_⟩
      rw [Step.given?, hscope, if_neg (by simp)]
    | some scope =>
      exact .inr (.inl ⟨word, name, value, scope, rfl, hscope, s.step_bind hscope name value⟩)
  | lookup word name =>
    refine .inl ⟨?_, fun _ => rfl⟩
    simp only [step, step?, scopeOf]
    cases Scope.ofKeyword? word <;> rfl
  | eval source =>
    refine .inl ⟨?_, fun _ => rfl⟩
    simp only [step, step?, read, bind, Except.bind]
    cases parse source with
    | error err => rfl
    | ok e =>
      dsimp only
      cases s.value e <;> rfl
  | attempt source =>
    refine .inl ⟨?_, fun _ => rfl⟩
    simp only [step, step?, read]
    cases parse source <;> rfl
  | hold slot source =>
    cases hparse : parse source with
    | error err =>
      refine .inl ⟨?_, fun _ => rfl⟩
      simp only [step, step?, read, hparse]
      rfl
    | ok e =>
      refine .inr (.inr ⟨slot, source, e, rfl, hparse, ?_⟩)
      simp only [step, step?, read, hparse]
      rfl
  | run slot =>
    refine .inl ⟨?_, fun _ => rfl⟩
    cases hheld : s.held.find? slot with
    | none => simp only [step, step?, hheld]
    | some e => rw [s.step_run hheld]

/-! ### What is bound after steps -/

end Session

namespace Bindings

variable (b : Bindings)

/-- What is bound is bound to words. -/
theorem env_range {q : Query} {n : ℤ} (h : b.env q = some n) : 0 ≤ n ∧ n < 2 ^ 64 := by
  obtain ⟨v, -, rfl⟩ := Option.map_eq_some_iff.1 h
  have hlt := v.toNat_lt
  exact ⟨Int.natCast_nonneg _, Int.ofNat_lt.2 hlt⟩

theorem env_bind (scope : Scope) (name : String) (value : ℤ) (q : Query) :
    (b.bind scope name value).env q =
      if q = ⟨scope, name⟩ then some (value % 2 ^ 64) else b.env q := by
  rw [env, lookup_bind]
  split
  · exact congrArg some (Word.toNat_wrap value)
  · rfl

end Bindings

namespace Session

variable (s : Session)

/-- In the first place the integers of the tables are bound. -/
theorem env_ofTables (registers symbols : Table ℤ) (q : Query) :
    (Bindings.ofTables registers symbols).env q =
      (tablesEnv registers symbols q).map (· % 2 ^ 64) := by
  have hwrap : (fun n => Int.ofNat (Word.wrap n).toNat) = fun n : ℤ => n % 2 ^ 64 :=
    funext Word.toNat_wrap
  obtain ⟨scope, name⟩ := q
  cases scope with
  | register =>
    change (((registers.map Word.wrap).find? name).map _) = _
    rw [Table.find?_map, Option.map_map]
    exact congrArg (Option.map · _) hwrap
  | symbol =>
    change (((symbols.map Word.wrap).find? name).map _) = _
    rw [Table.find?_map, Option.map_map]
    exact congrArg (Option.map · _) hwrap

/-- **A step binds what it gives**, and leaves everything else as it was bound. -/
theorem env_step (st : Step) (q : Query) :
    (s.step st).2.bindings.env q = ((st.given? q).map (· % 2 ^ 64)).or (s.bindings.env q) := by
  rcases s.step_cases st with ⟨hsame, hgiven⟩ | ⟨word, name, value, scope, rfl, hscope, hstep⟩ |
    ⟨slot, source, e, rfl, -, hstep⟩
  · rw [hsame, hgiven]
    rfl
  · rw [hstep, Bindings.env_bind, Step.given?, hscope]
    by_cases hq : q = ⟨scope, name⟩
    · subst hq
      simp
    · have hne : ¬(some scope = some q.scope ∧ name = q.name) := by
        rintro ⟨hscope', rfl⟩
        cases hscope'
        exact hq rfl
      rw [if_neg hq, if_neg hne]
      rfl
  · rw [hstep]
    rfl

/-- **The bindings after steps are the last integers given**, reduced to words. -/
theorem env_after (registers symbols : Table ℤ) (held : Table Expr) (steps : List Step)
    (q : Query) : (after ⟨.ofTables registers symbols, held⟩ steps).bindings.env q =
      (lastGiven registers symbols steps q).map (· % 2 ^ 64) := by
  induction steps using List.reverseRecOn with
  | nil => exact env_ofTables registers symbols q
  | append_singleton steps st ih =>
    rw [after_append_singleton, env_step, ih, lastGiven, lastGiven, List.reverse_append,
      List.reverse_singleton, List.singleton_append, List.findSome?_cons]
    cases st.given? q <;> rfl

/-! ### Evaluation in the course of a session -/

/-- **A session in which the last integers given to names are known.** -/
structure Settled (last : Env) (s : Session) : Prop where
  /-- The last integers are stored, reduced to words. -/
  env_eq : ∀ q, s.bindings.env q = (last q).map (· % 2 ^ 64)
  /-- What is stored are words. -/
  env_range : ∀ q n, s.bindings.env q = some n → 0 ≤ n ∧ n < 2 ^ 64
  /-- The next step, if it fails, changes nothing. -/
  step_of_error : ∀ st failure, (s.step st).1 = .error failure → (s.step st).2 = s
  /-- The next step changes no bindings unless it is a binding that succeeds, and that one changes
  its own entry only. -/
  step_bindings : ∀ st, (s.step st).2.bindings = s.bindings ∨
    ∃ word name value scope, st = .bind word name value ∧ Scope.ofKeyword? word = some scope ∧
      (s.step st).1 = .ok .done ∧ ∀ q, (s.step st).2.bindings.lookup q =
        if q = ⟨scope, name⟩ then some (Word.wrap value) else s.bindings.lookup q
  /-- Whatever answers like the bindings where an expression looks gives it the same run, and an
  attempt to evaluate it the same result. -/
  eval_eq : ∀ (e : Expr) (env : Env), e.Agrees s.bindings.env env →
    e.eval s.bindings.env = e.eval env ∧ e.tryEval s.bindings.env = e.tryEval env
  /-- So a tree that is held gives what it gives there. -/
  run_eq : ∀ slot e env, s.held.find? slot = some e → e.Agrees s.bindings.env env →
    s.step (.run slot) = (answered (e.eval env).outcome, s)
  /-- The last integers answer like the bindings, without being reduced. -/
  agrees_last : ∀ e : Expr, e.Agrees s.bindings.env last
  /-- A symbol that a register hides can be bound without a change to the value of any expression
  that does not ask for that very symbol. -/
  eval_hidden : ∀ name value (e : Expr), s.bindings.lookup ⟨.register, name⟩ ≠ none →
    .qualified .symbol name ∉ e.leaves →
      e.eval (s.bindings.bind .symbol name value).env = e.eval s.bindings.env

theorem settled {last : Env} (h : ∀ q, s.bindings.env q = (last q).map (· % 2 ^ 64)) :
    Settled last s where
  env_eq := h
  env_range _ _ hn := s.bindings.env_range hn
  step_of_error _ _ := s.step_of_error
  step_bindings st := by
    rcases s.step_cases st with ⟨hsame, -⟩ | ⟨word, name, value, scope, rfl, hscope, hstep⟩ |
      ⟨slot, source, e, -, -, hstep⟩
    · exact .inl (congrArg bindings hsame)
    · refine .inr ⟨word, name, value, scope, rfl, hscope, congrArg Prod.fst hstep, fun q => ?_⟩
      rw [hstep]
      exact Bindings.lookup_bind _ _ _ _ q
    · exact .inl (by rw [hstep])
  eval_eq _ _ he := ⟨Expr.eval_congr he, Expr.tryEval_congr he⟩
  run_eq slot e env hheld he := by rw [s.step_run hheld, Expr.eval_congr he]
  agrees_last := Expr.agrees_of_forall fun q => by
    rw [h]
    exact .map_emod _
  eval_hidden name value e hregister he := by
    refine (Expr.eval_congr (Expr.agrees_of_hidden name ?_ (fun q hq => ?_) he)).symm
    · rwa [Bindings.env, ne_eq, Option.map_eq_none_iff]
    · rw [Bindings.env_bind, if_neg hq]

/-- **Evaluation depends on the last relevant bindings only.** After any steps of a session, the
last integers that were given to names are bound, reduced to words, and no tree can tell these
bindings from an environment that agrees with them on it. The sessions after the steps are those
that a run goes through. -/
theorem evaluation_after (registers symbols : Table ℤ) (held : Table Expr) (steps : List Step) :
    let s₀ : Session := ⟨.ofTables registers symbols, held⟩
    Settled (lastGiven registers symbols steps) (s₀.after steps) ∧
    ∀ later, s₀.run (steps ++ later) = s₀.run steps ++ (s₀.after steps).run later :=
  ⟨settled _ (env_after registers symbols held steps), fun later => run_append _ steps later⟩

/-- A tree that is held while its names are bound anew. There is no scope `mem`, `z` is not known,
and the environment knows nothing of a symbol that a register hides. -/
theorem evaluation_after_bindings :
    let s₀ : Session := ⟨.ofTables (.ofList [("x", -1)]) (.ofList [("x", 3), ("y", 5)]), .empty⟩
    let steps : List Step := [.hold "t" "x + y", .bind "reg" "x" (2 ^ 70 + 7), .bind "mem" "x" 8,
      .bind "sym" "y" (-9), .eval "z", .bind "sym" "x" 4]
    let env : Env := Env.ofList [(⟨.register, "x"⟩, 7), (⟨.symbol, "y"⟩, 2 ^ 64 - 9)]
    let e : Expr := .bin .add (.atom (.bare "x")) (.atom (.bare "y"))
    (s₀.after steps).held.find? "t" = some e ∧ e.Agrees (s₀.after steps).bindings.env env ∧
      (s₀.after steps).step (.run "t") = (.ok (.value (-2)), s₀.after steps) := by
  intro s₀ steps env e
  obtain ⟨hsettled, -⟩ := evaluation_after (.ofList [("x", -1)]) (.ofList [("x", 3), ("y", 5)])
    .empty steps
  have hheld : (s₀.after steps).held.find? "t" = some e := by decide +kernel
  have hagrees : e.Agrees (s₀.after steps).bindings.env env := by decide +kernel
  have hvalue : answered (e.eval env).outcome = .ok (.value (-2)) := by
    have houtcome : (e.eval env).outcome = .ok (-2) := by decide +kernel
    rw [houtcome]
    rfl
  exact ⟨hheld, hagrees, by rw [← hvalue]; exact hsettled.run_eq "t" e env hheld hagrees⟩

end Session

end Readout
