import Readout.Expr.Reading
import Readout.Proofs.Expr.Grammar

/-!
# What the rules of the parser read

A rule gives a proof that it has read something together with its tree. Only the tree and
the lexemes after it matter for what the parser accepts (`Readout.Parser.read`), and this
file describes each rule in these terms, by what it does at the next lexeme.

The parser is a descent through the levels of the grammar. `Readout.Parser.level` is the
rule of a level, and `Readout.Parser.follow` is what a chain of that level does to the right
of a tree: a level of operators reads a phrase that binds tighter and goes on from there
(`Readout.Parser.read_level`), as long as there are operators of the level
(`Readout.Parser.follow_op`, `Readout.Parser.follow_of_ne`).
-/

namespace Readout

namespace Parser

/-! ### What the rules read -/

section Read

variable (ending : Ending) (op? : Token → Option Op) (part : Rule)

/-- **What a rule reads**: a tree, and the lexemes after it. -/
def read (rule : Rule) (ls : List Lexeme) : Except ReadError (Expr × List Lexeme) :=
  (rule ls).map fun p => (p.tree, p.rest)

/-- What the rest of a chain reads, to the right of a tree. -/
def readAfter (left : Expr) (ls : List Lexeme) : Except ReadError (Expr × List Lexeme) :=
  (chainAfter ending op? part left ls).map fun p => (p.tree, p.rest)

theorem read_chain (ls : List Lexeme) : read (chain ending op? part) ls =
    (read part ls).bind fun r => readAfter ending op? part r.1 r.2 := by
  unfold read chain readAfter
  cases part ls with
  | error e => rfl
  | ok first =>
    dsimp only [Except.map, Except.bind]
    cases chainAfter ending op? part first.tree first.rest <;> rfl

theorem readAfter_nil (left : Expr) : readAfter ending op? part left [] = .ok (left, []) := by
  rw [readAfter, chainAfter]
  rfl

variable {op?} in
/-- A chain ends before a token that is no operator of it. -/
theorem readAfter_of_none {l : Lexeme} (h : op? l.token = none) (left : Expr)
    (ls : List Lexeme) : readAfter ending op? part left (l :: ls) = .ok (left, l :: ls) := by
  rw [readAfter, chainAfter, h]
  rfl

variable {op?} in
/-- A chain goes on after an operator. -/
theorem readAfter_of_some {l : Lexeme} {op : Op} (h : op? l.token = some op) (left : Expr)
    (ls : List Lexeme) : readAfter ending op? part left (l :: ls) =
      (consume ending ls).bind fun _ => (read part ls).bind fun r =>
        readAfter ending op? part (.bin op left r.1) r.2 := by
  rw [readAfter, chainAfter, h]
  dsimp only
  cases consume ending ls with
  | error e => rfl
  | ok _ =>
    unfold read
    cases part ls with
    | error e => rfl
    | ok right =>
      dsimp only [Except.map, Except.bind]
      unfold readAfter
      cases chainAfter ending op? part (.bin op left right.tree) right.rest <;> rfl

variable (inner : Rule)

theorem read_operand_nil : read (operand ending inner) [] = read inner [] := by
  rw [read, operand]
  rfl

/-- Signs are read one by one. -/
theorem read_operand_plus (pos : ℕ) (ls : List Lexeme) :
    read (operand ending inner) (⟨.plus, pos⟩ :: ls) =
      (consume ending ls).bind fun _ => read (operand ending inner) ls := by
  rw [read, operand]
  dsimp only
  cases consume ending ls with
  | error e => rfl
  | ok _ =>
    unfold read
    dsimp only [Except.bind]
    cases operand ending inner ls <;> rfl

theorem read_operand_minus (pos : ℕ) (ls : List Lexeme) :
    read (operand ending inner) (⟨.minus, pos⟩ :: ls) =
      (consume ending ls).bind fun _ =>
        (read (operand ending inner) ls).map fun r => (.neg r.1, r.2) := by
  rw [read, operand]
  dsimp only
  cases consume ending ls with
  | error e => rfl
  | ok _ =>
    unfold read
    dsimp only [Except.bind]
    cases operand ending inner ls <;> rfl

theorem read_operand_of_ne {l : Lexeme} (hp : l.token ≠ .plus) (hm : l.token ≠ .minus)
    (ls : List Lexeme) : read (operand ending inner) (l :: ls) = read inner (l :: ls) := by
  rw [read, operand]
  split
  · rename_i h
    exact absurd h hp
  · rename_i h
    exact absurd h hm
  · rfl

/-! ### Primaries -/

variable (room : ℕ)

/-- A fault is never a result. -/
theorem exists_faultHere (α : Type) (what : Fault) (ls : List Lexeme) :
    ∃ err, (faultHere ending what ls : Except ReadError α) = .error err := by
  unfold faultHere
  cases current ending ls with
  | error err => exact ⟨err, rfl⟩
  | ok l => exact ⟨_, rfl⟩

/-- A fault is passed on as it is. -/
theorem map_faultHere {α β : Type} (f : α → β) (what : Fault) (ls : List Lexeme) :
    (faultHere ending what ls).map f = faultHere ending what ls := by
  unfold faultHere
  cases current ending ls <;> rfl

theorem read_primary_nil :
    read (primary ending room) [] = faultHere ending .unexpectedEnd [] := by
  have hprimary : primary ending room [] = faultHere ending .unexpectedEnd [] := by
    cases room <;> rfl
  rw [read, hprimary, map_faultHere]

theorem read_primary_int (v : Word) (pos : ℕ) (ls : List Lexeme) :
    read (primary ending room) (⟨.int v, pos⟩ :: ls) =
      (consume ending ls).map fun _ => (.atom (.const v), ls) := by
  have hprimary : primary ending room (⟨.int v, pos⟩ :: ls) =
      (consume ending ls).bind fun _ => .ok ⟨.atom (.const v), ls, Nat.lt_succ_self _⟩ := by
    cases room <;> rfl
  rw [read, hprimary]
  cases consume ending ls <;> rfl

theorem primary_ident (word : String) (pos : ℕ) (ls : List Lexeme) :
    primary ending room (⟨.ident word, pos⟩ :: ls) =
      identifier ending (⟨.ident word, pos⟩, word) ls := by
  cases room <;> rfl

/-- A name is a leaf of its own, unless it is followed by a double colon. -/
theorem read_primary_bare (name : String) (pos : ℕ) (ls : List Lexeme)
    (h : ∀ l, ls.head? = some l → l.token ≠ .scope) :
    read (primary ending room) (⟨.ident name, pos⟩ :: ls) =
      (consume ending ls).map fun _ => (.atom (.bare name), ls) := by
  rw [read, primary_ident]
  unfold identifier
  split
  · exact absurd rfl (h _ rfl)
  · cases consume ending ls <;> rfl

theorem read_primary_qualified (word name : String) (pos pos' pos'' : ℕ) (ls : List Lexeme) :
    read (primary ending room)
        (⟨.ident word, pos⟩ :: ⟨.scope, pos'⟩ :: ⟨.ident name, pos''⟩ :: ls) =
      (consume ending ls).bind fun _ =>
        match Scope.ofKeyword? word with
        | some scope => .ok (.atom (.qualified scope name), ls)
        | none => .error (.fault (.unknownScope word) pos) := by
  rw [read, primary_ident]
  dsimp only [identifier, nameInScope]
  cases consume ending ls with
  | error e => rfl
  | ok _ =>
    cases Scope.ofKeyword? word <;> rfl

/-- After a double colon there must be a name. -/
theorem read_primary_missing (word : String) (pos pos' : ℕ) (ls : List Lexeme)
    (h : ∀ name pos'', ls.head? ≠ some ⟨.ident name, pos''⟩) :
    read (primary ending room) (⟨.ident word, pos⟩ :: ⟨.scope, pos'⟩ :: ls) =
      (consume ending ls).bind fun _ => faultHere ending .missingName ls := by
  rw [read, primary_ident]
  dsimp only [identifier]
  cases consume ending ls with
  | error err => rfl
  | ok _ =>
    unfold nameInScope
    split
    · exact absurd rfl (h _ _)
    · exact (congrArg (Except.map _) (map_faultHere _ _ _ _)).trans (map_faultHere _ _ _ _)

theorem read_primary_full (pos : ℕ) (ls : List Lexeme) :
    read (primary ending 0) (⟨.lparen, pos⟩ :: ls) = .error (.fault .tooDeep pos) := rfl

/-- An expression in parentheses takes one room. -/
theorem read_primary_group (pos : ℕ) (ls : List Lexeme) :
    read (primary ending (room + 1)) (⟨.lparen, pos⟩ :: ls) =
      (consume ending ls).bind fun _ =>
        (read (expression ending (primary ending room)) ls).bind fun r =>
          match r.2 with
          | ⟨.rparen, _⟩ :: after => (consume ending after).map fun _ => (r.1, after)
          | other => faultHere ending .unclosed other := by
  have hprimary : primary ending (room + 1) (⟨.lparen, pos⟩ :: ls) =
      parenthesis ending (expression ending (primary ending room)) ⟨.lparen, pos⟩ ls := rfl
  rw [read, hprimary]
  dsimp only [parenthesis]
  cases consume ending ls with
  | error e => rfl
  | ok _ =>
    unfold read
    cases expression ending (primary ending room) ls with
    | error e => rfl
    | ok p =>
      -- only a closing parenthesis makes a difference
      obtain ⟨tree, rest, hshorter⟩ := p
      cases rest with
      | nil => cases ending <;> rfl
      | cons l after =>
        obtain ⟨token, pos'⟩ := l
        cases token with
        | rparen =>
          dsimp only [bind, pure, Except.map, Except.bind, Except.pure]
          cases consume ending after <;> rfl
        | _ => rfl

/-- No other token starts a primary. -/
theorem read_primary_other {l : Lexeme} (hint : ∀ v, l.token ≠ .int v)
    (hident : ∀ name, l.token ≠ .ident name) (hlparen : l.token ≠ .lparen) (ls : List Lexeme) :
    read (primary ending room) (l :: ls) = .error (.fault (.unexpected l.token) l.pos) := by
  obtain ⟨t, pos⟩ := l
  have hprimary : primary ending room (⟨t, pos⟩ :: ls) = .error (.fault (.unexpected t) pos) := by
    cases t with
    | int v => exact absurd rfl (hint v)
    | ident name => exact absurd rfl (hident name)
    | lparen => exact absurd rfl hlparen
    | _ => cases room <;> rfl
  rw [read, hprimary]
  rfl

end Read

/-! ### The levels -/

/-- The operators of a level. -/
def opAt? : ℕ → Token → Option Op
  | 0 => shiftOp?
  | 1 => sumOp?
  | 2 => productOp?
  | _ => fun _ => none

/-- **The rule of a level.** -/
def level (ending : Ending) (room : ℕ) : ℕ → Rule
  | 0 => expression ending (primary ending room)
  | 1 => chain ending sumOp? (chain ending productOp? (operand ending (primary ending room)))
  | 2 => chain ending productOp? (operand ending (primary ending room))
  | 3 => operand ending (primary ending room)
  | _ => primary ending room

/-- What remains to be read of a chain of a level, to the right of a tree. -/
def follow (ending : Ending) (room n : ℕ) : Expr → List Lexeme →
    Except ReadError (Expr × List Lexeme) :=
  readAfter ending (opAt? n) (level ending room (n + 1))

/-- An operator belongs to the level of its strength. -/
theorem opAt?_eq_some_iff {n : ℕ} {t : Token} {op : Op} :
    opAt? n t = some op ↔ op.strength = n ∧ op.token = t := by
  constructor
  · intro h
    unfold opAt? at h
    split at h
    · unfold shiftOp? at h
      split at h <;> cases h <;> exact ⟨rfl, rfl⟩
    · unfold sumOp? at h
      split at h <;> cases h <;> exact ⟨rfl, rfl⟩
    · unfold productOp? at h
      split at h <;> cases h
      exact ⟨rfl, rfl⟩
    · cases h
  · rintro ⟨rfl, rfl⟩
    cases op <;> rfl

/-- A level of operators is a chain of phrases that bind tighter. -/
theorem read_level {n : ℕ} (hn : n < 3) (ending : Ending) (room : ℕ) (ls : List Lexeme) :
    read (level ending room n) ls =
      (read (level ending room (n + 1)) ls).bind fun r => follow ending room n r.1 r.2 := by
  have hlevel : level ending room n =
      chain ending (opAt? n) (level ending room (n + 1)) := by
    rcases n with - | - | - | n
    · rfl
    · rfl
    · rfl
    · omega
  rw [hlevel, read_chain]
  rfl

section

variable (ending : Ending) (room pos : ℕ) (ls : List Lexeme)

theorem read_level_plus : read (level ending room 3) (⟨.plus, pos⟩ :: ls) =
    (consume ending ls).bind fun _ => read (level ending room 3) ls :=
  read_operand_plus _ _ _ _

theorem read_level_minus : read (level ending room 3) (⟨.minus, pos⟩ :: ls) =
    (consume ending ls).bind fun _ =>
      (read (level ending room 3) ls).map fun r => (.neg r.1, r.2) :=
  read_operand_minus _ _ _ _

theorem read_level_group : read (level ending (room + 1) 4) (⟨.lparen, pos⟩ :: ls) =
    (consume ending ls).bind fun _ => (read (level ending room 0) ls).bind fun r =>
      match r.2 with
      | ⟨.rparen, _⟩ :: after => (consume ending after).map fun _ => (r.1, after)
      | other => faultHere ending .unclosed other :=
  read_primary_group _ _ _ _

end

section

variable {ending : Ending} {room : ℕ} {e : Expr} {rest : List Lexeme}

/-- A chain ends in front of what is no operator of its level. -/
theorem follow_of_ne {n : ℕ}
    (h : ∀ l, rest.head? = some l → ∀ op : Op, op.strength = n → l.token ≠ op.token) :
    follow ending room n e rest = .ok (e, rest) := by
  cases rest with
  | nil => exact readAfter_nil _ _ _ _
  | cons l rest =>
    refine readAfter_of_none _ _ ?_ _ _
    cases hop : opAt? n l.token with
    | none => rfl
    | some op =>
      obtain ⟨hstrength, htoken⟩ := opAt?_eq_some_iff.1 hop
      exact absurd htoken.symm (h l rfl op hstrength)

/-- Operands and primaries are no chains. -/
theorem follow_of_three_le {n : ℕ} (hn : 3 ≤ n) : follow ending room n e rest = .ok (e, rest) :=
  follow_of_ne fun _ _ op hop => absurd op.strength_lt_three (by omega)

end

/-- Parentheses end every chain. -/
theorem follow_rparen {ending : Ending} {room n pos : ℕ} {e : Expr} {rest : List Lexeme} :
    follow ending room n e (⟨.rparen, pos⟩ :: rest) = .ok (e, ⟨.rparen, pos⟩ :: rest) := by
  refine follow_of_ne fun l hl op _ => ?_
  cases hl
  exact op.token_ne_rparen.symm

/-- An operator goes on with a chain of its level. -/
theorem follow_op {ending : Ending} {room pos : ℕ} {op : Op} {e : Expr} {rest : List Lexeme} :
    follow ending room op.strength e (⟨op.token, pos⟩ :: rest) =
      (consume ending rest).bind fun _ =>
        (read (level ending room (op.strength + 1)) rest).bind fun r =>
          follow ending room op.strength (.bin op e r.1) r.2 :=
  readAfter_of_some _ _ (opAt?_eq_some_iff.2 ⟨rfl, rfl⟩) _ _

end Parser

end Readout
