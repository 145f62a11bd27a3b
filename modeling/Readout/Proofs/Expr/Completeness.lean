import Readout.Proofs.Expr.Rules

/-!
# The parser reads every phrase

A chain is read from the left, and the grammar takes it apart from the right. So what is
proved by induction on a phrase is not that the phrase is read and something is left, but
that reading it comes down to going on after it (`Readout.Parser.read_phrase`). What stands
after a phrase must not go on with it, which is `Readout.Parser.Stops`.

* **There is one tree.** Since the parser finds the tree of every phrase, a list of tokens
  spells no more than one (`Readout.Phrase.unique`).
* **Phrases that are too deep fail for that reason** and no other
  (`Readout.Parser.read_deep_phrase`): nothing in front of the parenthesis that is one too
  many can fail.
-/

namespace Readout

namespace Parser

/-! ### Every phrase is read -/

/-- A rest that a phrase of a level does not go on with: it starts neither with a double
colon nor with an operator that binds tighter. -/
def Stops (n : ℕ) (rest : List Lexeme) : Prop :=
  ∀ l, rest.head? = some l → l.token ≠ .scope ∧ ∀ op : Op, n < op.strength → l.token ≠ op.token

theorem Stops.mono {m n : ℕ} {rest : List Lexeme} (h : Stops m rest) (hmn : m ≤ n) :
    Stops n rest := fun l hl => ⟨(h l hl).1, fun op hop => (h l hl).2 op (by omega)⟩

/-- In front of an operator, what is joined by it stops. -/
theorem stops_op (op : Op) (pos : ℕ) (rest : List Lexeme) :
    Stops op.strength (⟨op.token, pos⟩ :: rest) := by
  rintro l ⟨⟩
  refine ⟨by cases op <;> simp [Op.token], fun op' hop heq => ?_⟩
  cases op <;> cases op' <;> simp_all [Op.token, Op.strength]

theorem stops_rparen (n pos : ℕ) (rest : List Lexeme) : Stops n (⟨.rparen, pos⟩ :: rest) := by
  rintro l ⟨⟩
  exact ⟨by simp, fun op _ => op.token_ne_rparen.symm⟩

theorem stops_nil (n : ℕ) : Stops n [] := by
  rintro l ⟨⟩

/-- Where a phrase stops, a chain that binds tighter has ended. -/
theorem follow_of_stops {m n : ℕ} {ending : Ending} {room : ℕ} {e : Expr} {rest : List Lexeme}
    (h : Stops m rest) (hmn : m < n) : follow ending room n e rest = .ok (e, rest) :=
  follow_of_ne fun l hl op hop => (h l hl).2 op (by omega)

theorem consume_ok (pos : ℕ) (ls : List Lexeme) : consume (.ok pos) ls = .ok () := by
  cases ls <;> rfl

/-- A leaf is read whatever the room. -/
theorem read_atom (a : Atom) {pos room : ℕ} {used rest : List Lexeme}
    (hts : used.map Lexeme.token = a.tokens) (hrest : Stops 4 rest) :
    read (primary (.ok pos) room) (used ++ rest) = .ok (.atom a, rest) := by
  cases a with
  | const v =>
    obtain ⟨⟨_, p⟩, rfl, rfl⟩ := List.map_eq_singleton_iff.1 hts
    rw [List.singleton_append, read_primary_int, consume_ok]
    rfl
  | bare name =>
    obtain ⟨⟨_, p⟩, rfl, rfl⟩ := List.map_eq_singleton_iff.1 hts
    rw [List.singleton_append, read_primary_bare _ _ _ _ _ fun l hl => (hrest l hl).1, consume_ok]
    rfl
  | qualified scope name =>
    obtain ⟨⟨_, p⟩, used, rfl, rfl, hnext⟩ := List.map_eq_cons_iff.1 hts
    obtain ⟨⟨_, p'⟩, used, rfl, rfl, hlast⟩ := List.map_eq_cons_iff.1 hnext
    obtain ⟨⟨_, p''⟩, rfl, rfl⟩ := List.map_eq_singleton_iff.1 hlast
    simp only [List.cons_append, List.nil_append]
    rw [read_primary_qualified, consume_ok, Scope.ofKeyword?_keyword]
    rfl

/-- A primary starts with no sign. -/
theorem exists_cons_of_phrase_four {ts : List Token} {e : Expr} (h : Phrase 4 ts e) :
    ∃ t us, ts = t :: us ∧ t ≠ .plus ∧ t ≠ .minus := by
  generalize hn : 4 = n at h
  cases h with
  | atom a => cases a <;> exact ⟨_, _, rfl, by simp, by simp⟩
  | group h => exact ⟨_, _, rfl, by simp, by simp⟩
  | plus h => omega
  | minus h => omega
  | join op hl hr => exact absurd op.strength_lt_three (by omega)
  | tighter hlt h => omega

/-- So an operand that is a primary is read as one. -/
theorem read_operand_of_phrase_four {ts : List Token} {e : Expr} (h : Phrase 4 ts e)
    {ending : Ending} {room : ℕ} {used : List Lexeme} (hts : used.map Lexeme.token = ts)
    (rest : List Lexeme) : read (level ending room 3) (used ++ rest) =
      read (level ending room 4) (used ++ rest) := by
  obtain ⟨t, us, rfl, hplus, hminus⟩ := exists_cons_of_phrase_four h
  obtain ⟨l, used, rfl, rfl, -⟩ := List.map_eq_cons_iff.1 hts
  exact read_operand_of_ne _ _ hplus hminus _

/-- The lexemes of an expression in parentheses. -/
theorem exists_group {used : List Lexeme} {ts : List Token}
    (h : used.map Lexeme.token = .lparen :: (ts ++ [.rparen])) :
    ∃ pos pos' inner, used = ⟨.lparen, pos⟩ :: (inner ++ [⟨.rparen, pos'⟩]) ∧
      inner.map Lexeme.token = ts := by
  obtain ⟨⟨_, pos⟩, tail, rfl, rfl, htail⟩ := List.map_eq_cons_iff.1 h
  obtain ⟨inner, close, rfl, hinner, hclose⟩ := List.map_eq_append_iff.1 htail
  obtain ⟨⟨_, pos'⟩, rfl, rfl⟩ := List.map_eq_singleton_iff.1 hclose
  exact ⟨pos, pos', inner, rfl, hinner⟩

/-- The lexemes of a chain: those to the left of its last operator, the operator, and those
to the right of it. -/
theorem exists_join {used : List Lexeme} {ts us : List Token} {op : Op}
    (h : used.map Lexeme.token = ts ++ op.token :: us) :
    ∃ pos lefts rights, used = lefts ++ ⟨op.token, pos⟩ :: rights ∧
      lefts.map Lexeme.token = ts ∧ rights.map Lexeme.token = us := by
  obtain ⟨lefts, tail, rfl, hlefts, htail⟩ := List.map_eq_append_iff.1 h
  obtain ⟨⟨_, pos⟩, rights, rfl, rfl, hrights⟩ := List.map_eq_cons_iff.1 htail
  exact ⟨pos, lefts, rights, rfl, hlefts, hrights⟩

/-- **Every phrase is read**, if there is room for its parentheses: reading it comes down to
going on after it. -/
theorem read_phrase {n : ℕ} {ts : List Token} {e : Expr} (h : Phrase n ts e) {pos room : ℕ}
    {used rest : List Lexeme} (hts : used.map Lexeme.token = ts)
    (hroom : nesting .lparen .rparen ts ≤ room) (hrest : Stops n rest) :
    read (level (.ok pos) room n) (used ++ rest) = follow (.ok pos) room n e rest := by
  -- by induction on the phrase, for every room and every rest: parts of the phrase are read
  -- with less room, and in front of other parts of it
  induction h generalizing room used rest with
  | atom a =>
    rw [follow_of_three_le (by decide)]
    exact read_atom a hts hrest
  | group h ih =>
    obtain ⟨p, p', inner, rfl, hinner⟩ := exists_group hts
    rw [h.nesting_group] at hroom
    obtain ⟨room, rfl⟩ : ∃ k, room = k + 1 := ⟨room - 1, by omega⟩
    -- the expression inside ends in front of the closing parenthesis
    have hread := ih hinner (Nat.le_of_succ_le_succ hroom) (stops_rparen 0 p' rest)
    rw [follow_rparen] at hread
    rw [follow_of_three_le (by decide), List.cons_append, List.append_assoc, List.singleton_append]
    rw [read_level_group, consume_ok]
    dsimp only [Except.bind]
    rw [hread]
    dsimp only
    rw [consume_ok]
    rfl
  | plus h ih =>
    obtain ⟨⟨_, p⟩, used, rfl, rfl, htail⟩ := List.map_eq_cons_iff.1 hts
    rw [nesting_cons_of_ne (by decide) (by decide)] at hroom
    rw [← ih htail hroom hrest, List.cons_append, read_level_plus, consume_ok]
    rfl
  | minus h ih =>
    obtain ⟨⟨_, p⟩, used, rfl, rfl, htail⟩ := List.map_eq_cons_iff.1 hts
    rw [nesting_cons_of_ne (by decide) (by decide)] at hroom
    have hoperand := ih htail hroom hrest
    rw [follow_of_three_le (by decide)] at hoperand ⊢
    rw [List.cons_append, read_level_minus, consume_ok]
    dsimp only [Except.bind]
    rw [hoperand]
    rfl
  | join op hl hr ihl ihr =>
    obtain ⟨p, lefts, rights, rfl, hlefts, hrights⟩ := exists_join hts
    rw [hl.nesting_join, Nat.max_le] at hroom
    -- the right part binds tighter, so it is read to its end, and the chain goes on after it
    have hright := ihr hrights hroom.2 (hrest.mono (Nat.le_succ _))
    rw [follow_of_stops hrest (Nat.lt_succ_self _)] at hright
    rw [List.append_assoc, List.cons_append, ihl hlefts hroom.1 (stops_op op p _), follow_op,
      consume_ok]
    dsimp only [Except.bind]
    rw [hright]
  | @tighter n ts e hn h ih =>
    have htighter := ih hts hroom (hrest.mono (Nat.le_succ n))
    -- a chain with a single part, or an operand without signs
    rcases Nat.lt_or_ge n 3 with hlt | hge
    · rw [read_level hlt, htighter, follow_of_stops hrest (Nat.lt_succ_self n)]
      rfl
    · obtain rfl : n = 3 := by omega
      rw [read_operand_of_phrase_four h hts, htighter, follow_of_three_le (by decide),
        follow_of_three_le (by decide)]

/-- **A phrase that is too deep fails for that reason**, whatever follows it. -/
theorem read_deep_phrase {n : ℕ} {ts : List Token} {e : Expr} (h : Phrase n ts e) {pos room : ℕ}
    {used rest : List Lexeme} (hts : used.map Lexeme.token = ts)
    (hroom : room < nesting .lparen .rparen ts) (hrest : Stops n rest) :
    ∃ p, read (level (.ok pos) room n) (used ++ rest) = .error (.fault .tooDeep p) := by
  induction h generalizing room used rest with
  | atom a =>
    rw [← List.append_nil a.tokens, Phrase.nesting_atom_append] at hroom
    exact absurd hroom (Nat.not_lt_zero room)
  | group h ih =>
    obtain ⟨p, p', inner, rfl, hinner⟩ := exists_group hts
    rw [List.cons_append, List.append_assoc, List.singleton_append]
    rcases room with - | room
    · exact ⟨p, read_primary_full _ _ _⟩
    · -- the parenthesis itself is admitted, so the fault lies inside
      rw [h.nesting_group] at hroom
      obtain ⟨p, hp⟩ := ih hinner (Nat.lt_of_succ_lt_succ hroom) (stops_rparen 0 p' rest)
      rw [read_level_group, consume_ok]
      dsimp only [Except.bind]
      rw [hp]
      exact ⟨p, rfl⟩
  | plus h ih =>
    obtain ⟨⟨_, p⟩, used, rfl, rfl, htail⟩ := List.map_eq_cons_iff.1 hts
    rw [nesting_cons_of_ne (by decide) (by decide)] at hroom
    rw [List.cons_append, read_level_plus, consume_ok]
    exact ih htail hroom hrest
  | minus h ih =>
    obtain ⟨⟨_, p⟩, used, rfl, rfl, htail⟩ := List.map_eq_cons_iff.1 hts
    rw [nesting_cons_of_ne (by decide) (by decide)] at hroom
    obtain ⟨p, hp⟩ := ih htail hroom hrest
    rw [List.cons_append, read_level_minus, consume_ok]
    dsimp only [Except.bind]
    rw [hp]
    exact ⟨p, rfl⟩
  | @join op ts us e f hl hr ihl ihr =>
    obtain ⟨p, lefts, rights, rfl, hlefts, hrights⟩ := exists_join hts
    rw [List.append_assoc, List.cons_append]
    rcases Nat.lt_or_ge room (nesting .lparen .rparen ts) with hlt | hge
    · exact ihl hlefts hlt (stops_op op p _)
    · -- the left part is read, and the right one fails
      have hright : room < nesting .lparen .rparen us := by
        rw [hl.nesting_join] at hroom
        omega
      obtain ⟨p', hp'⟩ := ihr hrights hright (hrest.mono (Nat.le_succ _))
      rw [read_phrase hl hlefts hge (stops_op op p _), follow_op, consume_ok]
      dsimp only [Except.bind]
      rw [hp']
      exact ⟨p', rfl⟩
  | @tighter n ts e hn h ih =>
    obtain ⟨p, hp⟩ := ih hts hroom (hrest.mono (Nat.le_succ n))
    refine ⟨p, ?_⟩
    rcases Nat.lt_or_ge n 3 with hlt | hge
    · rw [read_level hlt, hp]
      rfl
    · obtain rfl : n = 3 := by omega
      rw [read_operand_of_phrase_four h hts, hp]

/-! ### Whole texts -/

/-- What is left after an expression must be nothing. -/
theorem parse_eq (feed : Feed) : feed.parse =
    (read (level feed.ending maxOpenParens 0) feed.lexemes).bind fun r =>
      match r.2 with
      | [] => .ok r.1
      | l :: _ => .error (.fault .trailing l.pos) := by
  rw [Feed.parse, read]
  change (expression feed.ending (primary feed.ending maxOpenParens) feed.lexemes).bind _ =
    ((expression feed.ending (primary feed.ending maxOpenParens) feed.lexemes).map _).bind _
  cases expression feed.ending (primary feed.ending maxOpenParens) feed.lexemes with
  | error err => rfl
  | ok whole => rfl

end Parser

section

variable {feed : Feed} {pos : ℕ} {e : Expr}

/-- **A text whose tokens form an expression is read**, if it is not too deep. -/
theorem Feed.parse_of_phrase (hending : feed.ending = .ok pos)
    (h : Phrase 0 (feed.lexemes.map Lexeme.token) e)
    (hroom : nesting .lparen .rparen (feed.lexemes.map Lexeme.token) ≤ maxOpenParens) :
    feed.parse = .ok e := by
  have hread : Parser.read (Parser.level (.ok pos) maxOpenParens 0) (feed.lexemes ++ []) = _ :=
    Parser.read_phrase h rfl hroom (Parser.stops_nil 0)
  rw [List.append_nil, Parser.follow_of_ne (by simp)] at hread
  rw [Parser.parse_eq, hending, hread]
  rfl

/-- **If it is too deep, the parser says so.** -/
theorem Feed.parse_of_deep_phrase (hending : feed.ending = .ok pos)
    (h : Phrase 0 (feed.lexemes.map Lexeme.token) e)
    (hroom : maxOpenParens < nesting .lparen .rparen (feed.lexemes.map Lexeme.token)) :
    ∃ p, feed.parse = .error (.fault .tooDeep p) := by
  obtain ⟨p, hp⟩ : ∃ p, Parser.read (Parser.level (.ok pos) maxOpenParens 0)
      (feed.lexemes ++ []) = .error (.fault .tooDeep p) :=
    Parser.read_deep_phrase h rfl hroom (Parser.stops_nil 0)
  rw [List.append_nil] at hp
  refine ⟨p, ?_⟩
  rw [Parser.parse_eq, hending, hp]
  rfl

end

/-- **The grammar is unambiguous**: tokens spell one tree at most. -/
theorem Phrase.unique {n : ℕ} {ts : List Token} {e f : Expr} (he : Phrase n ts e)
    (hf : Phrase n ts f) : e = f := by
  -- the parser can only find one of them
  have hts : (ts.map fun t => (⟨t, 0⟩ : Lexeme)).map Lexeme.token = ts := by
    rw [List.map_map]
    exact List.map_id ts
  have hread : Parser.read (Parser.level (.ok 0) (nesting .lparen .rparen ts) n) _ = _ :=
    Parser.read_phrase he hts (Nat.le_refl _) (Parser.stops_nil n)
  rw [Parser.read_phrase hf hts (Nat.le_refl _) (Parser.stops_nil n),
    Parser.follow_of_ne (by simp), Parser.follow_of_ne (by simp)] at hread
  exact (Prod.mk.inj (Except.ok.inj hread)).1.symm

end Readout
