import Readout.Proofs.Expr.Completeness
import Readout.Proofs.Token.Lexing

/-!
# The parser reads nothing but phrases

What a rule of a level reads is a phrase of that level, with no more parentheses open at
once than there was room for (`Readout.Parser.Sound`). The proof is by induction on the room
for parentheses and, inside, on the number of lexemes that are left.

Together with the fact that all phrases are read, this says what the parser accepts
(`Readout.parse_eq_ok_iff_phrase`): the sources whose tokens form an expression of the grammar,
if no more than `Readout.maxOpenParens` parentheses are open at any place. Chains, runs of
signs and parentheses beside each other can have any length.
-/

namespace Readout

namespace Parser

/-! ### Nothing else is read -/

section

variable {α β : Type} {b : β}

theorem exists_of_bind {x : Except ReadError α} {f : α → Except ReadError β}
    (h : x.bind f = .ok b) : ∃ a, x = .ok a ∧ f a = .ok b := by
  cases x with
  | error err => cases h
  | ok a => exact ⟨a, rfl, h⟩

theorem exists_of_map {x : Except ReadError α} {f : α → β} (h : x.map f = .ok b) :
    ∃ a, x = .ok a ∧ f a = b := by
  cases x with
  | error err => cases h
  | ok a => exact ⟨a, rfl, Except.ok.inj h⟩

end

/-- **Lexemes that spell a tree** at a level, in front of others: they form a phrase with no
more parentheses than there is room for; and if nothing is left after them, the text ends
properly. -/
structure Spells (ending : Ending) (room n : ℕ) (used : List Lexeme) (e : Expr)
    (rest : List Lexeme) : Prop where
  /-- They form a phrase. -/
  phrase : Phrase n (used.map Lexeme.token) e
  /-- There is room for their parentheses. -/
  fits : nesting .lparen .rparen (used.map Lexeme.token) ≤ room
  /-- The text ends properly. -/
  proper : rest = [] → ∃ pos, ending = .ok pos

namespace Spells

variable {ending : Ending} {room n : ℕ} {used rest : List Lexeme} {e : Expr}

theorem tighter (h : Spells ending room (n + 1) used e rest) (hn : n < 4) :
    Spells ending room n used e rest :=
  ⟨.tighter hn h.phrase, h.fits, h.proper⟩

theorem plus (h : Spells ending room 3 used e rest) (pos : ℕ) :
    Spells ending room 3 (⟨.plus, pos⟩ :: used) e rest := by
  refine ⟨.plus h.phrase, ?_, h.proper⟩
  rw [List.map_cons, nesting_cons_of_ne (by simp) (by simp)]
  exact h.fits

theorem minus (h : Spells ending room 3 used e rest) (pos : ℕ) :
    Spells ending room 3 (⟨.minus, pos⟩ :: used) (.neg e) rest := by
  refine ⟨.minus h.phrase, ?_, h.proper⟩
  rw [List.map_cons, nesting_cons_of_ne (by simp) (by simp)]
  exact h.fits

/-- A chain is longer by an operator and its right part. -/
theorem join {op : Op} {l : Lexeme} {more : List Lexeme} {f : Expr}
    (hleft : Spells ending room op.strength used e (l :: more ++ rest)) (hl : op.token = l.token)
    (hright : Spells ending room (op.strength + 1) more f rest) :
    Spells ending room op.strength (used ++ l :: more) (.bin op e f) rest := by
  have htokens : (used ++ l :: more).map Lexeme.token =
      used.map Lexeme.token ++ op.token :: more.map Lexeme.token := by
    rw [List.map_append, List.map_cons, hl]
  refine ⟨?_, ?_, hright.proper⟩
  · rw [htokens]
    exact .join op hleft.phrase hright.phrase
  · rw [htokens, hleft.phrase.nesting_join, Nat.max_le]
    exact ⟨hleft.fits, hright.fits⟩

/-- Parentheses take one room. -/
theorem group {inner : List Lexeme} {pos pos' : ℕ}
    (h : Spells ending room 0 inner e (⟨.rparen, pos'⟩ :: rest))
    (hproper : rest = [] → ∃ pos, ending = .ok pos) :
    Spells ending (room + 1) 4 (⟨.lparen, pos⟩ :: (inner ++ [⟨.rparen, pos'⟩])) e rest := by
  have htokens : (⟨.lparen, pos⟩ :: (inner ++ [⟨.rparen, pos'⟩]) : List Lexeme).map Lexeme.token =
      .lparen :: (inner.map Lexeme.token ++ [.rparen]) := by
    rw [List.map_cons, List.map_append, List.map_singleton]
  refine ⟨?_, ?_, hproper⟩
  · rw [htokens]
    exact .group h.phrase
  · rw [htokens, h.phrase.nesting_group]
    exact Nat.succ_le_succ h.fits

/-- A leaf takes no room. -/
theorem atom {a : Atom} (htokens : used.map Lexeme.token = a.tokens)
    (hproper : rest = [] → ∃ pos, ending = .ok pos) :
    Spells ending room 4 used (.atom a) rest := by
  refine ⟨?_, ?_, hproper⟩
  · rw [htokens]
    exact .atom a
  · rw [htokens, ← List.append_nil a.tokens, Phrase.nesting_atom_append]
    exact Nat.zero_le _

end Spells

/-- **A rule reads nothing but phrases of a level.** -/
def Sound (ending : Ending) (room n : ℕ) (rule : Rule) : Prop :=
  ∀ {ls rest : List Lexeme} {e : Expr}, read rule ls = .ok (e, rest) →
    ∃ used, ls = used ++ rest ∧ Spells ending room n used e rest

section

variable {ending : Ending} {room : ℕ}

/-- What is consumed last shows that the text ends properly. -/
theorem proper_of_consume {ls : List Lexeme} {u : Unit} (h : consume ending ls = .ok u)
    (hls : ls = []) : ∃ pos, ending = .ok pos := by
  subst hls
  obtain ⟨pos, hpos, -⟩ := exists_of_map h
  exact ⟨pos, hpos⟩

/-- **The rest of a chain is sound**: what it reads joins what was read before. -/
theorem sound_follow {n : ℕ} (hpart : Sound ending room (n + 1) (level ending room (n + 1)))
    {used ls rest : List Lexeme} {e f : Expr} (hleft : Spells ending room n used e ls)
    (h : follow ending room n e ls = .ok (f, rest)) :
    ∃ more, ls = more ++ rest ∧ Spells ending room n (used ++ more) f rest := by
  -- on the number of lexemes left; what is read so far is generalised
  induction hlen : ls.length using Nat.strongRecOn generalizing used ls e with
  | ind len ih =>
    rcases ls with - | ⟨l, ls⟩
    · cases (readAfter_nil _ _ _ _).symm.trans h
      exact ⟨[], rfl, by rwa [List.append_nil]⟩
    · cases hop : opAt? n l.token with
      | none =>
        cases (readAfter_of_none _ _ hop _ _).symm.trans h
        exact ⟨[], rfl, by rwa [List.append_nil]⟩
      | some op =>
        obtain ⟨rfl, htoken⟩ := opAt?_eq_some_iff.1 hop
        obtain ⟨⟨⟩, -, hrest⟩ := exists_of_bind ((readAfter_of_some _ _ hop _ _).symm.trans h)
        obtain ⟨⟨g, after⟩, hread, hfollow⟩ := exists_of_bind hrest
        obtain ⟨right, rfl, hright⟩ := hpart hread
        have hshorter : after.length < len := by
          rw [← hlen, List.length_cons, List.length_append]
          omega
        obtain ⟨more, rfl, hmore⟩ := ih after.length hshorter (hleft.join htoken hright) hfollow rfl
        refine ⟨l :: right ++ more, ?_, ?_⟩
        · simp only [List.cons_append, List.append_assoc]
        · rwa [← List.append_assoc]

theorem sound_chain {n : ℕ} (hn : n < 3)
    (hpart : Sound ending room (n + 1) (level ending room (n + 1))) :
    Sound ending room n (level ending room n) := by
  intro ls rest e h
  rw [read_level hn] at h
  obtain ⟨⟨g, after⟩, hread, hfollow⟩ := exists_of_bind h
  obtain ⟨first, rfl, hfirst⟩ := hpart hread
  obtain ⟨more, rfl, hmore⟩ := sound_follow hpart (hfirst.tighter (by omega)) hfollow
  exact ⟨first ++ more, (List.append_assoc _ _ _).symm, hmore⟩

theorem sound_operand (hprimary : Sound ending room 4 (level ending room 4)) :
    Sound ending room 3 (level ending room 3) := by
  intro ls
  induction ls with
  | nil =>
    intro rest e h
    obtain ⟨used, hused, hspells⟩ := hprimary ((read_operand_nil _ _).symm.trans h)
    exact ⟨used, hused, hspells.tighter (by decide)⟩
  | cons l ls ih =>
    intro rest e h
    obtain ⟨t, pos⟩ := l
    rcases eq_or_ne t .plus with rfl | hplus
    · obtain ⟨⟨⟩, -, hread⟩ := exists_of_bind ((read_level_plus _ _ _ _).symm.trans h)
      obtain ⟨used, rfl, hspells⟩ := ih hread
      exact ⟨⟨.plus, pos⟩ :: used, rfl, hspells.plus pos⟩
    · rcases eq_or_ne t .minus with rfl | hminus
      · obtain ⟨⟨⟩, -, hmap⟩ := exists_of_bind ((read_level_minus _ _ _ _).symm.trans h)
        obtain ⟨⟨g, after⟩, hread, hneg⟩ := exists_of_map hmap
        cases hneg
        obtain ⟨used, rfl, hspells⟩ := ih hread
        exact ⟨⟨.minus, pos⟩ :: used, rfl, hspells.minus pos⟩
      · obtain ⟨used, hused, hspells⟩ :=
          hprimary ((read_operand_of_ne _ _ hplus hminus _).symm.trans h)
        exact ⟨used, hused, hspells.tighter (by decide)⟩

/-- Expressions are sound if primaries are. -/
theorem sound_expression (hprimary : Sound ending room 4 (level ending room 4)) :
    Sound ending room 0 (level ending room 0) :=
  sound_chain (by decide) (sound_chain (by decide) (sound_chain (by decide)
    (sound_operand hprimary)))

/-- What starts with a name is a leaf. -/
theorem sound_name {word : String} {pos : ℕ} {ls rest : List Lexeme} {e : Expr}
    (h : read (level ending room 4) (⟨.ident word, pos⟩ :: ls) = .ok (e, rest)) :
    ∃ used, ⟨.ident word, pos⟩ :: ls = used ++ rest ∧ Spells ending room 4 used e rest := by
  by_cases hscope : ∃ pos' ls', ls = ⟨.scope, pos'⟩ :: ls'
  · obtain ⟨pos', ls, rfl⟩ := hscope
    by_cases hname : ∃ name pos'' ls', ls = ⟨.ident name, pos''⟩ :: ls'
    · obtain ⟨name, pos'', ls, rfl⟩ := hname
      obtain ⟨⟨⟩, hconsume, hread⟩ :=
        exists_of_bind ((read_primary_qualified _ _ _ _ _ _ _ _).symm.trans h)
      split at hread
      · rename_i scope hkeyword
        cases hread
        have htokens : [⟨.ident word, pos⟩, ⟨.scope, pos'⟩, ⟨.ident name, pos''⟩].map Lexeme.token =
            (Atom.qualified scope name).tokens := by
          rw [Atom.tokens, Scope.keyword_of_ofKeyword? hkeyword]
          rfl
        exact ⟨_, rfl, .atom htokens (proper_of_consume hconsume)⟩
      · cases hread
    · have hmissing := read_primary_missing ending room word pos pos' ls
        fun name pos'' hhead => hname ⟨name, pos'', ls.tail, (List.head?_eq_some_iff.1 hhead).elim
          fun ys hys => by rw [hys]; rfl⟩
      obtain ⟨⟨⟩, -, hfault⟩ := exists_of_bind (hmissing.symm.trans h)
      obtain ⟨err, herr⟩ := exists_faultHere ending (Expr × List Lexeme) .missingName ls
      cases herr.symm.trans hfault
  · have hbare := read_primary_bare ending room word pos ls fun l hl htoken =>
      hscope ⟨l.pos, ls.tail, by
        obtain ⟨ys, rfl⟩ := List.head?_eq_some_iff.1 hl
        rw [← htoken]
        rfl⟩
    obtain ⟨⟨⟩, hconsume, hleaf⟩ := exists_of_map (hbare.symm.trans h)
    cases hleaf
    exact ⟨[⟨.ident word, pos⟩], rfl, .atom rfl (proper_of_consume hconsume)⟩

/-- Parentheses hold an expression of the next smaller room. -/
theorem sound_group (hinside : Sound ending room 0 (level ending room 0)) {pos : ℕ}
    {ls rest : List Lexeme} {e : Expr}
    (h : read (level ending (room + 1) 4) (⟨.lparen, pos⟩ :: ls) = .ok (e, rest)) :
    ∃ used, ⟨.lparen, pos⟩ :: ls = used ++ rest ∧ Spells ending (room + 1) 4 used e rest := by
  rw [read_level_group] at h
  obtain ⟨⟨⟩, -, hbind⟩ := exists_of_bind h
  obtain ⟨⟨g, after⟩, hread, hclose⟩ := exists_of_bind hbind
  obtain ⟨inner, rfl, hinner⟩ := hinside hread
  split at hclose
  · rename_i pos' after' heq
    obtain ⟨⟨⟩, hconsume, hrest⟩ := exists_of_map hclose
    cases hrest
    dsimp only at heq
    subst heq
    refine ⟨⟨.lparen, pos⟩ :: (inner ++ [⟨.rparen, pos'⟩]), ?_,
      hinner.group (proper_of_consume hconsume)⟩
    simp only [List.cons_append, List.append_assoc, List.nil_append]
  · obtain ⟨err, herr⟩ := exists_faultHere ending (Expr × List Lexeme) .unclosed after
    cases herr.symm.trans hclose

/-- Primaries are sound if those in parentheses are. -/
theorem sound_primary_of_group
    (hgroup : ∀ {pos : ℕ} {ls rest : List Lexeme} {e : Expr},
      read (level ending room 4) (⟨.lparen, pos⟩ :: ls) = .ok (e, rest) →
        ∃ used, ⟨.lparen, pos⟩ :: ls = used ++ rest ∧ Spells ending room 4 used e rest) :
    Sound ending room 4 (level ending room 4) := by
  intro ls rest e h
  rcases ls with - | ⟨⟨t, pos⟩, ls⟩
  · obtain ⟨err, herr⟩ := exists_faultHere ending (Expr × List Lexeme) .unexpectedEnd []
    cases herr.symm.trans ((read_primary_nil ending room).symm.trans h)
  · -- one case for each kind of first token
    by_cases hint : ∃ v, t = .int v
    · obtain ⟨v, rfl⟩ := hint
      obtain ⟨⟨⟩, hconsume, hleaf⟩ := exists_of_map ((read_primary_int _ _ _ _ _).symm.trans h)
      cases hleaf
      exact ⟨[⟨.int v, pos⟩], rfl, .atom (a := .const v) rfl (proper_of_consume hconsume)⟩
    · by_cases hident : ∃ word, t = .ident word
      · obtain ⟨word, rfl⟩ := hident
        exact sound_name h
      · rcases eq_or_ne t .lparen with rfl | hlparen
        · exact hgroup h
        · cases (read_primary_other ending room (l := ⟨t, pos⟩) (fun v hv => hint ⟨v, hv⟩)
            (fun word hword => hident ⟨word, hword⟩) hlparen ls).symm.trans h

end

/-- **Primaries are sound**, by induction on the room for parentheses. -/
theorem sound_primary (ending : Ending) (room : ℕ) :
    Sound ending room 4 (level ending room 4) := by
  induction room with
  | zero =>
    refine sound_primary_of_group fun h => ?_
    cases (read_primary_full _ _ _).symm.trans h
  | succ room ih => exact sound_primary_of_group fun h => sound_group (sound_expression ih) h

end Parser

/-! ### What is accepted -/

/-- Reading succeeds exactly on the texts that end properly and whose tokens form an
expression. -/
theorem Feed.parse_eq_ok_iff {feed : Feed} {e : Expr} :
    feed.parse = .ok e ↔ Parser.Spells feed.ending maxOpenParens 0 feed.lexemes e [] := by
  constructor
  · intro h
    rw [Parser.parse_eq] at h
    obtain ⟨⟨f, rest⟩, hread, hend⟩ := Parser.exists_of_bind h
    rcases rest with - | ⟨l, rest⟩
    · cases hend
      obtain ⟨used, hused, hspells⟩ :=
        Parser.sound_expression (Parser.sound_primary feed.ending maxOpenParens) hread
      rwa [hused, List.append_nil]
    · cases hend
  · intro h
    obtain ⟨pos, hending⟩ := h.proper rfl
    exact Feed.parse_of_phrase hending h.phrase h.fits

/-- The tokens of a text are the lexemes that the parser reads, and the end token. -/
theorem tokenize_eq_ok_iff {source : String} {ls : List Lexeme} {pos : ℕ} :
    tokenize source = .ok (ls ++ [⟨.eof, pos⟩]) ↔ (Cursor.start source).feed = ⟨ls, .ok pos⟩ := by
  unfold tokenize
  obtain ⟨lexemes, ending⟩ := (Cursor.start source).feed
  cases ending with
  | error err => simp
  | ok last => simp

/-- **The parser accepts exactly its grammar, and there is one tree to each text.** A source
is read as a tree if and only if it consists of tokens that spell the tree as an expression
of the grammar, with no more parentheses open at any place than are allowed; and tokens
spell no more than one tree. -/
theorem parse_eq_ok_iff_phrase :
    (∀ (source : String) (e : Expr), parse source = .ok e ↔
      ∃ ls pos, tokenize source = .ok (ls ++ [⟨.eof, pos⟩]) ∧
        Phrase 0 (ls.map Lexeme.token) e ∧
        ∀ ts, ts <+: ls.map Lexeme.token → ts.count .lparen ≤ ts.count .rparen + maxOpenParens) ∧
      ∀ (ts : List Token) (e f : Expr), Phrase 0 ts e → Phrase 0 ts f → e = f := by
  refine ⟨fun source e => ?_, fun ts e f => Phrase.unique⟩
  simp only [tokenize_eq_ok_iff, ← nesting_le_iff (show Token.lparen ≠ .rparen by decide)]
  constructor
  · intro h
    have hspells := Feed.parse_eq_ok_iff.1 h
    obtain ⟨pos, hending⟩ := hspells.proper rfl
    exact ⟨_, pos, by rw [← hending], hspells.phrase, hspells.fits⟩
  · rintro ⟨ls, pos, hfeed, hphrase, hfits⟩
    rw [parse, hfeed]
    exact Feed.parse_of_phrase rfl hphrase hfits

/-- The left difference is formed first. -/
theorem parse_two_differences :
    parse "1-2-3" =
      .ok (.bin .sub (.bin .sub (.atom (.const 1)) (.atom (.const 2))) (.atom (.const 3))) ∧
    ∀ f, Phrase 0 [.int 1, .minus, .int 2, .minus, .int 3] f →
      f = .bin .sub (.bin .sub (.atom (.const 1)) (.atom (.const 2))) (.atom (.const 3)) := by
  have hleaf : ∀ v n, n ≤ 4 → Phrase n [.int v] (.atom (.const v)) := fun v n hn =>
    (Phrase.atom (.const v)).loosen hn (Nat.le_refl 4)
  have hphrase : Phrase 0 [.int 1, .minus, .int 2, .minus, .int 3]
      (.bin .sub (.bin .sub (.atom (.const 1)) (.atom (.const 2))) (.atom (.const 3))) :=
    .tighter (by decide) (.join .sub (.join .sub (hleaf 1 1 (by decide)) (hleaf 2 2 (by decide)))
      (hleaf 3 2 (by decide)))
  have htokens : tokenize "1-2-3" =
      .ok ([⟨.int 1, 0⟩, ⟨.minus, 1⟩, ⟨.int 2, 2⟩, ⟨.minus, 3⟩, ⟨.int 3, 4⟩] ++ [⟨.eof, 5⟩]) := by
    have hsome : (tokenize "1-2-3").toOption =
        some [⟨.int 1, 0⟩, ⟨.minus, 1⟩, ⟨.int 2, 2⟩, ⟨.minus, 3⟩, ⟨.int 3, 4⟩, ⟨.eof, 5⟩] := by
      decide +kernel
    cases htokenize : tokenize "1-2-3" with
    | error err =>
      rw [htokenize] at hsome
      cases hsome
    | ok ls =>
      rw [htokenize] at hsome
      cases hsome
      rfl
  have hnesting : ∀ ts : List Token, ts <+: [.int 1, .minus, .int 2, .minus, .int 3] →
      ts.count .lparen ≤ ts.count .rparen + maxOpenParens :=
    (nesting_le_iff (show Token.lparen ≠ .rparen by decide)).1 (by decide)
  exact ⟨(parse_eq_ok_iff_phrase.1 _ _).2 ⟨_, 5, htokens, hphrase, hnesting⟩,
    fun f hf => parse_eq_ok_iff_phrase.2 _ _ _ hf hphrase⟩

end Readout
