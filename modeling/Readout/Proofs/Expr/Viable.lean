import Readout.Proofs.Expr.RoundTrip
import Readout.Proofs.Expr.Soundness
import Readout.Proofs.Token.Starts

/-!
# Faults are found where the text can still be completed

A parser that looks one token ahead should never go on reading where no continuation can help any
more. This file shows that it does not, with one exception that the language makes itself: which
words select a scope is asked after the name in the scope has been read.

* **Starts of phrases.** `Readout.Completable` says that tokens can be completed to a phrase of a
  level, with no more parentheses than there is room for. An operator and a sign can always be
  followed by a literal, a double colon by a name, and what is open can be closed.
* **Faults.** Where a rule fails with a fault, the lexemes before the position of the fault can be
  completed (`Readout.Parser.FaultAt`). A rule of a chain hands its own part on together with what
  was read before it, so the statement speaks about tokens that were read earlier.
* **Texts.** Breaking a text off at the position of a fault does not change its tokens before that
  position, and so the text before it can be completed as well
  (`Readout.exists_parse_of_fault`).
-/

namespace Readout

/-! ### Starts of phrases -/

/-- **The tokens that starts of phrases are completed with.** -/
def Token.IsFiller (t : Token) : Prop :=
  t = .int 1 ∨ t = .ident "x" ∨ t = .rparen

/-- **Tokens that a phrase of a level can start with**, with no more parentheses open at once than
there is room for. -/
def Completable (room n : ℕ) (ts : List Token) : Prop :=
  ∃ us e, (∀ t ∈ us, t.IsFiller) ∧ Phrase n (ts ++ us) e ∧
    nesting .lparen .rparen (ts ++ us) ≤ room

namespace Completable

variable {room n : ℕ} {ts : List Token} {e : Expr}

/-- A phrase is complete. -/
theorem of_phrase (h : Phrase n ts e) (hroom : nesting .lparen .rparen ts ≤ room) :
    Completable room n ts :=
  ⟨[], e, List.forall_mem_nil _, by rwa [List.append_nil], by rwa [List.append_nil]⟩

/-- Leaves need no room, also if only their first tokens are there. -/
theorem of_atom (a : Atom) (us : List Token) (hus : ∀ t ∈ us, t.IsFiller)
    (h : ts ++ us = a.tokens) : Completable room 4 ts := by
  refine ⟨us, .atom a, hus, h ▸ .atom a, ?_⟩
  rw [h, ← List.append_nil a.tokens, Phrase.nesting_atom_append]
  exact Nat.zero_le room

theorem tighter (h : Completable room (n + 1) ts) (hn : n < 4) : Completable room n ts := by
  obtain ⟨us, e, hus, hphrase, hroom⟩ := h
  exact ⟨us, e, hus, .tighter hn hphrase, hroom⟩

/-- Nothing can be completed to any phrase. -/
theorem nil (hn : n ≤ 4) : Completable room n [] := by
  have hint : Completable room 4 [] :=
    of_atom (.const 1) [.int 1] (List.forall_mem_singleton.2 (.inl rfl)) rfl
  induction hk : 4 - n generalizing n with
  | zero =>
    obtain rfl : n = 4 := by omega
    exact hint
  | succ k ih => exact (ih (n := n + 1) (by omega) (by omega)).tighter (by omega)

theorem plus (h : Completable room 3 ts) : Completable room 3 (.plus :: ts) := by
  obtain ⟨us, e, hus, hphrase, hroom⟩ := h
  refine ⟨us, e, hus, .plus hphrase, ?_⟩
  rw [List.cons_append, nesting_cons_of_ne (by decide) (by decide)]
  exact hroom

theorem minus (h : Completable room 3 ts) : Completable room 3 (.minus :: ts) := by
  obtain ⟨us, e, hus, hphrase, hroom⟩ := h
  refine ⟨us, .neg e, hus, .minus hphrase, ?_⟩
  rw [List.cons_append, nesting_cons_of_ne (by decide) (by decide)]
  exact hroom

/-- To the right of an operator, a chain goes on. -/
theorem join {op : Op} {rs : List Token} (hleft : Phrase op.strength ts e)
    (hroom : nesting .lparen .rparen ts ≤ room) (h : Completable room (op.strength + 1) rs) :
    Completable room op.strength (ts ++ op.token :: rs) := by
  obtain ⟨us, f, hus, hphrase, hright⟩ := h
  refine ⟨us, .bin op e f, hus, ?_, ?_⟩
  · rw [List.append_assoc, List.cons_append]
    exact .join op hleft hphrase
  · rw [List.append_assoc, List.cons_append, hleft.nesting_join, Nat.max_le]
    exact ⟨hroom, hright⟩

/-- What is open can be closed. -/
theorem group (h : Completable room 0 ts) : Completable (room + 1) 4 (.lparen :: ts) := by
  obtain ⟨us, e, hus, hphrase, hroom⟩ := h
  have hclosed : (.lparen :: ts) ++ (us ++ [.rparen]) =
      .lparen :: ((ts ++ us) ++ [.rparen]) := by
    rw [List.cons_append, List.append_assoc]
  refine ⟨us ++ [.rparen], e, ?_, ?_, ?_⟩
  · exact List.forall_mem_append.2 ⟨hus, List.forall_mem_singleton.2 (.inr (.inr rfl))⟩
  · rw [hclosed]
    exact .group hphrase
  · rw [hclosed, hphrase.nesting_group]
    exact Nat.succ_le_succ hroom

end Completable

/-- **Only words that select a scope stand before a double colon.** -/
def ScopesKnown (ts : List Token) : Prop :=
  ∀ word, [.ident word, .scope] <:+: ts → word = "reg" ∨ word = "sym"

theorem ScopesKnown.of_append {ts us : List Token} (h : ScopesKnown (ts ++ us)) : ScopesKnown us :=
  fun word hword => h word (hword.trans (List.suffix_append ts us).isInfix)

namespace Parser

/-! ### Where the rules fail -/

/-- **A fault at a position, in front of which tokens can be completed**: those that were read
before, and those of the lexemes up to the position. -/
def FaultAt (ending : Ending) (room n : ℕ) (before : List Token) (ls : List Lexeme) (pos : ℕ) :
    Prop :=
  ∃ used rest, ls = used ++ rest ∧ Feed.StartsAt ⟨rest, ending⟩ pos ∧
    (ScopesKnown (before ++ used.map Lexeme.token) →
      Completable room n (before ++ used.map Lexeme.token))

namespace FaultAt

variable {ending : Ending} {room n : ℕ} {before : List Token} {ls : List Lexeme} {pos : ℕ}

/-- The fault may be the next lexeme itself. -/
theorem here (hpos : Feed.StartsAt ⟨ls, ending⟩ pos)
    (h : ScopesKnown before → Completable room n before) : FaultAt ending room n before ls pos :=
  ⟨[], ls, rfl, hpos, by simpa using h⟩

/-- Lexemes that have been read count as read before. -/
theorem append (more : List Lexeme)
    (h : FaultAt ending room n (before ++ more.map Lexeme.token) ls pos) :
    FaultAt ending room n before (more ++ ls) pos := by
  obtain ⟨used, rest, rfl, hpos, hcomplete⟩ := h
  refine ⟨more ++ used, rest, (List.append_assoc _ _ _).symm, hpos, ?_⟩
  rwa [List.map_append, ← List.append_assoc]

theorem cons {l : Lexeme} (h : FaultAt ending room n (before ++ [l.token]) ls pos) :
    FaultAt ending room n before (l :: ls) pos :=
  append [l] h

/-- **A part of a phrase that fails makes the phrase fail**, if it can be completed to the phrase
whenever the part can be completed. -/
theorem part {room' n' : ℕ} (h : FaultAt ending room' n' [] ls pos)
    (hpart : ∀ ts, Completable room' n' ts → Completable room n (before ++ ts)) :
    FaultAt ending room n before ls pos := by
  obtain ⟨used, rest, rfl, hpos, hcomplete⟩ := h
  exact ⟨used, rest, rfl, hpos, fun hscopes => hpart _ (hcomplete hscopes.of_append)⟩

end FaultAt

/-- **A rule finds its faults where the text can still be completed.** -/
def Viable (ending : Ending) (room n : ℕ) (rule : Rule) : Prop :=
  ∀ ⦃ls : List Lexeme⦄ ⦃what : Fault⦄ ⦃pos : ℕ⦄, read rule ls = .error (.fault what pos) →
    FaultAt ending room n [] ls pos

section

variable {α β : Type} {err : ReadError}

/-- One step after the other fails if one of them does. -/
theorem error_of_bind {x : Except ReadError α} {f : α → Except ReadError β}
    (h : x.bind f = .error err) : x = .error err ∨ ∃ a, x = .ok a ∧ f a = .error err := by
  cases x with
  | error err' =>
    cases h
    exact .inl rfl
  | ok a => exact .inr ⟨a, rfl, h⟩

theorem error_of_map {x : Except ReadError α} {f : α → β} (h : x.map f = .error err) :
    x = .error err := by
  cases x with
  | error err' =>
    cases h
    rfl
  | ok a => cases h

end

section

variable {ending : Ending} {room : ℕ} {what : Fault} {pos : ℕ}

/-- A lexeme is in the way of being consumed only if a bad literal follows. -/
theorem startsAt_of_consume {ls : List Lexeme} (h : consume ending ls = .error (.fault what pos)) :
    Feed.StartsAt ⟨ls, ending⟩ pos := by
  cases ls with
  | nil => exact .inr ⟨what, error_of_map h⟩
  | cons l ls => cases h

/-- A fault at the current lexeme is at its position, or at that of a bad literal in its place. -/
theorem startsAt_of_faultHere {α : Type} {what' : Fault} {ls : List Lexeme}
    (h : (faultHere ending what' ls : Except ReadError α) = .error (.fault what pos)) :
    Feed.StartsAt ⟨ls, ending⟩ pos := by
  cases ls with
  | cons l ls =>
    cases h
    rfl
  | nil =>
    cases ending with
    | ok last =>
      cases h
      exact .inl rfl
    | error err =>
      cases h
      exact .inr ⟨what, rfl⟩

/-- **The rest of a chain fails where it can be completed** together with what was read before. -/
theorem faultAt_follow {n : ℕ} (hsound : Sound ending room (n + 1) (level ending room (n + 1)))
    (hviable : Viable ending room (n + 1) (level ending room (n + 1))) {used ls : List Lexeme}
    {e : Expr} (hleft : Spells ending room n used e ls)
    (h : follow ending room n e ls = .error (.fault what pos)) :
    FaultAt ending room n (used.map Lexeme.token) ls pos := by
  -- on the number of lexemes left; what is read so far is generalised
  induction hlen : ls.length using Nat.strongRecOn generalizing used ls e with
  | ind len ih =>
    rcases ls with - | ⟨l, ls⟩
    · cases (readAfter_nil _ _ _ _).symm.trans h
    · cases hop : opAt? n l.token with
      | none => cases (readAfter_of_none _ _ hop _ _).symm.trans h
      | some op =>
        obtain ⟨rfl, htoken⟩ := opAt?_eq_some_iff.1 hop
        have hpart : ∀ ts, Completable room (op.strength + 1) ts →
            Completable room op.strength (used.map Lexeme.token ++ [l.token] ++ ts) := by
          intro ts hts
          rw [List.append_assoc, List.singleton_append, ← htoken]
          exact .join hleft.phrase hleft.fits hts
        rcases error_of_bind ((readAfter_of_some _ _ hop _ _).symm.trans h) with
          hconsume | ⟨⟨⟩, -, hrest⟩
        · have hnext : FaultAt ending room (op.strength + 1) [] ls pos :=
            .here (startsAt_of_consume hconsume) fun _ =>
              .nil (Nat.le_succ_of_le op.strength_lt_three)
          exact (hnext.part hpart).cons
        · rcases error_of_bind hrest with hread | ⟨⟨g, after⟩, hread, hfollow⟩
          · exact ((hviable hread).part hpart).cons
          · obtain ⟨right, rfl, hright⟩ := hsound hread
            have hshorter : after.length < len := by
              rw [← hlen, List.length_cons, List.length_append]
              omega
            have hmore := ih after.length hshorter (hleft.join htoken hright) hfollow rfl
            rw [List.map_append] at hmore
            exact hmore.append _

theorem viable_chain {n : ℕ} (hn : n < 3)
    (hsound : Sound ending room (n + 1) (level ending room (n + 1)))
    (hviable : Viable ending room (n + 1) (level ending room (n + 1))) :
    Viable ending room n (level ending room n) := by
  intro ls what pos h
  rw [read_level hn] at h
  rcases error_of_bind h with hread | ⟨⟨g, after⟩, hread, hfollow⟩
  · exact (hviable hread).part fun ts hts => hts.tighter (by omega)
  · obtain ⟨first, rfl, hfirst⟩ := hsound hread
    exact (faultAt_follow hsound hviable (hfirst.tighter (by omega)) hfollow).append _

/-- Signs can be followed by whatever is behind them. -/
theorem viable_operand (hprimary : Viable ending room 4 (level ending room 4)) :
    Viable ending room 3 (level ending room 3) := by
  intro ls
  induction ls with
  | nil =>
    intro what pos h
    exact (hprimary ((read_operand_nil _ _).symm.trans h)).part fun ts hts =>
      hts.tighter (by decide)
  | cons l ls ih =>
    intro what pos h
    obtain ⟨t, pos'⟩ := l
    have hnext : consume ending ls = .error (.fault what pos) → FaultAt ending room 3 [] ls pos :=
      fun hconsume => .here (startsAt_of_consume hconsume) fun _ => .nil (by decide)
    rcases eq_or_ne t .plus with rfl | hplus
    · have hpart : ∀ ts, Completable room 3 ts → Completable room 3 ([.plus] ++ ts) :=
        fun ts => .plus
      rcases error_of_bind ((read_level_plus _ _ _ _).symm.trans h) with hconsume | ⟨⟨⟩, -, hread⟩
      · exact ((hnext hconsume).part hpart).cons
      · exact ((ih hread).part hpart).cons
    · rcases eq_or_ne t .minus with rfl | hminus
      · have hpart : ∀ ts, Completable room 3 ts → Completable room 3 ([.minus] ++ ts) :=
          fun ts => .minus
        rcases error_of_bind ((read_level_minus _ _ _ _).symm.trans h) with
          hconsume | ⟨⟨⟩, -, hread⟩
        · exact ((hnext hconsume).part hpart).cons
        · exact ((ih (error_of_map hread)).part hpart).cons
      · exact (hprimary ((read_operand_of_ne _ _ hplus hminus _).symm.trans h)).part fun ts hts =>
          hts.tighter (by decide)

theorem viable_expression (hprimary : Viable ending room 4 (level ending room 4)) :
    Viable ending room 0 (level ending room 0) := by
  have hoperand : Sound ending room 3 (level ending room 3) :=
    sound_operand (sound_primary ending room)
  have hproduct : Sound ending room 2 (level ending room 2) := sound_chain (by decide) hoperand
  have hsum : Sound ending room 1 (level ending room 1) := sound_chain (by decide) hproduct
  have hviable₂ : Viable ending room 2 (level ending room 2) :=
    viable_chain (by decide) hoperand (viable_operand hprimary)
  have hviable₁ : Viable ending room 1 (level ending room 1) :=
    viable_chain (by decide) hproduct hviable₂
  exact viable_chain (by decide) hsum hviable₁

/-- A word in front of a double colon can be completed to a leaf if it selects a scope. -/
theorem completable_scope {word : String} (ts us : List Token) (hus : ∀ t ∈ us, t.IsFiller)
    {name : String} (h : ts ++ us = [.ident name]) :
    ScopesKnown (.ident word :: .scope :: ts) →
      Completable room 4 (.ident word :: .scope :: ts) := by
  intro hscopes
  obtain ⟨scope, hscope⟩ : ∃ scope : Scope, scope.keyword = word := by
    rcases hscopes word (List.prefix_append [.ident word, .scope] ts).isInfix with rfl | rfl
    · exact ⟨.register, rfl⟩
    · exact ⟨.symbol, rfl⟩
  refine .of_atom (.qualified scope name) us hus ?_
  rw [Atom.tokens, hscope, List.cons_append, List.cons_append, h]

/-- **What starts with a name** fails at a token that cannot follow, or at the name itself if it is
the word of no scope. -/
theorem faultAt_name {word : String} {start : ℕ} {ls : List Lexeme}
    (h : read (level ending room 4) (⟨.ident word, start⟩ :: ls) = .error (.fault what pos)) :
    FaultAt ending room 4 [] (⟨.ident word, start⟩ :: ls) pos := by
  by_cases hscope : ∃ pos' ls', ls = ⟨.scope, pos'⟩ :: ls'
  · obtain ⟨pos', ls, rfl⟩ := hscope
    by_cases hname : ∃ name pos'' ls', ls = ⟨.ident name, pos''⟩ :: ls'
    · obtain ⟨name, pos'', ls, rfl⟩ := hname
      rcases error_of_bind ((read_primary_qualified _ _ _ _ _ _ _ _).symm.trans h) with
        hconsume | ⟨⟨⟩, -, hword⟩
      · refine .append [_, _, _] (.here (startsAt_of_consume hconsume) ?_)
        exact completable_scope [.ident name] [] (List.forall_mem_nil _) rfl
      · split at hword
        · cases hword
        · -- the word selects no scope, so the text is broken off in front of it
          cases hword
          exact .here rfl fun _ => .nil (le_refl 4)
    · have hmissing := read_primary_missing ending room word start pos' ls
        fun name pos'' hhead => hname ⟨name, pos'', ls.tail, (List.head?_eq_some_iff.1 hhead).elim
          fun ys hys => by rw [hys]; rfl⟩
      refine .append [_, _] (.here ?_ ?_)
      · rcases error_of_bind (hmissing.symm.trans h) with hconsume | ⟨⟨⟩, -, hfault⟩
        · exact startsAt_of_consume hconsume
        · exact startsAt_of_faultHere hfault
      · exact completable_scope [] [.ident "x"] (List.forall_mem_singleton.2 (.inr (.inl rfl))) rfl
  · have hbare := read_primary_bare ending room word start ls fun l hl htoken =>
      hscope ⟨l.pos, ls.tail, by
        obtain ⟨ys, rfl⟩ := List.head?_eq_some_iff.1 hl
        rw [← htoken]
        rfl⟩
    have hconsume := error_of_map (hbare.symm.trans h)
    exact .append [_] (.here (startsAt_of_consume hconsume) fun _ =>
      .of_atom (.bare word) [] (List.forall_mem_nil _) rfl)

/-- **Parentheses** fail inside, or where the closing one is missing, or after it. -/
theorem faultAt_group (hinside : Viable ending room 0 (level ending room 0)) {start : ℕ}
    {ls : List Lexeme}
    (h : read (level ending (room + 1) 4) (⟨.lparen, start⟩ :: ls) = .error (.fault what pos)) :
    FaultAt ending (room + 1) 4 [] (⟨.lparen, start⟩ :: ls) pos := by
  have hpart : ∀ ts, Completable room 0 ts → Completable (room + 1) 4 ([.lparen] ++ ts) :=
    fun ts => .group
  rw [read_level_group] at h
  rcases error_of_bind h with hconsume | ⟨⟨⟩, -, hrest⟩
  · have hnext : FaultAt ending room 0 [] ls pos :=
      .here (startsAt_of_consume hconsume) fun _ => .nil (Nat.zero_le 4)
    exact (hnext.part hpart).cons
  rcases error_of_bind hrest with hread | ⟨⟨g, after⟩, hread, hclose⟩
  · exact ((hinside hread).part hpart).cons
  obtain ⟨inner, rfl, hinner⟩ := sound_expression (sound_primary ending room) hread
  split at hclose
  · rename_i pos' after' heq
    dsimp only at heq
    subst heq
    have hclosed : FaultAt ending (room + 1) 4
        (.lparen :: (inner.map Lexeme.token ++ [.rparen])) after' pos := by
      refine .here (startsAt_of_consume (error_of_map hclose)) fun _ =>
        .of_phrase (.group hinner.phrase) ?_
      rw [hinner.phrase.nesting_group]
      exact Nat.succ_le_succ hinner.fits
    refine .cons (.append inner (.cons ?_))
    rw [List.append_assoc]
    exact hclosed
  · refine .cons (.append inner (.here (startsAt_of_faultHere hclose) fun _ => ?_))
    exact .group (.of_phrase hinner.phrase hinner.fits)

/-- Primaries are viable if those in parentheses are. -/
theorem viable_primary_of_group
    (hgroup : ∀ {start : ℕ} {ls : List Lexeme} {what : Fault} {pos : ℕ},
      read (level ending room 4) (⟨.lparen, start⟩ :: ls) = .error (.fault what pos) →
        FaultAt ending room 4 [] (⟨.lparen, start⟩ :: ls) pos) :
    Viable ending room 4 (level ending room 4) := by
  intro ls what pos h
  rcases ls with - | ⟨⟨t, start⟩, ls⟩
  · exact .here (startsAt_of_faultHere ((read_primary_nil ending room).symm.trans h)) fun _ =>
      .nil (le_refl 4)
  · -- one case for each kind of first token
    by_cases hint : ∃ v, t = .int v
    · obtain ⟨v, rfl⟩ := hint
      have hconsume := error_of_map ((read_primary_int _ _ _ _ _).symm.trans h)
      exact .append [_] (.here (startsAt_of_consume hconsume) fun _ =>
        .of_atom (.const v) [] (List.forall_mem_nil _) rfl)
    · by_cases hident : ∃ word, t = .ident word
      · obtain ⟨word, rfl⟩ := hident
        exact faultAt_name h
      · rcases eq_or_ne t .lparen with rfl | hlparen
        · exact hgroup h
        · cases (read_primary_other ending room (l := ⟨t, start⟩) (fun v hv => hint ⟨v, hv⟩)
            (fun word hword => hident ⟨word, hword⟩) hlparen ls).symm.trans h
          exact .here rfl fun _ => .nil (le_refl 4)

end

/-- **Primaries are viable**, by induction on the room for parentheses. -/
theorem viable_primary (ending : Ending) (room : ℕ) :
    Viable ending room 4 (level ending room 4) := by
  induction room with
  | zero =>
    refine viable_primary_of_group fun h => ?_
    cases (read_primary_full _ _ _).symm.trans h
    exact .here rfl fun _ => .nil (le_refl 4)
  | succ room ih => exact viable_primary_of_group fun h => faultAt_group (viable_expression ih) h

end Parser

/-- **Reading fails where what was read can be completed** to an expression. -/
theorem Feed.faultAt_of_parse {feed : Feed} {what : Fault} {pos : ℕ}
    (h : feed.parse = .error (.fault what pos)) :
    Parser.FaultAt feed.ending maxOpenParens 0 [] feed.lexemes pos := by
  rw [Parser.parse_eq] at h
  rcases Parser.error_of_bind h with hread | ⟨⟨e, rest⟩, hread, hend⟩
  · exact Parser.viable_expression (Parser.viable_primary feed.ending maxOpenParens) hread
  · rcases rest with - | ⟨l, rest⟩
    · cases hend
    · -- a complete expression, and something after it
      cases hend
      obtain ⟨used, hused, hspells⟩ :=
        Parser.sound_expression (Parser.sound_primary feed.ending maxOpenParens) hread
      rw [hused]
      exact .append _ (.here rfl fun _ => .of_phrase hspells.phrase hspells.fits)

/-! ### Texts -/

/-- The text of some tokens, each after a space. -/
def spacedText (ts : List Token) : List Char :=
  ts.flatMap fun t => ' ' :: t.text.toList

theorem ends_spacedText (ts : List Token) : Ends (spacedText ts) := by
  cases ts with
  | nil => exact Ends.nil
  | cons t ts => exact Ends.cons (by decide) _

/-- What starts are completed with is read from its text. -/
theorem CutInto.spacedText {ts : List Token} (h : ∀ t ∈ ts, t.IsFiller) :
    CutInto (spacedText ts) ts [] := by
  induction ts with
  | nil => exact nil
  | cons t ts ih =>
    obtain ⟨ht, hts⟩ := List.forall_mem_cons.1 h
    have htoken : CutInto t.text.toList [t] (Readout.spacedText ts ++ []) := by
      rw [List.append_nil]
      rcases ht with rfl | rfl | rfl
      · exact decimalText 1 (ends_spacedText ts)
      · exact ident (by decide) (ends_spacedText ts)
      · exact single (by decide) (by decide) (by decide)
    have hspace : CutInto [' '] [] (t.text.toList ++ (Readout.spacedText ts ++ [])) := gap rfl
    exact (hspace.append htoken).append (ih hts)

/-- **A source text with a fault starts with tokens that can be completed**, and behind them the
fault is. -/
theorem exists_start_of_parse {source : String} {what : Fault} {pos : ℕ}
    (h : parse source = .error (.fault what pos)) :
    pos ≤ source.length ∧ ∃ used : List Lexeme,
      (ScopesKnown (used.map Lexeme.token) →
        Completable maxOpenParens 0 (used.map Lexeme.token)) ∧
      ∀ tail, (∀ c, tail.head? = some c → isGap c = true) →
        CutInto (source.toList.take pos) (used.map Lexeme.token) tail := by
  obtain ⟨used, rest, hlexemes, hpos, hcomplete⟩ := Feed.faultAt_of_parse h
  have hfeed : Cursor.feed ⟨0, source.toList⟩ =
      Feed.after used ⟨rest, (Cursor.start source).feed.ending⟩ := by
    rw [Feed.after, ← hlexemes]
    rfl
  obtain ⟨-, hlast, hcut⟩ := Cursor.breaksAt_of_feed hfeed hpos
  rw [Nat.sub_zero] at hcut
  rw [Nat.zero_add, String.length_toList] at hlast
  exact ⟨hlast, used, hcomplete, hcut⟩

/-- **Faults point at the end of a text that can be completed.** The position of a fault is in the
text or at its end, and the text in front of it consists of tokens. If in front of a double colon
there are only words that select a scope, then this text can be continued to one that is an
expression. -/
theorem exists_parse_of_fault {source : String} {what : Fault} {pos : ℕ}
    (h : parse source = .error (.fault what pos)) :
    pos ≤ source.length ∧
      ∃ ls, tokenize (String.ofList (source.toList.take pos)) = .ok ls ∧
        ((∀ word, [.ident word, .scope] <:+: ls.map Lexeme.token → word = "reg" ∨ word = "sym") →
          ∃ more e, parse (String.ofList (source.toList.take pos) ++ more) = .ok e) := by
  obtain ⟨hlast, used, hcomplete, hcut⟩ := exists_start_of_parse h
  refine ⟨hlast, ?_⟩
  -- the text in front of the position consists of the tokens that were read
  obtain ⟨ls, hls, hbefore⟩ := hcut [] (by simp) 0
  rw [List.append_nil, Cursor.feed_nil] at hbefore
  have hstart : (Cursor.start (String.ofList (source.toList.take pos))).feed =
      ⟨ls, .ok (0 + (source.toList.take pos).length)⟩ := by
    rw [Cursor.start, String.toList_ofList, hbefore, Feed.after, List.append_nil]
  refine ⟨_, tokenize_eq_ok_iff.2 hstart, fun hscopes => ?_⟩
  have hknown : ScopesKnown (used.map Lexeme.token) := by
    intro word hword
    refine hscopes word (hword.trans ?_)
    rw [← hls, List.map_append]
    exact (List.prefix_append _ _).isInfix
  obtain ⟨us, e, hus, hphrase, hroom⟩ := hcomplete hknown
  have htail : ∀ c, (spacedText us ++ []).head? = some c → isGap c = true := by
    intro c hc
    rcases us with - | ⟨t, us⟩
    · cases hc
    · cases hc
      rfl
  refine ⟨String.ofList (spacedText us), e, CutInto.parse ?_ hphrase hroom⟩
  rw [String.toList_append, String.toList_ofList, String.toList_ofList]
  exact (hcut _ htail).append (.spacedText hus)

/-- The word that selects no scope is what is wrong, and in front of it an operand can stand; then
the parenthesis can be closed. -/
theorem exists_parse_of_fault_unknownScope :
    parse "sym::a << (-2 * foo::b" = .error (.fault (.unknownScope "foo") 16) ∧
      ∃ more e,
        parse (String.ofList ("sym::a << (-2 * foo::b".toList.take 16) ++ more) = .ok e := by
  have hfault : parse "sym::a << (-2 * foo::b" = .error (.fault (.unknownScope "foo") 16) := by
    decide +kernel
  obtain ⟨-, ls, htokens, hcomplete⟩ := exists_parse_of_fault hfault
  have hls : tokenize (String.ofList ("sym::a << (-2 * foo::b".toList.take 16)) =
      .ok [⟨.ident "sym", 0⟩, ⟨.scope, 3⟩, ⟨.ident "a", 5⟩, ⟨.lshift, 7⟩, ⟨.lparen, 10⟩,
        ⟨.minus, 11⟩, ⟨.int 2, 12⟩, ⟨.star, 14⟩, ⟨.eof, 16⟩] := by
    decide +kernel
  cases htokens.symm.trans hls
  refine ⟨hfault, hcomplete fun word hword => ?_⟩
  -- the only double colon is the one after the first word
  have hsym : word = "sym" := by simpa [List.infix_cons_iff, List.cons_prefix_cons] using hword
  exact .inr hsym

end Readout
