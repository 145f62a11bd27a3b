import Mathlib.Data.List.Destutter
import Readout.Proofs.Token.Layout

/-!
# What a lexer shows that goes on after errors

A lexer may be advanced again after an error. Then what matters is where the error has left it:
behind a literal that could not be converted, or still in front of a hexadecimal mark without
digits.

Both kinds of error keep the current lexeme, so that the lexer is always in front of a layout
(`Readout.Lexer.Before`), and each attempt shortens it by one piece or leaves it as it is. Attempt
by attempt, the lexer comes upon what is found in the layout (`Readout.Lexer.Meets`), one thing
after the other. What it shows in the end is `Readout.Lexer.Shows`: every lexeme in front of the
first hexadecimal mark without digits, and one error for each bad literal
(`Readout.Lexer.shows_of_start`).
-/

namespace Readout

/-- The error, if there is one. -/
def ReadError.of? {α : Type} : Except ReadError α → Option ReadError
  | .ok _ => none
  | .error e => some e

theorem ReadError.of?_map {α β : Type} (f : α → β) (o : Except ReadError α) :
    of? (o.map f) = of? o := by
  cases o <;> rfl

/-- A lexeme stands where it is found. -/
theorem Piece.pos_of_outcome {p : Piece} {pos : ℕ} {l : Lexeme} (h : p.outcome pos = .ok l) :
    l.pos = pos := by
  cases p <;> cases h
  rfl

/-! ### What is found in a layout -/

/-- **What is found at a place**: a lexeme or an error, and where the lexer stands then. -/
structure Find where
  /-- The lexeme or the error. -/
  outcome : Except ReadError Lexeme
  /-- The position of the lexer then. -/
  stop : ℕ

namespace Layout

/-- **What is found in a text** that starts at a position, one thing after the other. The end is
found again and again, and so is a hexadecimal mark without digits. -/
def find (pos : ℕ) : Layout → ℕ → Find
  | done gap, _ => ⟨.ok ⟨.eof, pos + gap.1.length⟩, pos + gap.1.length⟩
  | stuck gap _ _, _ => ⟨.error (.fault .malformedHex (pos + gap.1.length)), pos⟩
  | piece gap p spelling _, 0 =>
    ⟨p.outcome (pos + gap.1.length), pos + gap.1.length + spelling.length⟩
  | piece gap _ spelling tail, k + 1 => tail.find (pos + gap.1.length + spelling.length) k

/-- The number of pieces. -/
def size : Layout → ℕ
  | done _ | stuck _ _ _ => 0
  | piece _ _ _ tail => tail.size + 1

/-- What comes of the pieces, and the end, if the layout comes to it. -/
def outcomes (pos : ℕ) : Layout → List (Except ReadError Lexeme)
  | done gap => [.ok ⟨.eof, pos + gap.1.length⟩]
  | stuck _ _ _ => []
  | piece gap p spelling tail =>
    p.outcome (pos + gap.1.length) :: tail.outcomes (pos + gap.1.length + spelling.length)

/-- **The lexemes of a text** that starts at a position. -/
def lexemes (pos : ℕ) (layout : Layout) : List Lexeme :=
  (layout.outcomes pos).filterMap Except.toOption

/-- **What is wrong with the literals of a text** that have digits. -/
def complaints (pos : ℕ) (layout : Layout) : List ReadError :=
  (layout.outcomes pos).filterMap ReadError.of?

theorem complaints_piece (pos : ℕ) (gap : Gap) (p : Piece) (spelling : List Char) (tail : Layout) :
    (piece gap p spelling tail).complaints pos =
      (ReadError.of? (p.outcome (pos + gap.1.length))).toList ++
        tail.complaints (pos + gap.1.length + spelling.length) := by
  rw [complaints, outcomes, List.filterMap_cons]
  cases ReadError.of? (p.outcome (pos + gap.1.length)) <;> rfl

theorem lexemes_piece (pos : ℕ) (gap : Gap) (p : Piece) (spelling : List Char) (tail : Layout) :
    (piece gap p spelling tail).lexemes pos =
      (p.outcome (pos + gap.1.length)).toOption.toList ++
        tail.lexemes (pos + gap.1.length + spelling.length) := by
  rw [lexemes, outcomes, List.filterMap_cons]
  cases (p.outcome (pos + gap.1.length)).toOption <;> rfl

/-- What is said if the lexer, at the end of the layout, is advanced a number of times: at a
hexadecimal mark always the same, at the end of the text nothing. -/
def refusals (pos n : ℕ) : Layout → List ReadError
  | done _ => []
  | stuck gap _ _ => List.replicate n (.fault .malformedHex (pos + gap.1.length))
  | piece gap _ spelling tail => tail.refusals (pos + gap.1.length + spelling.length) n

end Layout

/-- The lexer never goes back, and not beyond the end of the text. -/
theorem Cursor.le_next (c : Cursor) : c.pos ≤ c.next.2.pos ∧
    c.next.2.pos + c.next.2.rest.length = c.pos + c.rest.length := by
  obtain ⟨pos, rest⟩ := c
  obtain ⟨layout, hproper, rfl⟩ := exists_layout rest
  cases hproper with
  | @done gap =>
    rw [next_done]
    simp only [Layout.text, List.length_nil]
    omega
  | stuck hmark =>
    rw [next_stuck _ hmark]
    exact ⟨le_rfl, rfl⟩
  | piece hp hspelled htail =>
    rw [next_piece _ hp hspelled]
    simp only [Layout.text, List.length_append]
    omega

namespace Lexer

variable {lx : Lexer} {layout : Layout} {gap : Gap} {mark rest spelling : List Char} {p : Piece}
  {tail : Layout}

/-- The lexer after a number of attempts. -/
def after (lx : Lexer) : ℕ → Lexer
  | 0 => lx
  | k + 1 => lx.advance.2.after k

/-- The errors of a number of attempts. -/
def errors (lx : Lexer) (n : ℕ) : List ReadError :=
  (lx.advances n).filterMap (ReadError.of? ·.1)

/-- The lexemes that are current before, between and after a number of attempts. -/
def currents (lx : Lexer) (n : ℕ) : List Lexeme :=
  lx.current :: (lx.advances n).map (·.2.current)

/-- **A lexer meets what is found** when it is advanced. -/
structure Meets (lx : Lexer) (f : Find) : Prop where
  /-- The current lexeme is given out, or the error. -/
  result : lx.advance.1 = f.outcome.map fun _ => lx.current
  /-- The lexeme that is found becomes the current one. After an error there is none, and the
  current one is kept. -/
  current : lx.advance.2.current = f.outcome.toOption.getD lx.current
  /-- The lexer stands where it is said to. -/
  stop : lx.advance.2.cursor.pos = f.stop

theorem Meets.of_advance {f : Find} {cs : List Char} (h : lx.advance =
    (f.outcome.map fun _ => lx.current, ⟨⟨f.stop, cs⟩, f.outcome.toOption.getD lx.current⟩)) :
    lx.Meets f :=
  ⟨by rw [h], by rw [h], by rw [h]⟩

/-- **What a lexer shows along a layout**, however often it is advanced. -/
structure Shows (lx : Lexer) (layout : Layout) : Prop where
  /-- One attempt after the other meets what is found. The first thing has been met already. -/
  meets : ∀ k, (lx.after k).Meets (layout.find 0 (k + 1))
  /-- The lexer never goes back, and not beyond the end of the text. -/
  within : ∀ k, (lx.after k).cursor.pos ≤ (lx.after (k + 1)).cursor.pos ∧
    (lx.after k).cursor.pos ≤ layout.text.length
  /-- An error keeps the current lexeme. -/
  keeps : ∀ k e, (lx.after k).advance.1 = .error e →
    (lx.after (k + 1)).current = (lx.after k).current
  /-- Each bad literal is complained of once. At a hexadecimal mark without digits every further
  attempt is refused. -/
  errors : ∀ n, lx.errors (layout.size + n) = layout.complaints 0 ++ layout.refusals 0 (n + 1)
  /-- When it has been refused for that, the lexer stays as it is. -/
  stays : ∀ k pos, (lx.after k).advance.1 = .error (.fault .malformedHex pos) →
    ∀ n, (lx.after (k + n)).advance = (.error (.fault .malformedHex pos), lx.after k)
  /-- The current lexemes are those of the text, in order. -/
  currents : ∀ n, (lx.currents n).destutter (· ≠ ·) <+: layout.lexemes 0
  /-- After as many attempts as there are pieces all of them have been current. -/
  complete : ∀ n, layout.size ≤ n → (lx.currents n).destutter (· ≠ ·) = layout.lexemes 0
  /-- At the end the lexer stays there. -/
  ends : ∀ k, (lx.after k).current.token = .eof → ∀ n,
    (lx.after (k + n)).advance = (.ok (lx.after k).current, lx.after k)

/-! ### One attempt -/

theorem after_succ (lx : Lexer) (k : ℕ) : lx.after (k + 1) = (lx.after k).advance.2 := by
  induction k generalizing lx with
  | zero => rfl
  | succ k ih => exact ih lx.advance.2

theorem after_add (lx : Lexer) (k n : ℕ) : lx.after (k + n) = (lx.after k).after n := by
  induction k generalizing lx with
  | zero =>
    rw [Nat.zero_add]
    rfl
  | succ k ih =>
    rw [Nat.succ_add]
    exact ih lx.advance.2

/-- What a number of attempts give is what each of them gives. -/
theorem advances_eq_map (lx : Lexer) (n : ℕ) :
    lx.advances n = (List.range n).map fun k => (lx.after k).advance := by
  induction n generalizing lx with
  | zero => rfl
  | succ n ih =>
    rw [List.range_succ_eq_map, List.map_cons, List.map_map, advances, ih]
    rfl

/-- At the end the lexer stays there. -/
theorem advance_of_eof (h : lx.current.token = .eof) : lx.advance = (.ok lx.current, lx) := by
  rw [advance, if_pos h]

/-- Anywhere else the current lexeme is given out and replaced, or kept. -/
theorem advance_of_next (hne : lx.current.token ≠ .eof) {o : Except ReadError Lexeme} {c : Cursor}
    (h : lx.cursor.next = (o, c)) :
    lx.advance = (o.map fun _ => lx.current, ⟨c, o.toOption.getD lx.current⟩) := by
  rw [advance, if_neg hne, h]
  cases o <;> rfl

/-- A lexer that an attempt does not change is not changed by any number of them. -/
theorem after_of_fixed (h : lx.advance.2 = lx) (k : ℕ) : lx.after k = lx := by
  induction k with
  | zero => rfl
  | succ k ih => rw [after, h, ih]

/-- A hexadecimal mark without digits does not move the lexer. -/
theorem advance_of_malformedHex {pos : ℕ}
    (h : lx.advance.1 = .error (.fault .malformedHex pos)) : lx.advance.2 = lx := by
  have hne : lx.current.token ≠ .eof := by
    intro heof
    rw [advance_of_eof heof] at h
    cases h
  obtain ⟨⟨start, cs⟩, l⟩ := lx
  obtain ⟨layout, hproper, rfl⟩ := exists_layout cs
  cases hproper with
  | @done gap =>
    rw [advance_of_next hne (Cursor.next_done gap start)] at h
    cases h
  | stuck hmark => rw [advance_of_next hne (Cursor.next_stuck _ hmark start)]; rfl
  | @piece gap p spelling tail hp hspelled htail =>
    rw [advance_of_next hne (Cursor.next_piece gap hp hspelled start)] at h
    cases p with
    | malformedHex => exact absurd rfl hp
    | _ => cases h

/-- An error keeps the current lexeme. -/
theorem current_of_error {e : ReadError} (h : lx.advance.1 = .error e) :
    lx.advance.2.current = lx.current := by
  by_cases heof : lx.current.token = .eof
  · rw [advance_of_eof heof]
  · rcases hnext : lx.cursor.next with ⟨o, c⟩
    rw [advance_of_next heof hnext] at h ⊢
    cases o with
    | ok l => cases h
    | error e => rfl

section After

variable {k : ℕ}

theorem current_after_of_error {e : ReadError} (h : (lx.after k).advance.1 = .error e) :
    (lx.after (k + 1)).current = (lx.after k).current := by
  rw [after_succ, current_of_error h]

theorem advance_after_of_malformedHex {pos : ℕ}
    (h : (lx.after k).advance.1 = .error (.fault .malformedHex pos)) (n : ℕ) :
    (lx.after (k + n)).advance = (.error (.fault .malformedHex pos), lx.after k) := by
  have hfixed := advance_of_malformedHex h
  rw [after_add, after_of_fixed hfixed]
  exact Prod.ext h hfixed

theorem advance_after_of_eof (h : (lx.after k).current.token = .eof) (n : ℕ) :
    (lx.after (k + n)).advance = (.ok (lx.after k).current, lx.after k) := by
  have hadvance := advance_of_eof h
  rw [after_add, after_of_fixed (by rw [hadvance]), hadvance]

end After

/-- The lexer never goes back, and not beyond the end of the text. -/
theorem le_advance (lx : Lexer) : lx.cursor.pos ≤ lx.advance.2.cursor.pos ∧
    lx.advance.2.cursor.pos + lx.advance.2.cursor.rest.length =
      lx.cursor.pos + lx.cursor.rest.length := by
  by_cases h : lx.current.token = .eof
  · rw [advance_of_eof h]
    exact ⟨le_rfl, rfl⟩
  · rw [advance_of_next h rfl]
    exact lx.cursor.le_next

theorem after_conserves (lx : Lexer) (k : ℕ) :
    (lx.after k).cursor.pos + (lx.after k).cursor.rest.length =
      lx.cursor.pos + lx.cursor.rest.length := by
  induction k with
  | zero => rfl
  | succ k ih => rw [after_succ, (lx.after k).le_advance.2, ih]

/-! ### A number of attempts -/

theorem errors_succ (lx : Lexer) (n : ℕ) :
    lx.errors (n + 1) = (ReadError.of? lx.advance.1).toList ++ lx.advance.2.errors n := by
  rw [errors, advances, List.filterMap_cons]
  cases ReadError.of? lx.advance.1 <;> rfl

/-- At the end there are no errors, -/
theorem errors_of_eof (h : lx.current.token = .eof) (n : ℕ) : lx.errors n = [] := by
  induction n with
  | zero => rfl
  | succ n ih => rw [errors_succ, advance_of_eof h, ih]; rfl

/-- and where one leaves the lexer as it is, always the same. -/
theorem errors_of_refused {e : ReadError} (h : lx.advance = (.error e, lx)) (n : ℕ) :
    lx.errors n = List.replicate n e := by
  induction n with
  | zero => rfl
  | succ n ih => rw [errors_succ, h, ih]; rfl

theorem destutter_currents_of_ne (h : lx.current ≠ lx.advance.2.current) (n : ℕ) :
    (lx.currents (n + 1)).destutter (· ≠ ·) =
      lx.current :: (lx.advance.2.currents n).destutter (· ≠ ·) :=
  if_pos h

theorem destutter_currents_of_eq (h : lx.advance.2.current = lx.current) (n : ℕ) :
    (lx.currents (n + 1)).destutter (· ≠ ·) = (lx.advance.2.currents n).destutter (· ≠ ·) := by
  rw [currents, currents, advances, List.map_cons, List.destutter_cons_cons, h,
    if_neg (fun hne => hne rfl), List.destutter_cons']

/-- A lexer that an attempt does not change goes on showing what is current. -/
theorem destutter_currents_of_fixed (h : lx.advance.2 = lx) (n : ℕ) :
    (lx.currents n).destutter (· ≠ ·) = [lx.current] := by
  induction n with
  | zero => rfl
  | succ n ih => rw [destutter_currents_of_eq (by rw [h]), h, ih]

/-! ### A lexer in front of a layout -/

/-- **A lexer in front of a layout**: it has not come to the end, and the current lexeme is behind
it. -/
structure Before (lx : Lexer) (layout : Layout) : Prop where
  /-- The layout is that of the rest of the text. -/
  rest : lx.cursor.rest = layout.text
  /-- It is proper. -/
  proper : layout.Proper
  /-- The current lexeme is not the end. -/
  ne_eof : lx.current.token ≠ .eof
  /-- It starts somewhere before the lexer. -/
  pos_lt : lx.current.pos < lx.cursor.pos

namespace Before

theorem cursor_eq (h : lx.Before layout) : lx.cursor = ⟨lx.cursor.pos, layout.text⟩ := by
  rw [← h.rest]

/-- At the end of the text the lexer comes to the end. -/
theorem advance_done (h : lx.Before (.done gap)) : lx.advance = (.ok lx.current,
    ⟨⟨lx.cursor.pos + gap.1.length, []⟩, ⟨.eof, lx.cursor.pos + gap.1.length⟩⟩) := by
  have hnext := Cursor.next_done gap lx.cursor.pos
  rw [← h.cursor_eq] at hnext
  exact advance_of_next h.ne_eof hnext

/-- At a hexadecimal mark without digits it stays where it is. -/
theorem advance_stuck (h : lx.Before (.stuck gap mark rest)) :
    lx.advance = (.error (.fault .malformedHex (lx.cursor.pos + gap.1.length)), lx) := by
  cases h.proper with
  | stuck hmark =>
    rw [advance_of_next h.ne_eof (by rw [h.cursor_eq, Cursor.next_stuck gap hmark]),
      ← h.cursor_eq]
    rfl

/-- At any other piece it comes to stand behind it, -/
theorem advance_piece (h : lx.Before (.piece gap p spelling tail)) :
    lx.advance = ((p.outcome (lx.cursor.pos + gap.1.length)).map fun _ => lx.current,
      ⟨⟨lx.cursor.pos + gap.1.length + spelling.length, tail.text⟩,
        (p.outcome (lx.cursor.pos + gap.1.length)).toOption.getD lx.current⟩) := by
  cases h.proper with
  | piece hp hspelled htail =>
    exact advance_of_next h.ne_eof (by rw [h.cursor_eq, Cursor.next_piece gap hp hspelled])

theorem pos_advance (h : lx.Before (.piece gap p spelling tail)) :
    lx.advance.2.cursor.pos = lx.cursor.pos + gap.1.length + spelling.length := by
  rw [h.advance_piece]

/-- **in front of the tail**. -/
theorem piece (h : lx.Before (.piece gap p spelling tail)) : lx.advance.2.Before tail := by
  have hpos := h.pos_lt
  have hne := h.ne_eof
  cases h.proper with
  | piece hp hspelled htail =>
    obtain ⟨c, more, hcons, -⟩ := hspelled.exists_cons
    rw [h.advance_piece]
    refine ⟨rfl, htail, ?_, ?_⟩
    · cases p with
      | token t => exact hspelled.ne_eof
      | _ => exact hne
    · rw [hcons]
      cases p with
      | token t => simp [Piece.outcome, Except.toOption]
      | _ =>
        simp only [Piece.outcome, Except.toOption, Option.getD_none, List.length_cons]
        omega

/-! ### Any number of attempts -/

/-- **One attempt after the other meets what is found.** -/
theorem meets (h : lx.Before layout) (k : ℕ) :
    (lx.after k).Meets (layout.find lx.cursor.pos k) := by
  -- on the layout and not on the attempts, since an attempt goes on to the tail
  induction layout generalizing lx k with
  | done gap =>
    cases k with
    | zero => exact .of_advance h.advance_done
    | succ k =>
      -- the lexer is at the end already
      rw [after, h.advance_done, after_of_fixed (by rw [advance_of_eof rfl])]
      exact .of_advance (advance_of_eof rfl)
  | stuck gap mark rest =>
    have hstuck := h.advance_stuck
    rw [after_of_fixed (by rw [hstuck]), Layout.find]
    exact ⟨by rw [hstuck]; rfl, by rw [hstuck]; rfl, by rw [hstuck]⟩
  | piece gap p spelling tail ih =>
    cases k with
    | zero => exact .of_advance h.advance_piece
    | succ k =>
      have htail := ih h.piece k
      rwa [h.pos_advance] at htail

/-- **Each bad literal is complained of once**, and a hexadecimal mark without digits every time. -/
theorem errors_eq (h : lx.Before layout) (n : ℕ) : lx.errors (layout.size + n) =
    layout.complaints lx.cursor.pos ++ layout.refusals lx.cursor.pos n := by
  induction layout generalizing lx with
  | done gap =>
    rw [Layout.size, Nat.zero_add]
    cases n with
    | zero => rfl
    | succ n =>
      rw [errors_succ, h.advance_done, errors_of_eof rfl]
      rfl
  | stuck gap mark rest =>
    rw [Layout.size, Nat.zero_add, errors_of_refused h.advance_stuck]
    rfl
  | piece gap p spelling tail ih =>
    rw [Layout.size, Nat.succ_add, errors_succ, ih h.piece, h.pos_advance, h.advance_piece,
      ReadError.of?_map, Layout.complaints_piece, List.append_assoc, Layout.refusals]

/-- **The current lexemes are those of the text, in order**, and after enough attempts all of
them. -/
theorem currents_prefix (h : lx.Before layout) (n : ℕ) :
    (lx.currents n).destutter (· ≠ ·) <+: lx.current :: layout.lexemes lx.cursor.pos ∧
      (layout.size < n →
        (lx.currents n).destutter (· ≠ ·) = lx.current :: layout.lexemes lx.cursor.pos) := by
  induction layout generalizing lx n with
  | done gap =>
    cases n with
    | zero => exact ⟨List.prefix_append [lx.current] _, fun h => absurd h (Nat.not_lt_zero _)⟩
    | succ n =>
      have hne : lx.current ≠ lx.advance.2.current := by
        rw [h.advance_done]
        exact fun heq => h.ne_eof (congrArg Lexeme.token heq)
      rw [destutter_currents_of_ne hne, h.advance_done,
        destutter_currents_of_fixed (by rw [advance_of_eof rfl])]
      exact ⟨List.prefix_refl _, fun _ => rfl⟩
  | stuck gap mark rest =>
    rw [destutter_currents_of_fixed (by rw [h.advance_stuck])]
    exact ⟨List.prefix_refl _, fun _ => rfl⟩
  | piece gap p spelling tail ih =>
    cases n with
    | zero => exact ⟨List.prefix_append [lx.current] _, fun h => absurd h (Nat.not_lt_zero _)⟩
    | succ n =>
      obtain ⟨hstart, hall⟩ := ih h.piece n
      rw [h.pos_advance] at hstart hall
      rw [Layout.lexemes_piece, Layout.size, Nat.succ_lt_succ_iff]
      cases houtcome : p.outcome (lx.cursor.pos + gap.1.length) with
      | ok l =>
        have hcurrent : lx.advance.2.current = l := by
          rw [h.advance_piece, houtcome]
          rfl
        have hne : lx.current ≠ lx.advance.2.current := by
          have hpos := Piece.pos_of_outcome houtcome
          have hlt := h.pos_lt
          rw [hcurrent]
          rintro rfl
          omega
        rw [hcurrent] at hstart hall
        rw [destutter_currents_of_ne hne]
        exact ⟨List.cons_prefix_cons.2 ⟨rfl, hstart⟩, fun hn => congrArg _ (hall hn)⟩
      | error e =>
        have hcurrent : lx.advance.2.current = lx.current := by
          rw [h.advance_piece, houtcome]
          rfl
        rw [hcurrent] at hstart hall
        rw [destutter_currents_of_eq hcurrent]
        exact ⟨hstart, hall⟩

end Before

/-! ### From the start of a text on -/

/-- **At the start of a text** the end is found at once, or a token, and the lexer is in front of
the rest. -/
theorem start_cases {source : String} (h : start source = .ok lx) (hproper : layout.Proper)
    (htext : layout.text = source.toList) :
    (∃ gap : Gap, layout = .done gap ∧ lx.current = ⟨.eof, 0 + gap.1.length⟩ ∧
        lx.cursor.pos = 0 + gap.1.length) ∨
      ∃ gap t spelling tail, layout = .piece gap (.token t) spelling tail ∧
        lx.current = ⟨t, 0 + gap.1.length⟩ ∧ lx.cursor.pos = 0 + gap.1.length + spelling.length ∧
          lx.Before tail := by
  rw [start, Cursor.start, ← htext] at h
  cases hproper with
  | @done gap =>
    rw [Cursor.next_done] at h
    cases h
    exact .inl ⟨gap, rfl, rfl, rfl⟩
  | stuck hmark =>
    rw [Cursor.next_stuck _ hmark] at h
    cases h
  | @piece gap p spelling tail hp hspelled htail =>
    rw [Cursor.next_piece gap hp hspelled] at h
    cases p with
    | token t =>
      cases h
      obtain ⟨c, more, rfl, -⟩ := hspelled.exists_cons
      exact .inr ⟨gap, t, c :: more, tail, rfl, rfl, rfl, rfl, htail, hspelled.ne_eof, by simp⟩
    | malformedHex => exact absurd rfl hp
    | _ => cases h

theorem conserves_of_start {source : String} (h : start source = .ok lx) (k : ℕ) :
    (lx.after k).cursor.pos + (lx.after k).cursor.rest.length = source.toList.length := by
  have hnext := (Cursor.start source).le_next.2
  rw [after_conserves]
  rw [start] at h
  split at h
  · rename_i l c heq
    cases h
    rw [heq] at hnext
    rw [hnext, Cursor.start, Nat.zero_add]
  · cases h

/-- **A lexer that has found the first lexeme of a text, and goes on whatever happens**, shows along
some proper layout of the text what `Readout.Lexer.Shows` says. -/
theorem shows_of_start {source : String} (h : start source = .ok lx) :
    ∃ layout : Layout, layout.Proper ∧ layout.text = source.toList ∧ lx.Shows layout := by
  obtain ⟨layout, hproper, htext⟩ := exists_layout source.toList
  have hwithin : ∀ k, (lx.after k).cursor.pos ≤ (lx.after (k + 1)).cursor.pos ∧
      (lx.after k).cursor.pos ≤ layout.text.length := fun k => by
    have hconserves := conserves_of_start h k
    rw [after_succ, htext]
    exact ⟨(lx.after k).le_advance.1, by omega⟩
  refine ⟨layout, hproper, htext, ?_⟩
  rcases start_cases h hproper htext with
    ⟨gap, rfl, hcurrent, hpos⟩ | ⟨gap, t, spelling, tail, rfl, hcurrent, hpos, hbefore⟩
  · -- the lexer is at the end from the start
    have heof : lx.current.token = .eof := by rw [hcurrent]
    have hadvance := advance_of_eof heof
    have hfixed : lx.advance.2 = lx := by rw [hadvance]
    have hall : ∀ n, (lx.currents n).destutter (· ≠ ·) = (Layout.done gap).lexemes 0 := fun n => by
      rw [destutter_currents_of_fixed hfixed, hcurrent]
      rfl
    refine ⟨fun k => ?_, hwithin, fun k e => current_after_of_error, fun n => errors_of_eof heof _,
      fun k pos => advance_after_of_malformedHex, fun n => ⟨[], ?_⟩, fun n _ => hall n,
      fun k => advance_after_of_eof⟩
    · rw [after_of_fixed hfixed]
      exact ⟨by rw [hadvance]; rfl, by rw [hadvance]; exact hcurrent, by rw [hadvance]; exact hpos⟩
    · rw [List.append_nil, hall]
  · have hlexemes : (Layout.piece gap (.token t) spelling tail).lexemes 0 =
        lx.current :: tail.lexemes lx.cursor.pos := by
      rw [Layout.lexemes_piece, hcurrent, hpos]
      rfl
    refine ⟨fun k => ?_, hwithin, fun k e => current_after_of_error, fun n => ?_,
      fun k pos => advance_after_of_malformedHex, fun n => ?_, fun n hn => ?_,
      fun k => advance_after_of_eof⟩
    · rw [Layout.find, ← hpos]
      exact hbefore.meets k
    · have herrors := hbefore.errors_eq (n + 1)
      rw [Layout.size, Nat.succ_add_eq_add_succ, herrors, Layout.complaints_piece, Layout.refusals,
        hpos]
      rfl
    · rw [hlexemes]
      exact (hbefore.currents_prefix n).1
    · rw [hlexemes]
      exact (hbefore.currents_prefix n).2 hn

/-- A literal that is too great, a name, and a mark without digits. The first attempt is in error at
the literal, the second one comes to the name, and from there on all are refused. -/
theorem shows_of_start_of_faults :
    ∃ lx, start "1 99999999999999999999 a 0x" = .ok lx ∧
      (lx.after 1).current = ⟨.int 1, 0⟩ ∧ (lx.after 2).current = ⟨.ident "a", 23⟩ ∧
        ∀ n, (lx.after (2 + n)).advance = (.error (.fault .malformedHex 25), lx.after 2) := by
  have h : start "1 99999999999999999999 a 0x" =
      .ok ⟨⟨1, " 99999999999999999999 a 0x".toList⟩, ⟨.int 1, 0⟩⟩ := by decide +kernel
  obtain ⟨layout, -, -, hshows⟩ := shows_of_start h
  exact ⟨_, h, by decide +kernel, by decide +kernel, hshows.stays 2 25 (by decide +kernel)⟩

end Lexer

end Readout
