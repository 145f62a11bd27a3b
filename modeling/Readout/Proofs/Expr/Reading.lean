import Readout.Expr.Reading
import Readout.Proofs.Expr.Completeness
import Readout.Proofs.Token.Lexing

/-!
# What comes of reading a text

A rule of the parser has faults of its own, and it passes on the error in which the text ends.
The error that is no fault, a literal that is too long to be converted, can only come from
there (`Readout.Parser.OversizedAtEnd`), since no rule makes it. And the lexer makes it only
where the text has a run of that many digits (`Readout.Cursor.exists_overlong_of_feed`).

So there are three things that can come of reading a text (`Readout.readExpression_cases`):
the tree that the parser finds, a message with the position of the fault, or, if there is a
run of digits that is too long, neither. The third does happen
(`Readout.not_forall_readExpression`).
-/

namespace Readout

namespace Parser

/-! ### Errors that are passed on -/

/-- **An oversized literal is where the text ends**: no other one is blamed. -/
def OversizedAtEnd {α : Type} (ending : Ending) (x : Except ReadError α) : Prop :=
  ∀ n, x = .error (.oversized n) → ending = .error (.oversized n)

namespace OversizedAtEnd

variable {α β : Type} {ending : Ending}

theorem ok (a : α) : OversizedAtEnd ending (.ok a) :=
  fun _ h => by cases h

theorem fault (what : Fault) (pos : ℕ) :
    OversizedAtEnd ending (.error (.fault what pos) : Except ReadError α) :=
  fun _ h => by cases h

/-- An error that is passed on. -/
theorem of_eq_error {x : Except ReadError α} {err : ReadError} (hx : OversizedAtEnd ending x)
    (h : x = .error err) : OversizedAtEnd ending (.error err : Except ReadError β) := by
  intro n herr
  cases herr
  exact hx n h

theorem bind {x : Except ReadError α} {f : α → Except ReadError β}
    (hx : OversizedAtEnd ending x) (hf : ∀ a, OversizedAtEnd ending (f a)) :
    OversizedAtEnd ending (x.bind f) := by
  cases x with
  | error err => exact hx.of_eq_error rfl
  | ok a => exact hf a

theorem map {x : Except ReadError α} (f : α → β) (hx : OversizedAtEnd ending x) :
    OversizedAtEnd ending (x.map f) := by
  cases x with
  | error err => exact hx.of_eq_error rfl
  | ok a => exact ok (f a)

/-- The ending itself can be passed on. -/
theorem end_map (f : ℕ → α) : OversizedAtEnd ending (ending.map f) :=
  map f fun _ h => h

theorem current (ls : List Lexeme) : OversizedAtEnd ending (current ending ls) := by
  cases ls with
  | nil => exact end_map _
  | cons l ls => exact ok l

theorem consume (ls : List Lexeme) : OversizedAtEnd ending (consume ending ls) := by
  cases ls with
  | nil => exact end_map _
  | cons l ls => exact ok ()

theorem faultHere (what : Fault) (ls : List Lexeme) :
    OversizedAtEnd ending (faultHere ending what ls : Except ReadError α) :=
  bind (current ls) fun l => fault what l.pos

end OversizedAtEnd

section

variable {ending : Ending} {inner : Rule}

/-- Chains pass on the errors of their parts. -/
theorem oversizedAtEnd_chainAfter {op? : Token → Option Op}
    (hinner : ∀ ls, OversizedAtEnd ending (inner ls)) (left : Expr) (ls : List Lexeme) :
    OversizedAtEnd ending (chainAfter ending op? inner left ls) := by
  fun_induction chainAfter ending op? inner left ls with
  | case1 => exact .ok _
  | case2 => exact .ok _
  | case3 left l rest op hop err hconsume =>
    exact (OversizedAtEnd.consume rest).of_eq_error hconsume
  | case4 left l rest op hop _ _ err hpart => exact (hinner rest).of_eq_error hpart
  | case5 left l rest op hop _ _ right _ _ err hafter ih => exact ih.of_eq_error hafter
  | case6 => exact .ok _

theorem oversizedAtEnd_chain {op? : Token → Option Op}
    (hinner : ∀ ls, OversizedAtEnd ending (inner ls)) (ls : List Lexeme) :
    OversizedAtEnd ending (chain ending op? inner ls) := by
  unfold chain
  split
  · rename_i err herr
    exact (hinner ls).of_eq_error herr
  · rename_i first _
    split
    · rename_i err herr
      exact (oversizedAtEnd_chainAfter hinner first.tree first.rest).of_eq_error herr
    · exact .ok _

/-- Signs pass on the errors of what is behind them. -/
theorem oversizedAtEnd_operand (hinner : ∀ ls, OversizedAtEnd ending (inner ls))
    (ls : List Lexeme) : OversizedAtEnd ending (operand ending inner ls) := by
  fun_induction operand ending inner ls with
  | case1 => exact hinner []
  | case2 l rest hplus err hconsume => exact (OversizedAtEnd.consume rest).of_eq_error hconsume
  | case3 l rest hplus _ _ err hoperand ih => exact ih.of_eq_error hoperand
  | case4 => exact .ok _
  | case5 l rest hminus err hconsume => exact (OversizedAtEnd.consume rest).of_eq_error hconsume
  | case6 l rest hminus _ _ err hoperand ih => exact ih.of_eq_error hoperand
  | case7 => exact .ok _
  | case8 l rest => exact hinner (l :: rest)

theorem oversizedAtEnd_expression (hinner : ∀ ls, OversizedAtEnd ending (inner ls)) :
    ∀ ls, OversizedAtEnd ending (expression ending inner ls) :=
  oversizedAtEnd_chain (oversizedAtEnd_chain (oversizedAtEnd_chain (oversizedAtEnd_operand hinner)))

/-- Names have faults of their own. -/
theorem oversizedAtEnd_nameInScope (word : Lexeme × String) (ls : List Lexeme) :
    OversizedAtEnd ending (nameInScope ending word ls) := by
  unfold nameInScope
  split
  · refine .bind (.consume _) fun _ => ?_
    split
    · exact .ok _
    · exact .fault _ _
  · exact .faultHere _ _

theorem oversizedAtEnd_identifier (word : Lexeme × String) (ls : List Lexeme) :
    OversizedAtEnd ending (identifier ending word ls) := by
  unfold identifier
  split
  · exact .bind (.consume _) fun _ => .bind (oversizedAtEnd_nameInScope word _) fun _ => .ok _
  · exact .bind (.consume _) fun _ => .ok _

theorem oversizedAtEnd_parenthesis (hinner : ∀ ls, OversizedAtEnd ending (inner ls)) (l : Lexeme)
    (rest : List Lexeme) : OversizedAtEnd ending (parenthesis ending inner l rest) := by
  unfold parenthesis
  refine .bind (.consume _) fun _ => .bind (hinner rest) fun e => ?_
  split
  · exact .bind (.consume _) fun _ => .ok _
  · exact .faultHere _ _

end

/-- **Primaries pass errors on**, by induction on the room for parentheses. -/
theorem oversizedAtEnd_primary (ending : Ending) (room : ℕ) (ls : List Lexeme) :
    OversizedAtEnd ending (primary ending room ls) := by
  induction room generalizing ls with
  | zero =>
    rcases ls with - | ⟨⟨t, pos⟩, ls⟩
    · exact .faultHere _ _
    · cases t with
      | int v => exact .bind (.consume ls) fun _ => .ok _
      | ident word => exact oversizedAtEnd_identifier _ _
      | _ => exact .fault _ _
  | succ room ih =>
    rcases ls with - | ⟨⟨t, pos⟩, ls⟩
    · exact .faultHere _ _
    · cases t with
      | int v => exact .bind (.consume ls) fun _ => .ok _
      | ident word => exact oversizedAtEnd_identifier _ _
      | lparen => exact oversizedAtEnd_parenthesis (oversizedAtEnd_expression ih) _ _
      | _ => exact .fault _ _

end Parser

/-- **A literal is too long for the parser only where it is for the lexer.** -/
theorem Feed.ending_of_parse {feed : Feed} {n : ℕ} (h : feed.parse = .error (.oversized n)) :
    feed.ending = .error (.oversized n) := by
  have hwhole := Parser.oversizedAtEnd_expression
    (Parser.oversizedAtEnd_primary feed.ending maxOpenParens) feed.lexemes
  unfold parse at h
  refine Parser.OversizedAtEnd.bind hwhole (fun whole => ?_) n h
  split
  · exact .ok _
  · exact .fault _ _

/-- Every fault has something said about it. -/
theorem Fault.message_ne_empty (what : Fault) : what.message ≠ "" := by
  cases what with
  | outOfRange literal => exact fun h => absurd (String.append_eq_empty_iff.1 h).1 (by decide)
  | unknownScope word => exact fun h => absurd (String.append_eq_empty_iff.1 h).2 (by decide)
  | unexpected token => exact fun h => absurd (String.append_eq_empty_iff.1 h).1 (by decide)
  | _ => decide

/-- What is said about a fault is what comes out of the reading again. -/
theorem Reading.unwrap_fault (what : Fault) (pos : ℤ) :
    (⟨none, some what.message, some pos⟩ : Reading).unwrap = .error (what.message, pos) := by
  have hcomplaint : (⟨none, some what.message, some pos⟩ : Reading).complaint = what.message := by
    unfold complaint
    split
    · rename_i h
      exact absurd (Option.some.inj h) what.message_ne_empty
    · rename_i h
      exact (Option.some.inj h).symm
    · rename_i h
      cases h
  rw [unwrap, hcomplaint]
  rfl

/-- **What comes of reading a text.** If the parser finds a tree, then this is the result, and
nothing is said. If the parser finds a fault, then there is no tree; the message is the one of
the fault, which is said once, and the position is the one of the fault; and both come out
again when the tree is asked for. The only text without a result is one with a run of too many
decimal digits. -/
theorem readExpression_cases (source : String) (sink : Option String) :
    (∃ e, parse source = .ok e ∧
      readExpression source sink = .ok (⟨some e, none, none⟩, sink)) ∨
    (∃ what pos r, parse source = .error (.fault what pos) ∧
      readExpression source sink = .ok (r, sink.map (· ++ what.message)) ∧
      r.tree = none ∧ r.error = some what.message ∧ r.pos = some (pos : ℤ) ∧
      r.unwrap = .error (what.message, (pos : ℤ))) ∨
    ∃ digits, digits <:+: source.toList ∧ IsOverlong digits ∧
      parse source = .error (.oversized digits.length) ∧
      readExpression source sink = .error (.oversized digits.length) := by
  unfold readExpression
  cases hparse : parse source with
  | ok e => exact Or.inl ⟨e, rfl, rfl⟩
  | error err =>
    cases err with
    | fault what pos =>
      exact Or.inr (Or.inl ⟨what, pos, _, rfl, rfl, rfl, rfl, rfl, Reading.unwrap_fault what pos⟩)
    | oversized n =>
      obtain ⟨digits, hdigits, hoverlong, rfl⟩ :=
        Cursor.exists_overlong_of_feed (Feed.ending_of_parse hparse)
      exact Or.inr (Or.inr ⟨digits, hdigits, hoverlong, rfl, rfl⟩)

/-- **A text of too many digits has no result**, whatever is done with messages. -/
theorem IsOverlong.readExpression_eq {digits : List Char} (h : IsOverlong digits)
    (sink : Option String) :
    readExpression (String.ofList digits) sink = .error (.oversized digits.length) := by
  have hparse : parse (String.ofList digits) = .error (.oversized digits.length) := by
    rw [parse, Cursor.start, String.toList_ofList, h.feed_eq 0]
    rfl
  rw [readExpression, hparse]

/-- Reading does not always have a result: a run of ones, one longer than is converted, has
none. -/
theorem not_forall_readExpression :
    ¬∀ (source : String) (sink : Option String), ∃ r, readExpression source sink = .ok r := by
  intro h
  have hones : IsOverlong (List.replicate (Numeral.maxDecimalDigits + 1) '1') := by
    refine ⟨fun c hc => ?_, ?_⟩
    · rw [List.eq_of_mem_replicate hc]
      decide
    · rw [List.length_replicate]
      exact Nat.lt_succ_self _
  obtain ⟨r, hr⟩ := h (String.ofList (List.replicate (Numeral.maxDecimalDigits + 1) '1')) none
  rw [hones.readExpression_eq none] at hr
  cases hr

end Readout
