import Readout.Command.Invocation
import Readout.Proofs.Context.Names
import Readout.Proofs.Expr.Parentheses
import Readout.Proofs.Expr.Reading
import Readout.Proofs.Expr.Viable

/-!
# What comes of a request

A request to evaluate an expression can fail for many reasons, and for several of them at once.
Which of them is told depends on a fixed order, and `Readout.Request.Answered` says which it is: an
expression that cannot be read comes before everything else; a request for the tree is answered
without a look at anything else; then the file and the assignments are gone through from the first
to the last; and only if nothing is wrong with them the expression is evaluated, with the names
that the file and the assignments after it give words to.

There is one such answer to every request, and no other (`Readout.Request.run_evaluate`). What is
printed is one line without control characters. If it is a value, it is the numeral of that value
(`Readout.Word.PrintedAs`), and so an expression with that value. What is printed as an error is the
complaint; about an expression that cannot be read it shows the expression and marks the place
(`Readout.Request.report`).
-/

namespace Readout

/-! ### Lines -/

namespace Text

/-- **A line**: there are no control characters in it. -/
def IsLine (s : String) : Prop :=
  ∀ c ∈ s.toList, 32 ≤ c.toNat

instance : DecidablePred IsLine := fun s =>
  decidable_of_iff (s.toList.all fun c => decide (32 ≤ c.toNat)) (by simp [IsLine])

/-- **Nothing is taken out of a text without escape characters.** -/
theorem plain_eq_of_notMem {s : String} (h : '\x1b' ∉ s.toList) : plain s = s := by
  have hkept : ∀ cs : List Char, '\x1b' ∉ cs → withoutSequences cs = cs := by
    intro cs hcs
    induction cs with
    | nil => rw [withoutSequences]
    | cons c cs ih =>
      rw [List.mem_cons, not_or] at hcs
      obtain ⟨hc, htail⟩ := hcs
      have hnone : sequenceLength (c :: cs) = 0 := by
        unfold sequenceLength
        split
        · rename_i heq
          cases heq
          exact absurd rfl hc
        · rfl
      rw [withoutSequences, hnone]
      dsimp only
      rw [ih htail]
  rw [plain, hkept s.toList h, String.ofList_toList]

namespace IsLine

variable {s t : String}

theorem append (hs : IsLine s) (ht : IsLine t) : IsLine (s ++ t) := by
  intro c hc
  rw [String.toList_append, List.mem_append] at hc
  exact hc.elim (hs c) (ht c)

theorem of_word (h : ∀ c ∈ s.toList, isIdentifierRest c = true) : IsLine s :=
  fun c hc => (by decide : 32 ≤ 36).trans (toNat_of_isIdentifierRest (h c hc)).1

theorem decimalText (n : ℕ) : IsLine (Numeral.decimalText n) := by
  refine of_word fun c hc => ?_
  rw [Numeral.toList_decimalText] at hc
  exact isIdentifierRest_of_isDigitIn
    (Numeral.isDigitIn_of_mem_toDigits (by decide) (by decide) hc)

/-- Nothing is taken out of a line. -/
theorem plain_eq (h : IsLine s) : plain s = s :=
  plain_eq_of_notMem fun hc => absurd (h _ hc) (by decide)

theorem newline_not_mem (h : IsLine s) : '\n' ∉ s.toList :=
  fun hc => absurd (h _ hc) (by decide)

end IsLine

end Text

open Text (IsLine)

/-- The listing form of a leaf is a line, -/
theorem Atom.isLine_dump {a : Atom} (h : a.name?.all isIdentifier = true) : IsLine a.dump := by
  have hname : ∀ {name : String}, isIdentifier name = true → IsLine name := fun h =>
    .of_word (isIdentifierRest_of_isIdentifier h)
  cases a with
  | const v => exact .append (.append (by decide) (.decimalText _)) (by decide)
  | bare name => exact .append (.append (by decide) (hname h)) (by decide)
  | qualified scope name =>
    have hscope : IsLine scope.listingName := by cases scope <;> decide
    exact .append (.append (.append (.append (by decide) hscope) (by decide)) (hname h)) (by decide)

/-- and so is the listing form of every expression with identifiers for names. -/
theorem Expr.isLine_dump {e : Expr} (h : e.WellNamed) : IsLine e.dump := by
  induction e with
  | atom a => exact a.isLine_dump (h a (List.mem_singleton_self a))
  | neg e ih => exact .append (.append (by decide) (ih h)) (by decide)
  | bin op left right ihl ihr =>
    have hop : IsLine op.sign := by cases op <;> decide
    have hleft := ihl fun a ha => h a (List.mem_append_left _ ha)
    have hright := ihr fun a ha => h a (List.mem_append_right _ ha)
    exact .append (.append (.append (.append (.append (.append (by decide) hop) (by decide))
      hleft) (by decide)) hright) (by decide)

/-! ### Values that are printed -/

/-- **The line that a word is printed as**: its decimal numeral, or `0x` and its hexadecimal
numeral. -/
inductive Word.PrintedAs (v : Word) : (decimal : Bool) → (line : String) → Prop
  /-- In decimal. -/
  | decimal {line : String} (hdigits : Numeral.IsCanonical 10 v.toNat line.toList) :
    PrintedAs v true line
  /-- In hexadecimal. -/
  | hexadecimal {line : String} {digits : List Char} (hline : line.toList = '0' :: 'x' :: digits)
    (hdigits : Numeral.IsCanonical 16 v.toNat digits) : PrintedAs v false line

/-- **There is one such line.** -/
theorem Request.printedAs_iff {r : Request} {v : Word} {line : String} :
    Word.PrintedAs v r.decimal line ↔ line = r.written v := by
  unfold written
  cases r.decimal with
  | true =>
    rw [if_pos rfl]
    constructor
    · rintro ⟨hdigits⟩
      rw [← String.toList_inj, Numeral.toList_decimalText]
      exact hdigits.eq_toDigits (by decide)
    · rintro rfl
      refine .decimal ?_
      rw [Numeral.toList_decimalText]
      exact Numeral.isCanonical_toDigits (by decide) _
  | false =>
    rw [if_neg (by decide)]
    constructor
    · rintro (- | ⟨hline, hdigits⟩)
      rw [← String.toList_inj, Numeral.toList_hexText, hline, hdigits.eq_toDigits (by decide)]
    · rintro rfl
      exact .hexadecimal (Numeral.toList_hexText _) (Numeral.isCanonical_toDigits (by decide) _)

/-- **A value that is printed is an expression** with that value, -/
theorem Word.PrintedAs.parse_eq {v : Word} {decimal : Bool} {line : String}
    (h : PrintedAs v decimal line) : parse line = .ok (.atom (.const v)) := by
  refine CutInto.parse_atom ?_
  cases h with
  | decimal hdigits =>
    rw [hdigits.eq_toDigits (by decide), ← Numeral.toList_decimalText]
    exact .decimalText v Ends.nil
  | hexadecimal hline hdigits =>
    rw [hline, hdigits.eq_toDigits (by decide), ← Numeral.toList_hexText]
    exact .hexText v Ends.nil

/-- and it is a line. -/
theorem Word.PrintedAs.isLine {v : Word} {decimal : Bool} {line : String}
    (h : PrintedAs v decimal line) : IsLine line := by
  refine .of_word fun c hc => ?_
  cases h with
  | decimal hdigits =>
    exact isIdentifierRest_of_isDigitIn (hdigits.isDigitIn (by decide) c hc)
  | hexadecimal hline hdigits =>
    rw [hline, List.mem_cons, List.mem_cons] at hc
    rcases hc with rfl | rfl | hc
    · decide
    · decide
    · exact isIdentifierRest_of_isDigitIn (hdigits.isDigitIn (by decide) c hc)

/-! ### What a request says about names -/

/-- The name of the section of a context file that holds the names of a scope. -/
def Scope.sectionName : Scope → String
  | register => "registers"
  | symbol => "symbols"

/-- A file with a context in it is a document with two sections that are accepted. -/
theorem ContextFile.exists_of_load {entry : PathEntry} {b : Bindings}
    (h : (load entry).outcome = .ok b) : ∃ document t, entry = .file document ∧
      Toml.parse document = .ok t ∧
      Bindings.ofValues (t.find? "registers") (t.find? "symbols") = .ok b := by
  unfold load at h
  split at h
  · cases h
  · cases h
  · rename_i document
    split at h
    · cases h
    · cases h
    · rename_i t hparse
      refine ⟨document, t, rfl, hparse, ?_⟩
      dsimp only [ofDocument] at h
      split at h
      · rename_i b' hvalues
        cases h
        exact hvalues
      · cases h

namespace Request

variable (files : Files) (r : Request)

/-- All assignments of a request, those to registers before those to symbols. -/
def overrides : List (Scope × String) :=
  r.registers.map (.register, ·) ++ r.symbols.map (.symbol, ·)

/-- The fields of the context file of a request: the two sections of the document, if there is
one. -/
def fileFields (scope : Scope) : Option Value :=
  match r.contextFile.map files with
  | some (.file document) => (Toml.parse document).toOption.bind (·.find? scope.sectionName)
  | _ => none

/-- **The environment of a request**: what the assignments say about names, or else the file. -/
def env : Env := fun q =>
  (lastWord (r.fileFields files) r.overrides q).map fun v => (v.toNat : ℤ)

/-- **What is wrong with what a request says about names**, in the order in which it is looked at:
the file, and each of the assignments. -/
def faults : List Complaint :=
  (match r.fileBindings files with
    | .ok _ => []
    | .error complaint => [complaint]) ++
  r.overrides.filterMap fun o => (Assignment.fault? o.2).map .badAssignment

theorem override_eq (scope : Scope) (texts : List String) (b : Bindings) :
    override scope texts b =
      (b.assignAll (texts.map (scope, ·))).mapError .badAssignment := by
  rw [override, Bindings.assign_eq]
  cases b.assignAll (texts.map (scope, ·)) <;> rfl

/-- The assignments are carried out as one list. -/
theorem bindings_eq : r.bindings files =
    (r.fileBindings files).bind fun b => (b.assignAll r.overrides).mapError .badAssignment := by
  unfold bindings
  cases r.fileBindings files with
  | error complaint => rfl
  | ok b =>
    simp only [override_eq, overrides, Bindings.assignAll_append, bind, Except.bind]
    cases b.assignAll (r.registers.map (.register, ·)) <;> rfl

variable {files r}

/-- **What the file gives**: the words of its fields. -/
theorem ofValues_of_fileBindings {b : Bindings} (h : r.fileBindings files = .ok b) :
    Bindings.ofValues (r.fileFields files .register) (r.fileFields files .symbol) = .ok b := by
  unfold fileBindings at h
  split at h
  · rename_i hpath
    cases h
    rw [fileFields, fileFields, hpath]
    rfl
  · rename_i path hpath
    split at h
    · rename_i b' hload
      cases h
      obtain ⟨document, t, hentry, hparse, hvalues⟩ := ContextFile.exists_of_load hload
      rw [fileFields, fileFields, hpath, Option.map_some, hentry]
      dsimp only
      rw [hparse]
      exact hvalues
    all_goals cases h

/-- **If something is wrong, the first of it is told.** -/
theorem bindings_of_faults {complaint : Complaint} (h : (r.faults files).head? = some complaint) :
    r.bindings files = .error complaint := by
  rw [bindings_eq]
  unfold faults at h
  cases hfile : r.fileBindings files with
  | error complaint' =>
    rw [hfile] at h
    cases h
    rfl
  | ok b =>
    rw [hfile, List.nil_append, List.head?_filterMap] at h
    have hfault := (List.map_findSome? (g := Complaint.badAssignment)).trans h
    obtain ⟨fault, hfirst, rfl⟩ := Option.map_eq_some_iff.1 hfault
    change (b.assignAll r.overrides).mapError _ = _
    rw [Bindings.assignAll_of_fault hfirst]
    rfl

/-- **If nothing is wrong**, the names have the words that the request gives them. -/
theorem exists_bindings (h : r.faults files = []) :
    ∃ b, r.bindings files = .ok b ∧ b.env = r.env files := by
  obtain ⟨hfile, hoverrides⟩ := List.append_eq_nil_iff.1 h
  cases hbindings : r.fileBindings files with
  | error complaint =>
    rw [hbindings] at hfile
    cases hfile
  | ok b =>
    have hgood : ∀ o ∈ r.overrides, Assignment.fault? o.2 = none := fun o ho =>
      Option.map_eq_none_iff.1 (List.filterMap_eq_nil_iff.1 hoverrides o ho)
    obtain ⟨b', hb', -⟩ := Bindings.exists_assignAll hgood b
    refine ⟨b', ?_, funext fun q => ?_⟩
    · rw [bindings_eq, hbindings]
      change (b.assignAll r.overrides).mapError _ = _
      rw [hb']
      rfl
    · rw [Bindings.env, Bindings.lookup_eq_lastWord (ofValues_of_fileBindings hbindings) hb', env]
      rfl

/-! ### What is answered -/

/-- **How a request has to be answered.** -/
inductive Answered (files : Files) (r : Request) : Invocation.Outcome → Prop
  /-- An expression that cannot be read fails, whatever else is said. -/
  | unreadable {what : Fault} {pos : ℕ} (h : parse r.expression = .error (.fault what pos)) :
    Answered files r (.failed (.unreadable what ⟨r.expression, pos⟩))
  /-- The tree is shown, if it is wanted, whatever is said about names. -/
  | tree {e : Expr} (h : parse r.expression = .ok e) (hshow : r.showTree = true) :
    Answered files r (.printed e.dump)
  /-- The first thing that is wrong about names is told. -/
  | refused {e : Expr} {complaint : Complaint} (h : parse r.expression = .ok e)
    (hshow : r.showTree = false) (hfault : (r.faults files).head? = some complaint) :
    Answered files r (.failed complaint)
  /-- If nothing is, the first name without a word is told. -/
  | unknown {e : Expr} {before after : List Atom} {a : Atom} {error : EvalError}
    (h : parse r.expression = .ok e) (hshow : r.showTree = false) (hgood : r.faults files = [])
    (hsplit : e.leaves = before ++ a :: after)
    (hknown : ∀ b ∈ before, b.answer (r.env files) ≠ none) (ha : a.answer (r.env files) = none)
    (hname : error.name? = a.name?) (hmessage : some error.message = a.complaint?) :
    Answered files r (.failed (.valueless error))
  /-- If all names have words, the numeral of the value is printed. -/
  | value {e : Expr} {v : Word} {line : String} (h : parse r.expression = .ok e)
    (hshow : r.showTree = false) (hgood : r.faults files = [])
    (hvalue : e.number (r.env files) = some (v.toNat : ℤ))
    (hline : Word.PrintedAs v r.decimal line) : Answered files r (.printed line)

/-- **What is said about an expression that cannot be read**: what is wrong with it, the expression
itself, and below it a marker at the position. -/
def report (expression : String) (what : Fault) (pos : ℕ) : String :=
  "Parse error: " ++ what.message ++ "\n" ++
    ("  " ++ expression ++ "\n  " ++ String.ofList (List.replicate pos ' ') ++ "^")

section Run

variable {e : Expr}

theorem run_of_unreadable {what : Fault} {pos : ℕ}
    (h : parse r.expression = .error (.fault what pos)) :
    (Invocation.evaluate r).run files = .failed (.unreadable what ⟨r.expression, pos⟩) := by
  simp only [Invocation.run, answer, tree, h]
  rfl

theorem run_of_showTree (h : parse r.expression = .ok e) (hshow : r.showTree = true) :
    (Invocation.evaluate r).run files = .printed e.dump := by
  simp only [Invocation.run, answer, tree, h, hshow]
  rfl

theorem run_of_bindings_eq_error {complaint : Complaint} (h : parse r.expression = .ok e)
    (hshow : r.showTree = false) (hbindings : r.bindings files = .error complaint) :
    (Invocation.evaluate r).run files = .failed complaint := by
  simp only [Invocation.run, answer, tree, value, h, hshow, hbindings]
  rfl

theorem run_of_no_faults (h : parse r.expression = .ok e) (hshow : r.showTree = false)
    (hgood : r.faults files = []) :
    (Invocation.evaluate r).run files =
      match (e.meaning (r.env files)).outcome with
      | .ok v => .printed (r.written v)
      | .error error => .failed (.valueless error) := by
  obtain ⟨b, hbindings, henv⟩ := exists_bindings hgood
  rw [← henv]
  have heval : e.eval b.env = e.meaning b.env :=
    Expr.evalWithin_eq_meaning _ ((operandDepth_of_parse h).trans_lt (by decide))
  simp only [Invocation.run, answer, tree, value, h, hshow, hbindings, heval, bind, Except.bind]
  cases (e.meaning b.env).outcome <;> rfl

/-- **Files and assignments do not matter** to a request whose expression cannot be read or whose
tree is wanted. -/
theorem run_of_bypass (h : ∀ e, parse r.expression = .ok e → r.showTree = true) {r' : Request}
    (hexpression : r'.expression = r.expression) (hshow : r'.showTree = r.showTree)
    (files' : Files) : r'.consultedFile = none ∧
      (Invocation.evaluate r').run files' = (Invocation.evaluate r).run files := by
  have htree : r'.tree = r.tree := by
    unfold tree
    rw [hexpression]
  simp only [Invocation.run, answer, consultedFile, htree, hshow]
  unfold tree
  cases hparse : parse r.expression with
  | error err => cases err <;> exact ⟨rfl, rfl⟩
  | ok e =>
    rw [h e hparse]
    exact ⟨rfl, rfl⟩

/-- **Requests are answered in order.** -/
theorem answered_run (h : ∀ digits, tokenize r.expression ≠ .error (.oversized digits)) :
    Answered files r ((Invocation.evaluate r).run files) := by
  cases hparse : parse r.expression with
  | error err =>
    cases err with
    | fault what pos =>
      rw [run_of_unreadable hparse]
      exact .unreadable hparse
    | oversized digits =>
      have hending : (Cursor.start r.expression).feed.ending = .error (.oversized digits) :=
        Feed.ending_of_parse hparse
      exact absurd (by simp only [tokenize, hending]) (h digits)
  | ok e =>
    cases hshow : r.showTree with
    | true =>
      rw [run_of_showTree hparse hshow]
      exact .tree hparse hshow
    | false =>
      cases hfaults : (r.faults files).head? with
      | some complaint =>
        rw [run_of_bindings_eq_error hparse hshow (bindings_of_faults hfaults)]
        exact .refused hparse hshow hfaults
      | none =>
        have hgood := List.head?_eq_none_iff.1 hfaults
        rcases Expr.known_or_unknown (r.env files) e with ⟨v, hrun, hnumber⟩ |
          ⟨before, a, after, error, hsplit, hknown, ha, hrun, -, hname, hmessage⟩
        · rw [run_of_no_faults hparse hshow hgood, hrun]
          exact .value hparse hshow hgood hnumber (printedAs_iff.2 rfl)
        · rw [run_of_no_faults hparse hshow hgood, hrun]
          exact .unknown hparse hshow hgood hsplit hknown ha hname hmessage

/-- **There is one way to answer a request.** -/
theorem Answered.run_eq {outcome : Invocation.Outcome} (h : Answered files r outcome) :
    (Invocation.evaluate r).run files = outcome := by
  cases h with
  | unreadable hparse => exact run_of_unreadable hparse
  | tree hparse hshow => exact run_of_showTree hparse hshow
  | refused hparse hshow hfault =>
    exact run_of_bindings_eq_error hparse hshow (bindings_of_faults hfault)
  | unknown hparse hshow hgood hsplit hknown ha hname hmessage =>
    obtain ⟨error, hrun, -, hname', hmessage'⟩ := Expr.meaning_of_unknown hsplit hknown ha
    have heq := EvalError.eq_of_message (hname'.trans hname.symm)
      (Option.some.inj (hmessage'.trans hmessage.symm))
    rw [run_of_no_faults hparse hshow hgood, hrun, heq]
  | value hparse hshow hgood hvalue hline =>
    rw [run_of_no_faults hparse hshow hgood, printedAs_iff.1 hline]
    rcases Expr.known_or_unknown (r.env files) _ with ⟨v, hrun, hnumber⟩ |
      ⟨_, _, _, _, -, -, -, -, hnumber, -, -⟩
    · have hv := hnumber.symm.trans hvalue
      rw [hrun, UInt64.toNat_inj.1 (Int.natCast_inj.1 (Option.some.inj hv))]
    · cases hnumber.symm.trans hvalue

end Run

/-! ### What is printed -/

/-- **What is printed is a line.** -/
theorem Answered.isLine {line : String} (h : Answered files r (.printed line)) : IsLine line := by
  cases h with
  | tree hparse hshow => exact Expr.isLine_dump (wellNamed_of_parse hparse)
  | value _ _ _ _ hline => exact hline.isLine

/-- If it is no tree, it is the value. -/
theorem Answered.exists_value {line : String} (h : Answered files r (.printed line))
    (hshow : r.showTree = false) : ∃ e v, parse r.expression = .ok e ∧
      e.number (r.env files) = some (v.toNat : ℤ) ∧ Word.PrintedAs v r.decimal line := by
  cases h with
  | tree hparse htree => exact absurd (htree.symm.trans hshow) (by decide)
  | value hparse _ _ hvalue hline => exact ⟨_, _, hparse, hvalue, hline⟩

/-- A value is answered by itself. -/
theorem run_of_printedAs {v : Word} {line : String} (hline : Word.PrintedAs v r.decimal line)
    (hexpression : r.expression = line) (hshow : r.showTree = false)
    (hgood : r.faults files = []) : (Invocation.evaluate r).run files = .printed line :=
  (Answered.value (by rw [hexpression]; exact hline.parse_eq) hshow hgood rfl hline).run_eq

/-- **What is said about an expression that cannot be read.** -/
theorem errorOutput_of_unreadable {what : Fault} {pos : ℕ}
    (h : parse r.expression = .error (.fault what pos)) :
    pos ≤ r.expression.length ∧
      ((Invocation.evaluate r).run files).errorOutput =
        Text.plain (report r.expression what pos) ++ "\n" := by
  obtain ⟨hpos, -⟩ := exists_start_of_parse h
  have hcolumn : Place.column ⟨r.expression, pos⟩ = pos := by
    simp only [Place.column]
    omega
  have hexcerpt : Place.excerpt ⟨r.expression, pos⟩ =
      "  " ++ r.expression ++ "\n  " ++ String.ofList (List.replicate pos ' ') ++ "^" := by
    rw [Place.excerpt, hcolumn]
  have hmessage : (Complaint.unreadable what ⟨r.expression, pos⟩).message =
      "Parse error: " ++ what.message ++ "\n" ++ Place.excerpt ⟨r.expression, pos⟩ := rfl
  refine ⟨hpos, ?_⟩
  rw [run_of_unreadable h, Invocation.Outcome.errorOutput, hmessage, hexcerpt, report]

/-- **The answer to a request, from end to end.** If the lexer meets no decimal literal that is too
long to be converted, then

* the request is answered as it has to be, and there is no other way;
* the file and the assignments make no difference, and the file is not looked at, if the expression
  cannot be read or its tree is wanted;
* if the expression cannot be read, then what is printed as an error is the report on it, as it is
  if there are no escape characters in it;
* a failure has the status one, nothing is printed, and the complaint is printed as an error;
* success has the status zero, what is printed is one line, and there is no error;
* a line that is printed and no tree is the numeral of the value of the expression; it is read as
  that value, and given as the expression of a request in the same notation whose file and
  assignments are not bad, or are none, it is printed again. -/
theorem run_evaluate (files : Files) (r : Request)
    (h : ∀ digits, tokenize r.expression ≠ .error (.oversized digits)) :
    let outcome := (Invocation.evaluate r).run files
    (∀ o, Answered files r o ↔ o = outcome) ∧
    ((∀ e, parse r.expression = .ok e → r.showTree = true) →
      ∀ files' r', r'.expression = r.expression → r'.showTree = r.showTree →
        r'.consultedFile = none ∧ (Invocation.evaluate r').run files' = outcome) ∧
    (∀ what pos, parse r.expression = .error (.fault what pos) →
      pos ≤ r.expression.length ∧
      outcome.errorOutput = Text.plain (report r.expression what pos) ++ "\n" ∧
      ('\x1b' ∉ (report r.expression what pos).toList →
        outcome.errorOutput = report r.expression what pos ++ "\n")) ∧
    (∀ complaint, outcome = .failed complaint →
      outcome.status = 1 ∧ outcome.output = "" ∧
      outcome.errorOutput = Text.plain complaint.message ++ "\n") ∧
    (∀ line, outcome = .printed line →
      outcome.status = 0 ∧ outcome.output = line ++ "\n" ∧ '\n' ∉ line.toList ∧
      outcome.errorOutput = "") ∧
    ∀ line, outcome = .printed line → r.showTree = false →
      ∃ e v, parse r.expression = .ok e ∧ e.number (r.env files) = some (v.toNat : ℤ) ∧
        Word.PrintedAs v r.decimal line ∧ parse line = .ok (.atom (.const v)) ∧
        ∀ files' r', r'.expression = line → r'.showTree = false → r'.decimal = r.decimal →
          r'.faults files' = [] → (Invocation.evaluate r').run files' = .printed line := by
  intro outcome
  have hanswered : Answered files r outcome := answered_run h
  refine ⟨fun o => ⟨fun ho => ho.run_eq.symm, fun ho => ho ▸ hanswered⟩,
    fun hbypass files' r' hexpression hshow => run_of_bypass hbypass hexpression hshow files',
    fun what pos hparse => ?_, fun complaint hfailed => ?_, fun line hprinted => ?_,
    fun line hprinted hshow => ?_⟩
  · obtain ⟨hpos, herror⟩ := errorOutput_of_unreadable hparse
    refine ⟨hpos, herror, fun hescape => ?_⟩
    rwa [Text.plain_eq_of_notMem hescape] at herror
  · rw [hfailed]
    exact ⟨rfl, rfl, rfl⟩
  · rw [hprinted] at hanswered ⊢
    refine ⟨rfl, ?_, hanswered.isLine.newline_not_mem, rfl⟩
    rw [Invocation.Outcome.output, hanswered.isLine.plain_eq]
  · rw [hprinted] at hanswered
    obtain ⟨e, v, hparse, hvalue, hline⟩ := hanswered.exists_value hshow
    refine ⟨e, v, hparse, hvalue, hline, hline.parse_eq, ?_⟩
    intro files' r' hexpression hshow' hdecimal hgood
    exact run_of_printedAs (hdecimal ▸ hline) hexpression hshow' hgood

/-- A file, assignments that come after it, and a value that is answered by itself; with two things
wrong, the file is blamed and not the assignment; and an expression that ends too early is blamed
before the file. -/
theorem run_evaluate_sum :
    let files : Files := fun path =>
      if path = "c.toml" then .file "[registers]\ny = 1\n[symbols]\nx = \"0x10\"\n" else .missing
    let r : Request := ⟨"x + reg::y", some "c.toml", ["y=2", " y = 3 "], [], false, false⟩
    let r' : Request := ⟨"x + reg::y", some "d.toml", ["y"], [], false, false⟩
    let r'' : Request := ⟨"x +", some "d.toml", ["y"], [], true, false⟩
    (Invocation.evaluate r).run files = .printed "0x13" ∧ Word.PrintedAs 19 false "0x13" ∧
      (Invocation.evaluate ⟨"0x13", none, [], [], false, false⟩).run files = .printed "0x13" ∧
      Answered files r' (.failed (.noContext "d.toml" .notFound)) ∧
      ((Invocation.evaluate r'').run files).errorOutput =
        "Parse error: unexpected end of expression\n  x +\n     ^\n" := by
  intro files r r' r''
  have hshort : ∀ {source : String}, (tokenize source).toOption.isSome = true →
      ∀ digits, tokenize source ≠ .error (.oversized digits) := by
    intro source htokens digits herror
    rw [herror] at htokens
    cases htokens
  have hsum : ∀ digits, tokenize "x + reg::y" ≠ .error (.oversized digits) :=
    hshort (by decide +kernel)
  have hprinted : (Invocation.evaluate r).run files = .printed "0x13" := by decide +kernel
  have hfailed : (Invocation.evaluate r').run files = .failed (.noContext "d.toml" .notFound) := by
    decide +kernel
  have hunreadable : parse "x +" = .error (.fault .unexpectedEnd 3) := by decide +kernel
  obtain ⟨-, -, -, -, -, hvalue⟩ := run_evaluate files r hsum
  obtain ⟨e, v, -, -, hline, hread, hagain⟩ := hvalue "0x13" hprinted rfl
  have hv : parse "0x13" = .ok (.atom (.const 19)) := by decide +kernel
  cases hread.symm.trans hv
  obtain ⟨-, -, hreport, -⟩ := run_evaluate files r'' (hshort (by decide +kernel))
  refine ⟨hprinted, hline, hagain files _ rfl rfl rfl rfl, ?_,
    (hreport .unexpectedEnd 3 hunreadable).2.2 (by decide +kernel)⟩
  exact ((run_evaluate files r' hsum).1 _).2 hfailed.symm

end Request

end Readout
