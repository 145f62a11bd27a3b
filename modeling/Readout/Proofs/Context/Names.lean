import Readout.Proofs.Context.Assignments
import Readout.Proofs.Expr.Soundness
import Readout.Proofs.Expr.RoundTrip
import Readout.Proofs.Numeral.AsciiForm

/-!
# What can be bound can be named

Three places know what a name looks like: the lexer cuts names out of expressions, the tables of
a context are checked name by name, and so is every assignment. They agree
(`Readout.names_agree`). Whatever is bound by tables and assignments can be asked for by its name,
with a scope or without one, and the answer is what was said last about it. Conversely, a text that
the lexer takes for one name is admitted as a name by tables and assignments.
-/

namespace Readout

/-! ### Identifiers have no blanks -/

theorem trim_of_isIdentifier {name : String} (h : isIdentifier name = true) :
    Text.trim name = name := by
  rw [Text.trim, Text.trimBoth_of_forall fun c hc =>
    Text.isBlank_of_isIdentifierRest (isIdentifierRest_of_isIdentifier h c hc),
    String.ofList_toList]

/-- **An assignment to an identifier**, perhaps with blanks around it. -/
theorem Assignment.parse_of_trim {before : String} (hequals : '=' ∉ before.toList)
    (h : isIdentifier (Text.trim before) = true) (spelling : String) :
    parse (before ++ "=" ++ spelling) =
      match (Value.text spelling).toWord with
      | .ok value => .ok ⟨Text.trim before, value⟩
      | .error fault => .error (.badValue (Text.trim before) fault) := by
  have hbefore : ∀ c ∈ before.toList, (c != '=') = true := by
    intro c hc
    rw [bne_iff_ne]
    rintro rfl
    exact hequals hc
  have htext : (before ++ "=" ++ spelling).toList = before.toList ++ '=' :: spelling.toList := by
    simp
  have hcut : cutAtEquals (before ++ "=" ++ spelling).toList =
      (before.toList, some spelling.toList) := by
    rw [cutAtEquals, htext, List.dropWhile_append_of_pos hbefore,
      List.dropWhile_cons_of_neg (by decide), List.takeWhile_append_of_pos hbefore,
      List.takeWhile_cons_of_neg (by decide), List.append_nil]
  rw [parse, hcut]
  dsimp only
  rw [String.ofList_toList, String.ofList_toList]
  cases (Value.text spelling).toWord with
  | ok value => exact if_pos h
  | error fault => exact if_pos h

/-- An assignment to an identifier that is written without blanks. -/
theorem Assignment.parse_of_isIdentifier {name : String} (h : isIdentifier name = true)
    (spelling : String) : parse (name ++ "=" ++ spelling) =
      match (Value.text spelling).toWord with
      | .ok value => .ok ⟨name, value⟩
      | .error fault => .error (.badValue name fault) := by
  have hequals : '=' ∉ name.toList := fun hmem =>
    absurd (isIdentifierRest_of_isIdentifier h _ hmem) (by decide)
  have hparse := parse_of_trim hequals (by rwa [trim_of_isIdentifier h]) spelling
  rwa [trim_of_isIdentifier h] at hparse

/-! ### Tables -/

/-- The word that a field of a context gives to a name. -/
def configured? (field : Option Value) (name : String) : Option Word :=
  match field with
  | some (.table t) => (t.find? name).bind fun v => v.toWord.toOption
  | _ => none

/-- **What comes of entries**, one after the other. -/
theorem readEntries_cons_eq_ok_iff {name : String} {v : Value} {es : List (String × Value)}
    {ws : List (String × Word)} : readEntries ((name, v) :: es) = .ok ws ↔
      ∃ w ws', isIdentifier name = true ∧ v.toWord = .ok w ∧ readEntries es = .ok ws' ∧
        ws = (name, w) :: ws' := by
  rw [readEntries, readEntry]
  split
  · rename_i hname
    cases v.toWord with
    | error fault => exact iff_of_false (by rintro ⟨⟩) (by simp)
    | ok w =>
      cases readEntries es with
      | error fault => exact iff_of_false (by rintro ⟨⟩) (by simp)
      | ok ws' =>
        change Except.ok ((name, w) :: ws') = Except.ok ws ↔ _
        simp [hname, eq_comm]
  · rename_i hname
    exact iff_of_false (by rintro ⟨⟩) (by simp [hname])

/-- The names of entries are identifiers, and have the words that their values stand for. -/
theorem lookup_readEntries {es : List (String × Value)} {ws : List (String × Word)}
    (h : readEntries es = .ok ws) (name : String) :
    ws.lookup name = (es.lookup name).bind (fun v => v.toWord.toOption) ∧
      (ws.lookup name ≠ none → isIdentifier name = true) := by
  induction es generalizing ws with
  | nil =>
    cases h
    exact ⟨rfl, fun hne => absurd rfl hne⟩
  | cons p es ih =>
    obtain ⟨n, v⟩ := p
    obtain ⟨w, ws', hn, hw, hws', rfl⟩ := readEntries_cons_eq_ok_iff.1 h
    rw [List.lookup_cons, List.lookup_cons]
    cases heq : name == n with
    | true =>
      obtain rfl := beq_iff_eq.1 heq
      dsimp only
      rw [Option.bind_some, hw]
      exact ⟨rfl, fun _ => hn⟩
    | false => exact ih hws'

/-- Entries with identifiers for names and with values that stand for words are accepted. -/
theorem exists_readEntries {es : List (String × Value)}
    (h : ∀ p ∈ es, isIdentifier p.1 = true ∧ ∃ w, p.2.toWord = .ok w) :
    ∃ ws, readEntries es = .ok ws := by
  induction es with
  | nil => exact ⟨[], rfl⟩
  | cons p es ih =>
    obtain ⟨⟨hname, w, hw⟩, htail⟩ := List.forall_mem_cons.1 h
    obtain ⟨ws, hws⟩ := ih htail
    exact ⟨_, readEntries_cons_eq_ok_iff.2 ⟨w, ws, hname, hw, hws, rfl⟩⟩

/-- **What comes of a field.** -/
theorem find?_readField {field : Option Value} {t : Table Word} (h : readField field = .ok t)
    (name : String) : t.find? name = configured? field name ∧
      (t.find? name ≠ none → isIdentifier name = true) := by
  rcases field with - | v
  · cases h
    exact ⟨rfl, fun hne => absurd rfl hne⟩
  · cases v with
    | table t' =>
      cases hws : readEntries t'.entries with
      | error fault =>
        rw [readField, Value.toWords, hws] at h
        cases h
      | ok ws =>
        rw [readField, Value.toWords, hws] at h
        cases h
        exact lookup_readEntries hws name
    | _ => cases h

namespace Bindings

/-- **What comes of two fields.** -/
theorem lookup_ofValues {fields : Scope → Option Value} {b : Bindings}
    (h : ofValues (fields .register) (fields .symbol) = .ok b) (q : Query) :
    b.lookup q = configured? (fields q.scope) q.name ∧
      (b.lookup q ≠ none → isIdentifier q.name = true) := by
  unfold ofValues at h
  split at h
  · rename_i r s hr hs
    cases h
    obtain ⟨scope, name⟩ := q
    cases scope with
    | register => exact find?_readField hr name
    | symbol => exact find?_readField hs name
  · cases h

/-- The names of a scope are those that something is bound to there. -/
theorem mem_names_iff {b : Bindings} {scope : Scope} {name : String} :
    name ∈ (b.table scope).names ↔ b.lookup ⟨scope, name⟩ ≠ none := by
  rw [lookup, ne_eq, Table.find?_eq_none_iff, not_not]

end Bindings

/-! ### Names in expressions -/

/-- A text that the lexer takes for one name, from its first character to its last. -/
def IsName (text : String) : Prop :=
  ∃ pos stop, tokenize text = .ok [⟨.ident text, pos⟩, ⟨.eof, stop⟩]

theorem IsName.isIdentifier {text : String} (h : IsName text) : isIdentifier text = true := by
  obtain ⟨pos, stop, htokens⟩ := h
  have hfeed : (Cursor.start text).feed = ⟨[⟨.ident text, pos⟩], .ok stop⟩ :=
    tokenize_eq_ok_iff.1 htokens
  refine @Cursor.isIdentifier_of_mem_feed 0 text.toList _ ?_
  rw [← Cursor.start, hfeed]
  exact List.mem_singleton_self _

/-- **What a name means** under bindings, if `last` is what was said last about names. -/
structure Named (last : Query → Option Word) (b : Bindings) (name : String) : Prop where
  /-- The name is read as a bare name, -/
  parse_bare : parse name = .ok (.atom (.bare name))
  /-- and with a scope as an identifier of that scope. -/
  parse_qualified : ∀ scope : Scope,
    parse (scope.keyword ++ "::" ++ name) = .ok (.atom (.qualified scope name))
  /-- In a scope it has the last word there, if there is any. -/
  eval_qualified : ∀ scope, ((Expr.atom (.qualified scope name)).eval b.env).outcome =
    match last ⟨scope, name⟩ with
    | some v => .ok v
    | none => .error (.unknownQualified name)
  /-- Bare it has a word, that of the register if there is one, and that of the symbol
  otherwise. -/
  eval_bare : ∃ v, (last ⟨.register, name⟩).or (last ⟨.symbol, name⟩) = some v ∧
    ((Expr.atom (.bare name)).eval b.env).outcome = .ok v

section Named

variable {last : Query → Option Word} {b : Bindings} {name : String}

/-- What comes of a question to bindings. -/
theorem Bindings.outcome_resolve (h : ∀ q, b.lookup q = last q) (q : Query)
    (otherwise : Run Word) : (Run.resolve b.env q otherwise).outcome =
      match last q with
      | some v => .ok v
      | none => otherwise.outcome := by
  have henv : b.env q = (last q).map fun v => (v.toNat : ℤ) := by
    rw [env, h]
    rfl
  unfold Run.resolve Run.ask Run.andThen
  rw [henv]
  cases last q with
  | none => rfl
  | some v => exact congrArg Except.ok (Atom.wrap_toNat v)

theorem Expr.eval_atom (env : Env) (a : Atom) : (Expr.atom a).eval env = a.eval env :=
  evalWithin_eq_meaning env (show 0 < maxOperandDepth by decide)

/-- **Identifiers that are bound have their names as meaning.** -/
theorem Named.of_isIdentifier (hname : isIdentifier name = true) (h : ∀ q, b.lookup q = last q)
    (hbound : ∃ scope, b.lookup ⟨scope, name⟩ ≠ none) : Named last b name where
  parse_bare := CutInto.parse_atom (CutInto.atom (a := .bare name) hname Ends.nil)
  parse_qualified scope :=
    CutInto.parse_atom (CutInto.atom (a := .qualified scope name) hname Ends.nil)
  eval_qualified scope := by
    rw [Expr.eval_atom, Atom.eval, Bindings.outcome_resolve h]
    rfl
  eval_bare := by
    have hsome : (last ⟨.register, name⟩).or (last ⟨.symbol, name⟩) ≠ none := by
      rw [ne_eq, Option.or_eq_none_iff, ← h, ← h]
      rintro ⟨hregister, hsymbol⟩
      obtain ⟨scope, hscope⟩ := hbound
      cases scope with
      | register => exact hscope hregister
      | symbol => exact hscope hsymbol
    obtain ⟨v, hv⟩ := Option.ne_none_iff_exists'.1 hsome
    refine ⟨v, hv, ?_⟩
    rw [Expr.eval_atom, Atom.eval, Bindings.outcome_resolve h, Bindings.outcome_resolve h]
    cases hregister : last ⟨.register, name⟩ with
    | some w =>
      rw [hregister, Option.some_or] at hv
      exact congrArg Except.ok (Option.some.inj hv)
    | none =>
      rw [hregister, Option.none_or] at hv
      rw [hv]

end Named

/-! ### Names of contexts -/

/-- **What is said last about names**, by assignments, or else by the two fields of a context. -/
def lastWord (fields : Scope → Option Value) (overrides : List (Scope × String)) :
    Query → Option Word := fun q =>
  (Assignment.lastGiven? overrides q).or (configured? (fields q.scope) q.name)

section Context

variable {fields : Scope → Option Value} {overrides : List (Scope × String)} {b₀ b : Bindings}

/-- What is bound to a name is what was said last about it, -/
theorem Bindings.lookup_eq_lastWord
    (hfields : ofValues (fields .register) (fields .symbol) = .ok b₀)
    (hassign : b₀.assignAll overrides = .ok b) (q : Query) :
    b.lookup q = lastWord fields overrides q := by
  obtain ⟨b', hb', hlookup⟩ := exists_assignAll (fault?_of_assignAll hassign) b₀
  cases hassign.symm.trans hb'
  rw [hlookup, (lookup_ofValues hfields q).1, lastWord]

/-- and every name about which anything was said is an identifier. -/
theorem isIdentifier_of_lastWord (hfields : Bindings.ofValues (fields .register) (fields .symbol) =
    .ok b₀) {q : Query} (h : lastWord fields overrides q ≠ none) : isIdentifier q.name = true := by
  cases hgiven : Assignment.lastGiven? overrides q with
  | some v => exact Assignment.isIdentifier_of_lastGiven? hgiven
  | none =>
    obtain ⟨hconfigured, hname⟩ := Bindings.lookup_ofValues hfields q
    rw [lastWord, hgiven, Option.none_or, ← hconfigured] at h
    exact hname h

/-- Tables with names for names are accepted. -/
theorem Bindings.exists_ofValues {tables : Scope → Table Value}
    (h : ∀ scope, ∀ e ∈ (tables scope).entries, IsName e.1 ∧ ∃ w, e.2.toWord = .ok w) :
    ∃ b, ofValues (some (.table (tables .register))) (some (.table (tables .symbol))) = .ok b := by
  have hfield : ∀ scope, ∃ t, readField (some (.table (tables scope))) = .ok t := fun scope => by
    obtain ⟨ws, hws⟩ := exists_readEntries fun e he => (h scope e he).imp_left IsName.isIdentifier
    exact ⟨⟨ws⟩, by rw [readField, Value.toWords, hws]; rfl⟩
  obtain ⟨r, hr⟩ := hfield .register
  obtain ⟨s, hs⟩ := hfield .symbol
  exact ⟨⟨r, s⟩, by rw [ofValues, hr, hs]⟩

end Context

/-- **What can be bound can be named, and nothing else.**

* If the two tables of a context are accepted, and assignments after them, then every name is bound
  to what was said last about it, and every name that is bound to something can be read, with a
  scope and without, and means that.
* Tables are accepted if their names are texts that the lexer takes for one name, and their values
  stand for words; and an assignment to such a name is one, unless its value is bad. -/
theorem names_agree :
    (∀ (fields : Scope → Option Value) (overrides : List (Scope × String)) (b₀ b : Bindings),
      Bindings.ofValues (fields .register) (fields .symbol) = .ok b₀ →
      b₀.assignAll overrides = .ok b →
        (∀ q, b.lookup q = lastWord fields overrides q) ∧
          ∀ scope, ∀ name ∈ (b.table scope).names, Named (lastWord fields overrides) b name) ∧
    (∀ tables : Scope → Table Value,
      (∀ scope, ∀ e ∈ (tables scope).entries, IsName e.1 ∧ ∃ w, e.2.toWord = .ok w) →
        ∃ b, Bindings.ofValues (some (.table (tables .register)))
          (some (.table (tables .symbol))) = .ok b) ∧
    ∀ name, IsName name → ∀ spelling, Assignment.parse (name ++ "=" ++ spelling) =
      match (Value.text spelling).toWord with
      | .ok value => .ok ⟨name, value⟩
      | .error fault => .error (.badValue name fault) := by
  refine ⟨?_, fun tables => Bindings.exists_ofValues,
    fun name hname spelling => Assignment.parse_of_isIdentifier hname.isIdentifier spelling⟩
  intro fields overrides b₀ b hfields hassign
  have hlast := Bindings.lookup_eq_lastWord hfields hassign
  refine ⟨hlast, fun scope name hmem => ?_⟩
  have hbound : b.lookup ⟨scope, name⟩ ≠ none := Bindings.mem_names_iff.1 hmem
  have hname : isIdentifier name = true := by
    rw [hlast] at hbound
    exact isIdentifier_of_lastWord hfields hbound
  exact .of_isIdentifier hname hlast ⟨scope, hbound⟩

/-- The words that select scopes are names too. What is assigned comes after the tables, and the
register `x` before the symbol. -/
theorem names_agree_of_keywords :
    let tables : Scope → Table Value
      | .register => ⟨[("reg", .text " 0x10"), ("x", .integer 5)]⟩
      | .symbol => ⟨[("x", .integer 7)]⟩
    let overrides : List (Scope × String) := [(.symbol, " reg = 3 "), (.register, "x=6")]
    ∃ b₀ b, Bindings.ofValues (some (.table (tables .register)))
        (some (.table (tables .symbol))) = .ok b₀ ∧ b₀.assignAll overrides = .ok b ∧
      parse "reg::reg" = .ok (.atom (.qualified .register "reg")) ∧
      ((Expr.atom (.qualified .symbol "reg")).eval b.env).outcome = .ok 3 ∧
      ((Expr.atom (.bare "x")).eval b.env).outcome = .ok 6 := by
  intro tables overrides
  obtain ⟨hbound, htables, -⟩ := names_agree
  have hnames : ∀ scope, ∀ e ∈ (tables scope).entries, IsName e.1 ∧ ∃ w, e.2.toWord = .ok w := by
    have hreg : IsName "reg" := ⟨0, 3, by decide +kernel⟩
    have hx : IsName "x" := ⟨0, 1, by decide +kernel⟩
    intro scope
    cases scope with
    | register =>
      exact List.forall_mem_cons.2 ⟨⟨hreg, 16, by decide +kernel⟩,
        List.forall_mem_singleton.2 ⟨hx, 5, by decide +kernel⟩⟩
    | symbol => exact List.forall_mem_singleton.2 ⟨hx, 7, by decide +kernel⟩
  have hgood : ∀ o ∈ overrides, Assignment.fault? o.2 = none := by decide +kernel
  obtain ⟨b₀, hb₀⟩ := htables tables hnames
  obtain ⟨b, hb, -⟩ := Bindings.exists_assignAll hgood b₀
  obtain ⟨hlast, hnamed⟩ := hbound (fun scope => some (.table (tables scope))) overrides b₀ b hb₀ hb
  have hreg : "reg" ∈ (b.table .register).names := by
    rw [Bindings.mem_names_iff, hlast]
    decide +kernel
  have hx : "x" ∈ (b.table .symbol).names := by
    rw [Bindings.mem_names_iff, hlast]
    decide +kernel
  refine ⟨b₀, b, hb₀, hb, (hnamed _ _ hreg).parse_qualified .register, ?_, ?_⟩
  · rw [(hnamed _ _ hreg).eval_qualified .symbol]
    decide +kernel
  · obtain ⟨v, hv, heval⟩ := (hnamed _ _ hx).eval_bare
    have hsix : v = 6 := Option.some.inj (hv.symm.trans (by decide +kernel))
    rw [heval, hsix]

end Readout
