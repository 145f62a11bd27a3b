import Readout.Proofs.Context.Literals

/-!
# Tables are accepted as a whole, or refused at their first bad entry

Which entries of a table are good is settled by their names and values alone (`Readout.Admits`), and
so is what is said about a bad one (`Readout.Refuses`): the name comes before the value, and of a
value first its kind, then its spelling and in the end its size.

A table is read up to its first bad entry (`Readout.FirstFault`), and what is read of one table does
not depend on the other (`Readout.Bindings.ofValues_tables`). So a context is made if all entries
of both tables are good; otherwise it is refused with one message for each table that has a bad
entry.
-/

namespace Readout

open Numeral Text

/-! ### Entries -/

/-- **The integer that a value is taken for.** -/
inductive Value.TakenFor : Value → ℤ → Prop
  /-- An integer is taken for itself, -/
  | integer {n : ℤ} : TakenFor (.integer n) n
  /-- and a text for the integer that it spells. -/
  | text {s : String} {n : ℤ} (hread : readInteger? (trim s) = some n) : TakenFor (.text s) n

/-- **A good entry** and its word: the name is an identifier, and the value is taken for the
word. -/
structure Admits (e : String × Value) (w : Word) : Prop where
  /-- The name is an identifier. -/
  name : isIdentifier e.1 = true
  /-- The value is taken for the word. -/
  value : e.2.TakenFor w.toNat

/-- **What is said about a bad value.** -/
inductive Value.Refused : Value → String → Prop
  /-- Truth values are no integers. -/
  | boolean {b : Bool} : Refused (.boolean b) "booleans are not register values"
  /-- Some texts spell none. -/
  | text {s : String} (hread : readInteger? (trim s) = none) :
    Refused (.text s) ("not an integer literal: " ++ quoted s)
  /-- Values of other kinds are no integers either. -/
  | kind {v : Value} (hboolean : ∀ b, v ≠ .boolean b) (hinteger : ∀ n, v ≠ .integer n)
    (htext : ∀ s, v ≠ .text s) : Refused v ("expected an integer, got " ++ v.kind)
  /-- Some integers are no words. -/
  | range {v : Value} {n : ℤ} (hn : v.TakenFor n) (hrange : ¬(0 ≤ n ∧ n < Word.count)) :
    Refused v (withDecimal n fun digits => "value " ++ digits ++ " does not fit in 64 bits")

/-- **What is said about a bad entry.** -/
inductive Refuses : String × Value → String → Prop
  /-- The name comes first. -/
  | name {e : String × Value} (hname : isIdentifier e.1 = false) :
    Refuses e ("invalid identifier name: " ++ quoted e.1)
  /-- Then comes the value. -/
  | value {e : String × Value} {message : String} (hname : isIdentifier e.1 = true)
    (hvalue : e.2.Refused message) : Refuses e message

/-- What is said about a fault, if there is any. -/
def EntryFault.said? {α : Type} : Except EntryFault α → Option String
  | .ok _ => none
  | .error fault => some fault.message

theorem Value.toInt_eq_ok_iff {v : Value} {n : ℤ} : v.toInt = .ok n ↔ v.TakenFor n := by
  constructor
  · intro h
    cases v with
    | integer m =>
      cases h
      exact .integer
    | text s =>
      rw [toInt] at h
      cases hread : readInteger? (trim s) with
      | none =>
        rw [hread] at h
        cases h
      | some m =>
        rw [hread] at h
        cases h
        exact .text hread
    | _ => cases h
  · rintro (_ | hread)
    · rfl
    · rw [toInt, hread]

/-- Values of kinds without integers are refused for their kind. -/
theorem Value.toInt_eq_notAnInteger {v : Value} (hboolean : ∀ b, v ≠ .boolean b)
    (hinteger : ∀ n, v ≠ .integer n) (htext : ∀ s, v ≠ .text s) :
    v.toInt = .error (.notAnInteger v.kind) := by
  cases v with
  | boolean b => exact absurd rfl (hboolean b)
  | integer n => exact absurd rfl (hinteger n)
  | text s => exact absurd rfl (htext s)
  | _ => rfl

/-- The words are the integers that fit. -/
theorem Word.fits_and_wrap_eq_iff {n : ℤ} {w : Word} :
    fits n = true ∧ wrap n = w ↔ n = w.toNat := by
  constructor
  · rintro ⟨hfits, rfl⟩
    obtain ⟨hnonneg, hlt⟩ := fits_iff.1 hfits
    obtain ⟨k, rfl⟩ := Int.eq_ofNat_of_zero_le hnonneg
    have hk : k < count := Int.ofNat_lt.1 hlt
    rw [wrap_natCast hk, UInt64.toNat_ofNat_of_lt' hk]
  · rintro rfl
    exact ⟨fits_iff.2 ⟨Int.natCast_nonneg _, Int.ofNat_lt.2 w.toNat_lt⟩, Atom.wrap_toNat w⟩

section Values

variable {v : Value}

theorem Value.toWord_of_ok {n : ℤ} (h : v.toInt = .ok n) :
    v.toWord = if Word.fits n then .ok (Word.wrap n) else .error (.outOfRange n) := by
  rw [toWord, h]
  rfl

theorem Value.toWord_of_error {fault : EntryFault} (h : v.toInt = .error fault) :
    v.toWord = .error fault := by
  rw [toWord, h]
  rfl

/-- **A value stands for the word that it is taken for**, -/
theorem Value.toWord_eq_ok_iff {w : Word} : v.toWord = .ok w ↔ v.TakenFor w.toNat := by
  rw [← toInt_eq_ok_iff]
  cases h : v.toInt with
  | ok n =>
    rw [toWord_of_ok h, Except.ok.injEq, ← Word.fits_and_wrap_eq_iff]
    cases Word.fits n <;> simp
  | error fault =>
    rw [toWord_of_error h]
    exact iff_of_false (by rintro ⟨⟩) (by rintro ⟨⟩)

/-- **and about any other value something is said.** -/
theorem Value.said?_toWord_eq_some_iff {message : String} :
    EntryFault.said? v.toWord = some message ↔ v.Refused message := by
  constructor
  · intro hsaid
    cases h : v.toInt with
    | ok n =>
      rw [toWord_of_ok h] at hsaid
      split at hsaid
      · cases hsaid
      · rename_i hfits
        obtain rfl := Option.some.inj hsaid
        exact .range (toInt_eq_ok_iff.1 h) (mt Word.fits_iff.2 hfits)
    | error fault =>
      rw [toWord_of_error h] at hsaid
      cases hsaid
      cases v with
      | boolean b =>
        cases h
        exact .boolean
      | integer n => cases h
      | text s =>
        rw [toInt] at h
        cases hread : readInteger? (trim s) with
        | some n =>
          rw [hread] at h
          cases h
        | none =>
          rw [hread] at h
          cases h
          exact .text hread
      | _ =>
        cases h
        exact .kind (by rintro _ ⟨⟩) (by rintro _ ⟨⟩) (by rintro _ ⟨⟩)
  · intro h
    cases h with
    | boolean => rfl
    | text hread =>
      rw [toWord_of_error (by rw [toInt, hread])]
      rfl
    | kind hboolean hinteger htext =>
      rw [toWord_of_error (toInt_eq_notAnInteger hboolean hinteger htext)]
      rfl
    | range hn hrange =>
      rw [toWord_of_ok (toInt_eq_ok_iff.2 hn), if_neg (mt Word.fits_iff.1 hrange)]
      rfl

end Values

section Entries

variable {e : String × Value} {es : List (String × Value)}

/-- The word of an entry is the one that is admitted, -/
theorem readEntry_eq_ok_iff {w : Word} : readEntry e.1 e.2 = .ok w ↔ Admits e w := by
  rw [readEntry]
  split
  · rename_i hname
    rw [Value.toWord_eq_ok_iff]
    exact ⟨fun hvalue => ⟨hname, hvalue⟩, Admits.value⟩
  · rename_i hname
    exact iff_of_false (by rintro ⟨⟩) fun h => hname h.name

/-- and about an entry without one is said what has to be said. -/
theorem said?_readEntry_eq_some_iff {message : String} :
    EntryFault.said? (readEntry e.1 e.2) = some message ↔ Refuses e message := by
  rw [readEntry]
  split
  · rename_i hname
    rw [Value.said?_toWord_eq_some_iff]
    refine ⟨.value hname, fun h => ?_⟩
    cases h with
    | name hnot => exact absurd (hname.symm.trans hnot) (by decide)
    | value _ hvalue => exact hvalue
  · rename_i hname
    constructor
    · rintro ⟨⟩
      exact .name (Bool.eq_false_iff.2 hname)
    · intro h
      cases h with
      | name _ => rfl
      | value hnot _ => exact absurd hnot hname

/-! ### Tables -/

/-- **The first bad entry of a table**, if it has any, and what is said about it. -/
inductive FirstFault : List (String × Value) → Option String → Prop
  /-- Without entries there is none. -/
  | nil : FirstFault [] none
  /-- It is the first entry, and those behind it may be anything. -/
  | here {e : String × Value} {es : List (String × Value)} {message : String}
    (he : Refuses e message) : FirstFault (e :: es) (some message)
  /-- The first entry is good, and it is that of the others. -/
  | later {e : String × Value} {es : List (String × Value)} {w : Word} {message? : Option String}
    (he : Admits e w) (hes : FirstFault es message?) : FirstFault (e :: es) message?

/-- **The words of a table**: the names are the same and in the same order, and each has the word
that its entry admits. -/
def Table.Holds (t : Table Value) (words : Table Word) : Prop :=
  List.Forall₂ (fun e e' => e'.1 = e.1 ∧ Admits e e'.2) t.entries words.entries

theorem readEntries_eq_ok_iff {ws : List (String × Word)} : readEntries es = .ok ws ↔
    List.Forall₂ (fun e e' => e'.1 = e.1 ∧ Admits e e'.2) es ws := by
  induction es generalizing ws with
  | nil => rw [List.forall₂_nil_left_iff, readEntries, Except.ok.injEq, eq_comm]
  | cons e es ih =>
    rw [readEntries_cons_eq_ok_iff, List.forall₂_cons_left_iff]
    constructor
    · rintro ⟨w, ws', hname, hw, hws', rfl⟩
      exact ⟨_, ws', ⟨rfl, hname, Value.toWord_eq_ok_iff.1 hw⟩, ih.1 hws', rfl⟩
    · rintro ⟨⟨_, w⟩, ws', ⟨rfl, hname, hvalue⟩, hws', rfl⟩
      exact ⟨w, ws', hname, Value.toWord_eq_ok_iff.2 hvalue, ih.2 hws', rfl⟩

theorem said?_readEntries_cons : EntryFault.said? (readEntries (e :: es)) =
    (EntryFault.said? (readEntry e.1 e.2)).or (EntryFault.said? (readEntries es)) := by
  rw [readEntries]
  cases readEntry e.1 e.2 with
  | error fault => rfl
  | ok w => cases readEntries es <;> rfl

/-- **What is said about a table is what is said about its first bad entry.** -/
theorem firstFault_iff {message? : Option String} :
    FirstFault es message? ↔ EntryFault.said? (readEntries es) = message? := by
  induction es generalizing message? with
  | nil =>
    constructor
    · rintro ⟨⟩
      rfl
    · rintro rfl
      exact .nil
  | cons e es ih =>
    rw [said?_readEntries_cons]
    constructor
    · rintro (_ | he | ⟨he, hes⟩)
      · rw [said?_readEntry_eq_some_iff.2 he, Option.some_or]
      · rw [readEntry_eq_ok_iff.2 he, EntryFault.said?, Option.none_or]
        exact ih.1 hes
    · rintro rfl
      cases hentry : readEntry e.1 e.2 with
      | error fault =>
        exact .here (said?_readEntry_eq_some_iff.1 (by rw [hentry]; rfl))
      | ok w => exact .later (readEntry_eq_ok_iff.1 hentry) (ih.2 rfl)

/-- Entries have words if all of them are good. -/
theorem exists_readEntries_iff : (∃ ws, readEntries es = .ok ws) ↔ ∀ e ∈ es, ∃ w, Admits e w := by
  constructor
  · rintro ⟨ws, hws⟩
    have hall := readEntries_eq_ok_iff.1 hws
    clear hws
    induction hall with
    | nil => exact List.forall_mem_nil _
    | cons he _ ih => exact List.forall_mem_cons.2 ⟨⟨_, he.2⟩, ih⟩
  · intro hgood
    refine exists_readEntries fun e he => ?_
    obtain ⟨w, hw⟩ := hgood e he
    exact ⟨hw.name, w, Value.toWord_eq_ok_iff.2 hw.value⟩

end Entries

/-! ### Fields -/

/-- A table of words as a table of values. -/
def Table.asValues (words : Table Word) : Table Value :=
  words.map fun w => .integer w.toNat

/-- **Words that are read again stay the same.** -/
theorem Table.Holds.asValues {t : Table Value} {words : Table Word} (h : t.Holds words) :
    words.asValues.Holds words := by
  obtain ⟨es⟩ := t
  obtain ⟨ws⟩ := words
  rw [Holds, Table.asValues, map]
  rw [Holds] at h
  dsimp only at h ⊢
  induction h with
  | nil => exact .nil
  | cons he _ ih => exact .cons ⟨rfl, by rw [he.1]; exact he.2.name, .integer⟩ ih

theorem readField_table (t : Table Value) :
    readField (some (.table t)) = (readEntries t.entries).map Table.mk := by
  rw [readField, Value.toWords]
  cases readEntries t.entries <;> rfl

theorem readField_table_eq_ok_iff {t : Table Value} {words : Table Word} :
    readField (some (.table t)) = .ok words ↔ t.Holds words := by
  rw [Table.Holds, ← readEntries_eq_ok_iff, readField_table]
  cases readEntries t.entries with
  | error fault => exact iff_of_false (by rintro ⟨⟩) (by rintro ⟨⟩)
  | ok ws =>
    constructor
    · rintro ⟨⟩
      rfl
    · rintro ⟨⟩
      rfl

theorem said?_readField_table (t : Table Value) :
    EntryFault.said? (readField (some (.table t))) = EntryFault.said? (readEntries t.entries) := by
  rw [readField_table]
  cases readEntries t.entries <;> rfl

/-- What a rejection says about which field. -/
def Rejection.said (r : Rejection) : String × String :=
  (r.field, r.reason.message)

/-- **The report on a field**, if something is said about its table. -/
def reportOn (field : String) (message? : Option String) : List (String × String) :=
  message?.toList.map fun message => (field, "Value error, " ++ message)

theorem map_said_rejectionOf (field : String) (o : Except EntryFault (Table Word)) :
    (rejectionOf field o).map Rejection.said = reportOn field (EntryFault.said? o) := by
  cases o <;> rfl

/-! ### Contexts -/

namespace Bindings

variable {registers symbols : Option Value} {b : Bindings}

theorem ofValues_eq_ok_iff : ofValues registers symbols = .ok b ↔
    readField registers = .ok b.registers ∧ readField symbols = .ok b.symbols := by
  obtain ⟨r, s⟩ := b
  rw [ofValues]
  cases readField registers with
  | error fault => exact iff_of_false (by rintro ⟨⟩) (by rintro ⟨⟨⟩, -⟩)
  | ok r' =>
    cases readField symbols with
    | error fault => exact iff_of_false (by rintro ⟨⟩) (by rintro ⟨-, ⟨⟩⟩)
    | ok s' => simp

/-- A context is refused if something is said about one of the fields. -/
theorem ofValues_eq_error_iff {rejections : List Rejection} :
    ofValues registers symbols = .error rejections ↔
      (EntryFault.said? (readField registers) ≠ none ∨
        EntryFault.said? (readField symbols) ≠ none) ∧
      rejections = rejectionOf "registers" (readField registers) ++
        rejectionOf "symbols" (readField symbols) := by
  rw [ofValues]
  cases readField registers <;> cases readField symbols <;>
    simp [EntryFault.said?, eq_comm]

/-- **Tables are accepted as a whole, or refused at their first bad entry.** Take any two tables.

* They make a context if and only if all entries of both are good: every name is an identifier, and
  every value is an integer that is a word, or a text that spells one.
* Then the context has their names, in the same order, each with the word of its value; and if the
  words are put in the place of the values, then the same context is made.
* Otherwise there is one rejection for each table that has a bad entry, the registers before the
  symbols, with what is said about the first bad entry of that table. -/
theorem ofValues_tables (r s : Table Value) :
    ((∃ b, ofValues (some (.table r)) (some (.table s)) = .ok b) ↔
      ∀ e ∈ r.entries ++ s.entries, ∃ w, Admits e w) ∧
    (∀ b, ofValues (some (.table r)) (some (.table s)) = .ok b →
      r.Holds b.registers ∧ s.Holds b.symbols ∧
        ofValues (some (.table b.registers.asValues)) (some (.table b.symbols.asValues)) = .ok b) ∧
    ∀ reports, (∃ rejections, ofValues (some (.table r)) (some (.table s)) = .error rejections ∧
        rejections.map Rejection.said = reports) ↔
      ∃ mr ms, FirstFault r.entries mr ∧ FirstFault s.entries ms ∧ (mr ≠ none ∨ ms ≠ none) ∧
        reports = reportOn "registers" mr ++ reportOn "symbols" ms := by
  refine ⟨?_, fun b h => ?_, fun reports => ?_⟩
  · rw [List.forall_mem_append, ← exists_readEntries_iff, ← exists_readEntries_iff]
    constructor
    · rintro ⟨b, hb⟩
      obtain ⟨hr, hs⟩ := ofValues_eq_ok_iff.1 hb
      exact ⟨⟨_, readEntries_eq_ok_iff.2 (readField_table_eq_ok_iff.1 hr)⟩,
        ⟨_, readEntries_eq_ok_iff.2 (readField_table_eq_ok_iff.1 hs)⟩⟩
    · rintro ⟨⟨ws, hr⟩, ws', hs⟩
      exact ⟨⟨⟨ws⟩, ⟨ws'⟩⟩, ofValues_eq_ok_iff.2 ⟨by rw [readField_table, hr]; rfl,
        by rw [readField_table, hs]; rfl⟩⟩
  · obtain ⟨hr, hs⟩ := ofValues_eq_ok_iff.1 h
    rw [readField_table_eq_ok_iff] at hr hs
    exact ⟨hr, hs, ofValues_eq_ok_iff.2
      ⟨readField_table_eq_ok_iff.2 hr.asValues, readField_table_eq_ok_iff.2 hs.asValues⟩⟩
  · simp only [ofValues_eq_error_iff, firstFault_iff, said?_readField_table]
    constructor
    · rintro ⟨_, ⟨hbad, rfl⟩, rfl⟩
      refine ⟨_, _, rfl, rfl, hbad, ?_⟩
      rw [List.map_append, map_said_rejectionOf, map_said_rejectionOf, said?_readField_table,
        said?_readField_table]
    · rintro ⟨_, _, rfl, rfl, hbad, rfl⟩
      refine ⟨_, ⟨hbad, rfl⟩, ?_⟩
      rw [List.map_append, map_said_rejectionOf, map_said_rejectionOf, said?_readField_table,
        said?_readField_table]

/-- Both tables have a bad entry, and behind that of the registers stands another one. -/
theorem ofValues_tables_of_faults :
    let registers : Table Value := ⟨[("pc", .integer 5), ("sp", .boolean true), ("1x", .null)]⟩
    let symbols : Table Value := ⟨[("9", .float)]⟩
    ∃ rejections, ofValues (some (.table registers)) (some (.table symbols)) = .error rejections ∧
      rejections.map Rejection.said =
        [("registers", "Value error, booleans are not register values"),
          ("symbols", "Value error, invalid identifier name: '9'")] := by
  intro registers symbols
  have hpc : Admits ("pc", .integer 5) 5 := ⟨by decide, .integer⟩
  have hregisters : FirstFault registers.entries (some "booleans are not register values") :=
    .later hpc (.here (.value (by decide) .boolean))
  have hsymbols : FirstFault symbols.entries (some "invalid identifier name: '9'") :=
    .here (.name (by decide))
  exact ((ofValues_tables registers symbols).2.2 _).2
    ⟨_, _, hregisters, hsymbols, .inl (Option.some_ne_none _), rfl⟩

end Bindings

end Readout
