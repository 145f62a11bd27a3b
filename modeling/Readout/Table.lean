/-!
# Tables in order of entry

A table gives values to names and remembers the order in which the names were
first entered: entering a name again changes its value and keeps its place.
Contexts print their tables in this order.

`Readout.Table.find?_insert` is the law of the store: after an entry the name
has the new value, and every other name has the value it had.
-/

namespace Readout

/-- What has no value in a list of pairs stands in none of them. -/
theorem lookup_eq_none_iff_not_mem {α β : Type} [BEq α] [LawfulBEq α] {es : List (α × β)} {a : α} :
    es.lookup a = none ↔ a ∉ es.map Prod.fst := by
  rw [List.lookup_eq_none_iff, List.mem_map]
  constructor
  · rintro h ⟨e, he, rfl⟩
    simpa using h e he
  · intro h e he
    simpa using fun heq => h ⟨e, he, heq.symm⟩

/-- **A table**: names with their values, in order of first entry. -/
structure Table (α : Type) where
  /-- The entries, each name once. -/
  entries : List (String × α)

namespace Table

variable {α β : Type}

/-- The table without entries. -/
def empty : Table α := ⟨[]⟩

instance : Inhabited (Table α) := ⟨empty⟩

/-- Enters a name in a list of entries. -/
def insertEntry (name : String) (value : α) : List (String × α) → List (String × α)
  | [] => [(name, value)]
  | (n, v) :: rest => if n = name then (n, value) :: rest else (n, v) :: insertEntry name value rest

/-- Gives a name a value, in its old place if it has one and at the end
otherwise. -/
def insert (t : Table α) (name : String) (value : α) : Table α :=
  ⟨insertEntry name value t.entries⟩

/-- The value of a name. -/
def find? (t : Table α) (name : String) : Option α :=
  t.entries.lookup name

/-- The names, in order of first entry. -/
def names (t : Table α) : List String :=
  t.entries.map (·.1)

/-- The table that results from entering pairs one after the other. -/
def ofList (pairs : List (String × α)) : Table α :=
  pairs.foldl (fun t p => t.insert p.1 p.2) empty

/-- Changes every value and keeps names and order. -/
def map (f : α → β) (t : Table α) : Table β :=
  ⟨t.entries.map fun p => (p.1, f p.2)⟩

/-- The entries sorted by name, code point by code point. -/
def sorted (t : Table α) : List (String × α) :=
  t.entries.mergeSort fun p q => decide (p.1 ≤ q.1)

theorem lookup_insertEntry (name : String) (value : α) (es : List (String × α)) (n : String) :
    (insertEntry name value es).lookup n = if n = name then some value else es.lookup n := by
  induction es with
  | nil =>
    by_cases h : n = name
    · simp [insertEntry, h]
    · simp [insertEntry, h]
  | cons p rest ih =>
    obtain ⟨m, v⟩ := p
    by_cases hm : m = name
    · subst hm
      by_cases h : n = m
      · simp [insertEntry, h]
      · simp [insertEntry, List.lookup_cons, h, beq_false_of_ne h]
    · by_cases h : n = m
      · subst h
        simp [insertEntry, hm]
      · simp [insertEntry, hm, List.lookup_cons, beq_false_of_ne h, ih]

/-- **The law of the store.** -/
theorem find?_insert (t : Table α) (name : String) (value : α) (n : String) :
    (t.insert name value).find? n = if n = name then some value else t.find? n :=
  lookup_insertEntry name value t.entries n

/-- The names of a table are those that have a value. -/
theorem find?_eq_none_iff {t : Table α} {name : String} :
    t.find? name = none ↔ name ∉ t.names :=
  lookup_eq_none_iff_not_mem

/-- Names have the changed values. -/
theorem find?_map (f : α → β) (t : Table α) (name : String) :
    (t.map f).find? name = (t.find? name).map f := by
  obtain ⟨es⟩ := t
  induction es with
  | nil => rfl
  | cons p rest ih =>
    rw [find?, map, List.map_cons, List.lookup_cons, find?, List.lookup_cons]
    cases name == p.1 with
    | true => rfl
    | false => exact ih

end Table

end Readout
