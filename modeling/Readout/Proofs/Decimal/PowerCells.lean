import Readout.Decimal.PowerUse
import Readout.Proofs.Decimal.Scientific

/-!
# What callers cannot do to a power table

Callers change the numbers that they are given in place, and the table keeps its numbers in the
same memory. Nothing goes wrong as long as nobody holds what the table keeps
(`Readout.PowerCells.Separate`), and everything that a table does keeps it so. The reason is
always the same: what is being worked on is in a cell of its own, which was not there before
(`Readout.PowerCells.Scratch`), and the cells that were there before stay as they are
(`Readout.PowerCells.Extends`).

So the table in memory does what the table of numbers does, step by step
(`Readout.PowerCells.Separate.ask`, `Readout.PowerCells.Agrees`), and the steps of callers do not
reach it (`Readout.PowerCells.Separate.step`). The tables of numbers that can come about in memory
are therefore those that can come about by themselves (`Readout.PowerCells.Reachable.view`), and
these are sound.
-/

namespace Readout

namespace PowerCells

/-! ### Who knows an address -/

/-- An address is kept in the table. -/
def IsKept (s : PowerCells) (a : ℕ) : Prop :=
  ∃ base n, (n, a) ∈ s.addresses base

/-- **What is kept and what is held are apart.** -/
structure Separate (s : PowerCells) : Prop where
  /-- What is kept is in memory. -/
  kept_lt : ∀ a, s.IsKept a → a < s.cells.length
  /-- What is held is in memory. -/
  held_lt : ∀ a ∈ s.held, a < s.cells.length
  /-- Nothing that is held is kept. -/
  apart : ∀ a ∈ s.held, ¬s.IsKept a

/-- **An address of one's own**, which is neither kept nor held. -/
structure Own (s : PowerCells) (a : ℕ) : Prop where
  /-- It is in memory. -/
  lt : a < s.cells.length
  /-- The table does not keep it. -/
  not_kept : ¬s.IsKept a
  /-- No caller holds it. -/
  not_held : a ∉ s.held

/-- **More memory**: nothing changes in the cells that were there before, and none of them is
newly kept or held. -/
structure Extends (s s' : PowerCells) : Prop where
  /-- No cell is given back. -/
  length_le : s.cells.length ≤ s'.cells.length
  /-- The numbers are the same. -/
  read_eq : ∀ a < s.cells.length, s'.read a = s.read a
  /-- What is kept now was kept, or is new. -/
  kept : ∀ a < s.cells.length, s'.IsKept a → s.IsKept a
  /-- Callers hold what they held. -/
  held_eq : s'.held = s.held

variable {s s' s'' : PowerCells} {a b : ℕ}

theorem Extends.refl (s : PowerCells) : s.Extends s :=
  ⟨le_refl _, fun _ _ => rfl, fun _ _ h => h, rfl⟩

theorem Extends.trans (h : s.Extends s') (h' : s'.Extends s'') : s.Extends s'' where
  length_le := h.length_le.trans h'.length_le
  read_eq a ha := (h'.read_eq a (lt_of_lt_of_le ha h.length_le)).trans (h.read_eq a ha)
  kept a ha hkept := h.kept a ha (h'.kept a (lt_of_lt_of_le ha h.length_le) hkept)
  held_eq := h'.held_eq.trans h.held_eq

/-- What is one's own remains so. -/
theorem Own.of_extends (h : s.Own a) (hs : s.Extends s') : s'.Own a where
  lt := lt_of_lt_of_le h.lt hs.length_le
  not_kept hkept := h.not_kept (hs.kept a h.lt hkept)
  not_held := by
    rw [hs.held_eq]
    exact h.not_held

/-- **A number that is being worked on**: its cell is one's own, and is new since some earlier
state. -/
structure Scratch (s s' : PowerCells) (a : ℕ) : Prop where
  /-- The cells of the earlier state are unchanged. -/
  grows : s.Extends s'
  /-- What is kept and what is held are apart. -/
  separate : s'.Separate
  /-- The cell is one's own. -/
  own : s'.Own a
  /-- It was not there in the earlier state. -/
  new : s.cells.length ≤ a

/-- It can be looked at from a still earlier state. -/
theorem Scratch.of_extends (h : s'.Scratch s'' a) (hs : s.Extends s') : s.Scratch s'' a :=
  ⟨hs.trans h.grows, h.separate, h.own, hs.length_le.trans h.new⟩

/-- Other things can be done meanwhile. -/
theorem Scratch.extend (h : s.Scratch s' a) (hs : s'.Extends s'') (hsep : s''.Separate) :
    s.Scratch s'' a :=
  ⟨h.grows.trans hs, hsep, h.own.of_extends hs, h.new⟩

/-! ### The table of numbers -/

theorem find?_view (s : PowerCells) (base : Base) (n : ℕ) :
    s.view.find? base n = (s.find? base n).map s.read := by
  have hlookup : ∀ entries : List (ℕ × ℕ),
      (entries.map fun e => (e.1, s.read e.2)).lookup n = (entries.lookup n).map s.read := by
    intro entries
    induction entries with
    | nil => rfl
    | cons e entries ih =>
      rw [List.map_cons, List.lookup_cons, List.lookup_cons, ih]
      cases n == e.1 <;> rfl
  cases base <;> exact hlookup _

/-- The table of numbers is the same if the kept numbers are. -/
theorem view_eq (htwos : s'.twos = s.twos) (hfives : s'.fives = s.fives) (hhits : s'.hits = s.hits)
    (hmisses : s'.misses = s.misses) (hread : ∀ a, s.IsKept a → s'.read a = s.read a) :
    s'.view = s.view := by
  have hmap : ∀ base, (s.addresses base).map (fun e => (e.1, s'.read e.2)) =
      (s.addresses base).map fun e => (e.1, s.read e.2) := fun base =>
    List.map_congr_left fun e he => by rw [hread e.2 ⟨base, e.1, he⟩]
  unfold view
  rw [htwos, hfives, hhits, hmisses]
  exact congrArg₂ (fun twos fives => (⟨twos, fives, s.hits, s.misses⟩ : PowerTable))
    (hmap .two) (hmap .five)

/-! ### New cells -/

section New

variable (s) (x : Decimal)

theorem read_new : (s.new x).2.read (s.new x).1 = x := by
  simp [new, read]

theorem read_new_of_lt {a : ℕ} (ha : a < s.cells.length) : (s.new x).2.read a = s.read a := by
  simp [new, read, List.getElem?_append_left ha]

theorem extends_new : s.Extends (s.new x).2 where
  length_le := by simp [new]
  read_eq a ha := s.read_new_of_lt x ha
  kept a _ h := h
  held_eq := rfl

end New

theorem Separate.new (h : s.Separate) (x : Decimal) : (s.new x).2.Separate where
  kept_lt a ha := lt_of_lt_of_le (h.kept_lt a ha) (s.extends_new x).length_le
  held_lt a ha := lt_of_lt_of_le (h.held_lt a ha) (s.extends_new x).length_le
  apart := h.apart

/-- A new cell can be worked on. -/
theorem Separate.scratch_new (h : s.Separate) (x : Decimal) :
    s.Scratch (s.new x).2 (s.new x).1 where
  grows := s.extends_new x
  separate := h.new x
  own :=
    { lt := by simp [PowerCells.new]
      not_kept := fun hkept => absurd (h.kept_lt _ hkept) (lt_irrefl _)
      not_held := fun hheld => absurd (h.held_lt _ hheld) (lt_irrefl _) }
  new := le_refl _

theorem Separate.view_new (h : s.Separate) (x : Decimal) : (s.new x).2.view = s.view :=
  view_eq rfl rfl rfl rfl fun a ha => s.read_new_of_lt x (h.kept_lt a ha)

/-! ### Changes in place -/

section InPlace

variable (op : Decimal → Decimal → Decimal)

theorem length_inPlace (s : PowerCells) : (s.inPlace op a b).cells.length = s.cells.length := by
  simp [inPlace]

theorem read_inPlace_self (ha : a < s.cells.length) :
    (s.inPlace op a b).read a = op (s.read a) (s.read b) := by
  simp [inPlace, read, ha]

theorem read_inPlace_of_ne {c : ℕ} (hne : c ≠ a) : (s.inPlace op a b).read c = s.read c := by
  simp [inPlace, read, List.getElem?_set_ne hne.symm]

theorem Separate.inPlace (h : s.Separate) : (s.inPlace op a b).Separate where
  kept_lt c hc := (h.kept_lt c hc).trans_eq (length_inPlace op s).symm
  held_lt c hc := (h.held_lt c hc).trans_eq (length_inPlace op s).symm
  apart := h.apart

theorem Own.inPlace {c : ℕ} (h : s.Own c) : (s.inPlace op a b).Own c :=
  ⟨h.lt.trans_eq (length_inPlace op s).symm, h.not_kept, h.not_held⟩

/-- **Numbers that are not kept can be changed** without any change to the table. -/
theorem view_inPlace (ha : ¬s.IsKept a) : (s.inPlace op a b).view = s.view :=
  view_eq rfl rfl rfl rfl fun _ hc => read_inPlace_of_ne op fun heq => ha (heq ▸ hc)

/-- A number that is being worked on can be changed. -/
theorem Scratch.inPlace (h : s.Scratch s' a) : s.Scratch (s'.inPlace op a b) a where
  grows :=
    { length_le := h.grows.length_le.trans_eq (length_inPlace op s').symm
      read_eq := fun c hc =>
        (read_inPlace_of_ne op (lt_of_lt_of_le hc h.new).ne).trans (h.grows.read_eq c hc)
      kept := h.grows.kept
      held_eq := h.grows.held_eq }
  separate := h.separate.inPlace op
  own := h.own.inPlace op
  new := h.new

end InPlace

/-! ### Changes to the table -/

theorem Extends.hit (h : s.Extends s') : s.Extends s'.hit :=
  ⟨h.length_le, h.read_eq, h.kept, h.held_eq⟩

theorem Separate.hit (h : s.Separate) : s.hit.Separate :=
  ⟨h.kept_lt, h.held_lt, h.apart⟩

section Keep

variable (base : Base) (n : ℕ)

@[simp] theorem cells_keep : (s.keep base n a).cells = s.cells := by
  cases base <;> rfl

@[simp] theorem held_keep : (s.keep base n a).held = s.held := by
  cases base <;> rfl

@[simp] theorem read_keep (c : ℕ) : (s.keep base n a).read c = s.read c := by
  cases base <;> rfl

theorem addresses_keep (base' : Base) : (s.keep base n a).addresses base' =
    if base' = base then (n, a) :: s.addresses base' else s.addresses base' := by
  cases base <;> cases base' <;> rfl

theorem isKept_keep {c : ℕ} : (s.keep base n a).IsKept c ↔ c = a ∨ s.IsKept c := by
  unfold IsKept
  constructor
  · rintro ⟨base', m, hmem⟩
    rw [addresses_keep] at hmem
    split at hmem
    · rcases List.mem_cons.1 hmem with heq | hmem
      · exact Or.inl (Prod.mk.inj heq).2
      · exact Or.inr ⟨base', m, hmem⟩
    · exact Or.inr ⟨base', m, hmem⟩
  · rintro (rfl | ⟨base', m, hmem⟩)
    · refine ⟨base, n, ?_⟩
      rw [addresses_keep, if_pos rfl]
      exact List.mem_cons_self
    · refine ⟨base', m, ?_⟩
      rw [addresses_keep]
      split
      · exact List.mem_cons_of_mem _ hmem
      · exact hmem

theorem view_keep : (s.keep base n a).view = s.view.keep base n (s.read a) := by
  cases base <;> rfl

theorem Separate.keep (h : s.Separate) (ha : s.Own a) : (s.keep base n a).Separate where
  kept_lt c hc := by
    rw [cells_keep]
    rcases (isKept_keep base n).1 hc with rfl | hc
    · exact ha.lt
    · exact h.kept_lt c hc
  held_lt c hc := by
    rw [cells_keep]
    rw [held_keep] at hc
    exact h.held_lt c hc
  apart c hc hkept := by
    rw [held_keep] at hc
    rcases (isKept_keep base n).1 hkept with rfl | hkept
    · exact ha.not_held hc
    · exact h.apart c hc hkept

/-- New cells can be kept. -/
theorem Extends.keep (h : s.Extends s') (ha : s.cells.length ≤ a) :
    s.Extends (s'.keep base n a) where
  length_le := by
    rw [cells_keep]
    exact h.length_le
  read_eq c hc := by
    rw [read_keep]
    exact h.read_eq c hc
  kept c hc hkept := by
    rcases (isKept_keep base n).1 hkept with rfl | hkept
    · omega
    · exact h.kept c hc hkept
  held_eq := by
    rw [held_keep]
    exact h.held_eq

end Keep

/-! ### Look-ups -/

/-- **A power is found**: it is what the table of numbers gives, and nothing that was there
before has changed. -/
structure Found (s : PowerCells) (base : Base) (n : ℕ) (r : ℕ × PowerCells) : Prop where
  /-- Nothing has changed but the table. -/
  grows : s.Extends r.2
  /-- What is kept and what is held are apart. -/
  separate : r.2.Separate
  /-- The power is kept. -/
  kept : r.2.IsKept r.1
  /-- It is what the table of numbers gives. -/
  lookup_view : PowerTable.lookup base n s.view = (r.2.read r.1, r.2.view)

/-- What is found is in the table. -/
theorem isKept_of_find? {base : Base} {n : ℕ} (h : s.find? base n = some a) : s.IsKept a := by
  have hmem : ∀ entries : List (ℕ × ℕ), entries.lookup n = some a → (n, a) ∈ entries := by
    intro entries
    induction entries with
    | nil => exact fun h => by cases h
    | cons e entries ih =>
      intro h
      rw [List.lookup_cons] at h
      split at h
      · rename_i heq
        cases h
        rw [beq_iff_eq.1 heq]
        exact List.mem_cons_self
      · exact List.mem_cons_of_mem _ (ih h)
  exact ⟨base, n, hmem _ h⟩

/-- **A product** is formed in a cell of its own, which is then kept. -/
theorem Found.of_product {base : Base} {n p b : ℕ} {x y : Decimal} (hp : s.Scratch s' p)
    (hx : s'.read p = x) (hy : s'.read b = y)
    (hlookup : PowerTable.lookup base n s.view = (x.mul y, s'.view.keep base n (x.mul y))) :
    s.Found base n (p, (s'.inPlace .mul p b).keep base n p) where
  grows := (hp.inPlace .mul).grows.keep base n hp.new
  separate := (hp.inPlace .mul).separate.keep base n (hp.inPlace .mul).own
  kept := (isKept_keep base n).2 (Or.inl rfl)
  lookup_view := by
    rw [hlookup, view_keep, read_keep, read_inPlace_self _ hp.own.lt,
      view_inPlace _ hp.own.not_kept, hx, hy]

/-- **A look-up finds the power that the table of numbers gives.** -/
theorem Separate.found (h : s.Separate) (base : Base) (n : ℕ) :
    s.Found base n (lookup base n s) := by
  fun_induction lookup base n s with
  | case1 n s a hfind =>
    refine ⟨(Extends.refl s).hit, h.hit, isKept_of_find? hfind, ?_⟩
    rw [PowerTable.lookup, find?_view, hfind]
    rfl
  | case2 n s hfind hle p =>
    have hp : s.Scratch p.2 p.1 := h.scratch_new _
    have hread : p.2.read p.1 = Decimal.ofNat (if n = 1 then base.value else 1) := s.read_new _
    have hview : p.2.view = s.view := h.view_new _
    refine ⟨hp.grows.keep base n hp.new, hp.separate.keep base n hp.own,
      (isKept_keep base n).2 (Or.inl rfl), ?_⟩
    rw [PowerTable.lookup, find?_view, hfind, Option.map_none, view_keep, read_keep, hview, hread]
    dsimp only
    rw [dif_pos hle]
  | case3 n s hfind hle hlow half p ih =>
    have hhalf : s.Found base (n / 2) half := ih h
    have hlt : half.1 < half.2.cells.length := hhalf.separate.kept_lt _ hhalf.kept
    have hp : half.2.Scratch p.2 p.1 := hhalf.separate.scratch_new _
    have hview : p.2.view = half.2.view := hhalf.separate.view_new _
    refine .of_product (hp.of_extends hhalf.grows) (half.2.read_new _)
      (half.2.read_new_of_lt _ hlt) ?_
    rw [PowerTable.lookup, find?_view, hfind, Option.map_none, hview]
    dsimp only
    rw [dif_neg hle, dif_pos hlow, hhalf.lookup_view]
  | case4 n s hfind hle hlow _ _ high p low ih₁ ih₂ =>
    have hhigh : s.Found base (n - lowBit n) high := ih₁ h
    have hp : high.2.Scratch p.2 p.1 := hhigh.separate.scratch_new _
    have hlow' : p.2.Found base (lowBit n) low := ih₂ hp.separate
    -- the second look-up leaves the copy of the first power alone
    have hread : low.2.read p.1 = high.2.read high.1 :=
      (hlow'.grows.read_eq _ hp.own.lt).trans (high.2.read_new _)
    have hview : p.2.view = high.2.view := hhigh.separate.view_new _
    refine .of_product ((hp.of_extends hhigh.grows).extend hlow'.grows hlow'.separate) hread rfl ?_
    rw [PowerTable.lookup, find?_view, hfind, Option.map_none]
    dsimp only
    rw [dif_neg hle, dif_neg hlow, hhigh.lookup_view]
    dsimp only
    rw [← hview, hlow'.lookup_view]

/-- **A power of one's own** is what the table of numbers gives, in a new cell. -/
theorem Separate.power (h : s.Separate) (base : Base) (n : ℕ) :
    s.Scratch (s.power base n).2 (s.power base n).1 ∧ PowerTable.lookup base n s.view =
      ((s.power base n).2.read (s.power base n).1, (s.power base n).2.view) := by
  have hfound := h.found base n
  unfold PowerCells.power
  generalize lookup base n s = found at hfound
  refine ⟨(hfound.separate.scratch_new _).of_extends hfound.grows, ?_⟩
  rw [hfound.lookup_view, copy, found.2.read_new, hfound.separate.view_new]

/-- A number that is being worked on can be multiplied by a power. -/
theorem Scratch.mulPower (h : s.Scratch s' a) (base : Base) (n : ℕ) :
    s.Scratch (s'.mulPower a base n) a ∧
      (s'.mulPower a base n).read a = (s'.read a).mul (PowerTable.lookup base n s'.view).1 ∧
      (s'.mulPower a base n).view = (PowerTable.lookup base n s'.view).2 := by
  obtain ⟨hpower, hlookup⟩ := h.separate.power base n
  have hscratch := h.extend hpower.grows hpower.separate
  unfold PowerCells.mulPower
  rw [hlookup]
  refine ⟨hscratch.inPlace _, ?_, view_inPlace _ hscratch.own.not_kept⟩
  rw [read_inPlace_self _ hscratch.own.lt, hpower.grows.read_eq a h.own.lt]

/-- **Scaling** makes of the number what the table of numbers makes of it. -/
theorem Scratch.scale (h : s.Scratch s' a) (exponent : ℤ) :
    s.Scratch (s'.scale a exponent).2 a ∧ (s'.scale a exponent).1 = (s'.view.scale exponent).2.1 ∧
      (s'.scale a exponent).2.read a = s'.view.scaled (s'.read a) exponent ∧
      (s'.scale a exponent).2.view = (s'.view.scale exponent).2.2 := by
  unfold PowerCells.scale PowerTable.scaled PowerTable.scale
  split
  · obtain ⟨hscratch, hread, hview⟩ := h.mulPower .two exponent.toNat
    exact ⟨hscratch, rfl, hread, hview⟩
  · split
    · obtain ⟨hscratch, hread, hview⟩ := h.mulPower .five (-exponent).toNat
      exact ⟨hscratch, rfl, hread, hview⟩
    · exact ⟨h, rfl, rfl, rfl⟩

/-! ### Answers -/

/-- **A table in memory agrees with the table of numbers**: both refuse a request for the same
reason, and nothing changes; or both answer it. -/
inductive Agrees {ε α β : Type} (s : PowerCells) (P : PowerCells → α → β → Prop) :
    Except ε α × PowerCells → Except ε β × PowerTable → Prop
  /-- Both refuse. -/
  | refused (e : ε) : Agrees s P (.error e, s) (.error e, s.view)
  /-- Both answer. -/
  | answered {s' : PowerCells} {a : α} {b : β} (hgrows : s.Extends s') (hsep : s'.Separate)
    (h : P s' a b) : Agrees s P (.ok a, s') (.ok b, s'.view)

/-- An address of one's own, for a number. -/
def Gives (s : PowerCells) (a : ℕ) (x : Decimal) : Prop :=
  s.Own a ∧ s.read a = x

/-- The same text. -/
def Says (_ : PowerCells) (text text' : String) : Prop :=
  text = text'

theorem Separate.agrees_request (h : s.Separate) (base exponent : ℤ) :
    s.Agrees Gives (s.request base exponent) (s.view.request base exponent) := by
  unfold request PowerTable.request
  cases Base.ofInt? base with
  | none => exact .refused _
  | some b =>
    dsimp only
    by_cases hneg : exponent < 0
    · rw [if_pos hneg, if_pos hneg]
      exact .refused _
    · obtain ⟨hscratch, hlookup⟩ := h.power b exponent.toNat
      rw [if_neg hneg, if_neg hneg, hlookup]
      exact .answered hscratch.grows hscratch.separate ⟨hscratch.own, rfl⟩

theorem Separate.agrees_boundedRequest (h : s.Separate) (base exponent : ℤ) :
    s.Agrees Gives (s.boundedRequest base exponent) (s.view.boundedRequest base exponent) := by
  unfold boundedRequest PowerTable.boundedRequest
  split
  · exact .refused _
  · exact h.agrees_request base exponent

theorem Separate.agrees_boundedRender (h : s.Separate) (mantissa exponent precision : ℤ) :
    s.Agrees Says (s.boundedRender mantissa exponent precision)
      (Readout.boundedRender s.view mantissa exponent precision) := by
  unfold boundedRender Readout.boundedRender boundedRenderFrom
  cases hsource : (PowerSource.table s.view).tableFor mantissa precision with
  | error e => exact .refused _
  | ok t =>
    obtain ⟨-, -, -, rfl⟩ := PowerTable.tableFor_table_eq_ok_iff.1 hsource
    rw [PowerTable.renderFrom_of_tableFor hsource]
    cases hreach : PowerTable.isWithinReach exponent with
    | false => exact .refused _
    | true =>
      have hnumber := h.scratch_new (Decimal.ofNat mantissa.toNat)
      obtain ⟨hscratch, hpower, hread, hview⟩ := hnumber.scale exponent
      rw [h.view_new, s.read_new] at hread
      rw [h.view_new] at hpower hview
      dsimp only [Bool.not_true, Bool.false_eq_true, if_false, bind, Except.bind]
      unfold write
      dsimp only
      rw [if_pos rfl, hread, hpower, ← hview]
      exact .answered hscratch.grows hscratch.separate rfl

/-- Where numbers are written alike, patterns are. -/
theorem Separate.agrees_text (h : s.Separate) (x : FloatValue)
    {number : ℕ → ℤ → Except RenderFault String × PowerCells}
    {number' : ℕ → ℤ → Except RenderFault String × PowerTable}
    (hnumber : ∀ m e, s.Agrees Says (number m e) (number' m e)) :
    s.Agrees Says (x.text number s) (x.text number' s.view) := by
  unfold FloatValue.text
  cases x.magnitude with
  | infinite => exact .answered (Extends.refl s) h rfl
  | nan => exact .answered (Extends.refl s) h rfl
  | finite m e =>
    dsimp only
    have hagrees := hnumber m e
    generalize number m e = r at hagrees
    generalize number' m e = v at hagrees
    cases hagrees with
    | refused e => exact .refused _
    | answered hgrows hsep hsays => exact .answered hgrows hsep (congrArg _ hsays)

theorem Separate.agrees_boundedRenderBits (h : s.Separate) (bits ebits mbits precision : ℤ) :
    s.Agrees Says (s.boundedRenderBits bits ebits mbits precision)
      (Readout.boundedRenderBits s.view bits ebits mbits precision) := by
  unfold boundedRenderBits Readout.boundedRenderBits
  cases widthExcess? bits ebits mbits with
  | some what => exact .refused _
  | none =>
    dsimp only
    cases FloatValue.read bits ebits mbits with
    | error e => exact .refused _
    | ok x => exact h.agrees_text x fun m e => h.agrees_boundedRender m e precision

/-! ### Steps -/

/-- Callers may hold what is their own. -/
theorem Separate.hold (h : s.Separate) (ha : s.Own a) : (s.hold a).Separate where
  kept_lt := h.kept_lt
  held_lt c hc := by
    rcases List.mem_append.1 hc with hc | hc
    · exact h.held_lt c hc
    · rw [List.mem_singleton.1 hc]
      exact ha.lt
  apart c hc := by
    rcases List.mem_append.1 hc with hc | hc
    · exact h.apart c hc
    · rw [List.mem_singleton.1 hc]
      exact ha.not_kept

/-- An empty table keeps nothing. -/
theorem not_isKept (htwos : s.twos = []) (hfives : s.fives = []) : ¬s.IsKept a := by
  rintro ⟨base, n, hmem⟩
  cases base with
  | two => exact absurd hmem (by rw [addresses, htwos]; exact List.not_mem_nil)
  | five => exact absurd hmem (by rw [addresses, hfives]; exact List.not_mem_nil)

theorem Separate.clear (h : s.Separate) : s.clear.Separate where
  kept_lt _ ha := absurd ha (not_isKept rfl rfl)
  held_lt := h.held_lt
  apart _ _ := not_isKept rfl rfl

/-- **What is asked of a table in memory** is answered as by the table of numbers. -/
theorem Separate.ask (h : s.Separate) (st : PowerTable.Step) :
    (s.ask st).2.Separate ∧ s.view.step st = ((s.ask st).1, (s.ask st).2.view) := by
  cases st with
  | power base exponent =>
    have hagrees := h.agrees_boundedRequest base exponent
    dsimp only [PowerCells.ask, PowerTable.step]
    generalize s.boundedRequest base exponent = r at hagrees
    generalize s.view.boundedRequest base exponent = v at hagrees
    cases hagrees with
    | refused e => exact ⟨h, rfl⟩
    | answered hgrows hsep hgives =>
      obtain ⟨hown, rfl⟩ := hgives
      exact ⟨hsep.hold hown, rfl⟩
  | scaled base exponent factor =>
    have hagrees := h.agrees_boundedRequest base exponent
    dsimp only [PowerCells.ask, PowerTable.step]
    generalize s.boundedRequest base exponent = r at hagrees
    generalize s.view.boundedRequest base exponent = v at hagrees
    cases hagrees with
    | refused e => exact ⟨h, rfl⟩
    | @answered s' a x hgrows hsep hgives =>
      obtain ⟨hown, rfl⟩ := hgives
      dsimp only
      cases Decimal.ofInt factor 0 0 with
      | error why => exact ⟨hsep.hold hown, rfl⟩
      | ok k =>
        have hown' : (s'.new k).2.Own a := hown.of_extends (s'.extends_new k)
        have hread : ((s'.new k).2.inPlace .mul a (s'.new k).1).read a = (s'.read a).mul k := by
          rw [read_inPlace_self _ hown'.lt, s'.read_new, s'.read_new_of_lt k hown.lt]
        have hview : ((s'.new k).2.inPlace .mul a (s'.new k).1).view = s'.view := by
          rw [view_inPlace _ hown'.not_kept, hsep.view_new]
        refine ⟨((hsep.new k).inPlace _).hold (hown'.inPlace _), ?_⟩
        dsimp only
        rw [hread]
        exact congrArg _ hview.symm
  | contains base exponent => exact ⟨h, rfl⟩
  | clear => exact ⟨h.clear, rfl⟩
  | render mantissa exponent precision =>
    have hagrees := h.agrees_boundedRender mantissa exponent precision
    dsimp only [PowerCells.ask, PowerTable.step]
    generalize s.boundedRender mantissa exponent precision = r at hagrees
    generalize Readout.boundedRender s.view mantissa exponent precision = v at hagrees
    cases hagrees with
    | refused e => exact ⟨h, rfl⟩
    | answered hgrows hsep hsays =>
      cases hsays
      exact ⟨hsep, rfl⟩
  | renderBits bits ebits mbits precision =>
    have hagrees := h.agrees_boundedRenderBits bits ebits mbits precision
    dsimp only [PowerCells.ask, PowerTable.step]
    generalize s.boundedRenderBits bits ebits mbits precision = r at hagrees
    generalize Readout.boundedRenderBits s.view bits ebits mbits precision = v at hagrees
    cases hagrees with
    | refused e => exact ⟨h, rfl⟩
    | answered hgrows hsep hsays =>
      cases hsays
      exact ⟨hsep, rfl⟩

/-- **Callers cannot change the table** by what they do to the numbers that they hold. -/
theorem Separate.work (h : s.Separate) (op : Decimal → Decimal → Decimal) (i j : ℕ) :
    (s.work op i j).Separate ∧ (s.work op i j).view = s.view := by
  unfold PowerCells.work
  split
  · rename_i a b ha hb
    exact ⟨h.inPlace op, view_inPlace op (h.apart a (List.mem_of_getElem? ha))⟩
  · exact ⟨h, rfl⟩

/-- **A step that is no request leaves the table of numbers as it was.** -/
theorem Separate.step (h : s.Separate) (st : Step) :
    (s.step st).Separate ∧
      ((s.step st).view = s.view ∨ ∃ st', (s.step st).view = (s.view.step st').2) := by
  cases st with
  | ask st =>
    obtain ⟨hsep, hstep⟩ := h.ask st
    exact ⟨hsep, Or.inr ⟨st, by rw [hstep]; rfl⟩⟩
  | make value extra fill =>
    dsimp only [PowerCells.step]
    cases Decimal.ofInt value extra fill with
    | error why => exact ⟨h, Or.inl rfl⟩
    | ok x => exact ⟨(h.new x).hold (h.scratch_new x).own, Or.inl (h.view_new x)⟩
  | add i j => exact ⟨(h.work .add i j).1, Or.inl (h.work .add i j).2⟩
  | mul i j => exact ⟨(h.work .mul i j).1, Or.inl (h.work .mul i j).2⟩

/-- **The states that can come about.** -/
inductive Reachable : PowerCells → Prop
  /-- Nothing has happened. -/
  | start : Reachable start
  /-- Something more happens. -/
  | step {s : PowerCells} (h : Reachable s) (st : Step) : Reachable (s.step st)

theorem Reachable.separate (h : s.Reachable) : s.Separate := by
  induction h with
  | start =>
    exact ⟨fun _ ha => absurd ha (not_isKept rfl rfl), fun _ ha => absurd ha List.not_mem_nil,
      fun _ _ => not_isKept rfl rfl⟩
  | step _ st ih => exact (ih.step st).1

/-- **The table of numbers is one that can come about by itself**, whatever callers have done
to the numbers that they hold. -/
theorem Reachable.view (h : s.Reachable) : s.view.Reachable := by
  induction h with
  | start => exact .empty
  | @step s hs st ih =>
    rcases (hs.separate.step st).2 with hview | ⟨st', hview⟩
    · rwa [hview]
    · rw [hview]
      exact ih.step st'

/-- **Every request for a power is answered by the power**, in a cell of its own, and no bound
matters if the exponent is within reach. -/
theorem Reachable.exists_request (h : s.Reachable) (base : Base) (n : ℕ) :
    ∃ a s', s.request base.value n = (.ok a, s') ∧
      s'.read a = Decimal.ofNat (base.value ^ n) ∧ s'.Own a ∧
      (PowerTable.isWithinReach n → s.boundedRequest base.value n = (.ok a, s')) := by
  obtain ⟨hscratch, hlookup⟩ := h.separate.power base n
  have hbase : Base.ofInt? base.value = some base := by cases base <;> rfl
  have hrequest : s.request base.value n = (.ok (s.power base n).1, (s.power base n).2) := by
    rw [request, hbase]
    dsimp only
    rw [if_neg (by omega), Int.toNat_natCast]
  refine ⟨_, _, hrequest, ?_, hscratch.own, fun hreach => ?_⟩
  · rw [← PowerTable.lookup_eq h.view.sound, hlookup]
  · rw [boundedRequest, hreach, Bool.not_true, Bool.and_false, if_neg Bool.false_ne_true, hrequest]

/-- **A refusal changes nothing.** -/
theorem Agrees.eq_of_error {ε α β : Type} {P : PowerCells → α → β → Prop}
    {r : Except ε α × PowerCells} {v : Except ε β × PowerTable} (h : s.Agrees P r v) {e : ε}
    (hr : r = (.error e, s')) : s' = s := by
  cases h with
  | refused e => exact (Prod.mk.inj hr).2.symm
  | answered hgrows hsep h => cases (Prod.mk.inj hr).1

/-- The same answers, whatever they are. -/
theorem Agrees.fst_eq {ε : Type} {r : Except ε String × PowerCells}
    {v : Except ε String × PowerTable} (h : s.Agrees Says r v) : r.1 = v.1 := by
  cases h with
  | refused e => rfl
  | answered hgrows hsep h => exact congrArg _ h

/-- Powers of other bases, and those with negative exponents, are refused. -/
theorem exists_boundedRequest_eq_error {base exponent : ℤ}
    (h : base ≠ 2 ∧ base ≠ 5 ∨ exponent < 0) :
    ∃ e, s.boundedRequest base exponent = (.error e, s) := by
  rw [boundedRequest, request]
  cases hbase : Base.ofInt? base with
  | none => exact ⟨_, rfl⟩
  | some b =>
    have hneg : exponent < 0 := by
      refine h.resolve_left fun hne => ?_
      rw [Base.ofInt?, if_neg hne.1, if_neg hne.2] at hbase
      cases hbase
    dsimp only
    rw [decide_eq_false (not_le.2 hneg), Bool.and_false, Bool.false_and,
      if_neg Bool.false_ne_true, if_pos hneg]
    exact ⟨_, rfl⟩

/-- Negative mantissas are refused, and so is a precision without digits. -/
theorem exists_boundedRender_eq_error {mantissa exponent precision : ℤ}
    (h : mantissa < 0 ∨ precision < 1) :
    ∃ e, s.boundedRender mantissa exponent precision = (.error e, s) := by
  rcases PowerTable.tableFor_table_cases mantissa precision with ⟨e, herror⟩ | hok
  · exact ⟨e, by rw [boundedRender, herror]⟩
  · obtain ⟨hm, hp, -⟩ := PowerTable.tableFor_table_eq_ok_iff.1 (hok s.view)
    omega

/-- **A power table that does not show what has happened to it.** -/
structure Transparent (s : PowerCells) : Prop where
  /-- What is kept for an exponent is that power, and no caller holds it. -/
  kept : ∀ base n a, s.find? base n = some a → a < s.cells.length ∧
    s.read a = Decimal.ofNat (base.value ^ n) ∧ a ∉ s.held
  /-- Every request for a power is answered by it, in a cell of its own; the bound on exponents
  does not matter within reach. -/
  request : ∀ (base : Base) (n : ℕ), ∃ a s', s.request base.value n = (.ok a, s') ∧
    s'.read a = Decimal.ofNat (base.value ^ n) ∧ s'.Own a ∧
    (PowerTable.isWithinReach n → s.boundedRequest base.value n = (.ok a, s'))
  /-- Numbers are written as with a fresh table. -/
  render : ∀ mantissa exponent precision, (s.boundedRender mantissa exponent precision).1 =
    (Readout.boundedRender .empty mantissa exponent precision).1
  /-- Bit patterns are written as with a fresh table. -/
  renderBits : ∀ bits ebits mbits precision, (s.boundedRenderBits bits ebits mbits precision).1 =
    (Readout.boundedRenderBits .empty bits ebits mbits precision).1
  /-- What is refused leaves everything as it was: powers, -/
  eq_of_request : ∀ base exponent e s', s.boundedRequest base exponent = (.error e, s') → s' = s
  /-- numbers, -/
  eq_of_render : ∀ mantissa exponent precision e s',
    s.boundedRender mantissa exponent precision = (.error e, s') → s' = s
  /-- and bit patterns. -/
  eq_of_renderBits : ∀ bits ebits mbits precision e s',
    s.boundedRenderBits bits ebits mbits precision = (.error e, s') → s' = s
  /-- Other bases and negative exponents are refused. -/
  refuses_request : ∀ base exponent : ℤ, base ≠ 2 ∧ base ≠ 5 ∨ exponent < 0 →
    ∃ e, s.boundedRequest base exponent = (.error e, s)
  /-- Negative mantissas are refused, and so is a precision without digits. -/
  refuses_render : ∀ mantissa exponent precision : ℤ, mantissa < 0 ∨ precision < 1 →
    ∃ e, s.boundedRender mantissa exponent precision = (.error e, s)
  /-- The table of numbers that the memory holds answers all requests alike. -/
  step_view : ∀ st, s.view.step st = ((s.ask st).1, (s.ask st).2.view)

/-- **Every power table is transparent**, whatever has been asked of it, and whatever callers
have done to the numbers that they were given. All exponents of fewer bits than half the number
of look-ups that may be open are within reach. -/
theorem Reachable.transparent (h : s.Reachable) :
    s.Transparent ∧
      ∀ n : ℕ, n < 2 ^ (PowerTable.maxOpenLookups / 2) → PowerTable.isWithinReach n := by
  have hsep := h.separate
  have hsound := h.view.sound
  refine ⟨?_, fun n => PowerTable.isWithinReach_of_lt⟩
  refine
    { kept := fun base n a hfind => ?_
      request := h.exists_request
      render := fun mantissa exponent precision => ?_
      renderBits := fun bits ebits mbits precision => ?_
      eq_of_request := fun _ _ _ _ => (hsep.agrees_boundedRequest _ _).eq_of_error
      eq_of_render := fun _ _ _ _ _ => (hsep.agrees_boundedRender _ _ _).eq_of_error
      eq_of_renderBits := fun _ _ _ _ _ _ => (hsep.agrees_boundedRenderBits _ _ _ _).eq_of_error
      refuses_request := fun _ _ => exists_boundedRequest_eq_error
      refuses_render := fun _ _ _ => exists_boundedRender_eq_error
      step_view := fun st => (hsep.ask st).2 }
  · have hkept : s.IsKept a := isKept_of_find? hfind
    have hview : s.view.find? base n = some (s.read a) := by
      rw [find?_view, hfind, Option.map_some]
    refine ⟨hsep.kept_lt a hkept, ?_, fun hheld => hsep.apart a hheld hkept⟩
    exact Decimal.value_injective ((hsound base n _ hview).trans (Decimal.value_ofNat _).symm)
  · rw [(hsep.agrees_boundedRender mantissa exponent precision).fst_eq]
    exact hsound.boundedRender_eq PowerTable.sound_empty mantissa exponent precision
  · rw [(hsep.agrees_boundedRenderBits bits ebits mbits precision).fst_eq]
    exact hsound.boundedRenderBits_eq PowerTable.sound_empty bits ebits mbits precision

/-- A caller squares the power of five that it was given, and has a number written after that:
the power that is kept is still the third one. -/
theorem transparent_of_square :
    (((start.step (.ask (.power 5 3))).step (.mul 0 0)).step (.ask (.render 1 (-2) 4))).Reachable ∧
      ((start.step (.ask (.power 5 3))).step (.mul 0 0)).held.map
        ((start.step (.ask (.power 5 3))).step (.mul 0 0)).read = [Decimal.ofNat 15625] ∧
      ∃ a s', (((start.step (.ask (.power 5 3))).step (.mul 0 0)).step
        (.ask (.render 1 (-2) 4))).request 5 (3 : ℕ) = (.ok a, s') ∧
        s'.read a = Decimal.ofNat 125 := by
  have hreach : (((start.step (.ask (.power 5 3))).step (.mul 0 0)).step
      (.ask (.render 1 (-2) 4))).Reachable := ((Reachable.start.step _).step _).step _
  obtain ⟨a, s', hrequest, hread, -⟩ := hreach.transparent.1.request .five 3
  exact ⟨hreach, by decide +kernel, a, s', hrequest, hread⟩

end PowerCells

end Readout
