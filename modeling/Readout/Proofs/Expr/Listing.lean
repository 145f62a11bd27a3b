import Readout.Proofs.Expr.Depth

/-!
# Listings can be read in one way only

A listing is a list in parentheses. Its head is a word without spaces, and inside it, after a space,
stand the word of a leaf or the listings of the operands. The head does not tell negation from
subtraction, and the operands are not counted. All the same no listing is the start of another one
(`Readout.Expr.dump_append_inj`), since the listing of the first operand ends in the same place in
both, and what comes behind it is a parenthesis in the one and a space in the other.

So two trees whose names are identifiers have the same listing only if they are the same tree
(`Readout.Expr.dump_eq_dump_iff`).
-/

namespace Readout

/-- What stands before the first of some marks, and what stands behind it. -/
theorem eq_of_append_cons_eq {α : Type} {d : α} {as bs r s : List α} (has : d ∉ as)
    (hbs : d ∉ bs) (h : as ++ d :: r = bs ++ d :: s) : as = bs ∧ r = s := by
  induction as generalizing bs with
  | nil =>
    cases bs with
    | nil => exact ⟨rfl, (List.cons.inj h).2⟩
    | cons b bs =>
      obtain rfl := (List.cons.inj h).1
      exact absurd List.mem_cons_self hbs
  | cons a as ih =>
    rw [List.mem_cons, not_or] at has
    cases bs with
    | nil => exact absurd (List.cons.inj h).1.symm has.1
    | cons b bs =>
      rw [List.mem_cons, not_or] at hbs
      obtain ⟨rfl, htail⟩ := List.cons.inj h
      obtain ⟨rfl, hrest⟩ := ih has.2 hbs.2 htail
      exact ⟨rfl, hrest⟩

/-! ### Signs and leaves -/

namespace Op

theorem notMem_sign (op : Op) : ' ' ∉ op.sign.toList := by
  cases op <;> decide

/-- An operator is known by its sign. -/
theorem eq_of_sign {op op' : Op} (h : op.sign = op'.sign) : op = op' := by
  revert h
  cases op <;> cases op' <;> decide

end Op

namespace Atom

/-- The word in the listing of a leaf. -/
def word : Atom → String
  | const v => Numeral.decimalText v.toNat
  | bare name => name
  | qualified _ name => name

/-- The head of the listing of a leaf. -/
def head : Atom → String
  | const _ => "const"
  | bare _ => "unscoped-id"
  | qualified scope _ => scope.listingName

theorem notMem_head (a : Atom) : ' ' ∉ a.head.toList := by
  cases a with
  | const v => exact (by decide : ' ' ∉ "const".toList)
  | bare name => exact (by decide : ' ' ∉ "unscoped-id".toList)
  | qualified scope name =>
    rw [head]
    cases scope <;> decide

/-- The head of a leaf is a word and no sign. -/
theorem head_ne_sign (a : Atom) (op : Op) : a.head ≠ op.sign := by
  cases a with
  | const v =>
    rw [head]
    cases op <;> decide
  | bare name =>
    rw [head]
    cases op <;> decide
  | qualified scope name =>
    rw [head]
    cases scope <;> cases op <;> decide

/-- There is no parenthesis in the word of a leaf. -/
theorem notMem_word {a : Atom} (ha : a.name?.all isIdentifier = true) : ')' ∉ a.word.toList := by
  have hname : ∀ {name : String}, isIdentifier name = true → ')' ∉ name.toList := fun h hmem =>
    absurd (isIdentifierRest_of_isIdentifier h _ hmem) (by decide)
  cases a with
  | const v =>
    rw [word, Numeral.toList_decimalText]
    intro hmem
    have hdigit := Numeral.isDigitIn_of_mem_toDigits (by decide) (by decide) hmem
    exact absurd hdigit (by decide)
  | bare name => exact hname ha
  | qualified scope name => exact hname ha

/-- **A leaf is known by the head and the word of its listing.** -/
theorem eq_of_head_of_word {a b : Atom} (hhead : a.head = b.head) (hword : a.word = b.word) :
    a = b := by
  cases a with
  | const v =>
    cases b with
    | const w =>
      have hdigits : Nat.toDigits 10 v.toNat = Nat.toDigits 10 w.toNat := by
        rw [← Numeral.toList_decimalText, ← Numeral.toList_decimalText]
        exact congrArg String.toList hword
      -- numbers that are written alike are read alike
      have hvalue := congrArg (Numeral.valueOf 10) hdigits
      rw [Numeral.valueOf_toDigits (by decide) (by decide),
        Numeral.valueOf_toDigits (by decide) (by decide)] at hvalue
      exact congrArg const (UInt64.toNat_inj.1 hvalue)
    | bare name => exact absurd hhead (by simp [head])
    | qualified scope name => cases scope <;> exact absurd hhead (by simp [head, Scope.listingName])
  | bare name =>
    cases b with
    | const w => exact absurd hhead (by simp [head])
    | bare name' => exact congrArg bare hword
    | qualified scope name' =>
      cases scope <;> exact absurd hhead (by simp [head, Scope.listingName])
  | qualified scope name =>
    cases b with
    | const w => cases scope <;> exact absurd hhead (by simp [head, Scope.listingName])
    | bare name' => cases scope <;> exact absurd hhead (by simp [head, Scope.listingName])
    | qualified scope' name' =>
      have hscope : scope = scope' := by
        cases scope <;> cases scope' <;> simp_all [head, Scope.listingName]
      rw [hscope, show name = name' from hword]

end Atom

namespace Expr

/-! ### Heads and what stands behind them -/

/-- The head of a listing. That of a negation is the sign of subtraction. -/
def head : Expr → String
  | atom a => a.head
  | neg _ => Op.sub.sign
  | bin op _ _ => op.sign

/-- What stands in a listing behind its head. -/
def inside : Expr → List Char
  | atom a => a.word.toList
  | neg e => e.dump.toList
  | bin _ left right => left.dump.toList ++ ' ' :: right.dump.toList

theorem notMem_head (e : Expr) : ' ' ∉ e.head.toList := by
  cases e with
  | atom a => exact a.notMem_head
  | neg e => exact Op.notMem_sign .sub
  | bin op left right => exact op.notMem_sign

/-- **The parts of a listing.** -/
theorem toList_dump (e : Expr) :
    e.dump.toList = '(' :: (e.head.toList ++ ' ' :: (e.inside ++ [')'])) := by
  cases e with
  | atom a => cases a <;> simp [dump, Atom.dump, head, Atom.head, inside, Atom.word]
  | neg e => simp [dump, head, inside, Op.sign]
  | bin op left right => simp [dump, head, inside]

/-- Listings that start alike have the same head, and go on alike behind it. -/
theorem head_eq_of_dump_append {a b : Expr} {r s : List Char}
    (h : a.dump.toList ++ r = b.dump.toList ++ s) :
    a.head = b.head ∧ a.inside ++ ')' :: r = b.inside ++ ')' :: s := by
  rw [toList_dump, toList_dump] at h
  simp only [List.cons_append, List.append_assoc, List.nil_append, List.cons.injEq,
    true_and] at h
  obtain ⟨hhead, hrest⟩ := eq_of_append_cons_eq a.notMem_head b.notMem_head h
  exact ⟨String.toList_inj.1 hhead, hrest⟩

/-- **No listing is the start of another one**, and none ends in two ways. -/
theorem dump_append_inj {a b : Expr} (ha : a.WellNamed) (hb : b.WellNamed) {r s : List Char}
    (h : a.dump.toList ++ r = b.dump.toList ++ s) : a = b ∧ r = s := by
  induction a generalizing b r s with
  | atom x =>
    obtain ⟨hhead, hinside⟩ := head_eq_of_dump_append h
    cases b with
    | atom y =>
      obtain ⟨hword, hrest⟩ := eq_of_append_cons_eq
        (Atom.notMem_word (ha x (by simp [leaves]))) (Atom.notMem_word (hb y (by simp [leaves])))
        hinside
      exact ⟨congrArg atom (Atom.eq_of_head_of_word hhead (String.toList_inj.1 hword)), hrest⟩
    | neg f => exact absurd hhead (x.head_ne_sign .sub)
    | bin op left right => exact absurd hhead (x.head_ne_sign op)
  | neg e ih =>
    obtain ⟨hhead, hinside⟩ := head_eq_of_dump_append h
    cases b with
    | atom y => exact absurd hhead.symm (y.head_ne_sign .sub)
    | neg f =>
      have hf : f.WellNamed := hb
      obtain ⟨rfl, hrest⟩ := ih ha hf hinside
      exact ⟨rfl, (List.cons.inj hrest).2⟩
    | bin op left right =>
      -- even of the same first operand, one has a parenthesis behind it and the other a space
      have hleft : left.WellNamed := fun x hx => hb x (List.mem_append_left _ hx)
      rw [inside, inside, List.append_assoc] at hinside
      obtain ⟨-, hrest⟩ := ih ha hleft hinside
      exact absurd (List.cons.inj hrest).1 (by decide)
  | bin op left right ihl ihr =>
    have hleft : left.WellNamed := fun x hx => ha x (List.mem_append_left _ hx)
    have hright : right.WellNamed := fun x hx => ha x (List.mem_append_right _ hx)
    obtain ⟨hhead, hinside⟩ := head_eq_of_dump_append h
    cases b with
    | atom y => exact absurd hhead.symm (y.head_ne_sign op)
    | neg f =>
      have hf : f.WellNamed := hb
      rw [inside, inside, List.append_assoc] at hinside
      obtain ⟨-, hrest⟩ := ihl hleft hf hinside
      exact absurd (List.cons.inj hrest).1 (by decide)
    | bin op' left' right' =>
      have hleft' : left'.WellNamed := fun x hx => hb x (List.mem_append_left _ hx)
      have hright' : right'.WellNamed := fun x hx => hb x (List.mem_append_right _ hx)
      rw [inside, inside, List.append_assoc, List.append_assoc] at hinside
      obtain ⟨rfl, hrest⟩ := ihl hleft hleft' hinside
      obtain ⟨rfl, hrest'⟩ := ihr hright hright' (List.cons.inj hrest).2
      obtain rfl := Op.eq_of_sign hhead
      exact ⟨rfl, (List.cons.inj hrest').2⟩

/-- **Listings are the same only if the trees are**, for trees whose names are identifiers. This is
so for the listing as it is written operand by operand, and for what walks up the spines write,
however deep they may be nested. -/
theorem dump_eq_dump_iff {a b : Expr} (ha : a.WellNamed) (hb : b.WellNamed) :
    (a.dump = b.dump ↔ a = b) ∧
      ∀ (m n : ℕ) (s t : String), dumpWalk.within m a = some s → dumpWalk.within n b = some t →
        (s = t ↔ a = b) := by
  have hdump : a.dump = b.dump ↔ a = b := by
    refine ⟨fun h => ?_, congrArg dump⟩
    refine (dump_append_inj ha hb (r := []) (s := []) ?_).1
    rw [h]
  have hwalk : ∀ {e : Expr} {n : ℕ} {s : String}, dumpWalk.within n e = some s → s = e.dump := by
    intro e n s hs
    rw [Walk.within_eq, whole_dumpWalk] at hs
    split at hs
    · exact (Option.some.inj hs).symm
    · cases hs
  refine ⟨hdump, fun m n s t hs ht => ?_⟩
  rw [hwalk hs, hwalk ht]
  exact hdump

/-- A difference that is negated, a negation from which something is subtracted, and a subtraction
of a negation have the same words in the same order. -/
theorem dump_eq_dump_iff_of_minus :
    let x := atom (.bare "x")
    let y := atom (.bare "y")
    (neg (bin .sub x y)).WellNamed ∧ (bin .sub (neg x) y).WellNamed ∧
      (bin .sub x (neg y)).WellNamed ∧
      (neg (bin .sub x y)).dump ≠ (bin .sub (neg x) y).dump ∧
      (bin .sub (neg x) y).dump ≠ (bin .sub x (neg y)).dump ∧
      dumpWalk.within 1 (neg (bin .sub x y)) = none := by
  intro x y
  have hneg : (neg (bin .sub x y)).WellNamed := by decide
  have hleft : (bin .sub (neg x) y).WellNamed := by decide
  have hright : (bin .sub x (neg y)).WellNamed := by decide
  refine ⟨hneg, hleft, hright, ?_, ?_, by decide +kernel⟩
  · rw [ne_eq, (dump_eq_dump_iff hneg hleft).1]
    decide
  · rw [ne_eq, (dump_eq_dump_iff hleft hright).1]
    decide

end Expr

end Readout
