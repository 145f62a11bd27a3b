import Readout.Context
import Readout.Proofs.Expr.Evaluation

/-!
# The last assignment to a name counts

Assignments are carried out one after the other, each in its scope. If none of the texts is bad, a
name is bound to what the last assignment to it says, and to what it was bound to before if there
is none (`Readout.Bindings.exists_assignAll`). Otherwise nothing comes of them but the fault of the
first bad text (`Readout.Bindings.assignAll_of_fault`).
-/

namespace Readout

/-! ### Texts of assignments -/

namespace Assignment

/-- What is wrong with the text of an assignment, if anything is. -/
def fault? (text : String) : Option Fault :=
  match parse text with
  | .ok _ => none
  | .error fault => some fault

/-- The word that a text gives to a name, if it is an assignment to that name in its scope. -/
def given? (q : Query) (o : Scope × String) : Option Word :=
  match parse o.2 with
  | .ok a => if q = ⟨o.1, a.name⟩ then some a.value else none
  | .error _ => none

theorem given?_of_ok {text : String} {a : Assignment} (h : parse text = .ok a) (q : Query)
    (scope : Scope) :
    given? q (scope, text) = if q = ⟨scope, a.name⟩ then some a.value else none := by
  rw [given?, h]

/-- **The word that the last assignment to a name gives it.** -/
def lastGiven? (overrides : List (Scope × String)) (q : Query) : Option Word :=
  overrides.reverse.findSome? (given? q)

theorem lastGiven?_cons (o : Scope × String) (overrides : List (Scope × String)) (q : Query) :
    lastGiven? (o :: overrides) q = (lastGiven? overrides q).or (given? q o) := by
  rw [lastGiven?, List.reverse_cons, List.findSome?_append, List.findSome?_singleton]
  rfl

/-- Names that are assigned to are identifiers. -/
theorem isIdentifier_of_parse {text : String} {a : Assignment} (h : parse text = .ok a) :
    isIdentifier a.name = true := by
  unfold parse at h
  split at h
  · cases h
  · dsimp only at h
    split at h
    · rename_i hname
      split at h
      · cases h
        exact hname
      · cases h
    · cases h

theorem isIdentifier_of_lastGiven? {overrides : List (Scope × String)} {q : Query} {v : Word}
    (h : lastGiven? overrides q = some v) : isIdentifier q.name = true := by
  obtain ⟨o, -, ho⟩ := List.exists_of_findSome?_eq_some h
  unfold given? at ho
  split at ho
  · rename_i a hparse
    split at ho
    · rename_i hq
      rw [hq]
      exact isIdentifier_of_parse hparse
    · cases ho
  · cases ho

end Assignment

/-! ### Carrying them out -/

namespace Bindings

open Assignment

/-- **Carries out assignments**, each in the scope that stands with it. -/
def assignAll : Bindings → List (Scope × String) → Except Assignment.Fault Bindings
  | b, [] => .ok b
  | b, (scope, text) :: rest => do
    let a ← Assignment.parse text
    (b.bind scope a.name a.value.toNat).assignAll rest

theorem assignAll_cons_of_ok {text : String} {a : Assignment} (h : Assignment.parse text = .ok a)
    (b : Bindings) (scope : Scope) (rest : List (Scope × String)) :
    b.assignAll ((scope, text) :: rest) = (b.bind scope a.name a.value.toNat).assignAll rest := by
  rw [assignAll, h]
  rfl

theorem assignAll_cons_of_error {text : String} {fault : Assignment.Fault}
    (h : Assignment.parse text = .error fault) (b : Bindings) (scope : Scope)
    (rest : List (Scope × String)) : b.assignAll ((scope, text) :: rest) = .error fault := by
  rw [assignAll, h]
  rfl

/-- Assignments in one scope are such assignments. -/
theorem assign_eq (scope : Scope) (texts : List String) (b : Bindings) :
    b.assign scope texts = b.assignAll (texts.map (scope, ·)) := by
  induction texts generalizing b with
  | nil => rfl
  | cons text texts ih =>
    rw [assign, List.map_cons, assignAll]
    exact congrArg _ (funext fun a => ih _)

theorem assignAll_append (os us : List (Scope × String)) (b : Bindings) :
    b.assignAll (os ++ us) = (b.assignAll os).bind (·.assignAll us) := by
  induction os generalizing b with
  | nil => rfl
  | cons o os ih =>
    obtain ⟨scope, text⟩ := o
    rw [List.cons_append]
    cases hparse : Assignment.parse text with
    | error fault =>
      rw [assignAll_cons_of_error hparse, assignAll_cons_of_error hparse]
      rfl
    | ok a => rw [assignAll_cons_of_ok hparse, assignAll_cons_of_ok hparse, ih]

/-- **The last assignment to a name counts**, if none of the texts is bad. -/
theorem exists_assignAll {overrides : List (Scope × String)}
    (h : ∀ o ∈ overrides, fault? o.2 = none) (b : Bindings) :
    ∃ b', b.assignAll overrides = .ok b' ∧
      ∀ q, b'.lookup q = (lastGiven? overrides q).or (b.lookup q) := by
  induction overrides generalizing b with
  | nil => exact ⟨b, rfl, fun _ => rfl⟩
  | cons o overrides ih =>
    obtain ⟨scope, text⟩ := o
    obtain ⟨hhead, htail⟩ := List.forall_mem_cons.1 h
    cases hparse : Assignment.parse text with
    | error fault =>
      rw [fault?, hparse] at hhead
      cases hhead
    | ok a =>
      obtain ⟨b', hb', hlookup⟩ := ih htail (b.bind scope a.name a.value.toNat)
      refine ⟨b', by rw [assignAll_cons_of_ok hparse, hb'], fun q => ?_⟩
      rw [hlookup, lookup_bind, Atom.wrap_toNat, lastGiven?_cons, Option.or_assoc,
        given?_of_ok hparse]
      split <;> rfl

/-- **The first bad text counts**, if there is one. -/
theorem assignAll_of_fault {overrides : List (Scope × String)} {fault : Assignment.Fault}
    (h : overrides.findSome? (fun o => fault? o.2) = some fault) (b : Bindings) :
    b.assignAll overrides = .error fault := by
  induction overrides generalizing b with
  | nil => cases h
  | cons o overrides ih =>
    obtain ⟨scope, text⟩ := o
    rw [List.findSome?_cons, fault?] at h
    cases hparse : Assignment.parse text with
    | error fault' =>
      rw [hparse] at h
      cases h
      exact assignAll_cons_of_error hparse b scope overrides
    | ok a =>
      rw [hparse] at h
      rw [assignAll_cons_of_ok hparse]
      exact ih h _

/-- So all texts are good if something comes of them. -/
theorem fault?_of_assignAll {overrides : List (Scope × String)} {b b' : Bindings}
    (h : b.assignAll overrides = .ok b') : ∀ o ∈ overrides, fault? o.2 = none := by
  refine List.findSome?_eq_none_iff.1 ?_
  cases hfault : overrides.findSome? (fun o => fault? o.2) with
  | none => rfl
  | some fault =>
    rw [assignAll_of_fault hfault] at h
    cases h

end Bindings

end Readout
