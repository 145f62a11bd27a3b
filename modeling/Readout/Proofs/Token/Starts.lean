import Readout.Proofs.Token.Spelling

/-!
# Starts of texts

What the lexer cuts off depends on one character beyond it at most, and a gap there never changes
anything (`Readout.Piece.Spelled.of_beginsLike`). So a text can be broken off in front of a token,
at its end or in front of a bad literal, and be continued there after a gap: the start is cut into
the same tokens as before (`Readout.Cursor.breaksAt_of_feed`).
-/

namespace Readout

variable {c : Char} {t : Token}

/-- **Where a feed starts**: with its first lexeme, at the end of the text, or with a bad literal,
at some position. -/
def Feed.StartsAt (f : Feed) (pos : ℕ) : Prop :=
  match f.lexemes with
  | l :: _ => l.pos = pos
  | [] => f.ending = .ok pos ∨ ∃ what, f.ending = .error (.fault what pos)

theorem Feed.after_nil (f : Feed) : f.after [] = f := rfl

/-- The first lexeme of a feed, and the others. -/
theorem Feed.after_cons_eq_iff {f g : Feed} {l l' : Lexeme} {ls : List Lexeme} :
    f.after [l] = g.after (l' :: ls) ↔ l = l' ∧ f = g.after ls := by
  obtain ⟨ls', ending'⟩ := f
  simp [Feed.after, and_assoc]

/-- What is left in front of a gap begins like what was there. -/
theorem beginsLike_take_append {cs tail : List Char}
    (htail : ∀ c, tail.head? = some c → isGap c = true) (k : ℕ) :
    BeginsLike (cs.take k ++ tail) cs := by
  intro d hd
  rcases k with - | k
  · exact .inr (htail d hd)
  · rcases cs with - | ⟨c, cs⟩
    · exact .inr (htail d hd)
    · exact .inl hd

/-- **A text breaks off at a position into tokens**: the position is in the text or at its end, and
the text up to there, with a gap behind it or nothing, is cut into the tokens. -/
structure BreaksAt (pos : ℕ) (cs : List Char) (last : ℕ) (ts : List Token) : Prop where
  le_last : pos ≤ last
  last_le : last ≤ pos + cs.length
  cutInto : ∀ tail, (∀ c, tail.head? = some c → isGap c = true) →
    CutInto (cs.take (last - pos)) ts tail

namespace BreaksAt

variable {pos last n : ℕ} {cs : List Char} {ts : List Token}

/-- It may be broken off where it stands. -/
theorem here : BreaksAt pos cs pos [] := by
  refine ⟨le_refl _, Nat.le_add_right _ _, fun tail _ => ?_⟩
  rw [Nat.sub_self, List.take_zero]
  exact .nil

theorem gap (hgap : isGap c = true) (h : BreaksAt (pos + 1) cs last ts) :
    BreaksAt pos (c :: cs) last ts := by
  obtain ⟨hfirst, hlast, hcut⟩ := h
  obtain ⟨k, rfl⟩ := Nat.exists_eq_add_of_le hfirst
  refine ⟨by omega, by rw [List.length_cons]; omega, fun tail htail => ?_⟩
  rw [Nat.add_sub_cancel_left] at hcut
  rw [show pos + 1 + k - pos = k + 1 by omega, List.take_succ_cons]
  exact (CutInto.gap hgap).append (hcut tail htail)

/-- A token in front of a text that is broken off is the same in front of what is left of it. -/
theorem token (hgap : isGap c = false) (hcut : cut c cs = (.token t, n))
    (h : BreaksAt (pos + n + 1) (cs.drop n) last ts) : BreaksAt pos (c :: cs) last (t :: ts) := by
  obtain ⟨more, rest, rfl, rfl, hspelled⟩ := exists_spelled_of_cut hgap hcut
  rw [List.drop_left] at h
  obtain ⟨hfirst, hlast, hcuts⟩ := h
  obtain ⟨k, rfl⟩ := Nat.exists_eq_add_of_le hfirst
  refine ⟨by omega, by rw [List.length_cons, List.length_append]; omega, fun tail htail => ?_⟩
  rw [Nat.add_sub_cancel_left] at hcuts
  rw [show pos + more.length + 1 + k - pos = more.length + k + 1 by omega, List.take_succ_cons,
    List.take_length_add_append, ← List.cons_append]
  have htoken := (hspelled.of_beginsLike (beginsLike_take_append htail k)).cut_eq
  exact (CutInto.of_cut hgap htoken).append (hcuts tail htail)

end BreaksAt

/-- **A text can be broken off in front of a token**, at its end or in front of a bad literal, and
up to that position it is cut into the same tokens as before. -/
theorem Cursor.breaksAt_of_feed {pos last : ℕ} {cs : List Char} {used : List Lexeme} {f : Feed}
    (h : feed ⟨pos, cs⟩ = f.after used) (hf : f.StartsAt last) :
    BreaksAt pos cs last (used.map Lexeme.token) := by
  induction pos, cs using feed_induction generalizing used with
  | nil pos =>
    rw [feed_nil] at h
    rcases used with - | ⟨l, used⟩
    · rw [Feed.after_nil] at h
      subst h
      rcases hf with hend | ⟨what, hwhat⟩
      · cases hend
        exact .here
      · cases hwhat
    · cases congrArg Feed.lexemes h
  | gap pos c cs hgap ih =>
    rw [feed_gap hgap] at h
    exact .gap hgap (ih h)
  | token pos c cs t n hgap hcut ih =>
    rw [feed_cons hgap, hcut] at h
    rcases used with - | ⟨l, used⟩
    · rw [Feed.after_nil] at h
      subst h
      obtain rfl : pos = last := hf
      exact .here
    · obtain ⟨rfl, hrest⟩ := Feed.after_cons_eq_iff.1 h
      exact .token hgap hcut (ih hrest)
  | bad pos c cs hgap hbad =>
    obtain ⟨err, herr, hpos⟩ := exists_feed_bad hgap hbad pos
    rw [herr] at h
    rcases used with - | ⟨l, used⟩
    · rw [Feed.after_nil] at h
      subst h
      rcases hf with hend | ⟨what, hwhat⟩
      · cases hend
      · cases hwhat
        obtain rfl := hpos what last rfl
        exact .here
    · cases congrArg Feed.lexemes h

end Readout
