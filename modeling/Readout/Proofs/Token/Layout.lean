import Readout.Proofs.Token.Spelling

/-!
# Layouts

A text is laid out in gaps and pieces (`Readout.Layout`). There is a layout of every text
(`Readout.exists_layout`), and wider gaps change nothing in its tokens but where they stand
(`Readout.tokenize_layout`).
-/

namespace Readout

/-! ### Texts as gaps and pieces

A text is gaps and pieces in turn. A layout (`Readout.Layout`) lists them, up to the end of the text
or up to the first hexadecimal mark without digits, beyond which the lexer never comes. It is
proper if every piece is spelled as it has to be in front of what follows (`Readout.Layout.Proper`).

Every text has a proper layout (`Readout.exists_layout`), and the lexer goes through it piece by
piece (`Readout.Cursor.next_piece`).
-/

/-- **A gap**: spaces, tabs and line feeds. -/
abbrev Gap : Type :=
  {cs : List Char // ∀ c ∈ cs, isGap c = true}

/-- **A layout**: a text as gaps and pieces in turn. -/
inductive Layout
  /-- A gap, and the end of the text. -/
  | done (gap : Gap)
  /-- A gap, a hexadecimal mark without digits, and whatever is behind it. -/
  | stuck (gap : Gap) (mark rest : List Char)
  /-- A gap, a piece in its spelling, and the layout of what is behind it. -/
  | piece (gap : Gap) (p : Piece) (spelling : List Char) (tail : Layout)

/-- What comes of a piece at a position. -/
def Piece.outcome (pos : ℕ) : Piece → Except ReadError Lexeme
  | token t => .ok ⟨t, pos⟩
  | malformedHex => .error (.fault .malformedHex pos)
  | outOfRange literal => .error (.fault (.outOfRange literal) pos)
  | oversized digits => .error (.oversized digits)

namespace Layout

/-- The text that is laid out. -/
def text : Layout → List Char
  | done gap => gap.1
  | stuck gap mark rest => gap.1 ++ (mark ++ rest)
  | piece gap _ spelling tail => gap.1 ++ (spelling ++ tail.text)

/-- **A proper layout**: the pieces are spelled as they have to be, and only a hexadecimal mark
without digits ends it before the text ends. -/
inductive Proper : Layout → Prop
  /-- At the end of the text there is nothing to spell. -/
  | done {gap : Gap} : Proper (done gap)
  /-- A hexadecimal mark has no digits behind it. -/
  | stuck {gap : Gap} {mark rest : List Char} (hmark : Piece.malformedHex.Spelled mark rest) :
    Proper (stuck gap mark rest)
  /-- Any other piece is spelled in front of the text of the tail. -/
  | piece {gap : Gap} {p : Piece} {spelling : List Char} {tail : Layout} (hp : p ≠ .malformedHex)
    (hspelled : p.Spelled spelling tail.text) (htail : Proper tail) :
    Proper (piece gap p spelling tail)

end Layout

/-- **Every text has a proper layout.** -/
theorem exists_layout (cs : List Char) : ∃ layout : Layout, layout.Proper ∧ layout.text = cs := by
  -- on the length of the text, since a piece may have several characters
  induction hn : cs.length using Nat.strongRecOn generalizing cs with
  | ind n ih =>
    obtain ⟨gap, rest, rfl, hgap, hrest⟩ := exists_longest_run isGap cs
    cases rest with
    | nil => exact ⟨.done ⟨gap, hgap⟩, .done, (List.append_nil gap).symm⟩
    | cons c others =>
      obtain ⟨p, more, rest, rfl, hspelled⟩ := exists_spelled (hrest c rfl) others
      by_cases hp : p = .malformedHex
      · subst hp
        exact ⟨.stuck ⟨gap, hgap⟩ (c :: more) rest, .stuck hspelled, rfl⟩
      · obtain ⟨tail, htail, rfl⟩ := ih rest.length (by simp at hn; omega) rest rfl
        exact ⟨.piece ⟨gap, hgap⟩ p (c :: more) tail, .piece hp hspelled htail, rfl⟩

/-! ### The lexer goes through a layout -/

namespace Cursor

/-- A gap is skipped if no further gap follows. -/
theorem skipGap_append (gap : Gap) (rest : List Char)
    (hrest : ∀ c, rest.head? = some c → isGap c = false) (pos : ℕ) :
    skipGap ⟨pos, gap.1 ++ rest⟩ = ⟨pos + gap.1.length, rest⟩ := by
  rw [skipGap, takeWhile_append_of_head? gap.2 hrest, skip, List.drop_left]

/-- At the end of a text the end is found, -/
theorem next_done (gap : Gap) (pos : ℕ) : next ⟨pos, (Layout.done gap).text⟩ =
    (.ok ⟨.eof, pos + gap.1.length⟩, ⟨pos + gap.1.length, []⟩) := by
  have hskip := skipGap_append gap [] (fun c hc => by cases hc) pos
  rw [List.append_nil] at hskip
  rw [Layout.text, next, hskip]

/-- a hexadecimal mark without digits stays where it is, -/
theorem next_stuck (gap : Gap) {mark rest : List Char}
    (hmark : Piece.malformedHex.Spelled mark rest) (pos : ℕ) :
    next ⟨pos, (Layout.stuck gap mark rest).text⟩ =
      (.error (.fault .malformedHex (pos + gap.1.length)),
        ⟨pos, (Layout.stuck gap mark rest).text⟩) := by
  obtain ⟨c, more, rfl, hgap⟩ := hmark.exists_cons
  have hskip := skipGap_append gap (c :: (more ++ rest)) (fun d hd => by
    obtain rfl := Option.some.inj hd
    exact hgap) pos
  rw [Layout.text, List.cons_append, next, hskip]
  dsimp only
  rw [hmark.cut_eq]

/-- **and of any other piece comes what comes of it**, with the lexer behind it. -/
theorem next_piece (gap : Gap) {p : Piece} {spelling : List Char} {tail : Layout}
    (hp : p ≠ .malformedHex) (hspelled : p.Spelled spelling tail.text) (pos : ℕ) :
    next ⟨pos, (Layout.piece gap p spelling tail).text⟩ =
      (p.outcome (pos + gap.1.length), ⟨pos + gap.1.length + spelling.length, tail.text⟩) := by
  obtain ⟨c, more, rfl, hgap⟩ := hspelled.exists_cons
  have hskip := skipGap_append gap (c :: (more ++ tail.text)) (fun d hd => by
    obtain rfl := Option.some.inj hd
    exact hgap) pos
  rw [Layout.text, List.cons_append, next, hskip]
  dsimp only
  rw [hspelled.cut_eq]
  cases p with
  | malformedHex => exact absurd rfl hp
  | token t => simp [Piece.outcome, Nat.add_assoc]
  | outOfRange literal => simp [Piece.outcome, Nat.add_assoc]
  | oversized digits => simp [Piece.outcome, Nat.add_assoc]

end Cursor

/-! ### Nothing of a text is lost, and gaps may stand anywhere between tokens

If a text can be cut into tokens, then they are the pieces of its layout
(`Readout.Layout.tokenize_eq_ok_iff`). So gaps and spellings make up the whole text, each spelling
begins where its token is said to stand, and the end comes once and last.

A gap may be put in wherever no piece is torn apart. The layout that results has the same pieces
and wider gaps (`Readout.Layout.Wider`). It is proper again, since no piece goes on with a gap, so
the text is cut into the same tokens as before (`Readout.tokenize_layout`).
-/

/-- All tokens of a feed, the end token last. -/
def Feed.tokens (f : Feed) : Except ReadError (List Lexeme) :=
  match f.ending with
  | .ok pos => .ok (f.lexemes ++ [⟨.eof, pos⟩])
  | .error e => .error e

theorem Feed.tokens_after_eq_ok_iff {f : Feed} {l : Lexeme} {ls : List Lexeme} :
    (f.after [l]).tokens = .ok ls ↔ ∃ ls', ls = l :: ls' ∧ f.tokens = .ok ls' := by
  obtain ⟨lexemes, ending⟩ := f
  cases ending <;> simp [tokens, after, eq_comm]

namespace Layout

variable {layout wider : Layout} {pos : ℕ} {ls : List Lexeme}

/-! ### Layouts of tokens -/

/-- **A layout of tokens**: every piece is a token, and it stands where it is said to if the text
starts at a position; the end stands at the end. -/
inductive Lists : ℕ → Layout → List Lexeme → Prop
  /-- At the end of the text stands the end. -/
  | done {pos : ℕ} {gap : Gap} : Lists pos (done gap) [⟨.eof, pos + gap.1.length⟩]
  /-- Behind a gap stands a token. -/
  | token {pos : ℕ} {gap : Gap} {t : Token} {spelling : List Char} {tail : Layout}
    {ls : List Lexeme} (htail : Lists (pos + gap.1.length + spelling.length) tail ls) :
    Lists pos (piece gap (.token t) spelling tail) (⟨t, pos + gap.1.length⟩ :: ls)

/-- **A text is cut into tokens if they are all that is in its layout.** -/
theorem tokens_feed_eq_ok_iff (h : layout.Proper) :
    (Cursor.feed ⟨pos, layout.text⟩).tokens = .ok ls ↔ Lists pos layout ls := by
  induction h generalizing pos ls with
  | @done gap =>
    rw [Cursor.feed_eq, Cursor.next_done]
    constructor
    · rintro ⟨⟩
      exact .done
    · rintro ⟨⟩
      rfl
  | @stuck gap mark rest hmark =>
    rw [Cursor.feed_eq, Cursor.next_stuck gap hmark]
    exact iff_of_false (by rintro ⟨⟩) (by rintro ⟨⟩)
  | @piece gap p spelling tail hp hspelled htail ih =>
    rw [Cursor.feed_eq, Cursor.next_piece gap hp hspelled]
    cases p with
    | token t =>
      dsimp only [Piece.outcome]
      rw [if_neg hspelled.ne_eof, Feed.tokens_after_eq_ok_iff]
      constructor
      · rintro ⟨ls', rfl, hls'⟩
        exact .token (ih.1 hls')
      · rintro ⟨⟩
        exact ⟨_, rfl, ih.2 ‹_›⟩
    | malformedHex => exact absurd rfl hp
    | outOfRange literal => exact iff_of_false (by rintro ⟨⟩) (by rintro ⟨⟩)
    | oversized digits => exact iff_of_false (by rintro ⟨⟩) (by rintro ⟨⟩)

theorem tokenize_eq_ok_iff (h : layout.Proper) {source : String}
    (hsource : layout.text = source.toList) : tokenize source = .ok ls ↔ Lists 0 layout ls := by
  rw [← tokens_feed_eq_ok_iff h, hsource]
  rfl

/-- **The end comes last**, and nowhere else. -/
theorem Lists.exists_before_eof (h : Lists pos layout ls) (hproper : layout.Proper) :
    ∃ before, ls = before ++ [⟨.eof, pos + layout.text.length⟩] ∧
      ∀ l ∈ before, l.token ≠ .eof := by
  induction h with
  | done => exact ⟨[], rfl, List.forall_mem_nil _⟩
  | @token pos gap t spelling tail ls htail ih =>
    cases hproper with
    | piece hp hspelled hproper =>
      obtain ⟨before, rfl, hbefore⟩ := ih hproper
      refine ⟨⟨t, pos + gap.1.length⟩ :: before, ?_,
        List.forall_mem_cons.2 ⟨hspelled.ne_eof, hbefore⟩⟩
      rw [text, List.length_append, List.length_append, Nat.add_assoc, Nat.add_assoc]
      rfl

/-- No token stands in front of the text, -/
theorem Lists.le_pos (h : Lists pos layout ls) : ∀ l ∈ ls, pos ≤ l.pos := by
  induction h with
  | done => exact List.forall_mem_singleton.2 (Nat.le_add_right _ _)
  | token htail ih =>
    refine List.forall_mem_cons.2 ⟨Nat.le_add_right _ _, fun l hl => ?_⟩
    have := ih l hl
    omega

/-- **and each stands behind the one before it.** -/
theorem Lists.pairwise_pos (h : Lists pos layout ls) (hproper : layout.Proper) :
    (ls.map Lexeme.pos).Pairwise (· < ·) := by
  induction h with
  | done => exact List.pairwise_singleton _ _
  | token htail ih =>
    cases hproper with
    | piece hp hspelled hproper =>
      obtain ⟨c, more, rfl, -⟩ := hspelled.exists_cons
      rw [List.map_cons, List.pairwise_cons]
      refine ⟨fun q hq => ?_, ih hproper⟩
      obtain ⟨l, hl, rfl⟩ := List.mem_map.1 hq
      refine Nat.lt_of_lt_of_le ?_ (htail.le_pos l hl)
      simp only [List.length_cons]
      omega

/-! ### Wider gaps -/

/-- **Wider gaps**: the pieces are the same, and in front of them no gap is closed. -/
inductive Wider : Layout → Layout → Prop
  /-- The gap at the end may be any. -/
  | done {gap gap' : Gap} : Wider (done gap) (done gap')
  /-- A gap is in front of a hexadecimal mark if there was one. -/
  | stuck {gap gap' : Gap} {mark rest : List Char} (hgap : gap'.1 = [] → gap.1 = []) :
    Wider (stuck gap mark rest) (stuck gap' mark rest)
  /-- A gap is in front of any other piece if there was one. -/
  | piece {gap gap' : Gap} {p : Piece} {spelling : List Char} {tail tail' : Layout}
    (hgap : gap'.1 = [] → gap.1 = []) (htail : Wider tail tail') :
    Wider (piece gap p spelling tail) (piece gap' p spelling tail')

namespace Wider

theorem refl (layout : Layout) : layout.Wider layout := by
  induction layout with
  | done gap => exact .done
  | stuck gap mark rest => exact .stuck id
  | piece gap p spelling tail ih => exact .piece id ih

/-- What a wider gap stands before begins like before, or with a gap, -/
theorem beginsLike_append {gap gap' : Gap} {spelling rest rest' : List Char} {p : Piece}
    (hgap : gap'.1 = [] → gap.1 = []) (hspelled : p.Spelled spelling rest) :
    BeginsLike (gap'.1 ++ (spelling ++ rest')) (gap.1 ++ (spelling ++ rest)) := by
  obtain ⟨c, more, rfl, -⟩ := hspelled.exists_cons
  intro d hd
  obtain ⟨cs, hcs⟩ := gap'
  rcases cs with - | ⟨e, cs⟩
  · rw [hgap rfl]
    exact .inl hd
  · obtain rfl : e = d := Option.some.inj hd
    exact .inr (hcs e List.mem_cons_self)

/-- and so does a text with wider gaps. -/
theorem beginsLike (hwider : layout.Wider wider) (h : layout.Proper) :
    BeginsLike wider.text layout.text := by
  cases hwider with
  | @done gap gap' => exact fun d hd => .inr (gap'.2 d (List.mem_of_mem_head? hd))
  | stuck hgap =>
    cases h with
    | stuck hmark => exact beginsLike_append hgap hmark
  | piece hgap htail =>
    cases h with
    | piece hp hspelled _ => exact beginsLike_append hgap hspelled

/-- **With wider gaps a layout is proper again.** -/
theorem proper (hwider : layout.Wider wider) (h : layout.Proper) : wider.Proper := by
  induction hwider with
  | done => exact .done
  | stuck hgap =>
    cases h with
    | stuck hmark => exact .stuck hmark
  | piece hgap hwider ih =>
    cases h with
    | piece hp hspelled htail =>
      exact .piece hp (hspelled.of_beginsLike (hwider.beginsLike htail)) (ih htail)

/-- **The tokens are the same**, at other positions. -/
theorem exists_lists (hwider : layout.Wider wider) (h : Lists pos layout ls) (pos' : ℕ) :
    ∃ ls', Lists pos' wider ls' ∧ ls'.map Lexeme.token = ls.map Lexeme.token := by
  induction hwider generalizing pos pos' ls with
  | done =>
    cases h with
    | done => exact ⟨_, .done, rfl⟩
  | stuck hgap => cases h
  | piece hgap hwider ih =>
    cases h with
    | token htail =>
      obtain ⟨ls', hls', hsame⟩ := ih htail _
      exact ⟨_, .token hls', by rw [List.map_cons, List.map_cons, hsame]⟩

end Wider

/-! ### Where a gap can be put in -/

/-- **The boundaries of a layout**: where the text begins, where a piece begins or ends, and where
the text ends. -/
def boundaries : Layout → List ℕ
  | done gap => [0, gap.1.length]
  | stuck gap _ _ => [0, gap.1.length]
  | piece gap _ spelling tail =>
    0 :: gap.1.length :: tail.boundaries.map (gap.1.length + spelling.length + ·)

/-- Tokens stand at boundaries. -/
theorem Lists.exists_boundary (h : Lists pos layout ls) :
    ∀ l ∈ ls, ∃ k ∈ layout.boundaries, l.pos = pos + k := by
  induction h with
  | @done pos gap => exact List.forall_mem_singleton.2 ⟨gap.1.length, by simp [boundaries], rfl⟩
  | @token pos gap t spelling tail ls htail ih =>
    refine List.forall_mem_cons.2 ⟨⟨gap.1.length, by simp [boundaries], rfl⟩, fun l hl => ?_⟩
    obtain ⟨k, hk, hpos⟩ := ih l hl
    refine ⟨gap.1.length + spelling.length + k, ?_, by omega⟩
    simp only [boundaries, List.mem_cons, List.mem_map]
    exact .inr (.inr ⟨k, hk, rfl⟩)

/-- **At a boundary a gap can be put in.** -/
theorem exists_wider {k : ℕ} (hk : k ∈ layout.boundaries) (gap : Gap) :
    ∃ wider, layout.Wider wider ∧
      wider.text = layout.text.take k ++ gap.1 ++ layout.text.drop k := by
  -- the gap comes in front of the one that is there, or behind it
  have hbefore : ∀ g : Gap, ∃ g' : Gap, g'.1 = gap.1 ++ g.1 ∧ (g'.1 = [] → g.1 = []) := fun g =>
    ⟨⟨gap.1 ++ g.1, List.forall_mem_append.2 ⟨gap.2, g.2⟩⟩, rfl,
      fun h => (List.append_eq_nil_iff.1 h).2⟩
  have hbehind : ∀ g : Gap, ∃ g' : Gap, g'.1 = g.1 ++ gap.1 ∧ (g'.1 = [] → g.1 = []) := fun g =>
    ⟨⟨g.1 ++ gap.1, List.forall_mem_append.2 ⟨g.2, gap.2⟩⟩, rfl,
      fun h => (List.append_eq_nil_iff.1 h).1⟩
  induction layout generalizing k with
  | done g =>
    obtain ⟨g', hg', -⟩ := hbefore g
    obtain ⟨g'', hg'', -⟩ := hbehind g
    simp only [boundaries, List.mem_cons, List.not_mem_nil, or_false] at hk
    rcases hk with rfl | rfl
    · exact ⟨done g', .done, by simp [text, hg']⟩
    · exact ⟨done g'', .done, by simp [text, hg'']⟩
  | stuck g mark rest =>
    obtain ⟨g', hg', hnil'⟩ := hbefore g
    obtain ⟨g'', hg'', hnil''⟩ := hbehind g
    simp only [boundaries, List.mem_cons, List.not_mem_nil, or_false] at hk
    rcases hk with rfl | rfl
    · exact ⟨stuck g' mark rest, .stuck hnil', by simp [text, hg']⟩
    · exact ⟨stuck g'' mark rest, .stuck hnil'', by simp [text, hg'']⟩
  | piece g p spelling tail ih =>
    obtain ⟨g', hg', hnil'⟩ := hbefore g
    obtain ⟨g'', hg'', hnil''⟩ := hbehind g
    simp only [boundaries, List.mem_cons, List.mem_map] at hk
    rcases hk with rfl | rfl | ⟨k, hk, rfl⟩
    · exact ⟨piece g' p spelling tail, .piece hnil' (Wider.refl tail), by simp [text, hg']⟩
    · exact ⟨piece g'' p spelling tail, .piece hnil'' (Wider.refl tail), by simp [text, hg'']⟩
    · obtain ⟨wider, hwider, htext⟩ := ih hk
      refine ⟨piece g p spelling wider, .piece id hwider, ?_⟩
      rw [text, text, htext, Nat.add_assoc, List.take_length_add_append,
        List.take_length_add_append, List.drop_length_add_append, List.drop_length_add_append]
      simp only [List.append_assoc]

end Layout

/-- **Nothing of a text is lost by cutting it into tokens, and gaps between them make no
difference.** If a text can be cut into tokens, then

* their positions increase, and the end comes once, last and at the end of the text;
* the text is laid out as gaps and these tokens in turn, each of them where it is said to stand and
  spelled as it has to be: literals read as their values, names and marks as what they are, and no
  spelling goes on;
* if a gap is put in where the text or a token begins or ends, then the tokens are the same. -/
theorem tokenize_layout {source : String} {ls : List Lexeme} (h : tokenize source = .ok ls) :
    (ls.map Lexeme.pos).Pairwise (· < ·) ∧
      (∃ before, ls = before ++ [⟨.eof, source.length⟩] ∧ ∀ l ∈ before, l.token ≠ .eof) ∧
      ∃ layout : Layout, layout.Proper ∧ layout.text = source.toList ∧ layout.Lists 0 ls ∧
        ∀ k ∈ layout.boundaries, ∀ gap : Gap, ∃ ls',
          tokenize (String.ofList (source.toList.take k ++ gap.1 ++ source.toList.drop k)) =
              .ok ls' ∧
            ls'.map Lexeme.token = ls.map Lexeme.token := by
  obtain ⟨layout, hproper, htext⟩ := exists_layout source.toList
  have hlists := (Layout.tokenize_eq_ok_iff hproper htext).1 h
  refine ⟨hlists.pairwise_pos hproper, ?_, layout, hproper, htext, hlists, fun k hk gap => ?_⟩
  · obtain ⟨before, hbefore, hne⟩ := hlists.exists_before_eof hproper
    rw [htext, Nat.zero_add, String.length_toList] at hbefore
    exact ⟨before, hbefore, hne⟩
  · obtain ⟨wider, hwider, hwidertext⟩ := Layout.exists_wider hk gap
    obtain ⟨ls', hls', hsame⟩ := hwider.exists_lists hlists 0
    refine ⟨ls', (Layout.tokenize_eq_ok_iff (hwider.proper hproper) ?_).2 hls', hsame⟩
    rw [String.toList_ofList, hwidertext, htext]

/-- A literal and a name that touch, and three colons. The third colon may be moved away from the
two before it. -/
theorem tokenize_layout_of_colons :
    ∃ ls ls', tokenize "12abc:::" = .ok ls ∧ tokenize "12abc:: \t:" = .ok ls' ∧
      ls.map Lexeme.token = [.int 12, .ident "abc", .scope, .invalid ':', .eof] ∧
      ls'.map Lexeme.token = ls.map Lexeme.token := by
  have h : tokenize "12abc:::" = .ok [⟨.int 12, 0⟩, ⟨.ident "abc", 2⟩, ⟨.scope, 5⟩,
      ⟨.invalid ':', 7⟩, ⟨.eof, 8⟩] := by decide +kernel
  obtain ⟨-, -, layout, -, -, hlists, hgap⟩ := tokenize_layout h
  obtain ⟨k, hk, hpos⟩ := hlists.exists_boundary ⟨.invalid ':', 7⟩ (by simp)
  obtain rfl : k = 7 := by simpa using hpos.symm
  obtain ⟨ls', hls', hsame⟩ := hgap 7 hk ⟨[' ', '\t'],
    List.forall_mem_cons.2 ⟨by decide, List.forall_mem_singleton.2 (by decide)⟩⟩
  exact ⟨_, ls', h, hls', rfl, hsame⟩

end Readout
