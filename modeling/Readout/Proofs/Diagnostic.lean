import Mathlib.Data.List.Forall2
import Readout.Proofs.Expr.Viable

/-!
# Where the marker of a message stands

A message about the text of an expression is shown below the text and a marker.
Such a **marked text** (`Readout.MarkedText`) has a line under which the marker
stands, and something in front of the marker on its own line; it points at a
position (`Readout.MarkedText.PointsTo`) if the line is the one of the position
and what stands in front of the marker is as long as what stands in front of the
position there.

Line breaks are white space of the language, but the excerpt of a place
(`Readout.Place.excerpt`) takes no notice of them. What it shows is
`Readout.MarkedText.below`: the marker stands under the last line, and in front
of it are as many spaces as there are code points in front of the position in the
whole text, and two more. This points at the position if the text is a single
line (`Readout.MarkedText.below_pointsTo_iff`), and otherwise never does.
-/

namespace Readout

/-! ### Lines -/

/-- The lines of a text. -/
def lines (cs : List Char) : List (List Char) :=
  cs.splitOn '\n'

theorem lines_eq_singleton {cs : List Char} (h : '\n' ∉ cs) : lines cs = [cs] :=
  List.splitOn_eq_singleton h

theorem lines_append_break (xs ys : List Char) :
    lines (xs ++ '\n' :: ys) = lines xs ++ lines ys := by
  rw [lines, List.splitOn_eq_splitOnP, List.splitOnP_append_cons xs ys (by simp)]
  rfl

theorem lines_ne_nil (cs : List Char) : lines cs ≠ [] := by
  rw [lines, List.splitOn_eq_splitOnP]
  exact List.splitOnP_ne_nil _ cs

theorem lines_cons_of_ne {c : Char} (h : c ≠ '\n') (cs : List Char) :
    lines (c :: cs) = (lines cs).modifyHead (c :: ·) := by
  rw [lines, List.splitOn_eq_splitOnP, List.splitOnP_cons_eq_if_modifyHead, if_neg (by simpa)]
  rfl

/-- What is true of the lines of a text is shown for a text without line breaks, and for a line
and the lines of the text behind it. -/
theorem lines_induction {motive : List Char → Prop} (single : ∀ cs, '\n' ∉ cs → motive cs)
    (more : ∀ cs rest, '\n' ∉ cs → motive rest → motive (cs ++ '\n' :: rest)) (cs : List Char) :
    motive cs := by
  by_cases h : '\n' ∈ cs
  · obtain ⟨first, rest, rfl, hfirst⟩ := List.eq_append_cons_of_mem h
    exact more first rest hfirst (lines_induction single more rest)
  · exact single cs h
termination_by cs.length

theorem length_lines (cs : List Char) : (lines cs).length = cs.count '\n' + 1 := by
  induction cs using lines_induction with
  | single cs h => rw [lines_eq_singleton h, List.count_eq_zero_of_not_mem h, List.length_singleton]
  | more cs rest h ih =>
    rw [lines_append_break, lines_eq_singleton h, List.length_append, ih, List.length_singleton,
      List.count_append, List.count_eq_zero_of_not_mem h, List.count_cons_self]
    omega

theorem notMem_of_mem_lines {cs line : List Char} (h : line ∈ lines cs) : '\n' ∉ line := by
  induction cs using lines_induction with
  | single cs hcs =>
    rw [lines_eq_singleton hcs, List.mem_singleton] at h
    exact h ▸ hcs
  | more cs rest hcs ih =>
    rw [lines_append_break, lines_eq_singleton hcs, List.singleton_append, List.mem_cons] at h
    exact h.elim (· ▸ hcs) ih

/-- Lines as they are written, each with the line break behind it. -/
def written (ls : List (List Char)) : List Char :=
  ls.flatMap (· ++ ['\n'])

theorem written_append (ks ls : List (List Char)) : written (ks ++ ls) = written ks ++ written ls :=
  List.flatMap_append

theorem written_singleton (l : List Char) : written [l] = l ++ ['\n'] := by
  rw [written, List.flatMap_singleton]

theorem written_lines (cs : List Char) : written (lines cs) = cs ++ ['\n'] := by
  induction cs using lines_induction with
  | single cs h => rw [lines_eq_singleton h, written_singleton]
  | more cs rest h ih =>
    rw [lines_append_break, lines_eq_singleton h, written_append, written_singleton, ih]
    simp

theorem lines_written_append {ls : List (List Char)} (h : ∀ l ∈ ls, '\n' ∉ l) (cs : List Char) :
    lines (written ls ++ cs) = ls ++ lines cs := by
  induction ls with
  | nil => rfl
  | cons l ls ih =>
    obtain ⟨hl, hls⟩ := List.forall_mem_cons.1 h
    rw [← List.singleton_append, written_append, written_singleton, List.append_assoc,
      List.append_assoc, List.singleton_append, lines_append_break, lines_eq_singleton hl, ih hls,
      List.append_assoc]

/-! ### Marked texts -/

/-- **A marked text**: some lines, and a marker on a line of its own below one of them. -/
structure MarkedText where
  /-- The lines. -/
  shown : List (List Char)
  /-- The line under which the marker stands, counted from 0. -/
  row : ℕ
  /-- What stands in front of the marker. -/
  indent : List Char
  /-- The lines are lines. -/
  notMem_shown : ∀ line ∈ shown, '\n' ∉ line
  /-- The marker stands on one line with what is in front of it. -/
  notMem_indent : '\n' ∉ indent

namespace MarkedText

/-- The lines of a marked text, that of the marker included. -/
def rows (l : MarkedText) : List (List Char) :=
  l.shown.take (l.row + 1) ++ (l.indent ++ ['^']) :: l.shown.drop (l.row + 1)

/-- How a marked text is written, with a message at the end. -/
def text (l : MarkedText) (message : String) : String :=
  String.ofList (written l.rows ++ message.toList)

/-- **A marked text shows a source text**: its lines are those of the source text, perhaps behind
a margin. -/
def Shows (l : MarkedText) (source : String) : Prop :=
  List.Forall₂ (· <:+ ·) (lines source.toList) l.shown

/-- **A marked text points at a position of a source text**: the marker stands below the line of the
position, and in front of it are as many code points as in front of the position, which is where
the rest of that line starts. -/
structure PointsTo (l : MarkedText) (source : String) (pos : ℕ) : Prop where
  row : l.row = (source.toList.take pos).count '\n'
  column : ∃ front, l.indent.length = front.length ∧
    l.shown[l.row]? = some (front ++ (source.toList.drop pos).takeWhile (· ≠ '\n'))

theorem notMem_rows (l : MarkedText) : ∀ line ∈ l.rows, '\n' ∉ line := by
  intro line hline
  rw [rows, List.mem_append, List.mem_cons] at hline
  rcases hline with h | rfl | h
  · exact l.notMem_shown line (List.mem_of_mem_take h)
  · simpa using l.notMem_indent
  · exact l.notMem_shown line (List.mem_of_mem_drop h)

/-- The lines of a marked text can be read from what is written. -/
theorem lines_text (l : MarkedText) (message : String) :
    lines (l.text message).toList = l.rows ++ lines message.toList := by
  rw [text, String.toList_ofList, lines_written_append l.notMem_rows]

/-- The source text behind a margin of two spaces, which stands in front of its first line, with the
marker under its last line. The position is taken for a column. -/
def below (source : String) (pos : ℕ) : MarkedText where
  shown := lines (' ' :: ' ' :: source.toList)
  row := source.toList.count '\n'
  indent := List.replicate (pos + 2) ' '
  notMem_shown _ := notMem_of_mem_lines
  notMem_indent h := absurd (List.eq_of_mem_replicate h) (by decide)

@[simp] theorem shown_below (source : String) (pos : ℕ) :
    (below source pos).shown = lines (' ' :: ' ' :: source.toList) := rfl

@[simp] theorem row_below (source : String) (pos : ℕ) :
    (below source pos).row = source.toList.count '\n' := rfl

@[simp] theorem indent_below (source : String) (pos : ℕ) :
    (below source pos).indent = List.replicate (pos + 2) ' ' := rfl

theorem rows_below (source : String) (pos : ℕ) :
    (below source pos).rows =
      lines (' ' :: ' ' :: source.toList) ++ [List.replicate (pos + 2) ' ' ++ ['^']] := by
  have hlength : (lines (' ' :: ' ' :: source.toList)).length = source.toList.count '\n' + 1 := by
    rw [length_lines]
    simp
  rw [rows, shown_below, row_below, indent_below, List.take_of_length_le hlength.le,
    List.drop_eq_nil_of_le hlength.le]

/-- **What is shown about a place** is this marked text. -/
theorem text_below (p : Place) (message : String) :
    Diagnostic.text ⟨message, some p⟩ = (below p.source p.column).text message := by
  apply String.toList_inj.1
  rw [text, String.toList_ofList, rows_below, written_append, written_lines, written_singleton]
  simp [Diagnostic.text, Place.excerpt, List.replicate_succ]

theorem below_shows (source : String) (pos : ℕ) : (below source pos).Shows source := by
  obtain ⟨first, more, hlines⟩ := List.exists_cons_of_ne_nil (lines_ne_nil source.toList)
  have hshown : (below source pos).shown = (' ' :: ' ' :: first) :: more := by
    rw [shown_below, lines_cons_of_ne (by decide), lines_cons_of_ne (by decide), hlines]
    rfl
  rw [Shows, hshown, hlines]
  exact .cons ((List.suffix_cons _ _).trans (List.suffix_cons _ _))
    (List.forall₂_same.2 fun line _ => List.suffix_refl line)

/-- Behind the last line break there is one line, which has no margin. -/
theorem exists_last_shown {source : String} (h : '\n' ∈ source.toList) (pos : ℕ) :
    ∃ line, (below source pos).shown[(below source pos).row]? = some line ∧
      line.length < source.length := by
  obtain ⟨last, front, hreverse, hlast⟩ := List.eq_append_cons_of_mem (List.mem_reverse.2 h)
  have hsource : source.toList = front.reverse ++ '\n' :: last.reverse := by
    rw [← List.reverse_reverse source.toList, hreverse]
    simp
  refine ⟨last.reverse, ?_, ?_⟩
  · have hshown : (below source pos).shown =
        lines (' ' :: ' ' :: front.reverse) ++ [last.reverse] := by
      have hline : lines last.reverse = [last.reverse] :=
        lines_eq_singleton (by simpa using hlast)
      rw [shown_below, hsource, ← hline, ← lines_append_break]
      rfl
    have hrow : (below source pos).row = (lines (' ' :: ' ' :: front.reverse)).length := by
      rw [length_lines, row_below, hsource, List.count_append, List.count_cons_self,
        List.count_eq_zero_of_not_mem (by simpa using hlast : '\n' ∉ last.reverse)]
      simp
    rw [hshown, hrow, List.getElem?_concat_length]
  · rw [← String.length_toList, hsource, List.length_append, List.length_cons]
    omega

/-- **The marker points at the position exactly if the text is a single line.** In a text of
several lines it either stands under a later line than that of the position or too far to
the right. -/
theorem below_pointsTo_iff {source : String} {pos : ℕ} (hpos : pos ≤ source.length) :
    (below source pos).PointsTo source pos ↔ '\n' ∉ source.toList := by
  -- the rest of the line is all that follows the position, if no line break does
  have hrest : '\n' ∉ source.toList.drop pos →
      (source.toList.drop pos).takeWhile (· ≠ '\n') = source.toList.drop pos := fun h =>
    List.takeWhile_eq_self_iff.2 fun c hc => decide_eq_true fun hbreak : c = '\n' => h (hbreak ▸ hc)
  constructor
  · intro hpoints hbreak
    obtain ⟨line, hline, hlength⟩ := exists_last_shown hbreak pos
    obtain ⟨front, hfront, hshown⟩ := hpoints.column
    have hdrop : '\n' ∉ source.toList.drop pos := by
      have hcount : (source.toList.take pos ++ source.toList.drop pos).count '\n' =
          (source.toList.take pos).count '\n' + (source.toList.drop pos).count '\n' :=
        List.count_append
      rw [List.take_append_drop, ← hpoints.row] at hcount
      exact List.count_eq_zero.1 (Nat.left_eq_add.1 hcount)
    rw [hshown, hrest hdrop, Option.some_inj] at hline
    rw [← hline, List.length_append, List.length_drop, ← hfront, indent_below,
      List.length_replicate, String.length_toList] at hlength
    omega
  · intro hsingle
    have hdrop : '\n' ∉ source.toList.drop pos := fun h => hsingle (List.mem_of_mem_drop h)
    have htake : '\n' ∉ source.toList.take pos := fun h => hsingle (List.mem_of_mem_take h)
    have hrow : (below source pos).row = 0 := List.count_eq_zero_of_not_mem hsingle
    refine ⟨?_, ' ' :: ' ' :: source.toList.take pos, ?_, ?_⟩
    · rw [hrow, List.count_eq_zero_of_not_mem htake]
    · rw [indent_below, List.length_replicate, List.length_cons, List.length_cons,
        List.length_take_of_le (by rwa [String.length_toList])]
    · rw [hrow, hrest hdrop, shown_below, lines_eq_singleton (by simpa using hsingle),
        List.cons_append, List.cons_append, List.take_append_drop]
      rfl

end MarkedText

/-! ### The faults of a source text -/

/-- **What is shown about a fault** is the source text, a marker below it, and the message. The
marker stands under the position of the fault if the source text is a single line, and never if it
has several. -/
theorem ReadError.text_diagnostic_of_parse {source : String} {what : Fault} {pos : ℕ}
    (h : parse source = .error (.fault what pos)) :
    pos ≤ source.length ∧
      ((ReadError.fault what pos).diagnostic source).text =
        (MarkedText.below source pos).text what.message ∧
      (MarkedText.below source pos).Shows source ∧
      ((MarkedText.below source pos).PointsTo source pos ↔ '\n' ∉ source.toList) := by
  obtain ⟨hpos, -⟩ := exists_start_of_parse h
  have hcolumn : Place.column ⟨source, pos⟩ = pos := by
    simp only [Place.column]
    omega
  refine ⟨hpos, ?_, MarkedText.below_shows source pos, MarkedText.below_pointsTo_iff hpos⟩
  rw [ReadError.diagnostic, MarkedText.text_below, hcolumn]

/-- In a single line the marker stands under the character that is not understood. -/
theorem ReadError.text_diagnostic_of_parse_single :
    parse "1 + )" = .error (.fault (.unexpected .rparen) 4) ∧
      (MarkedText.below "1 + )" 4).PointsTo "1 + )" 4 := by
  have hfault : parse "1 + )" = .error (.fault (.unexpected .rparen) 4) := by decide +kernel
  exact ⟨hfault, (ReadError.text_diagnostic_of_parse hfault).2.2.2.2 (by decide)⟩

/-- **The marker of a fault does not always stand under its position.** Where the second line of a
text ends too early, the marker stands four columns to the right of the end of the text. -/
theorem ReadError.not_forall_pointsTo :
    ¬ ∀ source what pos, parse source = .error (.fault what pos) →
      ∃ l : MarkedText, l.Shows source ∧ l.PointsTo source pos ∧
        ((ReadError.fault what pos).diagnostic source).text = l.text what.message := by
  intro hall
  have hfault : parse "1\n+" = .error (.fault .unexpectedEnd 3) := by decide +kernel
  obtain ⟨l, hshows, hpoints, htext⟩ := hall _ _ _ hfault
  have hlines : lines "1\n+".toList = [['1'], ['+']] := by decide
  obtain ⟨first, second, hshown⟩ : ∃ first second, l.shown = [first, second] := by
    rw [← List.length_eq_two, ← hshows.length_eq, hlines]
    rfl
  have hrow : l.row = 1 := hpoints.row
  -- the lines that are shown, read from the text
  have hrows := l.lines_text Fault.unexpectedEnd.message
  rw [← htext, MarkedText.rows, hshown, hrow] at hrows
  have hread : lines ((ReadError.fault .unexpectedEnd 3).diagnostic "1\n+").text.toList =
      ["  1".toList, "+".toList, "     ^".toList, Fault.unexpectedEnd.message.toList] := by
    decide +kernel
  rw [hread] at hrows
  have hsecond : second.length = 1 := (congrArg (fun ls => (ls.getD 1 []).length) hrows).symm
  have hindent : l.indent.length + 1 = 6 := by
    have hmarker := congrArg (fun ls => (ls.getD 2 []).length) hrows
    exact (List.length_append.symm.trans hmarker.symm)
  -- nothing follows the position on its line, so the marker should stand behind the whole of it
  obtain ⟨front, hfront, hfront'⟩ := hpoints.column
  have hrest : ("1\n+".toList.drop 3).takeWhile (· ≠ '\n') = [] := by decide
  rw [hshown, hrow, hrest, List.append_nil] at hfront'
  cases hfront'
  omega

end Readout
