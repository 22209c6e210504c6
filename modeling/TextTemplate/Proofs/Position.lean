import TextTemplate.Diagnostic
import TextTemplate.Proofs.Text.Lexemes
import TextTemplate.Proofs.Text.Lines

/-!
# Positions and the text before them

A position is computed from what was read, and a diagnostic goes back from it to a place in the text. The two
are inverse to each other. Text put behind moves no position, and lines put in front move it down.

Main results:
* `Position.after_isBehind`: a position counts the newlines, and the characters behind the last one.
* `Position.textBefore_after`, `Position.span_after`: the place that a position marks.
* `Defect.inSource_inFrontOf`, `Defect.inSource_append`: where a defect lies in two texts put together.
-/

namespace TextTemplate

namespace Position

/-- The position is the one behind `pre`: its line counts the newlines, its column the characters behind the
    last newline. -/
structure IsBehind (p : Position) (pre : Text) : Prop where
  /-- The line. -/
  line : p.line = 1 + pre.count '\n'
  /-- The column. -/
  column : ∃ lines last, pre = lines ++ last ∧ (∀ c ∈ lines.getLast?, c = '\n') ∧ '\n' ∉ last ∧
    p.column = 1 + last.length

theorem after_unlines {ls : List Text} {last : Text} (hls : ∀ l ∈ ls, '\n' ∉ l)
    (hlast : '\n' ∉ last) : after (unlines ls ++ last) = ⟨ls.length + 1, last.length + 1⟩ := by
  have hrun : IsRun isLineChar (unlines ls ++ last).reverse last.reverse (unlines ls).reverse := by
    refine ⟨List.reverse_append, ?_, ?_⟩
    · intro c hc; exact all_isLineChar hlast c (List.mem_reverse.1 hc)
    · intro c hc
      rw [List.head?_reverse] at hc
      rw [getLast?_unlines ls c hc]
      rfl
  rw [after, hrun.takeWhile_eq, List.count_append, count_unlines hls,
    List.count_eq_zero_of_not_mem hlast, List.length_reverse, Nat.add_zero]

theorem after_isBehind (pre : Text) : (after pre).IsBehind pre := by
  obtain ⟨ls, last, rfl, hls, hlast⟩ := exists_lines pre
  rw [after_unlines hls hlast]
  refine ⟨?_, unlines ls, last, rfl, getLast?_unlines ls, hlast, Nat.add_comm _ _⟩
  rw [List.count_append, count_unlines hls, List.count_eq_zero_of_not_mem hlast, Nat.add_zero]
  exact Nat.add_comm _ _

example : after "ab\ncé".toList = ⟨2, 3⟩ := by decide

/-- A diagnostic finds the text before a position again. -/
theorem textBefore_after (pre post : Text) : (after pre).textBefore (pre ++ post) = pre := by
  obtain ⟨ls, last, rfl, hls, hlast⟩ := exists_lines pre
  rw [after_unlines hls hlast, textBefore, List.append_assoc, splitOn_unlines hls]
  simp only [Nat.add_sub_cancel]
  rw [List.take_left, ← unlines, List.take_left, List.drop_left,
    List.takeWhile_append_of_pos (all_isLineChar hlast), List.take_left]

/-- The character behind a position is marked. -/
theorem span_after (pre : Text) (c : Char) (post : Text) :
    (after pre).span (pre ++ c :: post) = ⟨pre.utf8Length, c.utf8Size⟩ := by
  rw [span, byteOffset, textBefore_after, List.drop_left]

/-! ## Two texts put together -/

/-- The position seen with the lines `t` in front. -/
def below (p : Position) (t : Text) : Position := ⟨t.count '\n' + p.line, p.column⟩

theorem after_append {t : Text} (ht : ∀ c ∈ t.getLast?, c = '\n') (s : Text) :
    after (t ++ s) = (after s).below t := by
  obtain ⟨ls, rfl, hls⟩ := exists_unlines ht
  obtain ⟨ls', last, rfl, hls', hlast⟩ := exists_lines s
  have hboth : ∀ l ∈ ls ++ ls', '\n' ∉ l := List.forall_mem_append.2 ⟨hls, hls'⟩
  rw [← List.append_assoc, ← unlines_append, after_unlines hboth hlast, after_unlines hls' hlast,
    below, count_unlines hls, List.length_append, Nat.add_assoc]

/-- Text put behind moves no position. -/
theorem before_append_append (whole rest s : Text) :
    before (whole ++ s) (rest ++ s) = before whole rest := by
  have hlength : (whole ++ s).length - (rest ++ s).length = whole.length - rest.length := by
    rw [List.length_append, List.length_append, Nat.add_sub_add_right]
  rw [before, hlength, List.take_append_of_le_length (Nat.sub_le _ _), before]

/-- Lines put in front move a position down. -/
theorem before_append_left {t : Text} (ht : ∀ c ∈ t.getLast?, c = '\n') {s rest : Text}
    (h : rest <:+ s) : before (t ++ s) rest = (before s rest).below t := by
  obtain ⟨pre, rfl⟩ := h
  rw [← List.append_assoc, before_append, before_append, after_append ht]

end Position

/-- The error seen with the lines `t` in front of the text that it lies in. -/
def SourceError.below (e : SourceError) (t : Text) : SourceError :=
  ⟨⟨e.location.source, e.location.position.below t⟩, e.cause⟩

namespace Defect

/-- The defect seen with `s` behind the text that it lies in. -/
def inFrontOf (s : Text) (d : Defect) : Defect := ⟨d.rest ++ s, d.cause⟩

theorem inSource_inFrontOf (source whole s : Text) (d : Defect) :
    (d.inFrontOf s).inSource source (whole ++ s) = d.inSource source whole := by
  rw [inSource, inFrontOf, Position.before_append_append, inSource]

theorem inSource_append (source : Text) {t : Text} (ht : ∀ c ∈ t.getLast?, c = '\n') {s : Text}
    {d : Defect} (h : d.rest <:+ s) :
    d.inSource source (t ++ s) = (d.inSource source s).below t := by
  rw [inSource, Position.before_append_left ht h, inSource, SourceError.below]

end Defect

end TextTemplate
