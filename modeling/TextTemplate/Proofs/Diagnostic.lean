import Mathlib.Algebra.GroupWithZero.Nat
import TextTemplate.Proofs.Position

/-!
# Places that diagnostics mark

A diagnostic counts forwards: over the lines before a position, each with its newline, and then over the characters before
its column. Whatever the line and the column, it arrives between two characters of the text. Behind the last line that
is the end of the text; else it is a place whose position is the given one, brought into the text. So a place is found
again from its own position.

Main results:
* `Text.utf8Length_eq`, `Text.isValid_utf8Length`: lengths in bytes, and where characters start.
* `exists_of_line?`: a text around the line of a position.
* `Position.textBefore_of_line`, `Position.textBefore_of_lines`: the text before a position.
* `Position.after_textBefore`, `Position.byteOffset_eq_sum`: its position again, and its bytes.
* `Diagnostic.span_marks_position`: the place that is marked.
-/

namespace TextTemplate

/-! ## Specification -/

namespace Position

/-- The lines before that of a position, as far as the text has them. -/
def linesBefore (p : Position) (content : Text) : List Text := (content.splitOn '\n').take (p.line - 1)

/-- The line of a position, if the text has so many. -/
def line? (p : Position) (content : Text) : Option Text := (content.splitOn '\n')[p.line - 1]?

end Position

/-! ## Bytes -/

namespace Text

theorem utf8Length_append (s r : Text) : utf8Length (s ++ r) = s.utf8Length + r.utf8Length := by
  induction s with
  | nil => simp [utf8Length]
  | cons c s ih =>
    show c.utf8Size + utf8Length (s ++ r) = c.utf8Size + utf8Length s + r.utf8Length
    rw [ih, Nat.add_assoc]

theorem utf8Length_le_append (s r : Text) : s.utf8Length ≤ utf8Length (s ++ r) := by
  rw [utf8Length_append]
  exact Nat.le_add_right _ _

/-- The bytes of a text are those of the string of its characters. -/
theorem utf8Length_eq (s : Text) : s.utf8Length = (String.ofList s).utf8ByteSize := by
  induction s with
  | nil => rfl
  | cons c s ih =>
    have hcons : String.ofList (c :: s) = String.singleton c ++ String.ofList s := by
      rw [String.singleton_eq_ofList, ← String.ofList_append]
      rfl
    rw [hcons, String.utf8ByteSize_append, String.utf8ByteSize_singleton, ← ih]
    rfl

/-- Behind the bytes of a first part of a text a character starts, or the text ends. -/
theorem isValid_utf8Length (pre post : Text) :
    (String.Pos.Raw.mk pre.utf8Length).IsValid (String.ofList (pre ++ post)) := by
  rw [String.Pos.Raw.isValid_iff_exists_append]
  exact ⟨String.ofList pre, String.ofList post, String.ofList_append,
    congrArg String.Pos.Raw.mk (utf8Length_eq pre)⟩

theorem utf8Length_unlines (ls : List Text) :
    (unlines ls).utf8Length = (ls.map fun l => utf8Length l + 1).sum := by
  induction ls with
  | nil => rfl
  | cons l ls ih =>
    have hcons := unlines_cons l ls []
    rw [List.append_nil, List.append_nil] at hcons
    rw [hcons, utf8Length_append, List.map_cons, List.sum_cons, ← ih, Nat.add_assoc]
    rfl

end Text

/-! ## The line of a position -/

theorem splitOn_lines {ls : List Text} {last : Text} (hls : ∀ l ∈ ls, '\n' ∉ l) (hlast : '\n' ∉ last) :
    (unlines ls ++ last).splitOn '\n' = ls ++ [last] := by
  rw [splitOn_unlines hls, List.splitOn_eq_singleton hlast]

theorem length_splitOn (content : Text) : (content.splitOn '\n').length = content.count '\n' + 1 := by
  obtain ⟨ls, last, rfl, hls, hlast⟩ := exists_lines content
  rw [splitOn_lines hls hlast, List.length_append, List.count_append, count_unlines hls,
    List.count_eq_zero_of_not_mem hlast]
  rfl

/-- All lines, each with a newline, are the text with one newline more. -/
theorem unlines_splitOn (content : Text) : unlines (content.splitOn '\n') = content ++ ['\n'] := by
  obtain ⟨ls, last, rfl, hls, hlast⟩ := exists_lines content
  rw [splitOn_lines hls hlast, unlines_concat]

namespace Position

variable {p : Position} {content l : Text}

/-- A position lies behind the last line or on a line. -/
theorem line?_cases (p : Position) (content : Text) :
    (content.count '\n' + 1 < p.line ∧ p.line? content = none ∧
        p.linesBefore content = content.splitOn '\n') ∨
      p.line ≤ content.count '\n' + 1 ∧ ∃ l, p.line? content = some l := by
  have hlength := length_splitOn content
  rcases Nat.lt_or_ge (content.count '\n' + 1) p.line with hlt | hle
  · have hlong : (content.splitOn '\n').length ≤ p.line - 1 := by omega
    exact .inl ⟨hlt, List.getElem?_eq_none hlong, List.take_of_length_le hlong⟩
  · have hline : p.line - 1 < (content.splitOn '\n').length := by omega
    exact .inr ⟨hle, _, List.getElem?_eq_getElem hline⟩

/-- A text is the lines before one of its lines, that line and what follows it. -/
theorem exists_of_line? (h : p.line? content = some l) :
    ∃ r, content = unlines (p.linesBefore content) ++ (l ++ r) ∧ FollowsLine r ∧ '\n' ∉ l ∧
      (p.linesBefore content).length = p.line - 1 ∧ ∀ m ∈ p.linesBefore content, '\n' ∉ m := by
  obtain ⟨ls, last, rfl, hls, hlast⟩ := exists_lines content
  unfold line? at h
  unfold linesBefore
  generalize p.line - 1 = n at h ⊢
  rw [splitOn_lines hls hlast] at h ⊢
  rcases Nat.lt_or_ge n ls.length with hn | hn
  · obtain ⟨before, m, after, rfl, rfl⟩ : ∃ before m after, ls = before ++ m :: after ∧ before.length = n :=
      ⟨ls.take n, ls[n], ls.drop (n + 1), by simp, by simp; omega⟩
    obtain ⟨hbefore, hafter⟩ := List.forall_mem_append.1 hls
    obtain rfl : m = l := by simpa using h
    rw [List.append_assoc, List.take_left]
    refine ⟨'\n' :: (unlines after ++ last), ?_, .newline _, (List.forall_mem_cons.1 hafter).1, rfl, hbefore⟩
    rw [unlines_append, List.append_assoc, unlines_cons]
  · obtain ⟨rfl, rfl⟩ : n = ls.length ∧ last = l := by
      obtain ⟨k, rfl⟩ := Nat.exists_eq_add_of_le hn
      cases k with
      | zero => exact ⟨rfl, by simpa using h⟩
      | succ k => simp at h
    rw [List.take_left]
    exact ⟨[], by simp, .nil, hlast, rfl, hls⟩

/-! ## The text before a position -/

theorem textBefore_eq (p : Position) (content : Text) :
    p.textBefore content = content.take (unlines (p.linesBefore content)).length ++
      ((content.drop (unlines (p.linesBefore content)).length).takeWhile isLineChar).take (p.column - 1) := rfl

/-- On a line, the text before a position is the lines before and of the line what lies before the column. -/
theorem textBefore_of_line (h : p.line? content = some l) :
    p.textBefore content = unlines (p.linesBefore content) ++ l.take (p.column - 1) := by
  obtain ⟨r, hcontent, hr, hl, -⟩ := exists_of_line? h
  have hrun : IsRun isLineChar l l [] := ⟨by simp, all_isLineChar hl, by simp⟩
  have htake := congrArg (List.take (unlines (p.linesBefore content)).length) hcontent
  have hdrop := congrArg (List.drop (unlines (p.linesBefore content)).length) hcontent
  rw [List.take_left] at htake
  rw [List.drop_left] at hdrop
  rw [textBefore_eq, htake, hdrop, (hrun.append rfl hr).takeWhile_eq]

/-- Behind the last line, the text before a position is all of the text. -/
theorem textBefore_of_lines (h : p.linesBefore content = content.splitOn '\n') : p.textBefore content = content := by
  have hlength : content.length ≤ (unlines (p.linesBefore content)).length := by
    rw [h, unlines_splitOn, List.length_append]
    exact Nat.le_add_right _ _
  rw [textBefore_eq, List.take_of_length_le hlength, List.drop_eq_nil_of_le hlength]
  simp

theorem textBefore_prefix (p : Position) (content : Text) : p.textBefore content <+: content := by
  rcases p.line?_cases content with ⟨-, -, hlines⟩ | ⟨-, l, hline⟩
  · exact ⟨[], by rw [textBefore_of_lines hlines, List.append_nil]⟩
  · obtain ⟨r, hcontent, -⟩ := exists_of_line? hline
    refine ⟨l.drop (p.column - 1) ++ r, ?_⟩
    rw [textBefore_of_line hline, List.append_assoc, ← List.append_assoc (l.take _), List.take_append_drop,
      ← hcontent]

/-- Behind the text before a position is that position, brought into the text. -/
theorem after_textBefore (h : p.line? content = some l) :
    after (p.textBefore content) = ⟨max p.line 1, min (max p.column 1) (1 + l.length)⟩ := by
  obtain ⟨r, -, -, hl, hlength, hlines⟩ := exists_of_line? h
  have htake : '\n' ∉ l.take (p.column - 1) := fun h => hl (List.mem_of_mem_take h)
  rw [textBefore_of_line h, after_unlines hlines htake, hlength, List.length_take]
  congr 1 <;> omega

/-- The bytes before a position are those of the lines before, each with its newline, but not more than there are, and
    those of the characters before the column. -/
theorem byteOffset_eq_sum (p : Position) (content : Text) :
    p.byteOffset content =
      min ((p.linesBefore content).map fun l => Text.utf8Length l + 1).sum content.utf8Length +
        Text.utf8Length (((p.line? content).getD []).take (p.column - 1)) := by
  rw [← Text.utf8Length_unlines, byteOffset]
  rcases p.line?_cases content with ⟨-, hnone, hlines⟩ | ⟨-, l, hline⟩
  · rw [textBefore_of_lines hlines, hnone, hlines, unlines_splitOn,
      Nat.min_eq_right (Text.utf8Length_le_append content ['\n']), Option.getD_none, List.take_nil]
    rfl
  · obtain ⟨r, hcontent, -⟩ := exists_of_line? hline
    have hbytes := Text.utf8Length_le_append (unlines (p.linesBefore content)) (l ++ r)
    rw [← hcontent] at hbytes
    rw [textBefore_of_line hline, Text.utf8Length_append, hline, Nat.min_eq_left hbytes, Option.getD_some]

example : (⟨1, 9⟩ : Position).byteOffset "aé\nb".toList = 3 := by decide

/-- What is marked is the text before the position, by its length, and the character behind it, if there is one. -/
theorem span_of_textBefore {pre post : Text} (h : p.textBefore (pre ++ post) = pre) :
    p.span (pre ++ post) = ⟨pre.utf8Length, Text.utf8Length (post.take 1)⟩ := by
  rw [span, byteOffset, h, List.drop_left]
  cases post <;> rfl

end Position

/-! ## Main theorem -/

/-- Whatever the position of an error, a diagnostic marks a place between two characters of the text and the character
    behind it, if there is one. The place is counted in bytes over lines and characters. If the text has fewer lines, it
    is the end of the text; else its position is that of the error, brought into the text. So an error at the
    position of a place is marked there. -/
theorem Diagnostic.span_marks_position (source : Text) (p : Position) (cause : Cause) (content : Text) :
    ∃ pre post, content = pre ++ post ∧
      (ofError ⟨⟨source, p⟩, cause⟩ (some content)).span = some ⟨pre.utf8Length, Text.utf8Length (post.take 1)⟩ ∧
      p.byteOffset content = pre.utf8Length ∧
      p.byteOffset content =
        min ((p.linesBefore content).map fun l => Text.utf8Length l + 1).sum content.utf8Length +
          Text.utf8Length (((p.line? content).getD []).take (p.column - 1)) ∧
      p.byteOffset content ≤ content.utf8Length ∧
      (String.Pos.Raw.mk (p.byteOffset content)).IsValid (String.ofList content) ∧
      (String.Pos.Raw.mk (p.byteOffset content + Text.utf8Length (post.take 1))).IsValid (String.ofList content) ∧
      (content.count '\n' + 1 < p.line → p.byteOffset content = content.utf8Length ∧ post = []) ∧
      (p.line ≤ content.count '\n' + 1 → ∃ l, p.line? content = some l ∧
        Position.before content post = ⟨max p.line 1, min (max p.column 1) (1 + l.length)⟩) ∧
      ∀ pre' post', content = pre' ++ post' → p = Position.before content post' →
        pre = pre' ∧ post = post' := by
  obtain ⟨pre, hpre⟩ : ∃ pre, p.textBefore content = pre := ⟨_, rfl⟩
  obtain ⟨post, hcontent⟩ := p.textBefore_prefix content
  rw [hpre] at hcontent
  subst hcontent
  have hoffset : p.byteOffset (pre ++ post) = pre.utf8Length := congrArg Text.utf8Length hpre
  have hend : Text.utf8Length (pre ++ post.take 1) = pre.utf8Length + Text.utf8Length (post.take 1) :=
    Text.utf8Length_append _ _
  have hsplit : pre ++ post = pre ++ post.take 1 ++ post.drop 1 := by
    rw [List.append_assoc, List.take_append_drop]
  refine ⟨pre, post, rfl, congrArg some (Position.span_of_textBefore hpre), hoffset, p.byteOffset_eq_sum _, ?_, ?_, ?_,
    ?_, ?_, ?_⟩
  · rw [hoffset]
    exact Text.utf8Length_le_append pre post
  · rw [hoffset]
    exact Text.isValid_utf8Length pre post
  · rw [hoffset, ← hend, hsplit]
    exact Text.isValid_utf8Length _ _
  · intro hlt
    rcases p.line?_cases (pre ++ post) with ⟨-, -, hlines⟩ | ⟨hle, -⟩
    · rw [Position.textBefore_of_lines hlines] at hpre
      rw [List.append_right_eq_self.1 hpre, List.append_nil] at hoffset ⊢
      exact ⟨hoffset, rfl⟩
    · exact absurd hle (Nat.not_le.2 hlt)
  · intro hle
    rcases p.line?_cases (pre ++ post) with ⟨hlt, -⟩ | ⟨-, l, hline⟩
    · exact absurd hle (Nat.not_le.2 hlt)
    · refine ⟨l, hline, ?_⟩
      rw [Position.before_append, ← Position.after_textBefore hline, hpre]
  · intro pre' post' hsplit' hp
    have hplace : p = .after pre' := by rw [hp, hsplit', Position.before_append]
    have hfound : p.textBefore (pre ++ post) = pre' := by
      rw [hsplit', hplace, Position.textBefore_after]
    obtain rfl : pre = pre' := hpre.symm.trans hfound
    exact ⟨rfl, List.append_cancel_left hsplit'⟩

end TextTemplate
