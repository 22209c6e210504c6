import TextTemplate.Text

/-!
# Positions in a text

Lines and columns count from one; a newline ends a line, and columns count characters.

Results:
* `Position.after_nil`: a text starts on line 1, column 1.
* `Position.after_append_newline`: a newline starts the next line at column 1.
-/

namespace TextTemplate

/-- A line and a column, both counted from one. -/
structure Position where
  /-- The line. -/
  line : Nat
  /-- The column, in characters. -/
  column : Nat
  deriving DecidableEq, Repr

namespace Position

/-- The position that is reached by reading `consumed` from the start of a text. -/
def after (consumed : Text) : Position :=
  ⟨consumed.count '\n' + 1, (consumed.reverse.takeWhile isLineChar).length + 1⟩

/-- The position in `whole` where `rest` is what is left of it. -/
def before (whole rest : Text) : Position := after (whole.take (whole.length - rest.length))

theorem after_nil : after [] = ⟨1, 1⟩ := rfl

theorem after_append_newline (s : Text) : after (s ++ ['\n']) = ⟨(after s).line + 1, 1⟩ := by
  simp [after, isLineChar]

theorem before_append (pre post : Text) : before (pre ++ post) post = after pre := by
  simp [before]

end Position

end TextTemplate
