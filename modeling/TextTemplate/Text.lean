/-!
# Text and what is read off its front

A text is a list of Unicode characters; reading is recursion on it, and the place of a reader is the
text it has still to read. A `Reading` pairs what was read with that rest and a bound on its length,
which is what makes the recursive readers end.

Results:
* `length_dropWhile_le`: skipping a run never lengthens a text.
* `length_le_of_comment?`: a comment takes at least its two dashes.
-/

namespace TextTemplate

/-- A text: Unicode characters in reading order. -/
abbrev Text := List Char

namespace Text

/-- The decimal digits of a number. -/
def ofNat (n : Nat) : Text := Nat.toDigits 10 n

/-- The number of bytes of a text in UTF-8. -/
def utf8Length (s : Text) : Nat := s.foldr (fun c n => c.utf8Size + n) 0

end Text

/-! ## Runs of characters -/

/-- The space. -/
def isSpace (c : Char) : Bool := c == ' '

/-- The characters of indentation: space and tab. -/
def isBlank (c : Char) : Bool := c == ' ' || c == '\t'

/-- The characters between words and between bindings: space and newline. -/
def isGap (c : Char) : Bool := c == ' ' || c == '\n'

/-- Any character but the newline: the characters of a line, and of a comment. -/
def isLineChar (c : Char) : Bool := c != '\n'

/-- The two characters that open and close a quoted string. -/
def isQuote (c : Char) : Bool := c == '"' || c == '\''

/-- The characters which, besides control characters and the space, end a bareword. -/
def barewordDelimiters : Text := ['"', '$', '\'', '(', ')', '[', '\\', ']', '{', '|', '}']

/-- The characters of an unquoted name: all above the space that are no delimiter. -/
def isBarewordChar (c : Char) : Bool := ' ' < c && !barewordDelimiters.contains c

/-- The characters of an unquoted stretch of a binding's value: from the space on, without quotes,
    `$` and DEL. -/
def isValueChar (c : Char) : Bool :=
  ' ' ≤ c && !isQuote c && c != '$' && c != '\x7f'

/-- The characters of literal template text: all but `$` and the newline. -/
def isLiteralChar (c : Char) : Bool := c != '$' && c != '\n'

/-- What two dashes open at the front of a text: a comment, which ends before the next newline or
    with the text. The rest after the comment, or nothing where no comment starts. -/
def comment? : Text → Option Text
  | '-' :: '-' :: r => some (r.dropWhile isLineChar)
  | _ => none

theorem length_dropWhile_le (p : Char → Bool) (s : Text) : (s.dropWhile p).length ≤ s.length :=
  (List.dropWhile_sublist p).length_le

theorem length_le_of_comment? {s r : Text} (h : comment? s = some r) : r.length + 2 ≤ s.length := by
  unfold comment? at h
  split at h
  · rename_i u
    have := length_dropWhile_le isLineChar u
    cases h
    simpa using this
  · cases h

/-! ## Readings -/

/-- A value read off the front of a text, and the rest that follows it, shorter than `bound`. -/
structure Reading (α : Type) (bound : Nat) where
  /-- What was read. -/
  value : α
  /-- The text after it. -/
  rest : Text
  /-- The rest is shorter than the bound. -/
  length_lt : rest.length < bound

end TextTemplate
