import TextTemplate.Error

/-!
# Diagnostics

A diagnostic shows an error to a user: its location and words, the names that may have been meant, and, where
the text of the source is at hand, the character that it points at, by byte offset and length in UTF-8. A
position beyond a line points at its end, and one beyond the text at the end of the text.
-/

namespace TextTemplate

/-- The part of a text before a position: whole lines up to the position's line, and characters of that line
    up to its column, as far as they go. -/
def Position.textBefore (p : Position) (content : Text) : Text :=
  let start := (((content.splitOn '\n').take (p.line - 1)).flatMap (· ++ ['\n'])).length
  content.take start ++ ((content.drop start).takeWhile isLineChar).take (p.column - 1)

/-- The byte offset of a position in a text. -/
def Position.byteOffset (p : Position) (content : Text) : Nat := (p.textBefore content).utf8Length

/-- Where a text is marked: a byte offset, and the bytes of the character there, none at the end. -/
structure Span where
  /-- The bytes before the mark. -/
  offset : Nat
  /-- The bytes marked. -/
  length : Nat
  deriving DecidableEq, Repr

/-- The character at a position, as a span. -/
def Position.span (p : Position) (content : Text) : Span :=
  ⟨p.byteOffset content,
    match content.drop (p.textBefore content).length with
    | [] => 0
    | c :: _ => c.utf8Size⟩

/-- The question whether some name was meant. -/
def suggestionHelp : List Text → Option Text
  | [] => none
  | [name] => some ("did you mean '".toList ++ name ++ "'?".toList)
  | names =>
    some ("did you mean one of: ".toList ++
      ", ".toList.intercalate (names.map fun n => '\'' :: n ++ ['\'']) ++ ['?'])

/-- An error as it is shown to a user. -/
structure Diagnostic where
  /-- The location and the words. -/
  display : Text
  /-- A question that may help. -/
  help : Option Text
  /-- The place in the source, if its text is known. -/
  span : Option Span
  deriving DecidableEq, Repr

/-- The diagnostic of an error, given the text of its source if it is known. -/
def Diagnostic.ofError (e : SourceError) (content : Option Text) : Diagnostic where
  display := e.display
  help := suggestionHelp e.cause.suggestions
  span := content.map e.location.position.span

end TextTemplate
