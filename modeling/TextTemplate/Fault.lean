import TextTemplate.Text

/-!
# Syntax errors and where they lie

A reader that cannot go on says what it missed (`SyntaxError`) and what was left of the text there
(`Fault`). The place is the rest and not a number: it stays the same when text is put in front.

Results:
* `exists_of_map_eq_ok`, `error_of_map_eq_error`: what a mapped attempt yields comes from what the attempt yields.
-/

namespace TextTemplate

/-- What a reader missed or could not accept. -/
inductive SyntaxError where
  /-- A quoted string ends at a control character or with the text. -/
  | unterminatedString
  /-- A backslash in a quoted string starts no escape. -/
  | unsupportedEscape
  /-- A line of bindings starts with no name. -/
  | noBindingName
  /-- A binding's name is followed by no value. -/
  | noBindingValue
  /-- A binding's value is followed by neither a newline nor a comment. -/
  | noEndOfLine
  /-- A dollar sign starts no expansion. -/
  | noExpansion
  /-- A word was due in a directive. -/
  | noDirectiveWord
  /-- A directive's word is followed by neither a separator nor the closing parenthesis. -/
  | noDirectiveEnd
  /-- A variable reference holds no name. -/
  | noVariableName
  /-- A variable reference's name is not followed by the closing brace. -/
  | noVariableEnd
  /-- An include directive's file name is empty. -/
  | emptyFileName
  /-- An error that its finder describes. -/
  | described (message : Text)
  deriving DecidableEq, Repr

/-- The words in which a syntax error is reported. -/
def SyntaxError.message : SyntaxError → Text
  | .unterminatedString => "unterminated quoted string".toList
  | .unsupportedEscape => "unsupported escape sequence".toList
  | .noBindingName => "expected binding name".toList
  | .noBindingValue => "expected binding value".toList
  | .noEndOfLine => "expected end of line".toList
  | .noExpansion =>
    "invalid expansion: expected `(`, `\x7b`, `$`, `--` or a newline after `$`".toList
  | .noDirectiveWord => "expected directive name or argument".toList
  | .noDirectiveEnd => "expected `)` to close directive".toList
  | .noVariableName => "expected variable name".toList
  | .noVariableEnd => "expected `\x7d`".toList
  | .emptyFileName => "include-file needs a non-empty file name".toList
  | .described message => message

/-- A syntax error and the text that was left where it was found. -/
structure Fault where
  /-- What the reader had still to read. -/
  rest : Text
  /-- What it missed. -/
  error : SyntaxError
  deriving DecidableEq, Repr

theorem exists_of_map_eq_ok {x : Except ε α} {f : α → β} {b : β} (h : x.map f = .ok b) :
    ∃ a, x = .ok a ∧ f a = b := by
  cases x with
  | error e => cases h
  | ok a => exact ⟨a, rfl, Except.ok.inj h⟩

theorem error_of_map_eq_error {x : Except ε α} {f : α → β} {e : ε} (h : x.map f = .error e) :
    x = .error e := by
  cases x with
  | error e' => exact congrArg Except.error (Except.error.inj h)
  | ok a => cases h

end TextTemplate
