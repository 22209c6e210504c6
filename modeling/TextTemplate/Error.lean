import TextTemplate.Fault
import TextTemplate.Path
import TextTemplate.Position

/-!
# Errors

What can go wrong is a `Cause`; with the text left where it lies it is a `Defect`, and with the name of its
source and a line and column it is a `SourceError`. An expansion fails with a `SourceError` or because a
file could not be read, a `ReadFailure`. Each has its words in one function, `message`.
-/

namespace TextTemplate

/-! ## Causes -/

/-- Why bindings or a template are refused. -/
inductive Cause where
  /-- The text follows no rule of the grammar. -/
  | syntaxError (error : SyntaxError)
  /-- Bindings define a name a second time. -/
  | redefinition (name : Text)
  /-- A reference names nothing that is bound; `suggestions` are bound names like it. -/
  | undefinedVariable (name : Text) (suggestions : List Text)
  /-- A directive's first word names no command; `suggestions` are commands like it. -/
  | unknownCommand (name : Text) (suggestions : List Text)
  /-- An include directive has `got` arguments, and not one. -/
  | includeArity (got : Nat)
  /-- No file of that name exists beside the including file or in a search directory. -/
  | includeNotFound (file : Text)
  /-- An include leads back to a file that is being expanded: the files, outermost first. -/
  | recursiveInclude (chain : List Path)
  /-- As many files as allowed are being expanded already. -/
  | depthExceeded (limit : Nat)
  deriving DecidableEq, Repr

namespace Cause

/-- The words in which a cause is reported. -/
def message : Cause → Text
  | .syntaxError error => error.message
  | .redefinition name => "attempt to redefine `".toList ++ name ++ ['`']
  | .undefinedVariable name _ => "undefined variable `".toList ++ name ++ ['`']
  | .unknownCommand name _ => "unknown command `".toList ++ name ++ ['`']
  | .includeArity _ => "include-file command takes exactly one argument".toList
  | .includeNotFound file => "could not find include file `".toList ++ file ++ ['`']
  | .recursiveInclude chain =>
    "recursive includes: ".toList ++ " -> ".toList.intercalate (chain.map Path.text)
  | .depthExceeded limit =>
    "maximum recursion depth of ".toList ++ Text.ofNat limit ++ " reached".toList

/-- The names that may have been meant. -/
def suggestions : Cause → List Text
  | .undefinedVariable _ suggestions => suggestions
  | .unknownCommand _ suggestions => suggestions
  | _ => []

end Cause

/-! ## Errors in a source -/

/-- A line and column in a named source. -/
structure Location where
  /-- The name of the source, usually the path of a file. -/
  source : Text
  /-- The place in it. -/
  position : Position
  deriving DecidableEq, Repr

/-- A location as it is shown: source, line and column between colons. -/
def Location.display (l : Location) : Text :=
  l.source ++ ':' :: Text.ofNat l.position.line ++ ':' :: Text.ofNat l.position.column

/-- A cause and where it lies. -/
structure SourceError where
  /-- Where. -/
  location : Location
  /-- Why. -/
  cause : Cause
  deriving DecidableEq, Repr

/-- An error as it is shown: its location, a colon and the words of its cause. -/
def SourceError.display (e : SourceError) : Text :=
  e.location.display ++ ": ".toList ++ e.cause.message

/-- A cause and the text that was left where it lies. -/
structure Defect where
  /-- What was left of the text. -/
  rest : Text
  /-- Why the text is refused. -/
  cause : Cause
  deriving DecidableEq, Repr

/-- The defect of a text that its reader could not read. -/
def Fault.defect (f : Fault) : Defect := ⟨f.rest, .syntaxError f.error⟩

/-- A defect of the text `whole`, which the source of that name holds. -/
def Defect.inSource (source whole : Text) (d : Defect) : SourceError :=
  ⟨⟨source, .before whole d.rest⟩, d.cause⟩

/-! ## Failures to read a file -/

/-- The kinds of failure to read a file. -/
inductive ReadFailure.Kind where
  | notFound
  | permissionDenied
  | invalidData
  | invalidInput
  | isADirectory
  | notADirectory
  | invalidFileName
  | interrupted
  | unexpectedEnd
  | timedOut
  | other
  deriving DecidableEq, Repr

/-- What a kind of failure is called where nothing more is known. -/
def ReadFailure.Kind.description : ReadFailure.Kind → Text
  | .notFound => "entity not found".toList
  | .permissionDenied => "permission denied".toList
  | .invalidData => "invalid data".toList
  | .invalidInput => "invalid input parameter".toList
  | .isADirectory => "is a directory".toList
  | .notADirectory => "not a directory".toList
  | .invalidFileName => "invalid filename".toList
  | .interrupted => "operation interrupted".toList
  | .unexpectedEnd => "unexpected end of file".toList
  | .timedOut => "timed out".toList
  | .other => "other error".toList

/-- A failure to read a file. -/
structure ReadFailure where
  /-- Its kind, which says whether the file exists at all. -/
  kind : ReadFailure.Kind
  /-- The words for it. -/
  description : Text
  deriving DecidableEq, Repr

/-- The failure of a kind of which nothing more is known. -/
def ReadFailure.ofKind (kind : Kind) : ReadFailure := ⟨kind, kind.description⟩

/-! ## Failed expansions -/

/-- Why an expansion failed. -/
inductive ExpandError where
  /-- A text is refused. -/
  | source (error : SourceError)
  /-- A file could not be read. -/
  | unreadable (path : Path) (failure : ReadFailure)
  deriving DecidableEq, Repr

/-- A failed expansion as it is shown. -/
def ExpandError.display : ExpandError → Text
  | .source error => error.display
  | .unreadable path failure =>
    "failed to read '".toList ++ path.text ++ "': ".toList ++ failure.description

end TextTemplate
