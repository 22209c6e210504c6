import TextTemplate.Bindings.Json
import TextTemplate.CommandLine.Invocation
import TextTemplate.Diagnostic
import TextTemplate.Session
import TextTemplate.Table

/-!
# Commands

A command asks for the files that it needs and ends in an outcome: what to print and the exit code, or a text
to write to a file. It loads the bindings before it reads the template, and of an expansion that fails it
prints and writes nothing.
-/

namespace TextTemplate.CommandLine

/-! ## Exit codes -/

/-- The exit code of a program that did its work. -/
def exitOk : Nat := 0

/-- The exit code of a failed expansion: one for a text that is refused, one for a file that cannot be
    read. -/
def exitCode : ExpandError → Nat
  | .source _ => 65
  | .unreadable _ _ => 74

/-! ## Outcomes -/

/-- What a program does in the end. -/
inductive Outcome where
  /-- It prints to the output and to the error output, and exits with a code. -/
  | exit (code : Nat) (output report : Text)
  /-- It writes a text to a file. -/
  | write (path : Path) (text : Text)
  deriving DecidableEq, Repr

/-- What is reported of a failed expansion: the error, and the names that may have been meant. -/
def report : ExpandError → Text
  | .source error =>
    let d := Diagnostic.ofError error none
    d.display ++ '\n' :: (match d.help with
      | some help => "help: ".toList ++ help ++ ['\n']
      | none => [])
  | error => error.display ++ ['\n']

/-- Exit because an expansion failed. -/
def Outcome.failed (error : ExpandError) : Outcome := .exit (exitCode error) [] (report error)

/-! ## Commands -/

/-- Load the bindings of a source and expand its template. -/
def Source.expand (s : Source) : Inquiry ExpandError Text :=
  (Session.loadFile s.bindings).bind fun bindings =>
    Session.expandFile ⟨bindings, s.searchDirs, s.maxDepth⟩ s.template

/-- An error as JSON: its words, and where it lies if it lies in a source. -/
def errorJson : ExpandError → Json
  | .source e =>
    .object ([("message".toList, .string e.cause.message),
        ("source".toList, .string e.location.source),
        ("line".toList, .number e.location.position.line),
        ("column".toList, .number e.location.position.column)] ++
      (match e.cause.suggestions with
        | [] => []
        | names => [("suggestions".toList, .array (names.map .string))]))
  | error => .object [("message".toList, .string error.display)]

/-- The result of a check as JSON. -/
def checkJson : Except ExpandError Text → Json
  | .ok _ => .object [("ok".toList, .bool true)]
  | .error e => .object [("ok".toList, .bool false), ("error".toList, errorJson e)]

/-- The exit code of a check. -/
def checkCode : Except ExpandError Text → Nat
  | .ok _ => exitOk
  | .error e => exitCode e

/-- The word that reports a successful check, in green if the output is coloured. -/
def okWord (colored : Bool) : Text :=
  if colored then "\x1b[32mok\x1b[39m".toList else "ok".toList

/-- What a command does, where its output is coloured or not. -/
def Command.run (colored : Bool) : Command → Inquiry Empty Outcome
  | .expand source output => source.expand.attempt.bind fun
    | .error e => .pure (.failed e)
    | .ok text =>
      match output with
      | some path => .pure (.write path text)
      | none => .pure (.exit exitOk text [])
  | .check source json => source.expand.attempt.bind fun result =>
    if json then .pure (.exit (checkCode result) ((checkJson result).pretty ++ ['\n']) [])
    else
      match result with
      | .ok _ => .pure (.exit exitOk (okWord colored ++ ' ' :: source.template.text ++ ['\n']) [])
      | .error e => .pure (.failed e)
  | .vars bindings json => (Session.loadFile bindings).attempt.bind fun
    | .error e => .pure (.failed e)
    | .ok b =>
      .pure (.exit exitOk ((if json then b.toJson.pretty else b.table.render) ++ ['\n']) [])

end TextTemplate.CommandLine
