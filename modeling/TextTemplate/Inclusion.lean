import TextTemplate.Context
import TextTemplate.EditDistance
import TextTemplate.Template.Evaluation

/-!
# Expansion with includes

A reference stands for what its name is bound to. A directive without words stands for nothing; the one
command there is includes a file, looked for beside the including file and then in the search directories.
The first candidate that exists is expanded in its own context and stands for what it produces. A candidate
that is being expanded already is refused, and so is an include when as many files as allowed are open;
a file that exists and cannot be read ends the whole expansion.

The recursion over includes counts down the files that may still be entered, `Context.levelsLeft`.
-/

namespace TextTemplate

/-- The command that includes a file. -/
def includeCommand : Text := "include-file".toList

/-- The commands that a directive may name. -/
def commands : List Text := [includeCommand]

namespace Context

/-- Fail because of the reference or directive that starts there. -/
def refuse {α : Type} (start : Text) (cause : Cause) : Inquiry Failure α :=
  .fail (.here ⟨start, cause⟩)

/-! ## References -/

/-- What a reference to a name stands for. -/
def lookUp (c : Context) (start name : Text) : Inquiry Failure Text :=
  match c.bindings.get? name with
  | some expansion => pure expansion
  | none => refuse start (.undefinedVariable name (suggestions name c.bindings.names))

/-! ## Includes -/

/-- Expands a file, given its context and its text. -/
abbrev Expander := Context → Text → Inquiry ExpandError Text

/-- Include the first of the candidates that exists. -/
def includeFirst (c : Context) (expander : Expander) (start file : Text) :
    List Path → Inquiry Failure Text
  | [] => refuse start (.includeNotFound file)
  | p :: ps =>
    if c.OnStack p then refuse start (.recursiveInclude (c.stack ++ [p]))
    else .ask ⟨c.stack, p⟩ fun
      | .ok text => (expander (c.enter p) text).mapError .elsewhere
      | .error failure =>
        if failure.kind = .notFound then c.includeFirst expander start file ps
        else .fail (.elsewhere (.unreadable p failure))

/-- Include the file of that name, if another may be entered at all; no expander is given if not. -/
def includeFile (c : Context) (expander : Option Expander) (start file : Text) :
    Inquiry Failure Text :=
  if file = [] then refuse start (.syntaxError .emptyFileName)
  else
    match expander with
    | none => refuse start (.depthExceeded c.maxDepth)
    | some expander => c.includeFirst expander start file (c.candidates ⟨file⟩)

/-- What a directive with those words stands for. -/
def command (c : Context) (expander : Option Expander) (start : Text) :
    List Text → Inquiry Failure Text
  | [] => pure []
  | name :: arguments =>
    if name = includeCommand then
      match arguments with
      | [file] => c.includeFile expander start file
      | _ => refuse start (.includeArity arguments.length)
    else refuse start (.unknownCommand name (suggestions name commands))

/-! ## Expansion -/

/-- What references and directives stand for in a context. -/
def semantics (c : Context) (expander : Option Expander) : Semantics :=
  ⟨c.lookUp, c.command expander⟩

/-- Expand a text which the source of that name holds. -/
def expandWith (c : Context) (expander : Option Expander) (source text : Text) :
    Inquiry ExpandError Text :=
  (evalText (c.semantics expander) text).mapError (Failure.inSource source text)

/-- How an included file is expanded if `levels` more files may be entered: under the name of its path,
    and with one level less for its own includes. -/
def expanderWithin : (levels : Nat) → Option Expander
  | 0 => none
  | levels + 1 => some fun c text => c.expandWith (expanderWithin levels) c.current.text text

/-- Expand a text which the source of that name holds, in a context. The name only stands in errors. -/
def expand (c : Context) (source text : Text) : Inquiry ExpandError Text :=
  c.expandWith (expanderWithin c.levelsLeft) source text

end Context

end TextTemplate
