import TextTemplate.CommandLine.Settings
import TextTemplate.Context

/-!
# Invocations

What the arguments ask of the program. Options that hold for all commands may stand before or behind the
command; behind it, words and options may mix. Tokens are taken one by one, so the first of several errors
counts, and a request for the version only if no error stands before it.
-/

namespace TextTemplate.CommandLine

/-! ## Commands -/

/-- What a command expands, and how it finds includes. -/
structure Source where
  /-- The bindings file. -/
  bindings : Path
  /-- The template file. -/
  template : Path
  /-- The directories searched for includes. -/
  searchDirs : List Path
  /-- How many files may be open at once. -/
  maxDepth : Nat
  deriving DecidableEq, Repr

/-- What a user wants done. -/
inductive Command where
  /-- Expand a template, into a file or to the output. -/
  | expand (source : Source) (output : Option Path)
  /-- Expand a template and report whether that succeeds. -/
  | check (source : Source) (json : Bool)
  /-- List the bindings in a file. -/
  | vars (bindings : Path) (json : Bool)
  deriving DecidableEq, Repr

/-- What a user asks of the program. -/
inductive Invocation where
  /-- Print the version. -/
  | version
  /-- Do something, with output in colour or not. -/
  | command (color : ColorWhen) (command : Command)
  deriving DecidableEq, Repr

/-- The names of commands. -/
inductive CommandName where
  | expand
  | check
  | vars
  deriving DecidableEq, Repr

namespace CommandName

/-- The command that a word names. -/
def ofText? (t : Text) : Option CommandName :=
  if t = "expand".toList then some expand
  else if t = "check".toList then some check
  else if t = "vars".toList then some vars
  else none

/-- The options that may stand behind a command. -/
def options : CommandName → List Opt
  | expand => [.color, .verbose, .output, .includeDir, .maxDepth]
  | check => [.color, .verbose, .includeDir, .maxDepth, .json]
  | vars => [.color, .verbose, .json]

/-- How many words a command takes. -/
def arity : CommandName → Nat
  | expand | check => 2
  | vars => 1

end CommandName

/-- The options that may stand before the command. -/
def globalOptions : List Opt := [.color, .verbose, .version]

/-! ## Reading the arguments -/

/-- Take the options and words behind a command. -/
def takeTokens (arity : Nat) (s : Settings) : List Token → Except UsageError Settings
  | [] => .ok s
  | .wrong e :: _ => .error e
  | .option o value :: ts =>
    match s.add o (value.getD []) with
    | .error e => .error e
    | .ok s => takeTokens arity s ts
  | .word w _ :: ts | .literal w :: ts =>
    match s.addWord arity w with
    | .error e => .error e
    | .ok s => takeTokens arity s ts

/-- The search directories: those given as options, else those of the environment, else none. -/
def searchDirs (s : Settings) (includePath : Option Text) : Except UsageError (List Path) :=
  match s.searchDirs, includePath with
  | some ps, _ => .ok ps
  | none, none => .ok []
  | none, some t =>
    match pathList? t with
    | some ps => .ok ps
    | none => .error (.invalidValue .includeDir t)

/-- The command that a name and the settings behind it make. -/
def CommandName.command (name : CommandName) (s : Settings) (includePath : Option Text) :
    Except UsageError Command :=
  let depth := s.maxDepth.getD defaultMaxDepth
  match name, s.words with
  | .expand, [bindings, template] =>
    (searchDirs s includePath).map fun ps => .expand ⟨bindings, template, ps, depth⟩ s.output
  | .check, [bindings, template] =>
    (searchDirs s includePath).map fun ps => .check ⟨bindings, template, ps, depth⟩ s.json
  | .vars, [bindings] => .ok (.vars bindings s.json)
  | _, _ => .error .missingWord

/-- Read the arguments behind a command, given what options before it have set. -/
def readCommand (outer : Settings) (name : CommandName) (includePath : Option Text)
    (arguments : List Text) : Except UsageError Invocation :=
  match takeTokens name.arity {} (tokens name.options none arguments) with
  | .error e => .error e
  | .ok s =>
    let color := (s.color.or outer.color).getD .auto
    (name.command s includePath).map (.command color)

/-- Take the options before the command, and then the command. -/
def takeGlobal (includePath : Option Text) (s : Settings) :
    List Token → Except UsageError Invocation
  | [] => .error .noCommand
  | .wrong e :: _ => .error e
  | .option .version _ :: _ => .ok .version
  | .option o value :: ts =>
    match s.add o (value.getD []) with
    | .error e => .error e
    | .ok s => takeGlobal includePath s ts
  | .word w after :: _ =>
    match CommandName.ofText? w with
    | some name => readCommand s name includePath after
    | none => .error (.unknownCommand w)
  | .literal w :: _ => .error (.needlessWord w)

/-- What arguments ask of the program, where `includePath` are the search directories of the environment,
    between colons. -/
def Invocation.ofArguments (arguments : List Text) (includePath : Option Text) :
    Except UsageError Invocation :=
  takeGlobal includePath {} (tokens globalOptions none arguments)

end TextTemplate.CommandLine
