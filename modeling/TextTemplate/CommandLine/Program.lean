import TextTemplate.CommandLine.Command
import TextTemplate.Files.Tree

/-!
# The program

The program reads its arguments, does what they ask for and ends in an outcome. `runIn` runs it in a tree of
files and says what it leaves behind.
-/

namespace TextTemplate.CommandLine

/-- The exit code of a program whose arguments are refused. -/
def exitUsage : Nat := 2

/-- The exit code of a program that could not write its output. -/
def exitCannotCreate : Nat := 73

/-- The name and version of the program. -/
def versionText : Text := "expando 0.1.0\n".toList

/-- What is reported of refused arguments. -/
def UsageError.report : UsageError → Text
  | .unknownOption argument => "unknown option: ".toList ++ argument ++ ['\n']
  | .missingValue opt => "missing value: ".toList ++ opt.long ++ ['\n']
  | .needlessValue opt => "option without value: ".toList ++ opt.long ++ ['\n']
  | .repeatedOption opt => "repeated option: ".toList ++ opt.long ++ ['\n']
  | .invalidValue opt value => "invalid value for ".toList ++ opt.long ++ ": ".toList ++ value ++ ['\n']
  | .emptyWord => "empty path\n".toList
  | .noCommand => "missing command\n".toList
  | .unknownCommand name => "unknown command: ".toList ++ name ++ ['\n']
  | .missingWord => "missing path\n".toList
  | .needlessWord word => "unexpected argument: ".toList ++ word ++ ['\n']

/-- What the program finds around it. -/
structure Environment where
  /-- The search directories that it names, between colons. -/
  includePath : Option Text := none
  /-- Whether the output goes to a terminal. -/
  terminal : Bool := false
  deriving DecidableEq, Repr

/-- Whether the output is coloured. -/
def ColorWhen.holds (terminal : Bool) : ColorWhen → Bool
  | .auto => terminal
  | .always => true
  | .never => false

/-- What the program does with its arguments. -/
def program (environment : Environment) (arguments : List Text) : Inquiry Empty Outcome :=
  match Invocation.ofArguments arguments environment.includePath with
  | .error e => .pure (.exit exitUsage [] e.report)
  | .ok .version => .pure (.exit exitOk versionText [])
  | .ok (.command color command) => command.run (color.holds environment.terminal)

/-! ## In a tree -/

/-- What a program leaves behind: its exit code, its output and the tree. -/
structure Aftermath where
  /-- The exit code. -/
  code : Nat
  /-- What it printed. -/
  output : Text
  /-- The files after it. -/
  tree : FileTree

/-- Carry out an outcome in a tree. A file that cannot be written changes nothing. -/
def Outcome.perform (tree : FileTree) : Outcome → Aftermath
  | .exit code output _ => ⟨code, output, tree⟩
  | .write path text =>
    match tree.write? path text with
    | .ok tree' => ⟨exitOk, [], tree'⟩
    | .error _ => ⟨exitCannotCreate, [], tree⟩

/-- Run the program in a tree. -/
def runIn (tree : FileTree) (environment : Environment) (arguments : List Text) : Aftermath :=
  match ((program environment arguments).run tree.read).result with
  | .ok outcome => outcome.perform tree

end TextTemplate.CommandLine
