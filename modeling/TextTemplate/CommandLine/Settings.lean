import TextTemplate.CommandLine.Token
import TextTemplate.Path

/-!
# Settings

What options and words set, one after the other. An option may be given once, but for search directories,
which add up. A path is a text that is not empty, search directories are paths between colons, and a number
has decimal digits, a plus sign before them if one likes, and at most 64 bits.
-/

namespace TextTemplate.CommandLine

/-- When to colour the output. -/
inductive ColorWhen where
  /-- If it goes to a terminal. -/
  | auto
  /-- Always. -/
  | always
  /-- Never. -/
  | never
  deriving DecidableEq, Repr

/-- What options and words have set so far. -/
structure Settings where
  /-- When to colour the output. -/
  color : Option ColorWhen := none
  /-- Report more on the error output. -/
  verbose : Bool := false
  /-- The output file. -/
  output : Option Path := none
  /-- The search directories. -/
  searchDirs : Option (List Path) := none
  /-- How many files may be open at once. -/
  maxDepth : Option Nat := none
  /-- Print JSON. -/
  json : Bool := false
  /-- The words. -/
  words : List Path := []
  deriving DecidableEq, Repr

/-- The path that a text spells; the empty text spells none. -/
def path? (t : Text) : Option Path := if t = [] then none else some ⟨t⟩

/-- The paths between colons. -/
def pathList? (t : Text) : Option (List Path) := (t.splitOn ':').mapM path?

/-- The number that decimal digits spell, behind a plus sign or without, if it has at most 64 bits. -/
def number? (t : Text) : Option Nat :=
  let digits : Text :=
    match t with
    | '+' :: ds => ds
    | ds => ds
  let n := digits.foldl (fun n d => n * 10 + (d.toNat - '0'.toNat)) 0
  if digits ≠ [] ∧ digits.all Char.isDigit ∧ n < UInt64.size then some n else none

/-- What the value of the colour option says. -/
def color? (t : Text) : Option ColorWhen :=
  if t = "auto".toList then some .auto
  else if t = "always".toList then some .always
  else if t = "never".toList then some .never
  else none

/-- Settings after one more option. Only search directories may be given more than once. -/
def Settings.add (s : Settings) (o : Opt) (value : Text) : Except UsageError Settings :=
  let invalid : UsageError := .invalidValue o value
  match o with
  | .color =>
    match s.color, color? value with
    | some _, _ => .error (.repeatedOption o)
    | none, some c => .ok { s with color := some c }
    | none, none => .error invalid
  | .verbose => if s.verbose then .error (.repeatedOption o) else .ok { s with verbose := true }
  | .version => .ok s
  | .output =>
    match s.output, path? value with
    | some _, _ => .error (.repeatedOption o)
    | none, some p => .ok { s with output := some p }
    | none, none => .error invalid
  | .includeDir =>
    match pathList? value with
    | some ps => .ok { s with searchDirs := some (s.searchDirs.getD [] ++ ps) }
    | none => .error invalid
  | .maxDepth =>
    match s.maxDepth, number? value with
    | some _, _ => .error (.repeatedOption o)
    | none, some n => .ok { s with maxDepth := some n }
    | none, none => .error invalid
  | .json => if s.json then .error (.repeatedOption o) else .ok { s with json := true }

/-- Settings after one more word, of which a command takes so many. -/
def Settings.addWord (s : Settings) (arity : Nat) (word : Text) : Except UsageError Settings :=
  if arity ≤ s.words.length then .error (.needlessWord word)
  else
    match path? word with
    | none => .error .emptyWord
    | some p => .ok { s with words := s.words ++ [p] }

end TextTemplate.CommandLine
