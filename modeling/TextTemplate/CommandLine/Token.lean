import TextTemplate.Text

/-!
# Options and tokens

An argument is a word or gives options: `--name`, `--name=value`, or a cluster of single letters behind one
dash, of which the last may take a value, glued on with or without `=`. An option that still waits for its
value takes the next argument, unless that looks like an option itself. After `--` every argument is a word.
`tokens` splits arguments up accordingly; an error is a token too, so that it counts only where it stands.
-/

namespace TextTemplate.CommandLine

/-! ## Options -/

/-- The options there are. -/
inductive Opt where
  /-- When to colour the output. -/
  | color
  /-- Report more on the error output; the output proper stays the same. -/
  | verbose
  /-- Print the version and do nothing else. -/
  | version
  /-- The file to write the expansion to. -/
  | output
  /-- Directories to search for includes. -/
  | includeDir
  /-- How many files may be open at once. -/
  | maxDepth
  /-- Print the result as JSON. -/
  | json
  deriving DecidableEq, Repr

namespace Opt

/-- The name of an option behind two dashes. -/
def long : Opt → Text
  | color => "color".toList
  | verbose => "verbose".toList
  | version => "version".toList
  | output => "output".toList
  | includeDir => "include-dir".toList
  | maxDepth => "max-depth".toList
  | json => "json".toList

/-- The letter of an option behind one dash, if it has one. -/
def short : Opt → Option Char
  | verbose => some 'v'
  | version => some 'V'
  | output => some 'o'
  | includeDir => some 'I'
  | _ => none

/-- Whether an option takes a value. -/
def takesValue : Opt → Bool
  | color | output | includeDir | maxDepth => true
  | verbose | version | json => false

end Opt

/-- Why arguments are refused. -/
inductive UsageError where
  /-- No such option, there. -/
  | unknownOption (argument : Text)
  /-- An option lacks its value. -/
  | missingValue (opt : Opt)
  /-- An option takes no value. -/
  | needlessValue (opt : Opt)
  /-- An option is given more than once. -/
  | repeatedOption (opt : Opt)
  /-- That is no value for the option. -/
  | invalidValue (opt : Opt) (value : Text)
  /-- A word is empty. -/
  | emptyWord
  /-- No command is given. -/
  | noCommand
  /-- No such command. -/
  | unknownCommand (name : Text)
  /-- Words are missing. -/
  | missingWord
  /-- There are too many words. -/
  | needlessWord (word : Text)
  deriving DecidableEq, Repr

/-! ## Tokens -/

/-- What an argument gives. -/
inductive Token where
  /-- An option, with its value if it takes one. -/
  | option (opt : Opt) (value : Option Text)
  /-- A word, and the arguments after it. -/
  | word (word : Text) (after : List Text)
  /-- A word behind the mark that ends the options. -/
  | literal (word : Text)
  /-- An error. -/
  | wrong (error : UsageError)
  deriving DecidableEq, Repr

/-- Whether an argument gives options or ends them: it starts with a dash and is not the dash alone. -/
def looksLikeOption : Text → Bool
  | '-' :: _ :: _ => true
  | _ => false

/-- The options that the name behind two dashes gives, and the option that now waits for its value. -/
def longTokens (opts : List Opt) (body : Text) : List Token × Option Opt :=
  let name := body.takeWhile (· != '=')
  let value := if body.contains '=' then some (body.drop (name.length + 1)) else none
  match opts.find? (fun o => o.long = name) with
  | none => ([.wrong (.unknownOption name)], none)
  | some o =>
    match o.takesValue, value with
    | true, none => ([], some o)
    | false, some _ => ([.wrong (.needlessValue o)], none)
    | _, value => ([.option o value], none)

/-- The options that a cluster of letters gives, and the option that now waits for its value. -/
def shortTokens (opts : List Opt) : Text → List Token × Option Opt
  | [] => ([], none)
  | c :: cs =>
    match opts.find? (fun o => o.short = some c) with
    | none => ([.wrong (.unknownOption [c])], none)
    | some o =>
      if o.takesValue then
        match cs with
        | [] => ([], some o)
        | '=' :: value => ([.option o (some value)], none)
        | value => ([.option o (some value)], none)
      else ((shortTokens opts cs).map (.option o none :: ·) id)

/-- What arguments give, where `waiting` is the option that waits for its value. Of what stands behind an
    error nothing counts. -/
def tokens (opts : List Opt) (waiting : Option Opt) : List Text → List Token
  | [] =>
    match waiting with
    | some o => [.wrong (.missingValue o)]
    | none => []
  | a :: rest =>
    match waiting with
    | some o =>
      if looksLikeOption a then [.wrong (.missingValue o)]
      else .option o (some a) :: tokens opts none rest
    | none =>
      if a = ['-', '-'] then rest.map .literal
      else if looksLikeOption a then
        let (ts, waiting) :=
          match a with
          | '-' :: '-' :: body => longTokens opts body
          | _ => shortTokens opts (a.drop 1)
        ts ++ tokens opts waiting rest
      else .word a rest :: tokens opts none rest

end TextTemplate.CommandLine
