import TextTemplate.Proofs.Inclusion.Recursion

/-!
# Expansion in a single pass

A text can also be expanded in a single pass over it, which evaluates each expansion as soon as it is read. A cursor
goes through the text; each action starts at it and leaves it where the next action starts, also if it fails. Loops take
one turn after the other until a turn says that it was the last. What the files hold that are included is given.

Nothing in these definitions makes the loops end. An action is told how many calls and turns may be nested in it, and
has no outcome when these are used up; one that goes on for ever has no outcome, however many they are. Neither has
one that locates a place between the bytes of a character.
-/

namespace TextTemplate

/-! ## Places counted in bytes -/

/-- The front of a text of so many bytes; nothing if it ends before or if a character stands across. -/
def Text.front? : Text → Nat → Option Text
  | _, 0 => some []
  | [], _ + 1 => none
  | c :: s, n + 1 => if c.utf8Size ≤ n + 1 then (Text.front? s (n + 1 - c.utf8Size)).map (c :: ·) else none

/-- The position in `whole` where so many bytes are left as `rest` has, counted back from the end. -/
def Position.locate? (whole rest : Text) : Option Position :=
  (whole.front? (whole.utf8Length - rest.utf8Length)).map after

/-! ## Actions -/

/-- What an expansion in a single pass goes by: the context, how included files are expanded, what the files hold, and
    the whole text. -/
structure Pass where
  /-- The context of the text. -/
  context : Context
  /-- How an included file is expanded. -/
  expander : Context.Expander
  /-- What files hold. -/
  files : Files
  /-- The text that is expanded. -/
  whole : Text

namespace Pass

/-- An action takes the text at the cursor and ends with a result or a failure, and with the text that it leaves at the
    cursor; or it has no outcome. -/
abbrev Action := ExceptT Failure (StateT Text Option)

/-- What is missed where an action starts with another character than its own. -/
def unexpected : SyntaxError := .described "unexpected input".toList

/-- There is no outcome. -/
def stuck {α : Type} : Action α := liftM (none : Option α)

/-- The position of a rest of the text. -/
def locate (p : Pass) (rest : Text) : Action Position := liftM (Position.locate? p.whole rest)

/-- Fail with a cause at a rest of the text, which is located. -/
def refuse {α : Type} (p : Pass) (rest : Text) (cause : Cause) : Action α := do
  let _ ← p.locate rest
  throw (.here ⟨rest, cause⟩)

/-- Fail at the cursor. -/
def fault {α : Type} (p : Pass) (error : SyntaxError) : Action α := do p.refuse (← get) (.syntaxError error)

/-- Take the run of characters at the cursor. -/
def takeRun (q : Char → Bool) : Action Text := do
  let s ← get
  set (s.dropWhile q)
  return s.takeWhile q

/-- Step over a character, or fail if another one stands there. -/
def expect (p : Pass) (c : Char) (error : SyntaxError) : Action Unit := do
  match ← get with
  | [] => p.fault error
  | d :: r => if d = c then set r else p.fault error

/-- End as an inquiry does, with its own failures located. -/
def answer (p : Pass) (x : Inquiry Failure Text) : Action Text :=
  match (x.run p.files).result with
  | .ok t => pure t
  | .error (.here defect) => p.refuse defect.rest defect.cause
  | .error (.elsewhere error) => throw (.elsewhere error)

/-! ## Expansions and words -/

mutual

/-- Expand what a dollar sign at the cursor starts. -/
def expansion (p : Pass) : Nat → Action Text
  | 0 => stuck
  | n + 1 => do
    let start ← get
    p.expect '$' unexpected
    match ← get with
    | '(' :: _ => p.directive n start
    | '{' :: _ => p.reference n start
    | '$' :: r => do
      set r
      return ['$']
    | '\n' :: r => do
      set r
      return []
    | '-' :: '-' :: r => do
      set (r.dropWhile isLineChar)
      return []
    | _ => p.fault .noExpansion

/-- Run the directive whose opening parenthesis stands at the cursor and whose dollar sign stands at `start`. -/
def directive (p : Pass) : Nat → (start : Text) → Action Text
  | 0, _ => stuck
  | n + 1, start => do
    p.expect '(' unexpected
    let _ ← takeRun isGap
    let words ← p.words n true
    if words.isEmpty then
      return []
    else do
      let _ ← p.locate start
      p.answer (p.context.command (p.context.within p.expander) start words)

/-- The words of a directive up to its closing parenthesis. -/
def words (p : Pass) : Nat → (separated : Bool) → Action (List Text)
  | 0, _ => stuck
  | n + 1, separated => do
    match ← p.wordTurn n separated with
    | none => return []
    | some (word, separated) => return word :: (← p.words n separated)

/-- Step over a closing parenthesis, the last turn, or take a word, which must be separated from the one before it, and
    say whether the next is. -/
def wordTurn (p : Pass) : Nat → (separated : Bool) → Action (Option (Text × Bool))
  | 0, _ => stuck
  | n + 1, separated => do
    match ← get with
    | ')' :: r => do
      set r
      return none
    | _ =>
      if separated then do
        let word ← p.name n .noDirectiveWord 0
        let gap ← takeRun isGap
        return some (word, !gap.isEmpty)
      else p.fault .noDirectiveEnd

/-- Look up the reference whose opening brace stands at the cursor and whose dollar sign stands at `start`. -/
def reference (p : Pass) : Nat → (start : Text) → Action Text
  | 0, _ => stuck
  | n + 1, start => do
    p.expect '{' unexpected
    let name ← p.name n .noVariableName 0
    p.expect '}' .noVariableEnd
    p.answer (p.context.lookUp start name)

/-- A name, behind so many of its parts; without any it is missed. -/
def name (p : Pass) : Nat → (missing : SyntaxError) → (parts : Nat) → Action Text
  | 0, _, _ => stuck
  | n + 1, missing, parts => do
    match ← p.nameTurn n missing parts with
    | none => return []
    | some part => return part ++ (← p.name n missing (parts + 1))

/-- Take a part of a name; without another part it was the last turn. -/
def nameTurn (p : Pass) : Nat → (missing : SyntaxError) → (parts : Nat) → Action (Option Text)
  | 0, _, _ => stuck
  | n + 1, missing, parts => do
    match ← get with
    | [] => if parts = 0 then p.fault missing else return none
    | c :: r =>
      if isQuote c then
        match Quoted.read c r with
        | .ok (t, u) => do
          set u
          return some t
        | .error f => do
          set f.rest
          p.fault f.error
      else if c = '$' then some <$> p.expansion n
      else if isBarewordChar c then some <$> takeRun isBarewordChar
      else if parts = 0 then p.fault missing
      else return none

end

/-! ## Lines -/

/-- Take a part of a line; its newline or the end of the text was the last turn. -/
def pieceTurn (p : Pass) (n : Nat) : Action (Option Text) := do
  match ← get with
  | [] => return none
  | c :: r =>
    if c = '\n' then do
      set r
      return none
    else if c = '$' then some <$> p.expansion n
    else some <$> takeRun isLiteralChar

/-- The parts of a line up to its end. -/
def pieces (p : Pass) : Nat → Action Text
  | 0 => stuck
  | n + 1 => do
    match ← p.pieceTurn n with
    | none => return []
    | some t => return t ++ (← p.pieces n)

/-- Expand a line, with the lines that are joined to it. -/
def line (p : Pass) (n : Nat) : Action Text := do
  let indent ← takeRun isBlank
  match skipCommentLine? (← get) with
  | some r => do
    set r
    return []
  | none => return indent ++ (← p.pieces n) ++ ['\n']

/-- Expand a line; at the end of the text there is none. -/
def lineTurn (p : Pass) (n : Nat) : Action (Option Text) := do
  if (← get).isEmpty then return none else some <$> p.line n

/-- Expand line after line. -/
def lines (p : Pass) : Nat → Action Text
  | 0 => stuck
  | n + 1 => do
    match ← p.lineTurn n with
    | none => return []
    | some t => return t ++ (← p.lines n)

end Pass

end TextTemplate
