import TextTemplate.Text

/-!
# JSON values and their texts

A value is written compactly, without any blank space, or pretty, with each member of an array or object on
a line of its own, indented by two spaces a level. In a string only the quote, the backslash and the control
characters below the space are escaped, the common ones by a letter and the others by their code.
-/

namespace TextTemplate

/-- A JSON value without fractions. -/
inductive Json where
  /-- True or false. -/
  | bool (b : Bool)
  /-- A natural number. -/
  | number (n : Nat)
  /-- A string. -/
  | string (t : Text)
  /-- An array. -/
  | array (items : List Json)
  /-- An object, with its members in order. -/
  | object (members : List (Text × Json))

namespace Json

/-! ## Strings -/

/-- A digit of base sixteen. -/
def hexDigit (n : Nat) : Char := if n < 10 then Char.ofNat (n + 48) else Char.ofNat (n + 87)

/-- A character as it is written in a string. -/
def escape (c : Char) : Text :=
  if c = '"' then ['\\', '"']
  else if c = '\\' then ['\\', '\\']
  else if c = '\x08' then ['\\', 'b']
  else if c = '\x0c' then ['\\', 'f']
  else if c = '\n' then ['\\', 'n']
  else if c = '\r' then ['\\', 'r']
  else if c = '\t' then ['\\', 't']
  else if c < ' ' then ['\\', 'u', '0', '0', hexDigit (c.toNat / 16), hexDigit (c.toNat % 16)]
  else [c]

/-- A string between its quotes. -/
def quote (t : Text) : Text := '"' :: t.flatMap escape ++ ['"']

/-! ## Compact text -/

/-- The text of true or false. -/
def boolText : Bool → Text
  | true => "true".toList
  | false => "false".toList

mutual

/-- A value without blank space. -/
def compact : Json → Text
  | .bool b => boolText b
  | .number n => Text.ofNat n
  | .string t => quote t
  | .array items => '[' :: compactItems items ++ [']']
  | .object members => '{' :: compactMembers members ++ ['}']

/-- The items of an array with commas between them. -/
def compactItems : List Json → Text
  | [] => []
  | [v] => v.compact
  | v :: vs => v.compact ++ ',' :: compactItems vs

/-- The members of an object with commas between them. -/
def compactMembers : List (Text × Json) → Text
  | [] => []
  | [(k, v)] => quote k ++ ':' :: v.compact
  | (k, v) :: ms => quote k ++ ':' :: v.compact ++ ',' :: compactMembers ms

end

/-! ## Pretty text -/

/-- The start of a line at a level. -/
def lineStart (level : Nat) : Text := '\n' :: List.replicate (2 * level) ' '

mutual

/-- A value over several lines, at a level. -/
def prettyAt (level : Nat) : Json → Text
  | .bool b => boolText b
  | .number n => Text.ofNat n
  | .string t => quote t
  | .array [] => ['[', ']']
  | .array items => '[' :: prettyItems (level + 1) items ++ lineStart level ++ [']']
  | .object [] => ['{', '}']
  | .object members => '{' :: prettyMembers (level + 1) members ++ lineStart level ++ ['}']

/-- The items of an array, each on its line. -/
def prettyItems (level : Nat) : List Json → Text
  | [] => []
  | [v] => lineStart level ++ v.prettyAt level
  | v :: vs => lineStart level ++ v.prettyAt level ++ ',' :: prettyItems level vs

/-- The members of an object, each on its line. -/
def prettyMembers (level : Nat) : List (Text × Json) → Text
  | [] => []
  | [(k, v)] => lineStart level ++ quote k ++ ':' :: ' ' :: v.prettyAt level
  | (k, v) :: ms =>
    lineStart level ++ quote k ++ ':' :: ' ' :: v.prettyAt level ++ ',' :: prettyMembers level ms

end

/-- A value over several lines. -/
def pretty (v : Json) : Text := v.prettyAt 0

end Json

end TextTemplate
