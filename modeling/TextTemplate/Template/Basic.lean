import TextTemplate.Fault

/-!
# Templates

A template is a list of lines. A line is elided, if it holds nothing but a comment, or has an indentation
and parts: literal text and expansions. An expansion is what a dollar sign starts; a reference holds a word
and a directive holds words, and a word is again made of parts, so expansions nest. References and directives
keep the text from their dollar sign on, which says where they stand.

A text that is no template leaves a `Truncation`: the parts that were complete before the fault.
-/

namespace TextTemplate

mutual

/-- What a dollar sign starts. -/
inductive Expansion where
  /-- A doubled dollar sign, which stands for one. -/
  | dollar
  /-- A dollar sign before a newline, which joins two lines. -/
  | join
  /-- A comment up to the end of its line. -/
  | comment
  /-- A reference to the name that a word spells. -/
  | reference (start : Text) (name : List Part)
  /-- A command and its arguments, each a word; without words it does nothing. -/
  | directive (start : Text) (words : List (List Part))

/-- A part of a line or of a word. -/
inductive Part where
  /-- A stretch of text that stands for itself. -/
  | text (t : Text)
  /-- An expansion. -/
  | expansion (e : Expansion)

end

/-- A word: the parts that spell it. -/
abbrev Word := List Part

/-- A line of a template, with the lines that are joined to it. -/
inductive Line where
  /-- A line that holds only a comment and produces nothing. -/
  | elided
  /-- A line that produces its indentation, its parts and a newline. -/
  | content (indent : Text) (parts : List Part)

/-- The parts of a line. -/
def Line.parts : Line → List Part
  | .elided => []
  | .content _ parts => parts

/-- A template: its lines. -/
abbrev Template := List Line

/-- What was read of a text that is no template. -/
structure Truncation where
  /-- The complete parts before the fault, in reading order, also those of words and lines that the fault
      left open. -/
  before : List Part
  /-- The fault. -/
  fault : Fault

namespace Truncation

/-- A fault before which nothing was complete. -/
def ofFault (f : Fault) : Truncation := ⟨[], f⟩

/-- A truncation seen from further in front, where parts were complete. -/
def after (t : Truncation) (parts : List Part) : Truncation := { t with before := parts ++ t.before }

end Truncation

end TextTemplate
