import TextTemplate.Proofs.Text.Lexemes
import TextTemplate.Template.Reader

/-!
# The grammar of templates

The grammar as relations between a tree, the text that it is derived from and what follows in the text.
No context stands in them: what the expansions will produce plays no part.

A template is a list of lines that are not empty. A line holds a comment alone, or it is its blanks and the
parts up to a newline or the end of the text. A word is as many quoted strings, barewords and expansions as
follow each other.
-/

namespace TextTemplate

/-- A quoted string, an expansion or a bareword starts with this character. -/
def startsPart (c : Char) : Bool := c == '$' || isQuote c || isBarewordChar c

mutual

/-- At the front of the first text stands the expansion, and the second text follows it. -/
inductive ExpansionAt : Expansion → Text → Text → Prop
  | dollar {r : Text} : ExpansionAt .dollar ('$' :: '$' :: r) r
  | join {r : Text} : ExpansionAt .join ('$' :: '\n' :: r) r
  | comment {s t r : Text} : IsRun isLineChar s t r → ExpansionAt .comment ('$' :: '-' :: '-' :: s) r
  | reference {s r : Text} {w : Word} : WordAt w s ('}' :: r) →
      ExpansionAt (.reference ('$' :: '{' :: s) w) ('$' :: '{' :: s) r
  | directive {g s g' r : Text} {ws : List Word} : (∀ c ∈ g, isGap c = true) →
      WordsAt ws s (g' ++ ')' :: r) → (∀ c ∈ g', isGap c = true) →
      ExpansionAt (.directive ('$' :: '(' :: (g ++ s)) ws) ('$' :: '(' :: (g ++ s)) r

/-- At the front of the first text stands the part of a word, and the second text follows it. -/
inductive PartAt : Part → Text → Text → Prop
  | bareword {s t r : Text} : IsRun isBarewordChar s t r → t ≠ [] → PartAt (.text t) s r
  | quoted {q : Char} {w t r : Text} : isQuote q = true → Quoted.Writes q w t →
      PartAt (.text t) (q :: (w ++ q :: r)) r
  | expansion {s r : Text} {e : Expansion} : ExpansionAt e s r → PartAt (.expansion e) s r

/-- At the front of the first text stand the parts of a word, as many as there are and at least one, and
    the second text follows them. -/
inductive WordAt : Word → Text → Text → Prop
  | last {s r : Text} {p : Part} : PartAt p s r → (∀ c ∈ r.head?, startsPart c = false) →
      WordAt [p] s r
  | cons {s u r : Text} {p : Part} {w : Word} : PartAt p s u → WordAt w u r → WordAt (p :: w) s r

/-- At the front of the first text stand the words with gaps between them, and the second text follows
    them. -/
inductive WordsAt : List Word → Text → Text → Prop
  | nil {r : Text} : WordsAt [] r r
  | last {s r : Text} {w : Word} : WordAt w s r → WordsAt [w] s r
  | cons {s g u r : Text} {w v : Word} {ws : List Word} : WordAt w s (g ++ u) → g ≠ [] →
      (∀ c ∈ g, isGap c = true) → WordsAt (v :: ws) u r → WordsAt (w :: v :: ws) s r

end

/-- At the front of the first text stands the part of a line, and the second text follows it. -/
inductive PieceAt : Part → Text → Text → Prop
  | literal {s t r : Text} : IsRun isLiteralChar s t r → t ≠ [] → PieceAt (.text t) s r
  | expansion {s r : Text} {e : Expansion} : ExpansionAt e s r → PieceAt (.expansion e) s r

/-- At the front of the first text stand the parts of a line, and the second text follows them. -/
inductive PiecesAt : List Part → Text → Text → Prop
  | nil {r : Text} : PiecesAt [] r r
  | cons {s u r : Text} {p : Part} {ps : List Part} : PieceAt p s u → PiecesAt ps u r →
      PiecesAt (p :: ps) s r

/-- The first text ends here, or a newline stands here and the second text follows it. -/
inductive LineEndAt : Text → Text → Prop
  | newline {r : Text} : LineEndAt ('\n' :: r) r
  | endOfText : LineEndAt [] []

/-- At the front of the first text stands the line with its end, and the second text follows it. -/
inductive LineAt : Line → Text → Text → Prop
  | elided {b s t u r : Text} : (∀ c ∈ b, isBlank c = true) → IsRun isLineChar s t u →
      LineEndAt u r → LineAt .elided (b ++ '$' :: '-' :: '-' :: s) r
  | content {s b u v r : Text} {ps : List Part} : IsRun isBlank s b u →
      ¬ ['$', '-', '-'] <+: u → PiecesAt ps u v → LineEndAt v r → LineAt (.content b ps) s r

/-- The grammar derives the template from the text: its lines follow each other, none of them is empty,
    and nothing is left. -/
inductive Template.Derives : Template → Text → Prop
  | nil : Template.Derives [] []
  | cons {s r : Text} {l : Line} {ls : Template} : LineAt l s r → r ≠ s → Template.Derives ls r →
      Template.Derives (l :: ls) s

end TextTemplate
