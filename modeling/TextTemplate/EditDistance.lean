import TextTemplate.Text

/-!
# Edit distance and near misses

The edit distance of two texts is the least number of characters to insert, delete or replace that leads
from one to the other. It is computed row by row: the row of a text `s` against `t` lists the distances from
`s` to `t` and to each of its shorter ends, down to the empty text.

A candidate is a near miss of a name if it differs from it by one edit, or by two if the name is longer than
three characters; the best three are suggested, nearest first and then in order of code points.
-/

namespace TextTemplate

/-! ## Edit distance -/

/-- The row of the empty text against `t`: every character has to be inserted. -/
def emptyRow : Text → List Nat
  | [] => [0]
  | _ :: t => (t.length + 1) :: emptyRow t

/-- The row of `c :: s` against a text, from the row of `s` against it: insert the first character of the
    text, delete `c`, or put the one for the other. -/
def extendRow (c : Char) : Text → List Nat → List Nat
  | b :: t, d :: ds =>
    let es := extendRow c t ds
    min (min (es.headD 0 + 1) (d + 1)) (ds.headD 0 + if c = b then 0 else 1) :: es
  | _, ds => ds.map (· + 1)

/-- The distances from `s` to `t` and to each shorter end of `t`. -/
def row (s t : Text) : List Nat := s.foldr (fun c ds => extendRow c t ds) (emptyRow t)

/-- The least number of single-character edits from one text to the other. -/
def editDistance (s t : Text) : Nat := (row s t).headD 0

/-! ## Near misses -/

/-- How many edits a near miss of a name may be away. -/
def missLimit (name : Text) : Nat := if name.length ≤ 3 then 1 else 2

/-- Candidates with their distances: the nearer first, of equally near ones the lower in code points. -/
def nearerOrEqual (x y : Nat × Text) : Bool := x.1 < y.1 || (x.1 == y.1 && !(y.2 < x.2))

/-- The near misses of a name among candidates, with their distances, in the order they are given. -/
def nearMisses (name : Text) (candidates : List Text) : List (Nat × Text) :=
  (candidates.map fun c => (editDistance name c, c)).filter
    fun x => 0 < x.1 && x.1 ≤ missLimit name

/-- The best three near misses of a name. -/
def suggestions (name : Text) (candidates : List Text) : List Text :=
  (((nearMisses name candidates).mergeSort nearerOrEqual).take 3).map Prod.snd

end TextTemplate
