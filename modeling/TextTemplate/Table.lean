import TextTemplate.Bindings
import TextTemplate.Text.Width

/-!
# Tables

A table of text cells in a frame: a header, a double line below it, and rows. A cell takes as many lines as
its text has, a row as many as its tallest cell, and a column as many columns as its widest line. Cells are
flush left, and three spaces stand between columns.
-/

namespace TextTemplate

/-- A header and rows of cells, as many in each row as in the header. -/
structure Table where
  /-- The cells of the header. -/
  header : List Text
  /-- The cells of each row. -/
  rows : List (List Text)
  deriving DecidableEq, Repr

namespace Table

/-! ## Measures -/

/-- The lines of a cell. -/
def cellLines (cell : Text) : List Text := cell.splitOn '\n'

/-- The width of a cell: that of its widest line. -/
def cellWidth (cell : Text) : Nat := ((cellLines cell).map Width.width).foldl max 0

/-- The widths of the cells of two rows taken together. -/
def widen (widths : List Nat) (row : List Text) : List Nat :=
  widths.zipWith max (row.map cellWidth)

/-- The width of each column. -/
def widths (t : Table) : List Nat := t.rows.foldl widen (t.header.map cellWidth)

/-! ## Lines -/

/-- A line of a cell, filled with spaces up to a width. -/
def pad (width : Nat) (line : Text) : Text :=
  line ++ List.replicate (width - Width.width line) ' '

/-- One line across the table. -/
def frameLine (widths : List Nat) (lines : List Text) : Text :=
  "│ ".toList ++ "   ".toList.intercalate (widths.zipWith pad lines) ++ " │".toList

/-- The number of lines of a row. -/
def rowHeight (row : List Text) : Nat := (row.map fun c => (cellLines c).length).foldl max 0

/-- The lines of a row; a cell that has fewer is filled with empty ones. -/
def rowLines (widths : List Nat) (row : List Text) : List Text :=
  (List.range (rowHeight row)).map fun i =>
    frameLine widths (row.map fun c => (cellLines c)[i]?.getD [])

/-- A border: its ends, and its stroke repeated over the width of the table. -/
def border (left stroke right : Char) (widths : List Nat) : Text :=
  left :: List.replicate (widths.foldr (· + ·) 0 + 3 * (widths.length - 1) + 2) stroke ++ [right]

/-- The table as text. -/
def render (t : Table) : Text :=
  let ws := t.widths
  ['\n'].intercalate
    ([border '┌' '─' '┐' ws] ++ rowLines ws t.header ++ [border '╞' '═' '╡' ws]
      ++ t.rows.flatMap (rowLines ws) ++ [border '└' '─' '┘' ws])

end Table

/-- Bindings as a table, in the order of the names. -/
def Bindings.table (b : Bindings) : Table :=
  ⟨["Name".toList, "Expansion".toList], b.entries.map fun (n, e) => [n, e]⟩

end TextTemplate
