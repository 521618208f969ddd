import TileScript.Text.Width

/-! # Text tables

Rows of cells under a header, framed by rules. Every column is as wide as its widest cell, with a
blank on either side; a cell may have several lines.
-/

namespace TileScript

/-- The cells of a table. Each row has as many cells as the header. -/
structure TextTable where
  header : List String
  rows : List (List String) := []
  deriving DecidableEq, Repr

namespace TextTable

open Text

def cellLines (cell : String) : List (List Char) := cell.toList.splitOn '\n'

def cellWidth (cell : String) : Nat := ((cellLines cell).map width).foldl max 0

/-- The width of each column without its blanks. -/
def widths (t : TextTable) : List Nat :=
  t.rows.foldl (fun ws row => List.zipWith max ws (row.map cellWidth)) (t.header.map cellWidth)

/-- A line of a cell between two blanks, filled up to the width of its column. -/
def padded (columns : Nat) (line : List Char) : List Char :=
  ' ' :: line ++ List.replicate (columns - width line) ' ' ++ [' ']

/-- A rule across all columns. -/
def rule (edge fill cross : Char) (ws : List Nat) : List Char :=
  edge :: List.intercalate [cross] (ws.map fun w => List.replicate (w + 2) fill) ++ [edge]

/-- The lines of a row: as many as its highest cell has. -/
def rowLines (ws : List Nat) (row : List String) : List (List Char) :=
  let cells := row.map cellLines
  let height := (cells.map List.length).foldl max 0
  (List.range height).map fun i =>
    '|' :: List.intercalate ['|'] (List.zipWith (fun w c => padded w (c.getD i [])) ws cells) ++ ['|']

/-- The table as lines of text. -/
def lines (t : TextTable) : List String :=
  let ws := t.widths
  let border := rule '+' '-' '+' ws
  let body := List.intercalate [rule '|' '-' '+' ws] (t.rows.map (rowLines ws))
  (border :: rowLines ws t.header ++ rule '+' '=' '=' ws :: body ++ [border]).map String.ofList

end TextTable

end TileScript
