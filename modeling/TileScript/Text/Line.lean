import TileScript.Text.Blank

/-! # Lines and words

A source is read line by line and a condition word by word. Every line is used without the blanks
at its ends, so a carriage return before the line feed falls away with them.
-/

namespace TileScript.Text

/-- The pieces between line feeds; a line feed at the very end opens no further line. -/
def lines : List Char → List (List Char)
  | [] => []
  | c :: cs =>
    if c = '\n' then [] :: lines cs
    else
      match lines cs with
      | [] => [[c]]
      | l :: ls => (c :: l) :: ls

/-- The lines of a source, each trimmed. -/
def trimmedLines (source : String) : List (List Char) := (lines source.toList).map trim

/-- The pieces between space characters, without the empty ones. Other blanks join words. -/
def words (cs : List Char) : List (List Char) := (cs.splitOn ' ').filter (!·.isEmpty)

end TileScript.Text
