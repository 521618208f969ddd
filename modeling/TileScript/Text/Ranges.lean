/-! # Ranges of code points

Classes of characters are tables: the first and the last code points of ranges, in rising order.
-/

namespace TileScript.Text

def inRanges (ranges : List (Nat × Nat)) (n : Nat) : Bool :=
  ranges.any fun (first, last) => first ≤ n && n ≤ last

end TileScript.Text
