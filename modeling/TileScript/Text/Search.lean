/-! # Finding text in text

Removing a known beginning or end, cutting at the first occurrence of a character, and replacing
the first occurrence of a text.
-/

namespace TileScript.Text

/-- What follows `start` in a text that begins with it. -/
def afterPrefix? (start cs : List Char) : Option (List Char) := start.isPrefixOf? cs

/-- What precedes `tail` in a text that ends with it. -/
def beforeSuffix? (tail cs : List Char) : Option (List Char) := tail.isSuffixOf? cs

/-- The texts before and after the first `c`. -/
def splitOnce? (c : Char) : List Char → Option (List Char × List Char)
  | [] => none
  | d :: ds => if d = c then some ([], ds) else (splitOnce? c ds).map fun (l, r) => (d :: l, r)

/-- The text with the first occurrence of `old` replaced by `new`, if there is one. -/
def replaceFirst? (old new : List Char) : List Char → Option (List Char)
  | [] => if old.isEmpty then some new else none
  | c :: cs =>
    match old.isPrefixOf? (c :: cs) with
    | some rest => some (new ++ rest)
    | none => (replaceFirst? old new cs).map (c :: ·)

/-- ASCII letters in lower case; all other characters stay. -/
def lower (s : String) : String := String.ofList (s.toList.map Char.toLower)

/-- Equality up to the case of ASCII letters. -/
def sameLetters (a b : String) : Bool := lower a == lower b

end TileScript.Text
