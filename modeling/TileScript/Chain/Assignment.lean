import TileScript.Chain.Nesting
import TileScript.Text.Blank

/-! # Names and assignments

An assignment is cut at its first top-level equals sign that belongs to no comparison operator.
-/

namespace TileScript

open Text

namespace Chain

/-- The texts on both sides of the first top-level `=` that is neither next to another `=` nor
behind `!`, `<` or `>`. -/
def cutAssignment? : Nesting → Option Char → List Char → Option (List Char × List Char)
  | _, _, [] => none
  | n, before, c :: cs =>
    let comparison :=
      (before.any fun b => b == '=' || b == '!' || b == '<' || b == '>') || cs.head? == some '='
    if n.isTop c && c == '=' && !comparison then some ([], cs)
    else (cutAssignment? (n.step c) (some c) cs).map fun (l, r) => (c :: l, r)

/-- The name and the expression of `name = expression`. -/
def splitAssignment? (line : List Char) : Option (List Char × List Char) :=
  (cutAssignment? {} none line).map fun (l, r) => (trim l, trim r)

def isNameStart (c : Char) : Bool := c.isAlpha || c == '_'

def isNameRest (c : Char) : Bool := c.isAlphanum || c == '_'

/-- Whether a text can name a variable: ASCII letters, digits and underscores, no digit first. -/
def isIdentifier : List Char → Bool
  | [] => false
  | c :: cs => isNameStart c && cs.all isNameRest

end Chain

end TileScript
