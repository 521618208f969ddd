/-! # JSON documents

The tree of a JSON document. Objects keep their members as written, with their order and their
repetitions, because it is for the reader of a document to say what a repeated name means.
-/

namespace TileScript

/-- A number as written: `digits · 10 ^ scale` with a sign. -/
structure Json.Number where
  negative : Bool := false
  digits : Nat
  scale : Int := 0
  /-- Written without a point and without an exponent. -/
  integral : Bool := true
  deriving DecidableEq, Repr

inductive Json where
  | null
  | bool (b : Bool)
  | number (n : Json.Number)
  | string (s : String)
  | array (items : List Json)
  | object (members : List (String × Json))
  /-- A string whose escapes leave half of a surrogate pair alone, or an object with such a name.
  It follows the grammar but denotes no text. -/
  | garbled
  deriving Repr, Inhabited

namespace Json

def ofInt (n : Int) : Json := .number { negative := n < 0, digits := n.natAbs }

def ofNat (n : Nat) : Json := .number { digits := n }

/-- The integer a number is written as. Zero with a minus sign is no integer. -/
def Number.toInt? (n : Number) : Option Int :=
  if !n.integral || (n.negative && n.digits == 0) then none
  else some (if n.negative then -(n.digits : Int) else n.digits)

end Json

end TileScript
