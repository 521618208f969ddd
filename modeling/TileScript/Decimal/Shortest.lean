import TileScript.Decimal.Nearest

/-! # Doubles as decimals

The text of a double has the fewest digits that read back as the same double, and of those the
digits nearest to it. It is written without an exponent.
-/

namespace TileScript.Binary64

/-- The size of a finite double as a quotient of whole numbers. -/
def quotient (x : Binary64) : Nat × Nat :=
  let exponent : Nat := x.size / fractions
  let fraction := x.size % fractions
  let (m, e) :=
    if exponent = 0 then (fraction, leastExponent)
    else (fraction + fractions, leastExponent + exponent - 1)
  if 0 ≤ e then (m * twoTo e.toNat, 1) else (m, twoTo (-e).toNat)

/-- The number of digits before the point of a positive `n / d`; below one tenth it is negative. -/
def wholeDigits (n d : Nat) : Int :=
  if d ≤ n then (Nat.toDigits 10 (n / d)).length
  else -((List.range 330).findIdx fun k => d ≤ n * tenTo (k + 1))

/-- `n / d` in units of `10 ^ scale`, as a quotient. -/
def inUnits (n d : Nat) (scale : Int) : Nat × Nat :=
  if 0 ≤ scale then (n, d * tenTo scale.toNat) else (n * tenTo (-scale).toNat, d)

/-- The multiple of `10 ^ scale` next to a double that reads back as it: of two the nearer one, and
halfway the greater one. -/
def candidate? (size n d : Nat) (scale : Int) : Option Nat :=
  let (n', d') := inUnits n d scale
  let below := n' / d'
  let reads (k : Nat) : Bool := k != 0 && (ofDecimal false k scale).size == size
  match reads below, reads (below + 1) with
  | true, true => some (if 2 * (n' % d') < d' then below else below + 1)
  | true, false => some below
  | false, true => some (below + 1)
  | false, false => none

/-- The fewest digits that read back, and their scale. Seventeen digits always do; a candidate that
ends in zero has carried into the next power of ten. -/
def shortest (x : Binary64) : Nat × Int :=
  let (n, d) := x.quotient
  let places := wholeDigits n d
  let attempt (count : Nat) : Option (Nat × Int) :=
    let scale := places - (count + 1 : Nat)
    (candidate? x.size n d scale).map fun k => if k % 10 = 0 then (k / 10, scale + 1) else (k, scale)
  ((List.range 17).findSome? attempt).getD (0, 0)

/-- Digits with a point put `-scale` places from their end. -/
def positional (digits : List Char) (scale : Int) : List Char :=
  if 0 ≤ scale then digits ++ List.replicate scale.toNat '0'
  else
    let places := (-scale).toNat
    let padded := List.replicate (places + 1 - digits.length) '0' ++ digits
    padded.take (padded.length - places) ++ '.' :: padded.drop (padded.length - places)

/-- The text of a double. -/
def text (x : Binary64) : String :=
  if x.isNotANumber then "NaN"
  else
    let sign := if x.isNegative then "-" else ""
    if x.size = infinityBits then sign ++ "inf"
    else if x.size = 0 then sign ++ "0"
    else
      let (digits, scale) := x.shortest
      sign ++ String.ofList (positional (Nat.toDigits 10 digits) scale)

end TileScript.Binary64
