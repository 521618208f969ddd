import TileScript.Text.Blank
import TileScript.Text.Numeral
import TileScript.Text.Search

/-! # Decimals as binary numbers

A length of time is kept as the 64 bits of an IEEE 754 double. `ofDecimal` is the double nearest to
a decimal, computed in exact arithmetic; of two equally near ones it is the one with an even last
bit.
-/

namespace TileScript

/-- The bits of a double: sign, 11 bits of exponent, 52 bits of fraction. -/
structure Binary64 where
  bits : UInt64
  deriving DecidableEq, Repr, Inhabited

namespace Binary64

open Text

/-- The bits of infinity; those of a greater size are no numbers. -/
def infinityBits : Nat := 0x7FF0000000000000

def signBit : Nat := 0x8000000000000000

/-- How many fractions there are, which is also the distance of two exponents in bits. -/
def fractions : Nat := 0x10000000000000

def twoTo (k : Nat) : Nat := Nat.pow 2 k

def tenTo (k : Nat) : Nat := Nat.pow 10 k

/-- The double with a sign and the bits of its size. -/
def ofSize (negative : Bool) (size : Nat) : Binary64 :=
  ⟨UInt64.ofNat (if negative then signBit + size else size)⟩

def infinity (negative : Bool) : Binary64 := ofSize negative infinityBits

def notANumber (negative : Bool) : Binary64 := ofSize negative (infinityBits + fractions / 2)

def isNegative (x : Binary64) : Bool := signBit ≤ x.bits.toNat

/-- The bits without the sign. -/
def size (x : Binary64) : Nat := x.bits.toNat % signBit

def isNotANumber (x : Binary64) : Bool := infinityBits < x.size

/-- The whole number nearest to `n / d`, of two the even one. -/
def roundQuotient (n d : Nat) : Nat :=
  let q := n / d
  let r := n % d
  if 2 * r > d || (2 * r == d && q % 2 == 1) then q + 1 else q

/-- The least exponent of two that a double's last place can have. -/
def leastExponent : Int := -1074

/-- `n / (d · 2 ^ e)` as a quotient of whole numbers. -/
def scaled (n d : Nat) (e : Int) : Nat × Nat :=
  if 0 ≤ e then (n, d * twoTo e.toNat) else (n * twoTo (-e).toNat, d)

/-- The exponent of two of the last place of a double near `n / d`, for positive `n` and `d`. -/
def placeExponent (n d : Nat) : Int :=
  let e : Int := (n.log2 : Int) - d.log2 - 53
  let (n', d') := scaled n d e
  max leastExponent (if n' < d' * (2 * fractions) then e else e + 1)

/-- The bits of the size nearest to `n / d`, for positive `n` and `d`. A fraction that rounds up to
the next power of two carries into the exponent by itself. -/
def sizeOfQuotient (n d : Nat) : Nat :=
  let e := placeExponent n d
  let (n', d') := scaled n d e
  min infinityBits (roundQuotient n' d' + (e - leastExponent).toNat * fractions)

/-- The double nearest to `digits · 10 ^ scale`. Past the decimals named here every double is
infinite or zero, and no power is computed. -/
def ofDecimal (negative : Bool) (digits : Nat) (scale : Int) : Binary64 :=
  if digits = 0 then ofSize negative 0
  else
    let magnitude : Int := (Nat.toDigits 10 digits).length + scale
    if 310 < magnitude then infinity negative
    else if magnitude < -330 then ofSize negative 0
    else if 0 ≤ scale then ofSize negative (sizeOfQuotient (digits * tenTo scale.toNat) 1)
    else ofSize negative (sizeOfQuotient digits (tenTo (-scale).toNat))

def ofInt (n : Int) : Binary64 := ofDecimal (n < 0) n.natAbs 0

/-- The exponent behind the digits of a decimal: none, or a letter and a whole number. -/
def readScale? : List Char → Option Int
  | [] => some 0
  | c :: cs => if c = 'e' ∨ c = 'E' then readInt? cs else none

/-- Digits with an optional point among or around them, then an optional exponent. -/
def readDecimal? (negative : Bool) (cs : List Char) : Option Binary64 := do
  let whole := cs.takeWhile Char.isDigit
  let afterWhole := cs.dropWhile Char.isDigit
  let (decimals, rest) :=
    match afterWhole with
    | '.' :: r => (r.takeWhile Char.isDigit, r.dropWhile Char.isDigit)
    | r => ([], r)
  if (whole ++ decimals).isEmpty then none
  else
    let scale ← readScale? rest
    return ofDecimal negative (Nat.ofDigitChars 10 (whole ++ decimals) 0) (scale - decimals.length)

/-- A decimal without its sign, or one of the words for what is no finite number. -/
def readUnsigned? (negative : Bool) (cs : List Char) : Option Binary64 :=
  let word := lower (String.ofList cs)
  if word = "inf" ∨ word = "infinity" then some (infinity negative)
  else if word = "nan" then some (notANumber negative)
  else readDecimal? negative cs

/-- The double a text spells. -/
def read? : List Char → Option Binary64
  | '-' :: cs => readUnsigned? true cs
  | '+' :: cs => readUnsigned? false cs
  | cs => readUnsigned? false cs

end Binary64

end TileScript
