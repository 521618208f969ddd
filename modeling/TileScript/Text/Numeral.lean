/-! # Integers in decimal

A numeral is an optional sign and one or more ASCII digits, with nothing around them. Reading into
a word type fails outside its range.
-/

namespace TileScript

def toInt64? (n : Int) : Option Int64 :=
  if -0x8000000000000000 ≤ n ∧ n < 0x8000000000000000 then some (Int64.ofInt n) else none

def toInt32? (n : Int) : Option Int32 :=
  if -0x80000000 ≤ n ∧ n < 0x80000000 then some (Int32.ofInt n) else none

def toUInt32? (n : Int) : Option UInt32 :=
  if 0 ≤ n ∧ n < 0x100000000 then some (UInt32.ofNat n.toNat) else none

/-- A natural number of 64 bits. -/
def toNat64? (n : Int) : Option Nat :=
  if 0 ≤ n ∧ n < 0x10000000000000000 then some n.toNat else none

namespace Text

/-- One or more digits. -/
def readDigits? (cs : List Char) : Option Nat :=
  if !cs.isEmpty && cs.all Char.isDigit then some (Nat.ofDigitChars 10 cs 0) else none

/-- Digits after an optional plus sign. -/
def readNat? : List Char → Option Nat
  | '+' :: cs => readDigits? cs
  | cs => readDigits? cs

/-- Digits after an optional sign. -/
def readInt? : List Char → Option Int
  | '-' :: cs => (readDigits? cs).map fun n => -(n : Int)
  | cs => (readNat? cs).map Int.ofNat

def readInt64? (cs : List Char) : Option Int64 := (readInt? cs).bind toInt64?

def readInt32? (cs : List Char) : Option Int32 := (readInt? cs).bind toInt32?

def readUInt32? (cs : List Char) : Option UInt32 := (readNat? cs).bind fun n => toUInt32? n

def readNat64? (cs : List Char) : Option Nat := (readNat? cs).bind fun n => toNat64? n

end Text

end TileScript
