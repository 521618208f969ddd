import TileScript.Text.Ranges

/-! # Ligatures

Letters that are written in one column with the letters before them. A ligature is read from its
end: its last letter, and what it joins with.
-/

namespace TileScript.Text

/-- Arabic letters that end a ligature. -/
def isAlef (n : Nat) : Bool :=
  inRanges [(0x622, 0x623), (0x625, 0x625), (0x627, 0x627), (0x671, 0x673), (0x675, 0x675),
    (0x773, 0x774), (0x870, 0x882)] n

/-- Arabic letters that an alef joins with. -/
def isLam (n : Nat) : Bool :=
  inRanges [(0x644, 0x644), (0x6B5, 0x6B8), (0x76A, 0x76A), (0x8A6, 0x8A6), (0x8C7, 0x8C7)] n

def isTifinaghConsonant (n : Nat) : Bool := inRanges [(0x2D31, 0x2D65), (0x2D6F, 0x2D6F)] n

/-- Khmer letters whose form below another letter takes no column. -/
def isKhmerSubscript (n : Nat) : Bool :=
  inRanges [(0x1780, 0x1782), (0x1784, 0x1787), (0x1789, 0x178C), (0x178E, 0x1793),
    (0x1795, 0x1798), (0x179B, 0x179D), (0x17A0, 0x17A0), (0x17A2, 0x17A2), (0x17A7, 0x17A7),
    (0x17AB, 0x17AC), (0x17AF, 0x17AF)] n

/-- The end of a ligature across which joiners and hidden marks are passed over. -/
inductive Ligature where
  | hebrewLamed
  | orkhonI
  | bugineseYa
  /-- The vowel sign i with a joiner and ya behind it. -/
  | bugineseVowelYa
  | tifinaghConsonant
  /-- The consonant joiner with a consonant behind it. -/
  | tifinaghJoiner
  | lisuTone
  | khmerSubscript
  deriving DecidableEq, Repr

namespace Ligature

/-- The ligatures that a letter may end. -/
def ofLast? (n : Nat) : Option Ligature :=
  if n = 0x5DC then some .hebrewLamed
  else if n = 0x10C03 then some .orkhonI
  else if n = 0x1A10 then some .bugineseYa
  else if isTifinaghConsonant n then some .tifinaghConsonant
  else if inRanges [(0xA4FC, 0xA4FD)] n then some .lisuTone
  else if isKhmerSubscript n then some .khmerSubscript
  else none

/-- The columns that a character before the end of a ligature adds if it joins, and the ligature
so far unless it is complete. Some letters join only with a joiner between them. -/
def join? (joined : Bool) (n : Nat) : Ligature → Option (Int × Option Ligature)
  | .hebrewLamed => if joined && n == 0x5D0 then some (0, none) else none
  | .orkhonI => if joined && n == 0x10C32 then some (0, none) else none
  | .bugineseYa => if joined && n == 0x1A17 then some (0, some .bugineseVowelYa) else none
  | .bugineseVowelYa => if n = 0x1A15 then some (0, none) else none
  | .tifinaghConsonant =>
    if n = 0x2D7F then some (1, some .tifinaghJoiner)
    else if joined && isTifinaghConsonant n then some (0, none)
    else none
  | .tifinaghJoiner => if isTifinaghConsonant n then some (-1, none) else none
  | .lisuTone => if inRanges [(0xA4F8, 0xA4FB)] n then some (0, none) else none
  | .khmerSubscript => if n = 0x17D2 then some (-1, none) else none

end Ligature

end TileScript.Text
