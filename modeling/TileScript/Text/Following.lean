import TileScript.Text.Emoji
import TileScript.Text.Ligature
import TileScript.Text.Mark
import TileScript.Text.Wide

/-! # Columns of characters

The columns of a character depend on what follows: parts of ligatures and of sequences of emoji
share their columns. Such shapes are read from their ends.
-/

namespace TileScript.Text

/-- The end of a sequence of emoji, from a joiner with an emoji behind it. -/
inductive EmojiTail where
  | joiner
  /-- The frame of a key before the joiner. -/
  | keycap
  /-- One letter of a flag before the joiner. -/
  | flagLetter
  /-- Two letters of flags or more. -/
  | flagLetters (even : Bool)
  /-- The tags of a flag, with the letters and the digits before the last tag. -/
  | tags (letters digits : Nat)
  deriving DecidableEq, Repr

/-- What a text begins with, as far as the width of a character before it depends on it. -/
inductive Following where
  | plain
  | lineFeed
  | alef
  | ligature (l : Ligature) (joined : Bool)
  /-- Kirat Rai vowel signs, which combine with each other. -/
  | vowelE
  | vowelAi
  | picture
  | tone
  | flagLetters (several : Bool)
  | emojiTail (t : EmojiTail)
  deriving DecidableEq, Repr

def zeroWidthJoiner : Nat := 0x200D

/-- The columns of a character by itself, and what it is to a character before it. -/
def alone (n : Nat) : Int × Following :=
  if n = 0x0A then (1, .lineFeed)
  else if n ≤ 0xA0 then (1, .plain)
  else if isAlef n then (1, .alef)
  else if n = 0x16D67 then (1, .vowelE)
  else if n = 0x16D68 then (1, .vowelAi)
  else if isFlagLetter n then (1, .flagLetters false)
  else if isTone n then (2, .tone)
  else if isPicture n then (2, .picture)
  else
    match Ligature.ofLast? n with
    | some l => (1, .ligature l false)
    | none =>
      if n = 0x17D8 then (3, .plain)
      else if n = 0x17A4 then (2, .plain)
      else if isMark n || isFiller n then (0, .plain)
      else if isWide n then (2, .plain)
      else (1, .plain)

/-- The columns that a character adds before the end of a sequence of emoji. Letters of flags pair
up from the first one on, so each further letter shifts the pairs. The tags of a flag spell three to
six letters, or three digits and up to four letters. -/
def EmojiTail.join? (n : Nat) : EmojiTail → Option (Int × Following)
  | .joiner =>
    if n = 0x20E3 then some (0, .emojiTail .keycap)
    else if isFlagLetter n then some (1, .emojiTail .flagLetter)
    else if isTone n then some (0, .tone)
    else if n = 0xE007F then some (0, .emojiTail (.tags 0 0))
    else if isPicture n then some (0, .picture)
    else none
  | .keycap => none
  | .flagLetter => if isFlagLetter n then some (-1, .emojiTail (.flagLetters true)) else none
  | .flagLetters even =>
    if isFlagLetter n then some (if even then 3 else -1, .emojiTail (.flagLetters !even))
    else if n = zeroWidthJoiner then some (0, .emojiTail .joiner)
    else none
  | .tags letters digits =>
    if isLetterTag n ∧ digits = 0 ∧ letters < 6 then
      some (0, .emojiTail (.tags (letters + 1) 0))
    else if isDigitTag n ∧ letters ≤ 4 ∧ digits < 3 then
      some (0, .emojiTail (.tags letters (digits + 1)))
    else if n = 0x1F3F4 ∧ (digits = 3 ∨ (digits = 0 ∧ 3 ≤ letters)) then some (0, .picture)
    else none

namespace Following

/-- The columns that a character adds if it makes one shape with what follows, and what the two
are to a character before them. -/
def join? (n : Nat) : Following → Option (Int × Following)
  | .plain => none
  | .lineFeed => if n = 0x0D then some (0, .plain) else none
  | .alef =>
    if isLam n then some (0, .plain)
    else if isMark n then some (0, .alef)
    else none
  | .ligature l joined =>
    if n = zeroWidthJoiner then some (0, .ligature l true)
    else if isHiddenMark n then some (0, .ligature l joined)
    else
      (l.join? joined n).map fun (columns, l) =>
        (columns, (l.map (.ligature · joined)).getD .plain)
  | .vowelE =>
    if n = 0x16D63 ∨ n = 0x16D69 then some (0, .plain)
    else if n = 0x16D67 then some (0, .vowelAi)
    else if n = 0x16D68 then some (1, .vowelE)
    else none
  | .vowelAi => if n = 0x16D63 then some (0, .plain) else none
  | .picture => if n = zeroWidthJoiner then some (0, .emojiTail .joiner) else none
  | .tone =>
    if isToned n then some (0, .picture)
    else if n = zeroWidthJoiner then some (0, .emojiTail .joiner)
    else none
  | .flagLetters several =>
    if isFlagLetter n then some (1, .flagLetters true)
    else if several && n == zeroWidthJoiner then some (0, .emojiTail .joiner)
    else none
  | .emojiTail t => t.join? n

def isEmojiTail : Following → Bool
  | .emojiTail _ => true
  | _ => false

/-- The columns that a character adds before a text, and what the two begin with. -/
def before (f : Following) (n : Nat) : Int × Following := (f.join? n).getD (alone n)

end Following

end TileScript.Text
