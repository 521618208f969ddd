import TileScript.Id
import TileScript.Text.Blank
import TileScript.Text.Numeral
import TileScript.Text.Search

/-! # Script values

A value is an integer, a text, or a reference to an entity or an item. `Value.literal` is the text
that stands for a value in a script, and `Value.ofLiteral?` reads it.
-/

namespace TileScript

inductive Value where
  | int (n : Int64)
  | text (s : String)
  | entity (id : EntityId)
  | item (id : ItemId)
  deriving DecidableEq, Repr

namespace Value

open Text

/-- What a call hands back when it hands back nothing. -/
instance : Inhabited Value := ⟨.text ""⟩

/-- The text between a quote at the start and another at the end; quotes inside are kept. -/
def quoted? : List Char → Option String
  | '"' :: cs => if cs.getLast? = some '"' then some (String.ofList cs.dropLast) else none
  | _ => none

/-- The number between `start` and a closing bracket, with blanks around it allowed. -/
def reference? (start : String) (cs : List Char) : Option UInt32 := do
  let inner ← beforeSuffix? [']'] (← afterPrefix? start.toList cs)
  readUInt32? (trim inner)

/-- The value a single literal stands for. -/
def ofLiteral? (cs : List Char) : Option Value :=
  let t := trim cs
  (readInt64? t).map .int
    <|> (quoted? t).map .text
    <|> (reference? "$Entity[" t).map (.entity ⟨·⟩)
    <|> (reference? "$Item[" t).map (.item ⟨·⟩)

/-- The value of returned data: what it stands for as a literal, and otherwise its own text. -/
def ofData (data : String) : Value := (ofLiteral? data.toList).getD (.text data)

/-- The text that stands for a value in a script. -/
def literal : Value → String
  | .int n => n.toInt.repr
  | .text s => "\"" ++ s ++ "\""
  | .entity id => id.reference
  | .item id => id.reference

/-- The text shown for a value: its literal, but a text without quotes. -/
def display : Value → String
  | .text s => s
  | v => v.literal

/-- The integer a value can be used as: an integer, or a text that spells one. -/
def toInt? : Value → Option Int64
  | .int n => some n
  | .text s => readInt64? (trim s.toList)
  | _ => none

def toEntity? : Value → Option EntityId
  | .entity id => some id
  | _ => none

def toItem? : Value → Option ItemId
  | .item id => some id
  | _ => none

end Value

end TileScript
