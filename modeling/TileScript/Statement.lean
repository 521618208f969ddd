import TileScript.Chain.Assignment
import TileScript.Error
import TileScript.Text.Search

/-! # Script lines

What kind of statement a line is. The kind depends on the text of the line alone.
-/

namespace TileScript

open Text

inductive Statement where
  /-- Nothing, a comment or a directive. -/
  | blank
  /-- `end` -/
  | close
  /-- `else` -/
  | otherwise
  /-- `if` with the text of its condition. -/
  | branch (condition : List Char)
  /-- `var` with the text behind it. -/
  | declare (definition : List Char)
  | assign (name value : List Char)
  | bare (chain : List Char)
  deriving DecidableEq, Repr

namespace Statement

def isComment (line : List Char) : Bool :=
  "//".toList.isPrefixOf line || "#".toList.isPrefixOf line || "$".toList.isPrefixOf line

/-- The condition of an `if` line. -/
def condition? (line : List Char) : Option (List Char) :=
  if line = "if".toList then some [] else afterPrefix? "if ".toList line

/-- The statement on a line. -/
def ofLine (line : List Char) : Statement :=
  let t := trim line
  if t.isEmpty || isComment t then .blank
  else if t = "end".toList then .close
  else if t = "else".toList then .otherwise
  else
    match afterPrefix? "var ".toList t with
    | some definition => .declare definition
    | none =>
      match condition? t with
      | some condition => .branch (trim condition)
      | none =>
        match Chain.splitAssignment? t with
        | some (name, value) => .assign name value
        | none => .bare t

/-- Names that a script cannot give to a variable. -/
def isReserved (name : List Char) : Bool := name == "_".toList || name == "items".toList

/-- The name and the initial value of a variable definition. -/
def splitDefinition (definition : List Char) : Except ScriptError (List Char × List Char) :=
  match splitOnce? '=' definition with
  | none => .error .invalidVariable
  | some (left, value) =>
    let name := trim left
    if Chain.isIdentifier name && !isReserved name then .ok (name, value)
    else .error .invalidVariable

end Statement

end TileScript
