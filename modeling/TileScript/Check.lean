import TileScript.Condition
import TileScript.Statement

/-! # Static check

A script is checked without a world: its blocks must match, its variable definitions must be
complete, and its conditions must be made of comparisons. The first problem is reported.
-/

namespace TileScript

open Text

/-- What is wrong with a script, and on which line, counted from one. -/
structure Problem where
  line : Nat
  error : ScriptError
  deriving DecidableEq, Repr

def Problem.message (p : Problem) : String := "line " ++ p.line.repr ++ ": " ++ p.error.message

namespace Check

/-- Whether a condition can be read, whatever its comparisons yield. -/
def condition (text : List Char) : Except ScriptError Bool :=
  Id.run ((Condition.parse text).evaluate fun _ => pure true)

/-- The lines of the blocks open behind a statement on line `number`. -/
def statement (number : Nat) (opened : List Nat) : Statement → Except ScriptError (List Nat)
  | .close =>
    match opened with
    | [] => .error (.unexpectedKeyword .close)
    | _ :: rest => .ok rest
  | .otherwise => if opened.isEmpty then .error (.unexpectedKeyword .otherwise) else .ok opened
  | .branch c => do
    let _ ← condition c
    return number :: opened
  | .declare definition => do
    let (_, value) ← Statement.splitDefinition definition
    if isAllBlank value then .error .emptyExpression else return opened
  | .blank | .assign _ _ | .bare _ => .ok opened

/-- Checks lines from line `number` on, with blocks open since the lines `opened`, innermost first. -/
def lines (number : Nat) (opened : List Nat) : List (List Char) → Except Problem Unit
  | [] =>
    match opened with
    | [] => .ok ()
    | line :: _ => .error ⟨line, .unclosedBlock⟩
  | l :: ls =>
    match statement number opened (.ofLine l) with
    | .error e => .error ⟨number, e⟩
    | .ok opened' => lines (number + 1) opened' ls

end Check

/-- The first problem of a script, if it has one. -/
def check (source : String) : Except Problem Unit := Check.lines 1 [] (Text.lines source.toList)

end TileScript
