import Std.Data.ExtTreeMap
import TileScript.Comparison
import TileScript.Text.Line

/-! # Conditions

A condition is a row of comparisons joined by `and` and `or`, which bind equally and apply from the
left. A group opens with parentheses glued to a left operand and closes with parentheses glued to a
right operand. Reading a condition does not depend on what the comparisons yield.
-/

namespace TileScript

open Text

inductive Joiner where
  | and
  | or
  deriving DecidableEq, Repr

/-- Two results joined; without a joiner the later one is ignored. -/
def Joiner.combine : Option Joiner → Bool → Bool → Bool
  | some .and, a, b => a && b
  | some .or, a, b => a || b
  | none, a, _ => a

/-- One comparison of a condition. -/
structure Clause where
  /-- The last joiner written since the clause before. -/
  joiner : Option Joiner
  /-- Groups opened before the left operand. -/
  opens : Nat
  left : List Char
  op : Comparison
  right : List Char
  /-- Groups closed behind the right operand. -/
  closes : Nat
  deriving DecidableEq, Repr

namespace Condition

def isOpening (c : Char) : Bool := c == '(' || isBlank c

def isClosing (c : Char) : Bool := c == ')' || isBlank c

/-- The number of parentheses a word opens with, and what they enclose. -/
def stripOpens (word : List Char) : Nat × List Char :=
  if word.head? = some '(' then
    ((word.takeWhile isOpening).count '(', trimEnd (word.dropWhile isOpening))
  else (0, word)

/-- The number of parentheses a word ends with, and what stands before them. -/
def stripCloses (word : List Char) : Nat × List Char :=
  if word.getLast? = some ')' then
    let r := word.reverse
    ((r.takeWhile isClosing).count ')', trimStart (r.dropWhile isClosing).reverse)
  else (0, word)

/-- Why a condition cannot be read to its end. -/
inductive Fault where
  /-- A comparison lacks its operator or right operand. -/
  | incomplete
  | unknownOperator (op : List Char)
  deriving DecidableEq, Repr

/-- The clauses of a row of words up to its end or its first fault. -/
def scan : Option Joiner → List (List Char) → List Clause × Option Fault
  | _, [] => ([], none)
  | joiner, word :: ws =>
    if word = "and".toList then scan (some .and) ws
    else if word = "or".toList then scan (some .or) ws
    else
      match ws with
      | opWord :: rightWord :: rest =>
        match Comparison.ofText? (String.ofList opWord) with
        | none => ([], some (.unknownOperator opWord))
        | some op =>
          let (opens, left) := stripOpens word
          let (closes, right) := stripCloses rightWord
          let (clauses, fault) := scan none rest
          ({ joiner, opens, left, op, right, closes } :: clauses, fault)
      | _ => ([], some .incomplete)

end Condition

/-- A condition as read. -/
structure Condition where
  text : List Char
  clauses : List Clause
  fault : Option Condition.Fault
  deriving DecidableEq, Repr

/-- What a condition amounts to after some of its clauses. -/
structure Tally where
  depth : Int := 0
  joiner : Option Joiner := none
  value : Option Bool := none
  /-- What was reached outside a group, by the depth outside it. -/
  outer : Std.ExtTreeMap Int (Bool × Option Joiner) := {}

/-- The tally after one more clause. A group is joined to what stood before it when a clause is
reached that is less deep than the one before. -/
def Tally.add (t : Tally) (c : Clause) (result : Bool) : Tally :=
  let joiner := c.joiner <|> t.joiner
  let depth := t.depth + c.opens - c.closes
  match t.value with
  | none => { t with depth, joiner, value := some result }
  | some current =>
    if t.depth < depth then
      { depth, joiner, value := some result, outer := t.outer.insert t.depth (current, joiner) }
    else if depth < t.depth then
      let inner := Joiner.combine joiner current result
      match t.outer[depth]? with
      | some (before, outerJoiner) =>
        { depth
          joiner := outerJoiner
          value := some (Joiner.combine outerJoiner before inner)
          outer := t.outer.erase depth }
      | none => { t with depth, joiner, value := some inner }
    else { t with depth, joiner, value := some (Joiner.combine joiner current result) }

namespace Condition

/-- The condition a text spells. -/
def parse (text : List Char) : Condition :=
  let (clauses, fault) := scan none (words text)
  { text, clauses, fault }

def Fault.error (text : List Char) : Fault → ScriptError
  | .incomplete => .invalidCondition (String.ofList text)
  | .unknownOperator op => .unknownOperator (String.ofList op)

/-- The outcome of a condition after all its clauses. -/
def conclude (c : Condition) (t : Tally) : Except ScriptError Bool :=
  match c.fault, t.value with
  | some f, _ => .error (f.error c.text)
  | none, some b => .ok b
  | none, none => .error (.invalidCondition (String.ofList c.text))

/-- Compares clause after clause, each once and in order, and then concludes. -/
def evaluate {m : Type → Type} [Monad m] (compare : Clause → m Bool) (c : Condition) :
    m (Except ScriptError Bool) := do
  let t ← c.clauses.foldlM (fun t k => return t.add k (← compare k)) {}
  return c.conclude t

end Condition

end TileScript
