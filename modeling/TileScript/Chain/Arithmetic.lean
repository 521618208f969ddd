import TileScript.Chain.Nesting
import TileScript.Text.Blank
import TileScript.Text.Numeral

/-! # Arithmetic

An expression is cut at one operator only, the first of plus, minus, times and divide that it has at
its top level; the operands are expressions again. A minus with nothing to subtract from is a sign.
-/

namespace TileScript

open Text

inductive ArithmeticOp where
  | add
  | sub
  | mul
  | div
  deriving DecidableEq, Repr

namespace ArithmeticOp

def symbol : ArithmeticOp → Char
  | .add => '+'
  | .sub => '-'
  | .mul => '*'
  | .div => '/'

/-- The operators in the order in which an expression is searched for them. -/
def searchOrder : List ArithmeticOp := [.add, .sub, .mul, .div]

def isOperator (c : Char) : Bool := searchOrder.any (·.symbol == c)

/-- The result in 64 bits. Division goes toward zero. -/
def compute? (op : ArithmeticOp) (a b : Int64) : Option Int64 :=
  match op with
  | .add => toInt64? (a.toInt + b.toInt)
  | .sub => toInt64? (a.toInt - b.toInt)
  | .mul => toInt64? (a.toInt * b.toInt)
  | .div => if b = 0 then none else toInt64? (a.toInt.tdiv b.toInt)

end ArithmeticOp

namespace Chain

/-- What a search for operators knows at a character. -/
structure OperandScan where
  nesting : Nesting := {}
  /-- The last character that was not blank. -/
  previous : Option Char := none
  deriving DecidableEq, Repr

namespace OperandScan

def step (s : OperandScan) (c : Char) : OperandScan :=
  { nesting := s.nesting.step c, previous := if isBlank c then s.previous else some c }

/-- Whether a minus here is a sign: no operand ends before it. -/
def expectsOperand (s : OperandScan) : Bool :=
  match s.previous with
  | none => true
  | some p => ArithmeticOp.isOperator p || p == ',' || p == '('

/-- Whether an expression is cut at a character when it is searched for `op`. -/
def cuts (op : ArithmeticOp) (s : OperandScan) (c : Char) : Bool :=
  s.nesting.isTop c && c == op.symbol && !(op == .sub && s.expectsOperand)

end OperandScan

/-- The pieces of an expression between the operators `op` at its top level. -/
def operands (op : ArithmeticOp) (cs : List Char) : List (List Char) :=
  splitWhere (OperandScan.cuts op) OperandScan.step {} cs

/-- The operator an expression is cut at, and its operands. -/
def splitArithmetic? (cs : List Char) : Option (ArithmeticOp × List (List Char)) :=
  ArithmeticOp.searchOrder.findSome? fun op =>
    let pieces := operands op cs
    if 2 ≤ pieces.length then some (op, pieces.map trim) else none

theorem length_lt_of_splitArithmetic? {cs p : List Char} {op : ArithmeticOp}
    {ps : List (List Char)} (h : splitArithmetic? cs = some (op, ps)) (hp : p ∈ ps) :
    p.length < cs.length := by
  obtain ⟨o, _, ho⟩ := List.exists_of_findSome?_eq_some h
  dsimp only at ho
  split at ho
  · next h₂ =>
    cases ho
    obtain ⟨q, hq, rfl⟩ := List.mem_map.1 hp
    exact Nat.lt_of_le_of_lt (length_trim_le q) (length_lt_of_mem_splitWhere _ _ hq h₂)
  · cases ho

end Chain

end TileScript
