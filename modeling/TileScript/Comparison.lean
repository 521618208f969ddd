import TileScript.Error
import TileScript.Value

/-! # Comparisons

Equality compares literals and so never fails; the four orderings need integers on both sides.
-/

namespace TileScript

inductive Comparison where
  | eq
  | ne
  | lt
  | le
  | gt
  | ge
  deriving DecidableEq, Repr

namespace Comparison

def text : Comparison → String
  | .eq => "=="
  | .ne => "!="
  | .lt => "<"
  | .le => "<="
  | .gt => ">"
  | .ge => ">="

def ofText? (s : String) : Option Comparison :=
  [eq, ne, lt, le, gt, ge].find? (·.text == s)

/-- The integer an ordering compares. -/
def operand (v : Value) : Except ScriptError Int64 :=
  match v.toInt? with
  | some n => .ok n
  | none => .error (.notANumber v.literal)

/-- The order of two operands; the left one is looked at first. -/
def ordering (holds : Int64 → Int64 → Bool) (lhs rhs : Value) : Except ScriptError Bool := do
  let a ← operand lhs
  let b ← operand rhs
  return holds a b

def apply (op : Comparison) (lhs rhs : Value) : Except ScriptError Bool :=
  match op with
  | .eq => .ok (lhs.literal == rhs.literal)
  | .ne => .ok (lhs.literal != rhs.literal)
  | .lt => ordering (fun a b => a < b) lhs rhs
  | .le => ordering (fun a b => a ≤ b) lhs rhs
  | .gt => ordering (fun a b => b < a) lhs rhs
  | .ge => ordering (fun a b => b ≤ a) lhs rhs

@[simp] theorem ofText?_text (op : Comparison) : ofText? op.text = some op := by
  cases op <;> decide

end Comparison

end TileScript
