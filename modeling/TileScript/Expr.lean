import TileScript.Chain.Arithmetic
import TileScript.Chain.Segment

/-! # Expressions

The tree behind the text of an expression. Reading never fails: a call without a closing
parenthesis becomes a link of its own, and evaluation reports it when it gets there.
-/

namespace TileScript

open Text Chain

mutual

/-- Arithmetic over operands, or a chain of links. -/
inductive Expr where
  | arithmetic (op : ArithmeticOp) (operands : List Expr)
  | chain (links : List Link)

/-- One link of a chain. -/
inductive Link where
  | word (text : List Char)
  /-- A call, and the chain's text up to and including it. -/
  | call (name : String) (arguments : List Expr) (reach : List Char)
  | malformed (text : List Char)

end

mutual

/-- The tree of an expression. -/
def Expr.parse (text : List Char) : Expr :=
  match _h : splitArithmetic? (trim text) with
  | some (op, pieces) => .arithmetic op (pieces.attach.map fun p => Expr.parse p.val)
  | none => .chain (Link.parse (trim text))
termination_by 2 * text.length + 1
decreasing_by
  · have h₁ := length_lt_of_splitArithmetic? _h p.property
    have h₂ := length_trim_le text
    omega
  · have h := length_trim_le text
    omega

/-- The links of a statement. -/
def Link.parse (statement : List Char) : List Link :=
  (segments statement).zipIdx.attach.map fun ⟨(segment, i), _hs⟩ =>
    match segment with
    | .accessor t => .word t
    | .call t =>
      match _hc : splitCall? t with
      | some (name, raw) =>
        .call (String.ofList name) ((splitParams raw).attach.map fun p => Expr.parse p.val)
          (upToSegment statement i)
      | none => .malformed t
termination_by 2 * statement.length
decreasing_by
  have h₁ := length_le_of_mem_splitParams p.property
  have h₂ := length_lt_of_splitCall? _hc
  have h₃ := length_text_le_of_mem_segments (List.fst_mem_of_mem_zipIdx _hs)
  simp only [Segment.text] at h₃
  omega

end

end TileScript
