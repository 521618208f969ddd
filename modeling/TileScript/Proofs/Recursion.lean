import TileScript.Proofs.Located
import TileScript.Fiber.Evaluate

/-! # Evaluating a text by its pieces

An expression can be evaluated without its tree: it is cut into operands or into the segments of a
chain, and the pieces are evaluated in the same way. Nothing in this says that it ends. It does: the
pieces get shorter, so a text is never cut more often in depth than it is long.
-/

namespace TileScript

open Text Chain

/-- An evaluation that may be given up. -/
abbrev Cut := OptionT Eval

namespace Scope

section Definitions

variable (s : Scope) (ev : List Char → Cut Value)

/-- The result of an operation over the texts of its operands. -/
def operandTexts (op : ArithmeticOp) : Option Int64 → List (List Char) → Cut Value
  | some n, [] => pure (.int n)
  | none, [] => OptionT.lift (Eval.fail .emptyExpression)
  | acc, t :: ts => do
    let v ← ev t
    let n ← OptionT.lift (Eval.ofExcept (accumulate op acc v))
    operandTexts op (some n) ts

def paramTexts : List (List Char) → Cut (List Value)
  | [] => pure []
  | t :: ts => do
    let v ← ev t
    let vs ← paramTexts ts
    return v :: vs

/-- Runs the call that segment `i` of a statement is. -/
def callText (statement : List Char) (i : Nat) (wanted : Bool) (current : Option Value)
    (accessor : Accessor) (text : List Char) : Cut (Option Value) :=
  match splitCall? text with
  | none => OptionT.lift (Eval.fail (.malformedCall (String.ofList text)))
  | some (name, raw) => do
    let params ← paramTexts ev (splitParams raw)
    OptionT.lift (s.invoke current accessor (String.ofList name) params
      (s.resumePoint wanted (upToSegment statement i)))

/-- The value of the rest of a chain, as `evalLinks` has it. -/
def segmentTexts (statement : List Char) (wanted : Bool) (current : Option Value)
    (accessor : Accessor) : List (Segment × Nat) → Cut Value
  | [] => pure (current.getD default)
  | (.accessor name, _) :: rest => do
    let w ← OptionT.lift Eval.world
    let v ← OptionT.lift (Eval.ofExcept (readProperty w current name))
    segmentTexts statement wanted (some v) (.target v) rest
  | (.call text, i) :: rest => do
    let v ← s.callText ev statement i (wanted || !rest.isEmpty) current accessor text
    segmentTexts statement wanted v (.ofValue? v) rest

/-- The value of a statement, as `evalChain` has it. -/
def statementText (wanted : Bool) (statement : List Char) : Cut Value :=
  match (segments statement).zipIdx with
  | [] => OptionT.lift (Eval.fail .emptyExpression)
  | (.accessor word, _) :: rest => do
    let w ← OptionT.lift Eval.world
    let (current, accessor) ← OptionT.lift (Eval.ofExcept (s.resolveRoot w word))
    s.segmentTexts ev statement wanted current accessor rest
  | rest => s.segmentTexts ev statement wanted none .none rest

/-- The value of an expression, given up where pieces are cut more than `depth` deep. -/
def expressionText : Nat → List Char → Cut Value
  | 0, _ => failure
  | depth + 1, text =>
    match splitArithmetic? (trim text) with
    | some (op, pieces) => operandTexts (expressionText depth) op none pieces
    | none => s.statementText (expressionText depth) true (trim text)

end Definitions

variable {s : Scope} {ev : List Char → Cut Value}

/-- On the texts in question `ev` goes through and has the value of the tree. -/
def Settles (s : Scope) (ev : List Char → Cut Value) (texts : List (List Char)) : Prop :=
  ∀ t ∈ texts, ev t = OptionT.lift (s.eval (.parse t))

theorem operandTexts_eq (op : ArithmeticOp) (acc : Option Int64) {ts : List (List Char)}
    (h : s.Settles ev ts) :
    operandTexts ev op acc ts = OptionT.lift (s.evalOperands op acc (ts.map Expr.parse)) := by
  induction ts generalizing acc with
  | nil =>
    cases acc with
    | none =>
      rw [List.map_nil, evalOperands]
      rfl
    | some n =>
      rw [List.map_nil, evalOperands]
      rfl
  | cons t ts ih =>
    have hts : s.Settles ev ts := fun u hu => h u (List.mem_cons_of_mem t hu)
    rw [operandTexts, List.map_cons, evalOperands, h t List.mem_cons_self]
    simp only [OptionT.lift_bind, ih _ hts]

theorem paramTexts_eq {ts : List (List Char)} (h : s.Settles ev ts) :
    paramTexts ev ts = OptionT.lift (s.evalArguments (ts.map Expr.parse)) := by
  induction ts with
  | nil =>
    rw [List.map_nil, evalArguments]
    rfl
  | cons t ts ih =>
    have hts : s.Settles ev ts := fun u hu => h u (List.mem_cons_of_mem t hu)
    rw [paramTexts, List.map_cons, evalArguments, h t List.mem_cons_self, ih hts]
    simp only [OptionT.lift_bind]
    rfl

/-- The parameters of the calls among some segments. -/
def parameterTexts (segments : List (Segment × Nat)) : List (List Char) :=
  segments.flatMap fun x => (splitCall? x.1.text).elim [] fun y => splitParams y.2

theorem segmentTexts_eq (statement : List Char) (wanted : Bool) (current : Option Value)
    (accessor : Accessor) {xs : List (Segment × Nat)} (h : s.Settles ev (parameterTexts xs)) :
    s.segmentTexts ev statement wanted current accessor xs =
      OptionT.lift (s.evalLinks wanted current accessor
        (xs.map fun x => Link.read statement x.2 x.1)) := by
  induction xs generalizing current accessor with
  | nil =>
    rw [List.map_nil, evalLinks]
    rfl
  | cons x xs ih =>
    have hxs : s.Settles ev (parameterTexts xs) := fun t ht =>
      h t (List.mem_append_right _ ht)
    obtain ⟨segment, i⟩ := x
    cases segment with
    | accessor name =>
      rw [segmentTexts, List.map_cons, Link.read, evalLinks]
      simp only [OptionT.lift_bind, ih _ _ hxs]
    | call text =>
      rw [segmentTexts, List.map_cons, Link.read, callText]
      cases hc : splitCall? text with
      | none =>
        dsimp only
        rw [evalLinks]
        rfl
      | some y =>
        obtain ⟨name, raw⟩ := y
        have hp : s.Settles ev (splitParams raw) := fun t ht =>
          h t (List.mem_append_left _ (by simpa [Segment.text, hc] using ht))
        dsimp only
        rw [evalLinks, paramTexts_eq hp]
        simp only [OptionT.lift_bind, ih _ _ hxs, List.isEmpty_map, bind_assoc]

/-- A parameter is shorter than the statement it stands in. -/
theorem length_lt_of_mem_parameterTexts {statement t : List Char}
    (h : t ∈ parameterTexts (segments statement).zipIdx) : t.length < statement.length := by
  obtain ⟨⟨segment, i⟩, hs, ht⟩ := List.mem_flatMap.1 h
  cases hc : splitCall? segment.text with
  | none => simp [hc] at ht
  | some y =>
    obtain ⟨name, raw⟩ := y
    have h₁ : t.length ≤ raw.length := length_le_of_mem_splitParams (by simpa [hc] using ht)
    have h₂ := length_lt_of_splitCall? hc
    have h₃ : segment.text.length ≤ statement.length :=
      length_text_le_of_mem_segments (List.fst_mem_of_mem_zipIdx hs)
    omega

theorem statementText_eq (wanted : Bool) {statement : List Char}
    (h : ∀ t : List Char, t.length < statement.length → ev t = OptionT.lift (s.eval (.parse t))) :
    s.statementText ev wanted statement =
      OptionT.lift (s.evalChain wanted (Link.parse statement)) := by
  have hp : s.Settles ev (parameterTexts (segments statement).zipIdx) := fun t ht =>
    h t (length_lt_of_mem_parameterTexts ht)
  rw [statementText, Link.parse_eq]
  generalize (segments statement).zipIdx = xs at hp
  match xs with
  | [] => rw [List.map_nil, evalChain]
  | (.accessor word, i) :: rest =>
    have hrest : s.Settles ev (parameterTexts rest) := fun t ht => hp t (List.mem_append_right _ ht)
    rw [List.map_cons, Link.read, evalChain]
    simp only [OptionT.lift_bind, segmentTexts_eq statement wanted _ _ hrest]
  | (.call text, i) :: rest =>
    dsimp only
    rw [segmentTexts_eq statement wanted _ _ hp, List.map_cons, Link.read]
    cases splitCall? text with
    | none =>
      dsimp only
      rw [evalChain]
      simp
    | some y =>
      dsimp only
      rw [evalChain]
      simp

/-- A recursion deeper than the text is long is not needed. -/
theorem expressionText_eq (s : Scope) {depth : Nat} {text : List Char} (h : text.length < depth) :
    s.expressionText depth text = OptionT.lift (s.eval (.parse text)) := by
  induction depth generalizing text with
  | zero => exact absurd h (Nat.not_lt_zero _)
  | succ depth ih =>
    have ht := length_trim_le text
    rw [expressionText]
    split
    · next op pieces hs =>
      rw [Expr.parse_arithmetic hs, eval]
      refine operandTexts_eq op none fun t hp => ih ?_
      have := length_lt_of_splitArithmetic? hs hp
      omega
    · next hs =>
      rw [Expr.parse_chain hs, eval]
      exact statementText_eq true fun t hl => ih (by omega)

end Scope

end TileScript
