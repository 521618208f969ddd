import TileScript.Expr
import TileScript.Proofs.Pieces

/-! # Trees that know their places

The tree of an expression in which every call carries the text of the line up to and including the
call, in place of the text of its chain. Two calls with the same text have different places, so such
a tree tells them apart.
-/

namespace TileScript

open Text Chain

namespace Chain

def operandSpans (op : ArithmeticOp) (p : Span) : List Span :=
  (p.split (OperandScan.cuts op) OperandScan.step {}).map Span.trim

def fragmentSpans (p : Span) : List Span :=
  if p.text.isEmpty then [] else p.split cutsChain Nesting.step {}

/-- The parameter list `raw` of a call. -/
def paramList (call : Span) (raw : List Char) : Span :=
  ⟨call.before ++ (call.text.takeWhile (· != '(') ++ ['(']), raw⟩

def paramSpans (p : Span) : List Span :=
  ((p.split cutsParams Nesting.step {}).map Span.trim).filter (!·.text.isEmpty)

@[simp] theorem map_text_operandSpans (op : ArithmeticOp) (p : Span) :
    (operandSpans op p).map Span.text = (operands op p.text).map trim := by
  rw [operandSpans, List.map_map]
  simp [operands, ← Span.map_text_split, Function.comp_def]

@[simp] theorem map_text_paramSpans (p : Span) :
    (paramSpans p).map Span.text = splitParams p.text := by
  rw [paramSpans, splitParams, ← Span.map_text_split, List.map_map, List.filter_map,
    List.filter_map, List.map_map]
  rfl

theorem map_text_fragmentSpans (p : Span) :
    (fragmentSpans p.trim).map (Segment.ofFragment ·.text) = segments p.text := by
  unfold fragmentSpans segments fragments
  by_cases h : (trim p.text).isEmpty
  · simp [h]
  · simp only [Span.text_trim, h, Bool.false_eq_true, if_false]
    rw [← Span.text_trim, ← Span.map_text_split, List.map_map]
    rfl

/-- A call is a name, then its parameter list between parentheses. -/
theorem of_splitCall? {c name raw : List Char} (hc : trim c = c)
    (h : splitCall? c = some (name, raw)) :
    c = (c.takeWhile (· != '(') ++ ['(']) ++ raw ++ [')'] ∧
      name = trim (c.takeWhile (· != '(')) := by
  unfold splitCall? at h
  simp only [hc] at h
  split at h
  · next inner hi =>
    split at h
    · next hl =>
      cases h
      refine ⟨?_, rfl⟩
      have hd : inner.dropLast ++ [')'] = inner := List.dropLast_append_getLast? _ hl
      conv_lhs => rw [← List.takeWhile_append_dropWhile (p := (· != '(')) (l := c), hi, ← hd]
      simp
    · cases h
  · cases h

theorem keepFragments_uncut {n : Nesting} {p : List Char} (h : Uncut cutsChain Nesting.step n p)
    (i : Nat) (y : List Char) :
    keepFragments n i (p ++ y) = p ++ keepFragments (p.foldl Nesting.step n) i y := by
  induction p generalizing n with
  | nil => rfl
  | cons c p ih => simp [keepFragments, h.1, ih h.2]

/-- The text up to a segment ends with its fragment. -/
theorem keepFragments_of_getElem? {n : Nesting} {p q : Span} {i : Nat}
    (h : (p.split cutsChain Nesting.step n)[i]? = some q) :
    p.before ++ keepFragments n i p.text = q.before ++ q.text := by
  obtain ⟨before, cs⟩ := p
  unfold Span.split at h
  generalize hps : splitWhere cutsChain Nesting.step n cs = ps at h
  induction ps generalizing n before cs i with
  | nil => exact absurd hps (splitWhere_ne_nil cutsChain Nesting.step n cs)
  | cons r rs ih =>
    obtain ⟨hu, ⟨rfl, rfl⟩ | ⟨c, y, rfl, hc, rfl⟩⟩ := of_splitWhere_eq_cons hps
    · obtain ⟨rfl, rfl⟩ : i = 0 ∧ q = ⟨before, cs⟩ := by
        cases i <;> simp_all [Span.locate]
      simpa [keepFragments] using keepFragments_uncut hu 0 []
    · rw [Span.locate_cons] at h
      dsimp only
      rw [keepFragments_uncut hu]
      cases i with
      | zero =>
        obtain rfl : q = ⟨before, r⟩ := by simpa using h.symm
        simp [keepFragments, hc]
      | succ i =>
        have := ih _ _ rfl (by simpa using h)
        simpa [keepFragments, hc] using this

theorem of_splitArithmetic? {cs : List Char} {op : ArithmeticOp} {ps : List (List Char)}
    (h : splitArithmetic? cs = some (op, ps)) :
    2 ≤ (operands op cs).length ∧ ps = (operands op cs).map trim := by
  obtain ⟨o, -, ho⟩ := List.exists_of_findSome?_eq_some h
  dsimp only at ho
  split at ho
  · next h₂ =>
    cases ho
    exact ⟨h₂, rfl⟩
  · cases ho

theorem length_text_lt_of_mem_operandSpans {op : ArithmeticOp} {ps : List (List Char)} {p q : Span}
    (h : splitArithmetic? p.text = some (op, ps)) (hq : q ∈ operandSpans op p) :
    q.text.length < p.text.length := by
  apply length_lt_of_splitArithmetic? h
  rw [(of_splitArithmetic? h).2, ← map_text_operandSpans]
  exact List.mem_map_of_mem hq

theorem length_text_le_of_mem_paramSpans {p q : Span} (hq : q ∈ paramSpans p) :
    q.text.length ≤ p.text.length := by
  apply length_le_of_mem_splitParams
  rw [← map_text_paramSpans]
  exact List.mem_map_of_mem hq

theorem length_text_le_of_mem_fragmentSpans {p q : Span} (hq : q ∈ fragmentSpans p.trim) :
    (Segment.ofFragment q.text).text.length ≤ p.text.length := by
  apply length_text_le_of_mem_segments
  rw [← map_text_fragmentSpans]
  exact List.mem_map_of_mem hq

end Chain

mutual

/-- The tree of an expression in its place. -/
def Expr.ofSpan (p : Span) : Expr :=
  match _h : splitArithmetic? p.trim.text with
  | some (op, _) => .arithmetic op ((operandSpans op p.trim).attach.map fun q => Expr.ofSpan q.val)
  | none => .chain (Link.ofSpan p.trim)
termination_by 2 * p.text.length + 1
decreasing_by
  · have h₁ := length_text_lt_of_mem_operandSpans _h q.property
    have h₂ := length_trim_le p.text
    simp only [Span.text_trim] at h₁
    omega
  · have h := length_trim_le p.text
    simp only [Span.text_trim]
    omega

/-- The links of a statement in its place. -/
def Link.ofSpan (p : Span) : List Link :=
  (fragmentSpans p.trim).attach.map fun ⟨q, _hq⟩ =>
    match _hs : Segment.ofFragment q.text with
    | .accessor t => .word t
    | .call t =>
      match _hc : splitCall? t with
      | some (name, raw) =>
        .call (String.ofList name)
          ((paramSpans (paramList q.trim raw)).attach.map fun a => Expr.ofSpan a.val)
          (trimEnd (q.before ++ q.text))
      | none => .malformed t
termination_by 2 * p.text.length
decreasing_by
  have h₁ := length_text_le_of_mem_paramSpans a.property
  have h₂ := length_lt_of_splitCall? _hc
  have h₃ := length_text_le_of_mem_fragmentSpans _hq
  rw [_hs] at h₃
  simp only [Segment.text, paramList] at h₁ h₃
  omega

end

section Equations

theorem Expr.parse_arithmetic {text : List Char} {op : ArithmeticOp} {pieces : List (List Char)}
    (h : splitArithmetic? (trim text) = some (op, pieces)) :
    Expr.parse text = .arithmetic op (pieces.map Expr.parse) := by
  rw [Expr.parse]
  split
  · next h' =>
    cases h.symm.trans h'
    simp
  · next h' => cases h.symm.trans h'

theorem Expr.parse_chain {text : List Char} (h : splitArithmetic? (trim text) = none) :
    Expr.parse text = .chain (Link.parse (trim text)) := by
  rw [Expr.parse]
  split
  · next h' => cases h.symm.trans h'
  · rfl

/-- The link that segment `i` of a statement is read as. -/
def Link.read (statement : List Char) (i : Nat) : Segment → Link
  | .accessor t => .word t
  | .call t =>
    match splitCall? t with
    | some (name, raw) =>
      .call (String.ofList name) ((splitParams raw).map Expr.parse) (upToSegment statement i)
    | none => .malformed t

theorem Link.parse_eq (statement : List Char) :
    Link.parse statement =
      (segments statement).zipIdx.map fun x => Link.read statement x.2 x.1 := by
  rw [Link.parse]
  conv_rhs => rw [← List.attach_map_subtype_val (segments statement).zipIdx, List.map_map]
  apply List.map_congr_left
  rintro ⟨⟨segment, i⟩, hs⟩ -
  cases segment with
  | accessor t => rfl
  | call t =>
    simp only [Function.comp_apply, Link.read]
    cases hc : splitCall? t with
    | none => rfl
    | some x => simp

theorem Expr.ofSpan_arithmetic {p : Span} {op : ArithmeticOp} {pieces : List (List Char)}
    (h : splitArithmetic? (trim p.text) = some (op, pieces)) :
    Expr.ofSpan p = .arithmetic op ((operandSpans op p.trim).map Expr.ofSpan) := by
  rw [Expr.ofSpan]
  split
  · next h' =>
    cases h.symm.trans h'
    simp
  · next h' => cases h.symm.trans h'

theorem Expr.ofSpan_chain {p : Span} (h : splitArithmetic? (trim p.text) = none) :
    Expr.ofSpan p = .chain (Link.ofSpan p.trim) := by
  rw [Expr.ofSpan]
  split
  · next h' => cases h.symm.trans h'
  · rfl

/-- The link that a fragment is read as. -/
def Link.readSpan (q : Span) : Link :=
  match Segment.ofFragment q.text with
  | .accessor t => .word t
  | .call t =>
    match splitCall? t with
    | some (name, raw) =>
      .call (String.ofList name) ((paramSpans (paramList q.trim raw)).map Expr.ofSpan)
        (trimEnd (q.before ++ q.text))
    | none => .malformed t

theorem Link.ofSpan_eq (p : Span) :
    Link.ofSpan p = (fragmentSpans p.trim).map Link.readSpan := by
  rw [Link.ofSpan]
  conv_rhs => rw [← List.attach_map_subtype_val (fragmentSpans p.trim), List.map_map]
  apply List.map_congr_left
  rintro ⟨q, hq⟩ -
  simp only [Function.comp_apply, Link.readSpan]
  split
  · next h => rw [h]
  · next t h =>
    rw [h]
    dsimp only
    cases hc : splitCall? t with
    | none => rfl
    | some x => simp

end Equations

end TileScript
