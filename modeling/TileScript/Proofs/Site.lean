import TileScript.Proofs.Located
import TileScript.Proofs.Lockstep

/-! # Where calls stand

A call stands in a text as the last segment of the beginning of a chain, as in an operand of an
expression, or as in an argument of another call. `Site` says so for the text up to and including
the call, and every call of the tree of a text has such a site.
-/

namespace TileScript

open Text Chain

/-- `c` is a call of the chain `x ++ (m ++ c ++ n) ++ y`, which stands between the blanks `l` and
`t`. An expression is a chain if no operator cuts it. -/
structure ChainCall (expr : Bool) (l x m c n y t name raw : List Char) : Prop where
  blank_l : l.all isBlank
  blank_m : m.all isBlank
  blank_n : n.all isBlank
  blank_t : t.all isBlank
  trimmed : trim (x ++ (m ++ c ++ n) ++ y) = x ++ (m ++ c ++ n) ++ y
  uncut : expr = true → splitArithmetic? (x ++ (m ++ c ++ n) ++ y) = none
  piece : Piece cutsChain Nesting.step {} x (m ++ c ++ n) y
  trimmed_call : trim c = c
  segment : Segment.ofFragment c = .call c
  split : splitCall? c = some (name, raw)

/-- `p` is a trimmed operand of the expression `x ++ (m ++ p ++ n) ++ y`, which stands between the
blanks `l` and `t`. -/
structure Operand (op : ArithmeticOp) (l x m p n y t : List Char) : Prop where
  blank_l : l.all isBlank
  blank_m : m.all isBlank
  blank_n : n.all isBlank
  blank_t : t.all isBlank
  trimmed : trim (x ++ (m ++ p ++ n) ++ y) = x ++ (m ++ p ++ n) ++ y
  cut : ∃ ps, splitArithmetic? (x ++ (m ++ p ++ n) ++ y) = some (op, ps)
  piece : Piece (OperandScan.cuts op) OperandScan.step {} x (m ++ p ++ n) y
  trimmed_operand : trim p = p

/-- `p` is a trimmed parameter in the parameter list `x ++ (m ++ p ++ n) ++ y`. -/
structure Param (x m p n y : List Char) : Prop where
  blank_m : m.all isBlank
  blank_n : n.all isBlank
  piece : Piece cutsParams Nesting.step {} x (m ++ p ++ n) y
  trimmed : trim p = p
  ne_nil : p ≠ []

/-- `p` is read by itself as a part of the text `u ++ p ++ v`: as an operand, or as an argument of a
call with the given name. -/
inductive Level : Bool → List (List Char) → List Char → List Char → List Char → Prop where

  | operand {op : ArithmeticOp} {l x m p n y t : List Char} :
      Operand op l x m p n y t → Level true [] (l ++ x ++ m) p (n ++ y ++ t)

  | argument {expr : Bool} {l x m c n y t name raw u m' p n' v : List Char} :
      ChainCall expr l x m c n y t name raw → raw = u ++ (m' ++ p ++ n') ++ v →
      Param u m' p n' v →
      Level expr [name] (l ++ x ++ m ++ (c.takeWhile (· != '(') ++ ['(']) ++ u ++ m') p
        (n' ++ v ++ [')'] ++ n ++ y ++ t)

/-- A call that ends with `r` in the text `b ++ r ++ a`, where `r` is the chain up to the call. The
names are those of the calls around it, the outermost first. -/
inductive Site : Bool → List (List Char) → List Char → List Char → List Char → Prop where

  | call {expr : Bool} {l x m c n y t name raw : List Char} :
      ChainCall expr l x m c n y t name raw → Site expr [] l (x ++ m ++ c) (n ++ y ++ t)

  | level {expr : Bool} {outer names : List (List Char)} {u b r a v : List Char} :
      Level expr outer u (b ++ r ++ a) v → Site true names b r a →
      Site expr (outer ++ names) (u ++ b) r (a ++ v)

/-- A call with the chain `r` stands in a span and ends at `place`. -/
def Text.Span.Holds (p : Span) (expr : Bool) (r place : List Char) : Prop :=
  ∃ names b a, p.text = b ++ r ++ a ∧ place = p.before ++ b ++ r ∧ Site expr names b r a

theorem operand_of_mem {p q : Span} {op : ArithmeticOp} {ps : List (List Char)}
    (h : splitArithmetic? (trim p.text) = some (op, ps)) (hq : q ∈ operandSpans op p.trim) :
    ∃ l x m n y t, p.text = l ++ x ++ m ++ q.text ++ n ++ y ++ t ∧
      q.before = p.before ++ l ++ x ++ m ∧ Operand op l x m q.text n y t := by
  obtain ⟨k, hk, rfl⟩ := List.mem_map.1 hq
  obtain ⟨x, y, hxy, hb, hp⟩ := Span.piece_of_mem_split hk
  obtain ⟨t, ht, hpt⟩ := exists_trim p.text
  obtain ⟨n, hn, hkn⟩ := exists_trim k.text
  have hc : trim p.text = x ++ (k.text.takeWhile isBlank ++ trim k.text ++ n) ++ y := by
    rw [← hkn]
    exact hxy
  rw [hkn] at hp
  refine ⟨p.text.takeWhile isBlank, x, k.text.takeWhile isBlank, n, y, t, ?_, ?_, ?_⟩
  · conv_lhs => rw [hpt, hc]
    simp
  · simp [Span.trim, hb]
  · exact {
      blank_l := by simp
      blank_m := by simp
      blank_n := hn
      blank_t := ht
      trimmed := by rw [Span.text_trim, ← hc, trim_trim]
      cut := ⟨ps, by rw [Span.text_trim, ← hc]; exact h⟩
      piece := hp
      trimmed_operand := trim_trim _ }

theorem chainCall_of_mem {expr : Bool} {p q : Span} {c name raw : List Char}
    (h : expr = true → splitArithmetic? (trim p.text) = none) (hq : q ∈ fragmentSpans p.trim)
    (hs : Segment.ofFragment q.text = .call c) (hc : splitCall? c = some (name, raw)) :
    ∃ l x m n y t, p.text = l ++ x ++ m ++ c ++ n ++ y ++ t ∧
      p.trim.before = p.before ++ l ∧ q.before = p.trim.before ++ x ∧ q.text = m ++ c ++ n ∧
      q.trim = ⟨q.before ++ m, c⟩ ∧ ChainCall expr l x m c n y t name raw := by
  obtain rfl : trim q.text = c := by
    have := Segment.text_ofFragment q.text
    rw [hs] at this
    exact this.symm
  unfold fragmentSpans at hq
  split at hq
  · simp at hq
  · obtain ⟨x, y, hxy, hb, hp⟩ := Span.piece_of_mem_split hq
    obtain ⟨t, ht, hpt⟩ := exists_trim p.text
    obtain ⟨n, hn, hqn⟩ := exists_trim q.text
    have hcore : trim p.text = x ++ (q.text.takeWhile isBlank ++ trim q.text ++ n) ++ y := by
      rw [← hqn]
      exact hxy
    rw [hqn] at hp
    refine ⟨p.text.takeWhile isBlank, x, q.text.takeWhile isBlank, n, y, t, ?_, rfl, hb, hqn, rfl,
      ?_⟩
    · conv_lhs => rw [hpt, hcore]
      simp
    · exact {
        blank_l := by simp
        blank_m := by simp
        blank_n := hn
        blank_t := ht
        trimmed := by rw [← hcore, trim_trim]
        uncut := by rwa [← hcore]
        piece := hp
        trimmed_call := trim_trim _
        segment := by
          rw [← hs]
          unfold Segment.ofFragment
          rw [trim_trim]
        split := hc }

theorem param_of_mem {p q : Span} (hq : q ∈ paramSpans p) :
    ∃ x m n y, p.text = x ++ (m ++ q.text ++ n) ++ y ∧ q.before = p.before ++ x ++ m ∧
      Param x m q.text n y := by
  obtain ⟨hq, hne⟩ := List.mem_filter.1 hq
  obtain ⟨k, hk, rfl⟩ := List.mem_map.1 hq
  obtain ⟨x, y, hxy, hb, hp⟩ := Span.piece_of_mem_split hk
  obtain ⟨n, hn, hkn⟩ := exists_trim k.text
  rw [hkn] at hp hxy
  refine ⟨x, k.text.takeWhile isBlank, n, y, hxy, by simp [Span.trim, hb], ?_⟩
  exact {
    blank_m := by simp
    blank_n := hn
    piece := hp
    trimmed := trim_trim _
    ne_nil := by simpa using hne }

theorem ChainCall.getLast?_eq {expr : Bool} {l x m c n y t name raw : List Char}
    (h : ChainCall expr l x m c n y t name raw) : c.getLast? = some ')' := by
  rw [(of_splitCall? h.trimmed_call h.split).1, List.getLast?_append]
  rfl

/-- The text up to a call, as its chain and as its line have it. -/
theorem ChainCall.trimEnd_eq {expr : Bool} {l x m c n y t name raw : List Char}
    (h : ChainCall expr l x m c n y t name raw) (z : List Char) :
    trimEnd (z ++ (m ++ c ++ n)) = z ++ m ++ c := by
  rw [show z ++ (m ++ c ++ n) = z ++ m ++ c ++ n by simp, trimEnd_append _ h.blank_n]
  apply trimEnd_of_getLast?
  intro d hd
  obtain rfl : ')' = d := by simpa [List.getLast?_append, h.getLast?_eq] using hd
  decide

theorem Link.parse_trim (statement : List Char) :
    Link.parse (trim statement) = Link.parse statement := by
  rw [Link.parse_eq, Link.parse_eq]
  simp only [segments, trim_trim]
  apply List.map_congr_left
  rintro ⟨s, i⟩ -
  cases s <;> simp [Link.read, upToSegment]

theorem Link.ofSpan_trim (p : Span) : Link.ofSpan p.trim = Link.ofSpan p := by
  rw [Link.ofSpan_eq, Link.ofSpan_eq, Span.trim_trim]

/-- The text of a chain up to one of its calls. -/
theorem ChainCall.upToSegment_eq {expr : Bool} {p q : Span} {i : Nat}
    {l x m c n y t name raw : List Char} (h : ChainCall expr l x m c n y t name raw)
    (hq : (fragmentSpans p.trim)[i]? = some q) (hb : q.before = p.trim.before ++ x)
    (ht : q.text = m ++ c ++ n) : upToSegment p.text i = x ++ m ++ c := by
  have hk : keepFragments {} i (trim p.text) = x ++ (m ++ c ++ n) := by
    unfold fragmentSpans at hq
    split at hq
    · simp at hq
    · have := keepFragments_of_getElem? hq
      rw [hb, ht, List.append_assoc] at this
      exact List.append_cancel_left this
  rw [upToSegment, hk, h.trimEnd_eq]

mutual

/-- Every call of the tree of an expression has its site. -/
theorem Expr.parse_alike (p : Span) :
    Expr.Alike (p.Holds true) (Expr.parse p.text) (Expr.ofSpan p) := by
  cases h : splitArithmetic? (trim p.text) with
  | none =>
    rw [Expr.parse_chain h, Expr.ofSpan_chain h, Link.parse_trim, Link.ofSpan_trim]
    exact .chain (Link.parse_alike true p fun _ => h)
  | some x =>
    obtain ⟨op, ps⟩ := x
    rw [Expr.parse_arithmetic h, Expr.ofSpan_arithmetic h, (of_splitArithmetic? h).2,
      ← Span.text_trim, ← map_text_operandSpans, List.map_map]
    refine .arithmetic (.map fun q hq => ?_)
    have hlt := length_text_lt_of_mem_operandSpans h hq
    have hle := length_trim_le p.text
    obtain ⟨l, x, m, n, y, t, ht, hb, ho⟩ := operand_of_mem h hq
    refine (Expr.parse_alike q).mono fun r place => ?_
    rintro ⟨names, b, a, hq, rfl, hs⟩
    rw [hq] at ho ht
    exact ⟨names, _, _, by simp [ht], by simp [hb], .level (.operand ho) hs⟩
termination_by 2 * p.text.length + 1
decreasing_by
  · omega
  · simp only [Span.text_trim] at hlt
    omega

/-- Every call of a statement has its site. -/
theorem Link.parse_alike (expr : Bool) (p : Span)
    (h : expr = true → splitArithmetic? (trim p.text) = none) :
    Link.AllAlike (p.Holds expr) (Link.parse p.text) (Link.ofSpan p) := by
  rw [Link.parse_eq, Link.ofSpan_eq, ← map_text_fragmentSpans, List.zipIdx_map, List.map_map]
  conv => arg 3; rw [← List.zipIdx_map_fst 0 (fragmentSpans p.trim), List.map_map]
  refine .map fun x hx => ?_
  obtain ⟨q, i⟩ := x
  have hi : (fragmentSpans p.trim)[i]? = some q := List.mem_zipIdx_iff_getElem?.1 hx
  have hq : q ∈ fragmentSpans p.trim := List.mem_of_getElem? hi
  simp only [Function.comp_apply, Prod.map, id, Link.readSpan]
  cases hs : Segment.ofFragment q.text with
  | accessor t => exact .word .nil
  | call c =>
    simp only [Link.read]
    cases hc : splitCall? c with
    | none => exact .malformed .nil
    | some x =>
      obtain ⟨name, raw⟩ := x
      obtain ⟨l, x, m, n, y, t, ht, hl, hb, hqt, hqm, hcc⟩ := chainCall_of_mem h hq hs hc
      dsimp only
      rw [hqm, show raw = (paramList ⟨q.before ++ m, c⟩ raw).text from rfl, ← map_text_paramSpans,
        List.map_map]
      refine .call (.map fun k hk => ?_) ?_ .nil
      · have hlt := length_text_le_of_mem_paramSpans hk
        obtain ⟨u, m', n', v, hr, hkb, hp⟩ := param_of_mem hk
        have hcr := (of_splitCall? hcc.trimmed_call hcc.split).1
        have hle : raw.length < p.text.length := by
          rw [ht, hcr]
          simp only [List.length_append, List.length_cons]
          omega
        refine (Expr.parse_alike k).mono fun r place => ?_
        rintro ⟨names, b, a, hk, rfl, hs⟩
        rw [hk] at hp hr
        refine ⟨name :: names, _, _, ?_, ?_, .level (.argument hcc hr hp) hs⟩
        · rw [ht]
          conv_lhs => rw [hcr, show raw = _ from hr]
          simp only [List.append_assoc]
        · rw [hkb]
          simp only [paramList, hb, hl, List.append_assoc]
      · rw [hcc.upToSegment_eq hi hb hqt, hqt, hcc.trimEnd_eq]
        exact ⟨[], l, n ++ y ++ t, by simp [ht], by simp [hb, hl], .call hcc⟩
termination_by 2 * p.text.length
decreasing_by
  simp only [paramList] at hlt
  omega

end

end TileScript
