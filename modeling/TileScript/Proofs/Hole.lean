import TileScript.Condition
import TileScript.Proofs.Site

/-! # Holes

What is known about the place of a call: it is outside all quotes, it is as deep as there are calls
around it, an operand is expected there, and the brackets behind it do not depend on the call. Names
of calls must not have quotes or brackets themselves.
-/

namespace TileScript

open Text Chain

namespace Nesting

/-- A nesting some brackets deeper. -/
def shift (n : Nesting) (d : Int) : Nesting := { n with depth := n.depth + d }

theorem step_shift (n : Nesting) (d : Int) (c : Char) :
    (n.shift d).step c = (n.step c).shift d := by
  unfold step shift
  split
  · rfl
  · split
    · rfl
    · split
      · simp only [mk.injEq, and_true]
        omega
      · split
        · simp only [mk.injEq, and_true]
          omega
        · rfl

theorem foldl_step_shift (n : Nesting) (d : Int) (cs : List Char) :
    cs.foldl step (n.shift d) = (cs.foldl step n).shift d := by
  induction cs generalizing n with
  | nil => rfl
  | cons c cs ih => rw [List.foldl_cons, List.foldl_cons, step_shift, ih]

/-- Characters that neither quote nor bracket. -/
def isFlat (c : Char) : Bool := c != '"' && c != '(' && c != '[' && c != ')' && c != ']'

theorem step_of_isFlat {n : Nesting} {c : Char} (h : isFlat c = true) : n.step c = n := by
  simp only [isFlat, Bool.and_eq_true, bne_iff_ne, ne_eq] at h
  simp [step, h]

theorem foldl_of_isFlat {n : Nesting} {cs : List Char} (h : cs.all isFlat) :
    cs.foldl step n = n := by
  induction cs with
  | nil => rfl
  | cons c cs ih =>
    simp only [List.all_cons, Bool.and_eq_true] at h
    rw [List.foldl_cons, step_of_isFlat h.1, ih h.2]

theorem isFlat_of_isBlank {c : Char} (h : isBlank c = true) : isFlat c = true := by
  have hne {d : Char} (hd : isBlank d = false) : c ≠ d := by
    rintro rfl
    simp [h] at hd
  simp [isFlat, hne (d := '"') rfl, hne (d := '(') rfl, hne (d := '[') rfl, hne (d := ')') rfl,
    hne (d := ']') rfl]

theorem foldl_of_isBlank {n : Nesting} {cs : List Char} (h : cs.all isBlank) :
    cs.foldl step n = n := by
  apply foldl_of_isFlat
  rw [List.all_eq_true] at h ⊢
  exact fun c hc => isFlat_of_isBlank (h c hc)

/-- Closing parentheses outside quotes take the depth down by their number. -/
theorem foldl_of_isClosing {n : Nesting} {cs : List Char} (h : cs.all Condition.isClosing) :
    cs.foldl step n = if n.quoted then n else n.shift (-(cs.count ')' : Int)) := by
  induction cs generalizing n with
  | nil => cases n; simp [shift]
  | cons c cs ih =>
    simp only [List.all_cons, Bool.and_eq_true] at h
    have hc : c = ')' ∨ isBlank c = true := by simpa [Condition.isClosing] using h.1
    rw [List.foldl_cons, ih h.2]
    rcases hc with rfl | hc
    · cases hq : n.quoted <;> simp [step, shift, hq]
      omega
    · have hne : c ≠ ')' := by
        rintro rfl
        cases hc
      rw [step_of_isFlat (isFlat_of_isBlank hc), List.count_cons_of_ne hne]

end Nesting

namespace Chain.OperandScan

theorem nesting_foldl (s : OperandScan) (cs : List Char) :
    (cs.foldl step s).nesting = cs.foldl Nesting.step s.nesting := by
  induction cs generalizing s with
  | nil => rfl
  | cons c cs ih => exact ih (s.step c)

theorem previous_foldl (s : OperandScan) (cs : List Char) :
    (cs.foldl step s).previous = (cs.reverse.find? (!isBlank ·)).or s.previous := by
  induction cs generalizing s with
  | nil => rfl
  | cons c cs ih =>
    rw [List.foldl_cons, ih, List.reverse_cons, List.find?_append, Option.or_assoc]
    congr 1
    cases hc : isBlank c <;> simp [step, hc]

/-- Whether an operand is expected behind a text. -/
def Expects (cs : List Char) : Prop := (cs.foldl step {}).expectsOperand = true

theorem expects_append {w b : List Char} (hw : Expects w) (hb : Expects b) : Expects (w ++ b) := by
  unfold Expects expectsOperand at *
  rw [previous_foldl] at *
  rw [List.reverse_append, List.find?_append, Option.or_assoc]
  cases h : b.reverse.find? (!isBlank ·) with
  | none => simpa [h] using hw
  | some c => simpa [h] using hb

theorem expects_of_isBlank {cs : List Char} (h : cs.all isBlank) : Expects cs := by
  have hn : cs.reverse.find? (!isBlank ·) = none := by simpa using h
  unfold Expects expectsOperand
  rw [previous_foldl, hn]
  rfl

theorem expects_concat {cs : List Char} {c : Char}
    (h : ArithmeticOp.isOperator c = true ∨ c = ',' ∨ c = '(') (hb : isBlank c = false) :
    Expects (cs ++ [c]) := by
  unfold Expects expectsOperand
  rw [previous_foldl]
  rcases h with h | rfl | rfl <;> simp [*]

end Chain.OperandScan

theorem isTop_iff {n : Nesting} {c : Char} : n.isTop c = true ↔ c ≠ '"' ∧ n = {} := by
  obtain ⟨d, q⟩ := n
  simp [Nesting.isTop, and_assoc, and_comm (a := q = false)]

/-- The ways to cut a text at its top level. -/
inductive Cutter where
  | chain
  | params
  | operands (op : ArithmeticOp)

namespace Cutter

/-- The characters to cut at, given whether an operand is expected there. -/
def selects : Cutter → Bool → Char → Bool
  | .chain, _, c => isSeparator c
  | .params, _, c => c == ','
  | .operands op, e, c => c == op.symbol && !(op == .sub && e)

def cuts (k : Cutter) (s : OperandScan) (c : Char) : Bool :=
  s.nesting.isTop c && k.selects s.expectsOperand c

/-- A text is never cut at a quote, a bracket or a blank. -/
theorem isFlat_of_selects {k : Cutter} {e : Bool} {c : Char} (h : k.selects e c = true) :
    Nesting.isFlat c = true ∧ isBlank c = false := by
  cases k with
  | chain =>
    have hc : c = '.' ∨ c = ':' := by simpa [selects, isSeparator] using h
    rcases hc with rfl | rfl <;> decide
  | params =>
    obtain rfl : c = ',' := by simpa [selects] using h
    decide
  | operands op =>
    obtain rfl : c = op.symbol := by
      simp only [selects, Bool.and_eq_true, beq_iff_eq] at h
      exact h.1
    cases op <;> decide

theorem cuts_operands (op : ArithmeticOp) (s : OperandScan) (c : Char) :
    (operands op).cuts s c = s.cuts op c := by
  simp [OperandScan.cuts, cuts, selects, Bool.and_assoc]

theorem cuts_chain (s : OperandScan) (c : Char) : chain.cuts s c = cutsChain s.nesting c := rfl

theorem cuts_params (s : OperandScan) (c : Char) : params.cuts s c = cutsParams s.nesting c := rfl

end Cutter

theorem nesting_step (s : OperandScan) (c : Char) : (s.step c).nesting = s.nesting.step c := rfl

/-- A piece begins outside quotes and brackets, and a piece that is followed by another one ends
there. -/
theorem Text.Piece.nesting {k : Cutter} {x p y : List Char}
    (h : Piece k.cuts OperandScan.step {} x p y) :
    x.foldl Nesting.step {} = {} ∧ (y = [] ∨ p.foldl Nesting.step {} = {}) := by
  have hx : x.foldl Nesting.step {} = {} := by
    rcases h.left with rfl | ⟨x, c, rfl, hc⟩
    · rfl
    · simp only [Cutter.cuts, Bool.and_eq_true, isTop_iff, OperandScan.nesting_foldl] at hc
      rw [List.foldl_append, hc.1.2, List.foldl_cons, List.foldl_nil,
        Nesting.step_of_isFlat (Cutter.isFlat_of_selects hc.2).1]
  refine ⟨hx, ?_⟩
  rcases h.right with hy | ⟨c, y, -, hc⟩
  · exact Or.inl hy
  · simp only [Cutter.cuts, Bool.and_eq_true, isTop_iff, OperandScan.nesting_foldl,
      List.foldl_append, hx] at hc
    exact Or.inr hc.1.2

theorem Operand.topPiece {op : ArithmeticOp} {l x m p n y t : List Char}
    (h : Operand op l x m p n y t) :
    Piece (Cutter.operands op).cuts OperandScan.step {} x (m ++ p ++ n) y :=
  h.piece.map (h := id) (Cutter.cuts_operands op) fun _ _ => rfl

theorem ChainCall.topPiece {expr : Bool} {l x m c n y t name raw : List Char}
    (h : ChainCall expr l x m c n y t name raw) :
    Piece Cutter.chain.cuts OperandScan.step {} x (m ++ c ++ n) y :=
  Piece.map Cutter.cuts_chain nesting_step h.piece

theorem Param.topPiece {x m p n y : List Char} (h : Param x m p n y) :
    Piece Cutter.params.cuts OperandScan.step {} x (m ++ p ++ n) y :=
  Piece.map Cutter.cuts_params nesting_step h.piece

theorem isClosing_of_isBlank {cs : List Char} (h : cs.all isBlank) :
    cs.all Condition.isClosing ∧ cs.count ')' = 0 := by
  rw [List.all_eq_true] at h
  constructor
  · rw [List.all_eq_true]
    intro c hc
    simp [Condition.isClosing, h c hc]
  · rw [List.count_eq_zero]
    intro hc
    cases h ')' hc

/-- What is known about a call `r` between `b` and `a`, inside `d` other calls. -/
structure Hole (d : Nat) (b r a : List Char) : Prop where
  depth : b.foldl Nesting.step {} = ⟨d, false⟩
  expects : OperandScan.Expects b
  settles : r.foldl Nesting.step {} = {} ∨ (a.all Condition.isClosing ∧ a.count ')' = d)

section Hole

variable {d : Nat} {b r a : List Char}

/-- The nesting behind the text around a call whose own quotes or brackets stay open. -/
theorem Hole.foldl_of_open (h : Hole d b r a) (ho : r.foldl Nesting.step {} ≠ {}) :
    (b ++ r ++ a).foldl Nesting.step {} =
      if (r.foldl Nesting.step {}).quoted then (r.foldl Nesting.step {}).shift d
      else r.foldl Nesting.step {} := by
  obtain ⟨ha, hd⟩ := h.settles.resolve_left ho
  have hs : (⟨d, false⟩ : Nesting) = Nesting.shift {} d := by simp [Nesting.shift]
  rw [List.foldl_append, List.foldl_append, h.depth, hs, Nesting.foldl_step_shift,
    Nesting.foldl_of_isClosing ha, hd]
  generalize r.foldl Nesting.step {} = n
  obtain ⟨e, q⟩ := n
  cases q
  · simp only [Nesting.shift, Bool.false_eq_true, if_false, Nesting.mk.injEq, and_true]
    omega
  · simp [Nesting.shift]

theorem Hole.foldl_ne (h : Hole d b r a) (ho : r.foldl Nesting.step {} ≠ {}) :
    (b ++ r ++ a).foldl Nesting.step {} ≠ {} := by
  rw [h.foldl_of_open ho]
  split
  · next hq =>
    intro he
    have := congrArg Nesting.quoted he
    simp [Nesting.shift, hq] at this
  · exact ho

theorem Hole.pad {l t : List Char} (h : Hole d b r a) (hl : l.all isBlank) (ht : t.all isBlank) :
    Hole d (l ++ b) r (a ++ t) where
  depth := by rw [List.foldl_append, Nesting.foldl_of_isBlank hl, h.depth]
  expects := OperandScan.expects_append (OperandScan.expects_of_isBlank hl) h.expects
  settles := by
    refine h.settles.imp_right fun ⟨ha, hd⟩ => ?_
    have ht := isClosing_of_isBlank ht
    exact ⟨by simp [ha, ht.1], by simp [hd, ht.2]⟩

/-- A hole in a piece is a hole in the text that the piece is cut from. -/
theorem Text.Piece.hole {k : Cutter} {x m n y : List Char}
    (h : Piece k.cuts OperandScan.step {} x (m ++ (b ++ r ++ a) ++ n) y)
    (hx : OperandScan.Expects x) (hm : m.all isBlank) (hn : n.all isBlank) (hh : Hole d b r a) :
    Hole d (x ++ m ++ b) r (a ++ (n ++ y)) := by
  obtain ⟨hnx, hny⟩ := h.nesting
  refine ⟨?_, ?_, ?_⟩
  · rw [List.foldl_append, List.foldl_append, hnx, Nesting.foldl_of_isBlank hm, hh.depth]
  · exact OperandScan.expects_append (OperandScan.expects_append hx
      (OperandScan.expects_of_isBlank hm)) hh.expects
  · by_cases ho : r.foldl Nesting.step {} = {}
    · exact Or.inl ho
    · obtain rfl : y = [] := by
        refine hny.resolve_right fun hp => hh.foldl_ne ho ?_
        rwa [List.foldl_append, Nesting.foldl_of_isBlank hn, List.foldl_append,
          Nesting.foldl_of_isBlank hm] at hp
      obtain ⟨ha, hd⟩ := hh.settles.resolve_left ho
      have hn := isClosing_of_isBlank hn
      exact Or.inr ⟨by simp [ha, hn.1], by simp [hd, hn.2]⟩

end Hole

/-- A name without quotes and brackets. -/
def PlainName (name : List Char) : Prop := name.all Nesting.isFlat

theorem foldl_of_plainName {n : Nesting} {cs : List Char} (h : PlainName (trim cs)) :
    cs.foldl Nesting.step n = n := by
  obtain ⟨t, ht, hcs⟩ := exists_trim cs
  have hl : (cs.takeWhile isBlank).all isBlank := by simp
  rw [hcs, List.foldl_append, List.foldl_append, Nesting.foldl_of_isBlank hl,
    Nesting.foldl_of_isFlat h, Nesting.foldl_of_isBlank ht]

/-- Nor does a call close what its parameters leave open. -/
theorem Nesting.foldl_call_ne {nm raw m n : List Char} (hn : PlainName (trim nm))
    (hr : raw.foldl Nesting.step {} ≠ {}) (hm : m.all isBlank) (hb : n.all isBlank) :
    (m ++ ((nm ++ ['(']) ++ raw ++ [')']) ++ n).foldl Nesting.step {} ≠ {} := by
  rw [List.foldl_append, foldl_of_isBlank hb, List.foldl_append, foldl_of_isBlank hm,
    List.foldl_append, List.foldl_append, List.foldl_append, foldl_of_plainName hn]
  have hs : List.foldl step {} ['('] = Nesting.shift {} 1 := rfl
  rw [hs, foldl_step_shift]
  generalize raw.foldl step {} = k at hr
  obtain ⟨e, q⟩ := k
  cases q
  · simpa [step, shift] using hr
  · simp [step, shift]

/-- An argument is expected at the start of a parameter and behind a comma. -/
theorem Param.expects {x m p n y : List Char} (h : Param x m p n y) : OperandScan.Expects x := by
  rcases h.piece.left with rfl | ⟨x, c, rfl, hc⟩
  · exact OperandScan.expects_of_isBlank rfl
  · obtain rfl : c = ',' := by
      simp only [cutsParams, Bool.and_eq_true, beq_iff_eq] at hc
      exact hc.2
    exact OperandScan.expects_concat (Or.inr (Or.inl rfl)) (by decide)

theorem Operand.expects {op : ArithmeticOp} {l x m p n y t : List Char}
    (h : Operand op l x m p n y t) : OperandScan.Expects x := by
  rcases h.piece.left with rfl | ⟨x, c, rfl, hc⟩
  · exact OperandScan.expects_of_isBlank rfl
  · obtain rfl : c = op.symbol := by
      simp only [OperandScan.cuts, Bool.and_eq_true, beq_iff_eq] at hc
      exact hc.1.2
    exact OperandScan.expects_concat (Or.inl (by cases op <;> decide)) (by cases op <;> decide)

section Level

variable {expr : Bool} {names outer : List (List Char)} {d : Nat} {u b r a v : List Char}

theorem ChainCall.hole {l x m c n y t name raw : List Char}
    (h : ChainCall expr l x m c n y t name raw) : Hole 0 l (x ++ m ++ c) (n ++ y ++ t) where
  depth := Nesting.foldl_of_isBlank h.blank_l
  expects := OperandScan.expects_of_isBlank h.blank_l
  settles := by
    by_cases ho : (x ++ m ++ c).foldl Nesting.step {} = {}
    · exact Or.inl ho
    · obtain ⟨hx, hy⟩ := h.topPiece.nesting
      have hy : y = [] := by
        refine hy.resolve_right fun hp => ho ?_
        rw [List.foldl_append, Nesting.foldl_of_isBlank h.blank_n] at hp
        rw [List.append_assoc, List.foldl_append, hx]
        exact hp
      subst hy
      have hn := isClosing_of_isBlank h.blank_n
      have ht := isClosing_of_isBlank h.blank_t
      exact Or.inr ⟨by simp [hn.1, ht.1], by simp [hn.2, ht.2]⟩

theorem Operand.hole {op : ArithmeticOp} {l x m n y t : List Char}
    (h : Operand op l x m (b ++ r ++ a) n y t) (hh : Hole d b r a) :
    Hole d (l ++ x ++ m ++ b) r (a ++ (n ++ y ++ t)) := by
  have hp := (h.topPiece.hole h.expects h.blank_m h.blank_n hh).pad h.blank_l h.blank_t
  simpa using hp

theorem Param.hole {x m n y : List Char} (h : Param x m (b ++ r ++ a) n y) (hh : Hole d b r a) :
    Hole d (x ++ m ++ b) r (a ++ (n ++ y)) :=
  h.topPiece.hole h.expects h.blank_m h.blank_n hh

theorem ChainCall.hole_inside {l x m c n y t name raw : List Char}
    (h : ChainCall expr l x m c n y t name raw) (hr : raw = b ++ r ++ a) (hn : PlainName name)
    (hh : Hole d b r a) :
    Hole (d + 1) (l ++ x ++ m ++ (c.takeWhile (· != '(') ++ ['(']) ++ b) r
      (a ++ ([')'] ++ n ++ y ++ t)) := by
  obtain ⟨hc, hname⟩ := of_splitCall? h.trimmed_call h.split
  rw [hname] at hn
  generalize c.takeWhile (· != '(') = nm at hc hn
  obtain ⟨hx, hy⟩ := h.topPiece.nesting
  refine ⟨?_, ?_, ?_⟩
  · have hopen : (l ++ x ++ m ++ (nm ++ ['('])).foldl Nesting.step {} = Nesting.shift {} 1 := by
      simp only [List.foldl_append, Nesting.foldl_of_isBlank h.blank_l, hx,
        Nesting.foldl_of_isBlank h.blank_m, foldl_of_plainName hn]
      rfl
    rw [List.foldl_append, hopen, Nesting.foldl_step_shift, hh.depth]
    simp [Nesting.shift]
  · have hb : OperandScan.Expects (l ++ x ++ m ++ (nm ++ ['('])) := by
      rw [← List.append_assoc]
      exact OperandScan.expects_concat (Or.inr (Or.inr rfl)) (by decide)
    exact OperandScan.expects_append hb hh.expects
  · by_cases ho : r.foldl Nesting.step {} = {}
    · exact Or.inl ho
    · obtain rfl : y = [] := by
        rw [hc] at hy
        refine hy.resolve_right (Nesting.foldl_call_ne hn ?_ h.blank_m h.blank_n)
        rw [hr]
        exact hh.foldl_ne ho
      obtain ⟨ha, hd⟩ := hh.settles.resolve_left ho
      have hn := isClosing_of_isBlank h.blank_n
      have ht := isClosing_of_isBlank h.blank_t
      exact Or.inr ⟨by simp [ha, hn.1, ht.1, Condition.isClosing], by simp [hd, hn.2, ht.2]⟩

theorem Level.hole (h : Level expr outer u (b ++ r ++ a) v) (hn : ∀ name ∈ outer, PlainName name)
    (hh : Hole d b r a) : Hole (d + outer.length) (u ++ b) r (a ++ v) := by
  generalize hp : b ++ r ++ a = p at h
  cases h with
  | operand h =>
    subst hp
    exact h.hole hh
  | @argument expr l x m c n y t name raw w m' _ n' z hc hr h =>
    subst hp
    have hraw : raw = (w ++ m' ++ b) ++ r ++ (a ++ (n' ++ z)) := by simp [hr]
    have := hc.hole_inside hraw (hn _ List.mem_cons_self) (h.hole hh)
    simpa using this

/-- A call is as deep as there are calls around it. -/
theorem Site.hole (h : Site expr names b r a) (hn : ∀ name ∈ names, PlainName name) :
    Hole names.length b r a := by
  induction h with
  | call h => exact h.hole
  | level hl _ ih =>
    have hh := hl.hole (fun name h => hn name (List.mem_append_left _ h))
      (ih fun name h => hn name (List.mem_append_right _ h))
    rwa [List.length_append, Nat.add_comm]

end Level

end TileScript
