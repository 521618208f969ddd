import TileScript.Fiber.Evaluate
import TileScript.Proofs.Exchange
import TileScript.Proofs.Literal
import TileScript.Proofs.Resume
import TileScript.Proofs.Rows

/-! # Numerals

Blanks around an expression do not matter, and a numeral is an expression by itself: the minus that
it may start with is a sign, as every minus is that stands at the start or behind an operator.
-/

namespace TileScript

open Text Chain

section Blanks

variable {l t cs : List Char}

theorem Text.trim_prepend (hl : l.all isBlank) (cs : List Char) : trim (l ++ cs) = trim cs := by
  rw [trim, trimStart_append hl, ← trim]

theorem Chain.uncut_of_isBlank {k : Cutter} {s : OperandScan} (hl : l.all isBlank) :
    Uncut k.cuts OperandScan.step s l := by
  induction l generalizing s with
  | nil => trivial
  | cons c l ih =>
    obtain ⟨hc, hl⟩ : isBlank c = true ∧ l.all isBlank := by simpa using hl
    refine ⟨?_, ih hl⟩
    rw [Cutter.cuts, Bool.and_eq_false_iff]
    right
    rw [← Bool.not_eq_true]
    intro hs
    simp [(Cutter.isFlat_of_selects hs).2] at hc

/-- Blanks around an expression are blanks around its operands. -/
theorem Chain.map_trim_operands (op : ArithmeticOp) (cs : List Char) :
    (operands op (trim cs)).map trim = (operands op cs).map trim := by
  obtain ⟨t, ht, hcs⟩ := exists_trim cs
  have hl : (cs.takeWhile isBlank).all isBlank := by simp
  generalize cs.takeWhile isBlank = l at hcs hl
  have hagrees : OperandScan.Agrees {} (l.foldl OperandScan.step {}) := by
    constructor
    · rw [OperandScan.nesting_foldl, Nesting.foldl_of_isBlank hl]
    · exact (OperandScan.expects_of_isBlank hl).symm
  obtain ⟨P, u, hP⟩ : ∃ P u, ∀ z : List Char,
      splitWhere (Cutter.operands op).cuts OperandScan.step {} (trim cs ++ z) = P ++
        (splitWhere (Cutter.operands op).cuts OperandScan.step
          ((trim cs).foldl OperandScan.step {}) z).modifyHead (u ++ ·) :=
    splitWhere_append ({} : OperandScan) (trim cs)
  have hnil := hP []
  have hblank := hP t
  rw [List.append_nil, splitWhere] at hnil
  rw [splitWhere_uncut (uncut_of_isBlank ht)] at hblank
  rw [operands_eq, operands_eq]
  conv_rhs => rw [hcs, List.append_assoc, splitWhere_of_uncut (uncut_of_isBlank hl),
    ← hagrees.splitWhere_eq, hblank]
  rw [hnil]
  cases P with
  | nil => simp [trim_append u ht, trim_prepend hl]
  | cons p P => simp [trim_append u ht, trim_prepend hl]

theorem Chain.splitArithmetic?_trim (cs : List Char) :
    splitArithmetic? (trim cs) = splitArithmetic? cs := by
  unfold splitArithmetic?
  congr 1
  funext op
  have hm := map_trim_operands op cs
  have hl : (operands op (trim cs)).length = (operands op cs).length := by
    simpa using congrArg List.length hm
  simp only [hl, hm]

theorem Expr.parse_trim (text : List Char) : parse (trim text) = parse text := by
  cases h : splitArithmetic? (trim text) with
  | none => rw [parse_chain h, parse_chain (by rwa [trim_trim]), trim_trim]
  | some x => rw [parse_arithmetic h, parse_arithmetic (by rwa [trim_trim])]

theorem Chain.OperandScan.expects_trim : Expects (trim cs) ↔ Expects cs := by
  obtain ⟨t, ht, hcs⟩ := exists_trim cs
  have hl : (cs.takeWhile isBlank).reverse.find? (!isBlank ·) = none := by
    simpa using fun _ => List.mem_takeWhile_imp
  have hr : t.reverse.find? (!isBlank ·) = none := by simpa using ht
  unfold Expects expectsOperand
  rw [previous_foldl, previous_foldl]
  conv_rhs => rw [hcs]
  simp [List.find?_append, hl, hr]

theorem Chain.foldl_nesting_trim (n : Nesting) :
    (trim cs).foldl Nesting.step n = cs.foldl Nesting.step n := by
  obtain ⟨t, ht, hcs⟩ := exists_trim cs
  have hl : (cs.takeWhile isBlank).all isBlank := by simp
  conv_rhs => rw [hcs, List.foldl_append, List.foldl_append, Nesting.foldl_of_isBlank hl,
    Nesting.foldl_of_isBlank ht]

end Blanks

/-- Behind an operator and at the start of a text a minus is a sign. -/
theorem Chain.not_cuts_sign {x b : List Char} (hb : b.all isBlank)
    (hx : x = [] ∨ ∃ o : ArithmeticOp, x.getLast? = some o.symbol) (op : ArithmeticOp) :
    OperandScan.cuts op ((x ++ b).foldl OperandScan.step {}) '-' = false := by
  have he : OperandScan.Expects (x ++ b) := by
    refine OperandScan.expects_append ?_ (OperandScan.expects_of_isBlank hb)
    rcases hx with rfl | ⟨o, ho⟩
    · exact OperandScan.expects_of_isBlank rfl
    · obtain ⟨y, rfl⟩ := List.getLast?_eq_some_iff.1 ho
      exact OperandScan.expects_concat (.inl (by cases o <;> rfl)) (by cases o <;> rfl)
  rw [OperandScan.Expects] at he
  rw [OperandScan.cuts, he]
  cases op <;> simp [ArithmeticOp.symbol]

/-- Digits, perhaps behind a minus. -/
inductive IsNumeral : List Char → Prop where

  | digits {ds : List Char} : ds ≠ [] → ds.all Char.isDigit → IsNumeral ds

  | minus {ds : List Char} : ds ≠ [] → ds.all Char.isDigit → IsNumeral ('-' :: ds)

/-- What reads as an integer is a numeral, unless it has a plus sign. -/
theorem isNumeral_of_readInt64? {q : List Char} {n : Int64} (h : readInt64? q = some n)
    (hq : q.head? ≠ some '+') : IsNumeral q := by
  have hdigits (cs : List Char) (hk : readDigits? cs ≠ none) : cs ≠ [] ∧ cs.all Char.isDigit := by
    unfold readDigits? at hk
    split at hk
    · next hc => simpa using hc
    · exact absurd rfl hk
  obtain ⟨i, hi, -⟩ := Option.bind_eq_some_iff.1 h
  unfold readInt? at hi
  split at hi
  · next cs =>
    obtain ⟨hne, ha⟩ := hdigits cs fun hk => by simp [hk] at hi
    exact .minus hne ha
  · unfold readNat? at hi
    split at hi
    · simp at hq
    · obtain ⟨hne, ha⟩ := hdigits q fun hk => by simp [hk] at hi
      exact .digits hne ha

namespace IsNumeral

variable {q : List Char}

theorem ne_nil (h : IsNumeral q) : q ≠ [] := by
  cases h with
  | digits hd => exact hd
  | minus => simp

theorem mem (h : IsNumeral q) {c : Char} (hc : c ∈ q) : c = '-' ∨ c.isDigit = true := by
  cases h with
  | digits _ ha => exact .inr (List.all_eq_true.1 ha c hc)
  | minus _ ha =>
    rcases List.mem_cons.1 hc with rfl | hc
    · exact .inl rfl
    · exact .inr (List.all_eq_true.1 ha c hc)

theorem isBlank_of_mem (h : IsNumeral q) {c : Char} (hc : c ∈ q) : isBlank c = false := by
  rcases h.mem hc with rfl | hd
  · decide
  · exact Value.isBlank_of_isDigit hd

theorem trim_eq (h : IsNumeral q) : trim q = q :=
  trim_of_ends (fun _ hc => h.isBlank_of_mem (List.mem_of_head? hc))
    fun _ hc => h.isBlank_of_mem (List.mem_of_getLast? hc)

theorem closed (h : IsNumeral q) : q.foldl Nesting.step {} = {} := by
  refine Nesting.foldl_of_isFlat (List.all_eq_true.2 fun c hc => ?_)
  rcases h.mem hc with rfl | hd
  · decide
  · have hne (e : Char) (he : e.isDigit = false) : c ≠ e := by
      rintro rfl
      simp [hd] at he
    simp [Nesting.isFlat, hne '"' (by decide), hne '(' (by decide), hne '[' (by decide),
      hne ')' (by decide), hne ']' (by decide)]

/-- A minus at the start of a numeral is a sign. -/
theorem uncut (h : IsNumeral q) (k : Cutter) : Uncut k.cuts OperandScan.step {} q := by
  have hdigits {s : OperandScan} {ds : List Char} (ha : ds.all Char.isDigit) :
      Uncut k.cuts OperandScan.step s ds := by
    refine uncut_of_isHarmless (List.all_eq_true.2 fun c hc => ?_)
    simp [isHarmless, Char.isAlphanum, List.all_eq_true.1 ha c hc]
  cases h with
  | digits _ ha => exact hdigits ha
  | minus _ ha =>
    refine ⟨?_, hdigits ha⟩
    rw [Cutter.cuts, Bool.and_eq_false_iff]
    right
    cases k with
    | chain | params => rfl
    | operands op => cases op <;> rfl

theorem splitArithmetic?_eq (h : IsNumeral q) : splitArithmetic? q = none :=
  splitArithmetic?_eq_none_iff.2 fun op => h.uncut (.operands op)

theorem not_expects (h : IsNumeral q) : ¬ OperandScan.Expects q := by
  have hlast : ∃ c, q.getLast? = some c ∧ c.isDigit = true := by
    cases h with
    | digits hd ha =>
      exact ⟨_, List.getLast?_eq_some_getLast hd, List.all_eq_true.1 ha _ (List.getLast_mem hd)⟩
    | minus hd ha =>
      refine ⟨_, ?_, List.all_eq_true.1 ha _ (List.getLast_mem hd)⟩
      rw [List.getLast?_cons, List.getLast?_eq_some_getLast hd]
      rfl
  obtain ⟨c, hl, hc⟩ := hlast
  rw [OperandScan.Expects, expectsOperand_behind hl (.inl hc)]
  decide

theorem parse_eq (h : IsNumeral q) : Expr.parse q = .chain [.word q] := by
  have hf : fragments q = [] ++ q :: [] := by
    rw [fragments_eq]
    exact splitWhere_uncut (h.uncut .chain)
  have hw : Segment.ofFragment q = .accessor q := by
    rw [Segment.ofFragment, h.trim_eq, if_neg]
    have hm : '(' ∉ q := fun hm => by
      rcases h.mem hm with hc | hc <;> cases hc
    simp [hm]
  rw [Expr.parse_chain (by rw [h.trim_eq, h.splitArithmetic?_eq]), h.trim_eq,
    Link.parse_fragments h.trim_eq h.ne_nil hf, hw]
  rfl

/-- A numeral evaluates to its integer. -/
theorem eval_eq (h : IsNumeral q) {n : Int64} (hn : readInt64? q = some n) (s : Scope)
    (σ : EvalState) : (s.eval (.parse q)).run σ = .ok (.int n) σ := by
  have hne (name : String) (hname : name.toList.head?.all fun c => c != '-' && !c.isDigit) :
      String.ofList q ≠ name := by
    rintro rfl
    obtain ⟨c, cs, rfl⟩ := List.exists_cons_of_ne_nil h.ne_nil
    have hc := h.mem List.mem_cons_self
    simp [String.toList_ofList] at hname
    rcases hc with rfl | hc
    · simp at hname
    · simp [hc] at hname
  have hv : Value.ofLiteral? q = some (.int n) := by
    simp [Value.ofLiteral?, h.trim_eq, hn]
  have hroot : s.resolveRoot σ.world q = .ok (some (.int n), .target (.int n)) := by
    rw [Scope.resolveRoot]
    simp only [hne "_" (by decide), hne "items" (by decide), if_false, hv, Scope.valueExists,
      if_true]
  rw [h.parse_eq, Scope.eval, Scope.evalChain]
  change (Eval.ofExcept (s.resolveRoot σ.world q) >>= fun x =>
    s.evalLinks true x.1 x.2 []).run σ = .ok (.int n) σ
  rw [hroot, Eval.ofExcept, pure_bind, Scope.evalLinks]
  rfl

end IsNumeral

end TileScript
