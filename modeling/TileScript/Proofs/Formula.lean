import TileScript.Proofs.Numeral

/-! # Formulas

A formula is a row of operands with operators between them. Its value by layers is that of sums of
differences of products of quotients, each of them worked out from the left. The text of a formula
is read in the same layers, one operator after the other, if each operand that an operator stands
behind closes the quotes and brackets it opens.
-/

namespace TileScript

open Text Chain

theorem ArithmeticOp.symbol_injective : Function.Injective symbol := by
  intro a b h
  cases a <;> cases b <;> first | rfl | cases h

/-- Operands with operators between them. -/
inductive Formula (α : Type) where
  | operand (a : α)
  | join (a : α) (op : ArithmeticOp) (rest : Formula α)

namespace Formula

variable {α β : Type}

def ops : Formula α → List ArithmeticOp
  | operand _ => []
  | join _ op r => op :: r.ops

/-- The part of a formula before the first `op`, and the parts behind each. -/
def parts (op : ArithmeticOp) : Formula α → Formula α × List (Formula α)
  | operand a => (operand a, [])
  | join a o r =>
    if o = op then (operand a, (r.parts op).1 :: (r.parts op).2)
    else (join a o (r.parts op).1, (r.parts op).2)

/-- The value of a formula with the operators `ops`: the parts between the first of them, each by
the others, taken together from the left. -/
def layers {m : Type → Type} [Monad m] (apply : ArithmeticOp → β → β → m β) (value : α → m β) :
    List ArithmeticOp → Formula α → m β
  | [], operand a | [], join a _ _ => value a
  | op :: ops, r => do
    let b ← layers apply value ops (r.parts op).1
    (r.parts op).2.foldlM (fun b q => do apply op b (← layers apply value ops q)) b

/-- The value of a formula in 64 bits, if no step leaves them or divides by zero. -/
def value? (r : Formula Int64) : Option Int64 :=
  r.layers ArithmeticOp.compute? some ArithmeticOp.searchOrder

/-- The text of a formula, where the operands are texts with any blanks around them. -/
def text : Formula (List Char) → List Char
  | operand p => p
  | join p op r => p ++ op.symbol :: r.text

/-- A text can stand before an operator in a formula: it closes what it opens, and no sign is
expected behind it where there is to be a minus. -/
structure Precedes (p : List Char) (op : ArithmeticOp) : Prop where
  closed : p.foldl Nesting.step {} = {}
  ended : op = .sub → ¬ OperandScan.Expects p

/-- No operator cuts an operand, and each can stand before the operator behind it. -/
def Separated : Formula (List Char) → Prop
  | operand p => splitArithmetic? p = none
  | join p op r => splitArithmetic? p = none ∧ Precedes p op ∧ r.Separated

section Parts

variable {op o : ArithmeticOp} {r : Formula α}

/-- Between the parts at an operator are the other operators. -/
theorem mem_ops_of_mem_parts {p : Formula α} (hp : p ∈ (r.parts op).1 :: (r.parts op).2)
    (ho : o ∈ p.ops) : o ∈ r.ops ∧ o ≠ op := by
  induction r generalizing p with
  | operand a =>
    obtain rfl : p = operand a := by simpa [parts] using hp
    simp [ops] at ho
  | join a o' r ih =>
    rw [parts] at hp
    split at hp
    · rcases List.mem_cons.1 hp with rfl | hp
      · simp [ops] at ho
      · obtain ⟨hr, hne⟩ := ih hp ho
        exact ⟨List.mem_cons_of_mem _ hr, hne⟩
    · next hne =>
      rcases List.mem_cons.1 hp with rfl | hp
      · rcases List.mem_cons.1 ho with rfl | ho
        · exact ⟨List.mem_cons_self, hne⟩
        · obtain ⟨hr, hne⟩ := ih List.mem_cons_self ho
          exact ⟨List.mem_cons_of_mem _ hr, hne⟩
      · obtain ⟨hr, hne⟩ := ih (List.mem_cons_of_mem _ hp) ho
        exact ⟨List.mem_cons_of_mem _ hr, hne⟩

theorem parts_of_not_mem (h : op ∉ r.ops) : r.parts op = (r, []) := by
  induction r with
  | operand a => rfl
  | join a o r ih =>
    obtain ⟨ho, h⟩ : op ≠ o ∧ op ∉ r.ops := by simpa [ops] using h
    rw [parts, if_neg (Ne.symm ho), ih h]

theorem parts_ne_nil (h : op ∈ r.ops) : (r.parts op).2 ≠ [] := by
  induction r with
  | operand a => simp [ops] at h
  | join a o r ih =>
    rw [parts]
    split
    · simp
    · next ho => exact ih (by simpa [ops, Ne.symm ho] using h)

theorem Separated.of_mem_parts {r p : Formula (List Char)} (h : r.Separated)
    (hp : p ∈ (r.parts op).1 :: (r.parts op).2) : p.Separated := by
  induction r generalizing p with
  | operand a =>
    obtain rfl : p = operand a := by simpa [parts] using hp
    exact h
  | join a o r ih =>
    obtain ⟨ha, hop, hr⟩ := h
    rw [parts] at hp
    split at hp
    · rcases List.mem_cons.1 hp with rfl | hp
      · exact ha
      · exact ih hr hp
    · rcases List.mem_cons.1 hp with rfl | hp
      · exact ⟨ha, hop, ih hr List.mem_cons_self⟩
      · exact ih hr (List.mem_cons_of_mem _ hp)

end Parts

section Text

variable {r : Formula (List Char)} {op : ArithmeticOp}

/-- Behind an operator the search for operators goes on as at the start. -/
theorem agrees_behind {p : List Char} {o : ArithmeticOp} (hc : p.foldl Nesting.step {} = {}) :
    OperandScan.Agrees {} ((p.foldl OperandScan.step {}).step o.symbol) := by
  have hn : (p.foldl OperandScan.step {}).nesting = {} := (OperandScan.nesting_foldl _ _).trans hc
  constructor
  · rw [nesting_step, hn]
    cases o <;> rfl
  · cases o <;> rfl

/-- The pieces of the text of a formula are the texts of its parts. -/
theorem splitWhere_text (h : r.Separated) {s : OperandScan} (hs : OperandScan.Agrees {} s) :
    splitWhere (Cutter.operands op).cuts OperandScan.step s r.text =
      ((r.parts op).1 :: (r.parts op).2).map text := by
  induction r generalizing s with
  | operand p => exact splitWhere_uncut (hs.uncut (splitArithmetic?_eq_none_iff.1 h op))
  | join p o r ih =>
    obtain ⟨hp, hop, hr⟩ := h
    have hn : (p.foldl OperandScan.step {}).nesting = {} :=
      (OperandScan.nesting_foldl _ _).trans hop.closed
    have htop : (p.foldl OperandScan.step {}).nesting.isTop o.symbol = true := by
      rw [hn]
      cases o <;> rfl
    rw [← hs.splitWhere_eq, text, splitWhere_of_uncut (splitArithmetic?_eq_none_iff.1 hp op),
      splitWhere, ih hr (agrees_behind hop.closed), parts]
    by_cases ho : o = op
    · subst ho
      have hcut : (Cutter.operands o).cuts (p.foldl OperandScan.step {}) o.symbol = true := by
        rw [Cutter.cuts, htop, Cutter.selects]
        by_cases hsub : o = .sub
        · subst hsub
          have he : (p.foldl OperandScan.step {}).expectsOperand = false := by
            simpa [OperandScan.Expects] using hop.ended rfl
          simp [he]
        · simp [hsub]
      simp [hcut, text]
    · have hcut : (Cutter.operands op).cuts (p.foldl OperandScan.step {}) o.symbol = false := by
        have hne : o.symbol ≠ op.symbol := fun h => ho (ArithmeticOp.symbol_injective h)
        simp [Cutter.cuts, Cutter.selects, hne]
      simp [hcut, ho, text]

theorem operands_text (h : r.Separated) (op : ArithmeticOp) :
    operands op r.text = ((r.parts op).1 :: (r.parts op).2).map text := by
  rw [operands_eq]
  exact splitWhere_text h ⟨rfl, rfl⟩

/-- The text of a formula is cut at the first operator of the search that is in the formula. -/
theorem splitArithmetic?_text (h : r.Separated) {before behind : List ArithmeticOp}
    (hs : ArithmeticOp.searchOrder = before ++ op :: behind) (hb : ∀ o ∈ before, o ∉ r.ops)
    (hop : op ∈ r.ops) :
    splitArithmetic? r.text =
      some (op, (((r.parts op).1 :: (r.parts op).2).map text).map trim) := by
  rw [splitArithmetic?, List.findSome?_eq_some_iff]
  refine ⟨before, op, behind, hs, ?_, fun o ho => ?_⟩
  · have hl : 1 ≤ (r.parts op).2.length := List.length_pos_iff.2 (parts_ne_nil hop)
    dsimp only
    rw [operands_text h, if_pos]
    simpa using hl
  · dsimp only
    rw [operands_text h, parts_of_not_mem (hb o ho)]
    rfl

end Text

end Formula

namespace Scope

variable {s : Scope} {op : ArithmeticOp}

/-- The integer that an expression evaluates to. -/
def evalInt (s : Scope) (text : List Char) : Eval Int64 := do
  let v ← s.eval (.parse text)
  match v.toInt? with
  | some n => pure n
  | none => Eval.fail (.notANumber v.literal)

/-- One step of an operation. -/
def compute (op : ArithmeticOp) (a b : Int64) : Eval Int64 :=
  match op.compute? a b with
  | some c => pure c
  | none =>
    Eval.fail (.arithmetic (a.toInt.repr ++ " " ++ op.symbol.toString ++ " " ++ b.toInt.repr))

theorem evalOperands_cons (acc : Option Int64) (t : List Char) (es : List Expr) :
    s.evalOperands op acc (.parse t :: es) = (do
      let n ← s.evalInt t
      let b ← acc.elim (pure n) fun a => compute op a n
      s.evalOperands op (some b) es) := by
  rw [evalOperands, evalInt]
  simp only [bind_assoc]
  congr 1
  funext v
  rw [accumulate.eq_def]
  cases v.toInt? with
  | none => rfl
  | some n =>
    rw [pure_bind]
    cases acc with
    | none => rfl
    | some a =>
      rw [Option.elim_some, compute]
      dsimp only
      cases op.compute? a n <;> rfl

theorem evalOperands_some (a : Int64) (ts : List (List Char)) :
    s.evalOperands op (some a) (ts.map Expr.parse) =
      Value.int <$> ts.foldlM (fun a t => do compute op a (← s.evalInt t)) a := by
  induction ts generalizing a with
  | nil => rw [List.map_nil, evalOperands, List.foldlM_nil, map_pure]
  | cons t ts ih =>
    rw [List.map_cons, evalOperands_cons, List.foldlM_cons]
    simp only [bind_assoc, map_bind, Option.elim_some, ih]

/-- An expression that is cut works its pieces out and takes them together, from left to right. -/
theorem eval_of_cut {text t : List Char} {ts : List (List Char)}
    (h : splitArithmetic? text = some (op, (t :: ts).map trim)) :
    s.eval (.parse text) = Value.int <$> (do
      let a ← s.evalInt t
      ts.foldlM (fun a t => do compute op a (← s.evalInt t)) a) := by
  have hparse : ((t :: ts).map trim).map Expr.parse = (t :: ts).map Expr.parse := by
    rw [List.map_map]
    exact List.map_congr_left fun t _ => Expr.parse_trim t
  rw [Expr.parse_arithmetic (by rwa [splitArithmetic?_trim]), hparse, List.map_cons, eval,
    evalOperands_cons]
  simp only [Option.elim_none, pure_bind, evalOperands_some, map_bind]

theorem evalInt_of_eval {text : List Char} {x : Eval Int64}
    (h : s.eval (.parse text) = Value.int <$> x) : s.evalInt text = x := by
  rw [evalInt, h, bind_map_left]
  exact bind_pure x

end Scope

namespace Formula

open Scope

variable {s : Scope} {r : Formula (List Char)}

theorem layers_of_not_mem {op : ArithmeticOp} (ops : List ArithmeticOp) (h : op ∉ r.ops) :
    r.layers compute s.evalInt (op :: ops) = r.layers compute s.evalInt ops := by
  rw [layers, parts_of_not_mem h]
  exact bind_pure _

/-- A formula is evaluated in layers if its parts are. -/
theorem eval_text_of_mem {before behind : List ArithmeticOp} {op : ArithmeticOp} (h : r.Separated)
    (hs : ArithmeticOp.searchOrder = before ++ op :: behind) (hb : ∀ o ∈ before, o ∉ r.ops)
    (hop : op ∈ r.ops)
    (hparts : ∀ p ∈ (r.parts op).1 :: (r.parts op).2,
      s.evalInt p.text = p.layers compute s.evalInt behind) :
    s.eval (.parse r.text) = Value.int <$> r.layers compute s.evalInt (op :: behind) := by
  obtain ⟨hfirst, hrest⟩ := List.forall_mem_cons.1 hparts
  have hmap : (r.parts op).2.map (fun p => s.evalInt p.text) =
      (r.parts op).2.map fun p => p.layers compute s.evalInt behind := List.map_congr_left hrest
  have hfold (a : Int64) :
      ((r.parts op).2.map text).foldlM (fun a t => do compute op a (← s.evalInt t)) a =
        (r.parts op).2.foldlM
          (fun a p => do compute op a (← p.layers compute s.evalInt behind)) a := by
    rw [List.foldlM_map]
    have hf := congrArg (List.foldlM (fun a x => do compute op a (← x)) a) hmap
    rwa [List.foldlM_map, List.foldlM_map] at hf
  rw [eval_of_cut (splitArithmetic?_text h hs hb hop), layers, ← hfirst]
  simp only [hfold]

/-- The text of a formula is evaluated in layers: its operands from left to right, and each step as
soon as both its sides are there. -/
theorem evalInt_text (before : List ArithmeticOp) {ops : List ArithmeticOp} (h : r.Separated)
    (hs : ArithmeticOp.searchOrder = before ++ ops) (hb : ∀ o ∈ before, o ∉ r.ops) :
    s.evalInt r.text = r.layers compute s.evalInt ops := by
  -- on the operators that are still searched for; those before them are not in the formula
  induction ops generalizing before r with
  | nil =>
    cases r with
    | operand p => rfl
    | join p op r =>
      have hop : op ∈ ArithmeticOp.searchOrder := by cases op <;> decide
      rw [hs, List.append_nil] at hop
      exact absurd List.mem_cons_self (hb op hop)
  | cons op ops ih =>
    by_cases hop : op ∈ r.ops
    · refine evalInt_of_eval (eval_text_of_mem h hs hb hop fun p hp => ?_)
      refine ih (before ++ [op]) (h.of_mem_parts hp) (by simpa using hs) fun o ho hpo => ?_
      obtain ⟨hr, hne⟩ := mem_ops_of_mem_parts hp hpo
      rcases List.mem_append.1 ho with ho | ho
      · exact hb o ho hr
      · exact hne (by simpa using ho)
    · rw [layers_of_not_mem ops hop]
      refine ih (before ++ [op]) h (by simpa using hs) fun o ho hro => ?_
      rcases List.mem_append.1 ho with ho | ho
      · exact hb o ho hro
      · exact hop (by simpa using (List.mem_singleton.1 ho) ▸ hro)

end Formula

namespace Scope

/-- The operands of a formula evaluate, one after the other, to integers. -/
inductive Yields (s : Scope) :
    Formula (List Char) → Formula Int64 → EvalState → EvalState → Prop where

  | operand {p : List Char} {n : Int64} {σ σ' : EvalState} :
      (s.eval (.parse p)).run σ = .ok (.int n) σ' → Yields s (.operand p) (.operand n) σ σ'

  | join {p : List Char} {n : Int64} {op : ArithmeticOp} {r : Formula (List Char)}
      {ns : Formula Int64} {σ σ₁ σ' : EvalState} :
      (s.eval (.parse p)).run σ = .ok (.int n) σ₁ → Yields s r ns σ₁ σ' →
      Yields s (.join p op r) (.join n op ns) σ σ'

/-- The same for the parts of a formula. -/
inductive YieldAll (s : Scope) :
    List (Formula (List Char)) → List (Formula Int64) → EvalState → EvalState → Prop where

  | nil {σ : EvalState} : YieldAll s [] [] σ σ

  | cons {p : Formula (List Char)} {n : Formula Int64} {ps : List (Formula (List Char))}
      {ns : List (Formula Int64)} {σ σ₁ σ' : EvalState} :
      Yields s p n σ σ₁ → YieldAll s ps ns σ₁ σ' → YieldAll s (p :: ps) (n :: ns) σ σ'

theorem Yields.parts {s : Scope} {r : Formula (List Char)} {ns : Formula Int64} {σ σ' : EvalState}
    (h : s.Yields r ns σ σ') (op : ArithmeticOp) :
    s.YieldAll ((r.parts op).1 :: (r.parts op).2) ((ns.parts op).1 :: (ns.parts op).2) σ σ' := by
  induction h with
  | operand hp => exact .cons (.operand hp) .nil
  | @join p n o r ns σ σ₁ σ' hp _ ih =>
    cases ih with
    | cons hfirst hrest =>
      rw [Formula.parts, Formula.parts]
      by_cases ho : o = op
      · rw [if_pos ho, if_pos ho]
        exact .cons (.operand hp) (.cons hfirst hrest)
      · rw [if_neg ho, if_neg ho]
        exact .cons (.join hp hfirst) hrest

end Scope

namespace Eval

/-- An evaluation has come to a value, or has failed because there is none. -/
inductive Comes (σ' : EvalState) :
    Option Int64 → EStateM.Result Interrupt EvalState Int64 → Prop where

  | value (n : Int64) : Comes σ' (some n) (.ok n σ')

  | fault (text : String) (τ : EvalState) : Comes σ' none (.error (.error (.arithmetic text)) τ)

theorem Comes.bind {σ σ₁ σ' : EvalState} {x : Option Int64} {y : Eval Int64}
    {f : Int64 → Option Int64} {g : Int64 → Eval Int64} (h : Comes σ₁ x (y.run σ))
    (hf : ∀ n, Comes σ' (f n) ((g n).run σ₁)) : Comes σ' (x >>= f) ((y >>= g).run σ) := by
  rw [EStateM.run_bind]
  generalize y.run σ = r at h
  cases h with
  | value n => exact hf n
  | fault text τ => exact .fault text τ

end Eval

namespace Formula

open Scope Eval

variable {s : Scope} {op : ArithmeticOp} {ops : List ArithmeticOp} {σ σ' : EvalState}

theorem compute_comes (op : ArithmeticOp) (a b : Int64) (σ : EvalState) :
    Comes σ (op.compute? a b) ((compute op a b).run σ) := by
  unfold compute
  cases op.compute? a b with
  | none => exact .fault _ _
  | some c => exact .value c

/-- If the parts come to their values, so does the operation over them. -/
theorem foldlM_comes {ps : List (Formula (List Char))} {ns : List (Formula Int64)}
    (h : s.YieldAll ps ns σ σ')
    (hp : ∀ p ∈ ps, ∀ {n σ σ'}, s.Yields p n σ σ' →
      Comes σ' (n.layers ArithmeticOp.compute? some ops) ((p.layers compute s.evalInt ops).run σ))
    (a : Int64) :
    Comes σ'
      (ns.foldlM (fun a n => do op.compute? a (← n.layers ArithmeticOp.compute? some ops)) a)
      ((ps.foldlM (fun a (p : Formula (List Char)) => do
        compute op a (← p.layers compute s.evalInt ops)) a).run σ) := by
  induction h generalizing a with
  | nil => exact .value a
  | cons hfirst _ ih =>
    obtain ⟨hp, hps⟩ := List.forall_mem_cons.1 hp
    rw [List.foldlM_cons, List.foldlM_cons]
    exact ((hp hfirst).bind fun b => compute_comes op a b _).bind fun c => ih hps c

/-- If the operands evaluate to integers, the layers come to the value of the formula of these. -/
theorem layers_comes {r : Formula (List Char)} {ns : Formula Int64} (h : s.Yields r ns σ σ')
    (hr : ∀ o ∈ r.ops, o ∈ ops) :
    Comes σ' (ns.layers ArithmeticOp.compute? some ops)
      ((r.layers compute s.evalInt ops).run σ) := by
  induction ops generalizing r ns σ σ' with
  | nil =>
    cases h with
    | @operand p n _ _ hp =>
      have hn : (s.evalInt p).run σ = .ok n σ' := by
        rw [evalInt, EStateM.run_bind, hp]
        rfl
      exact hn ▸ .value n
    | @join _ _ op => exact absurd (hr op List.mem_cons_self) List.not_mem_nil
  | cons op ops ih =>
    have hparts (p : Formula (List Char)) (hp : p ∈ (r.parts op).1 :: (r.parts op).2)
        {n : Formula Int64} {σ σ' : EvalState} (hn : s.Yields p n σ σ') :
        Comes σ' (n.layers ArithmeticOp.compute? some ops)
          ((p.layers compute s.evalInt ops).run σ) := by
      refine ih hn fun o ho => ?_
      obtain ⟨hm, hne⟩ := mem_ops_of_mem_parts hp ho
      exact (List.mem_cons.1 (hr o hm)).resolve_left hne
    rw [layers, layers]
    cases h.parts op with
    | cons hfirst hrest =>
      refine (hparts _ List.mem_cons_self hfirst).bind fun a => ?_
      exact foldlM_comes hrest (fun p hp => hparts p (List.mem_cons_of_mem _ hp)) a

end Formula

namespace ArithmeticOp

/-- The result of an operation on integers without bounds. Division goes toward zero. -/
def exact : ArithmeticOp → Int → Int → Int
  | .add, a, b => a + b
  | .sub, a, b => a - b
  | .mul, a, b => a * b
  | .div, a, b => a.tdiv b

theorem toInt64?_eq_some {m : Int} {c : Int64} : toInt64? m = some c ↔ c.toInt = m := by
  constructor
  · intro h
    unfold toInt64? at h
    split at h
    · next hm =>
      cases h
      exact Int64.toInt_ofInt_of_le hm.1 hm.2
    · cases h
  · rintro rfl
    exact Value.toInt64?_toInt c

/-- An operation has a result if that has 64 bits and nothing is divided by zero. -/
theorem compute?_eq_some {op : ArithmeticOp} {a b c : Int64} :
    op.compute? a b = some c ↔ (op = .div → b ≠ 0) ∧ c.toInt = op.exact a.toInt b.toInt := by
  cases op with
  | add | sub | mul => simp [compute?, exact, toInt64?_eq_some]
  | div =>
    by_cases hb : b = 0
    · simp [compute?, hb]
    · simp [compute?, exact, hb, toInt64?_eq_some]

end ArithmeticOp

namespace Formula

open Scope Eval

variable {s : Scope} {r : Formula (List Char)} {ns : Formula Int64} {σ σ' : EvalState}

/-- A numeral is an operand in every formula, with any blanks around it. -/
theorem numeral_operand {p : List Char} {n : Int64} (hn : readInt64? (trim p) = some n)
    (hp : (trim p).head? ≠ some '+') :
    splitArithmetic? p = none ∧ (∀ op, Precedes p op) ∧
      ∀ (s : Scope) (σ : EvalState), (s.eval (.parse p)).run σ = .ok (.int n) σ := by
  have hnum := isNumeral_of_readInt64? hn hp
  refine ⟨?_, fun op => ⟨?_, fun _ he => ?_⟩, fun s σ => ?_⟩
  · rw [← splitArithmetic?_trim, hnum.splitArithmetic?_eq]
  · rw [← foldl_nesting_trim, hnum.closed]
  · exact hnum.not_expects (OperandScan.expects_trim.2 he)
  · rw [← Expr.parse_trim]
    exact hnum.eval_eq hn s σ

theorem isSome_splitArithmetic?_join {p : List Char} {op : ArithmeticOp}
    (h : (join p op r).Separated) : (splitArithmetic? (join p op r).text).isSome := by
  rw [← Option.not_isNone, Bool.not_eq_true', ← Bool.not_eq_true, Option.isNone_iff_eq_none]
  intro hn
  have hl := length_operands_lt_iff.2 (splitArithmetic?_eq_none_iff.1 hn op)
  have hp := List.length_pos_iff.2 (parts_ne_nil (r := join p op r) List.mem_cons_self)
  rw [operands_text h, List.length_map, List.length_cons] at hl
  omega

/-- An expression that is cut has the integer it evaluates to. -/
theorem eval_eq_evalInt {text : List Char} (h : (splitArithmetic? text).isSome) :
    s.eval (.parse text) = Value.int <$> s.evalInt text := by
  obtain ⟨⟨op, ps⟩, hs⟩ := Option.isSome_iff_exists.1 h
  obtain ⟨-, rfl⟩ := of_splitArithmetic? hs
  obtain ⟨t, ts, ht⟩ : ∃ t ts, operands op text = t :: ts := by
    unfold operands
    exact List.exists_cons_of_ne_nil (splitWhere_ne_nil _ _ _ _)
  rw [ht] at hs
  rw [evalInt_of_eval (eval_of_cut hs), eval_of_cut hs]

/-- A formula evaluates to its value, or fails for want of one. -/
theorem evalInt_comes (h : r.Separated) (hy : s.Yields r ns σ σ') :
    Comes σ' ns.value? ((s.evalInt r.text).run σ) := by
  rw [evalInt_text [] h rfl (by simp)]
  exact layers_comes hy fun o _ => by cases o <;> decide

/-- The value of an expression that is a formula. Its operands are evaluated from left to right, and
each operation as soon as its sides are there. If the operands are integers, the value is that of
sums of differences of products of quotients, each worked out from the left; and evaluating fails
for arithmetic exactly if a result in these does not have 64 bits or a divisor is zero. Numerals
can stand in every formula. A minus at the start or behind an operator is a sign. -/
theorem eval_text (h : r.Separated) (s : Scope) :
    s.evalInt r.text = r.layers compute s.evalInt ArithmeticOp.searchOrder ∧
    (∀ {ns : Formula Int64} {σ σ' : EvalState}, s.Yields r ns σ σ' →
      (∀ n, ns.value? = some n → (s.eval (.parse r.text)).run σ = .ok (.int n) σ') ∧
      ((∃ text τ, (s.eval (.parse r.text)).run σ = .error (.error (.arithmetic text)) τ) ↔
        ns.value? = none)) ∧
    (∀ (op : ArithmeticOp) (a b c : Int64), op.compute? a b = some c ↔
      (op = .div → b ≠ 0) ∧ c.toInt = op.exact a.toInt b.toInt) ∧
    (∀ (p : List Char) (n : Int64), readInt64? (trim p) = some n → (trim p).head? ≠ some '+' →
      splitArithmetic? p = none ∧ (∀ op, Precedes p op) ∧
        ∀ σ, (s.eval (.parse p)).run σ = .ok (.int n) σ) ∧
    ∀ x b : List Char, b.all isBlank → (x = [] ∨ ∃ o : ArithmeticOp, x.getLast? = some o.symbol) →
      ∀ op, OperandScan.cuts op ((x ++ b).foldl OperandScan.step {}) '-' = false := by
  refine ⟨evalInt_text [] h rfl (by simp), ?_,
    fun _ _ _ _ => ArithmeticOp.compute?_eq_some, ?_, fun _ _ hb hx => not_cuts_sign hb hx⟩
  · intro ns σ σ' hy
    have hc := evalInt_comes h hy
    cases hy with
    | @operand p n _ _ hp =>
      rw [show (operand n).value? = some n from rfl, text, hp]
      simp
    | @join p n op r ns _ _ _ hp hy =>
      rw [eval_eq_evalInt (isSome_splitArithmetic?_join h)]
      rw [map_eq_pure_bind, EStateM.run_bind]
      generalize (s.evalInt (join p op r).text).run σ = x at hc
      generalize (join n op ns).value? = v at hc
      cases hc with
      | value n => simp
      | fault text τ => simp
  · intro p n hn hp
    obtain ⟨hsplit, hprec, heval⟩ := numeral_operand hn hp
    exact ⟨hsplit, hprec, heval s⟩

section Example

/-- A line of an entity with two variables that have odd names. -/
def oddScope : Scope := { keyScope "" with vars := {("this", .entity ⟨0⟩)} }

def oddWorld : World where
  entities := {(⟨0⟩, {
    id := ⟨0⟩, typeId := 0, owner := 0, pos := ⟨0, 0, 0⟩, vars := {("a,", 5), ("b]", 5)} })}

/-- The integer that an evaluation ends with, if it does. -/
def answer? : EStateM.Result Interrupt EvalState Value → Option Int64
  | .ok v _ => v.toInt?
  | .error _ _ => none

/-- Of two minus signs one behind the other the second is a sign. -/
theorem eval_text_signs :
    (oddScope.eval (.parse "7 - -2 * 3".toList)).run { world := oddWorld } =
      .ok (.int 13) { world := oddWorld } := by
  have h7 := numeral_operand (p := "7 ".toList) (n := 7) (by decide) (by decide)
  have h2 := numeral_operand (p := " -2 ".toList) (n := -2) (by decide) (by decide)
  have h3 := numeral_operand (p := " 3".toList) (n := 3) (by decide) (by decide)
  have h : Separated (join "7 ".toList .sub (join " -2 ".toList .mul (operand " 3".toList))) :=
    ⟨h7.1, h7.2.1 _, h2.1, h2.2.1 _, h3.1⟩
  have hy : oddScope.Yields (join "7 ".toList .sub (join " -2 ".toList .mul (operand " 3".toList)))
      (join 7 .sub (join (-2) .mul (operand 3))) { world := oddWorld } { world := oddWorld } :=
    .join (h7.2.2 _ _) (.join (h2.2.2 _ _) (.operand (h3.2.2 _ _)))
  exact ((eval_text h oddScope).2.1 hy).1 13 (by decide)

/-- Two variables are integers by themselves, but a minus behind a comma is a sign, and a plus
behind a bracket that closes none is no operator. -/
theorem eval_text_unclosed :
    (∀ p ∈ ["this.a,", "this.b]"], splitArithmetic? p.toList = none ∧
      answer? ((oddScope.eval (.parse p.toList)).run { world := oddWorld }) = some 5) ∧
    (join 5 .sub (operand 1)).value? = some 4 ∧
    answer? ((oddScope.eval (.parse "this.a, - 1".toList)).run { world := oddWorld }) = none ∧
    (join 5 .add (operand 1)).value? = some 6 ∧
    answer? ((oddScope.eval (.parse "this.b] + 1".toList)).run { world := oddWorld }) = none := by
  refine ⟨?_, by decide, by decide +kernel, by decide, by decide +kernel⟩
  decide +kernel

end Example

end Formula

end TileScript
